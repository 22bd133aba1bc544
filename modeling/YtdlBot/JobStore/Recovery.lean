import YtdlBot.JobStore.Receipts

/-!
# Recovery of accepted updates

An accepted update keeps its row, its payload and its place in the recovery order. The five
states are left only as the transitions below allow, and a claim made late enough returns every
job that still has work to do.
-/

namespace YtdlBot.JobStore

open Framework

variable {τ : Type} [LinearOrder τ] [Add τ] [Zero τ]

/-- The call replaces the payload of the job. -/
def Op.Purges (op : Op τ) (jobId : String) (s : Store τ) : Prop :=
  ∃ now limit, op = .purgeExpiredPayloads now limit ∧ fitsInteger limit.toNat ∧
    jobId ∈ purgedIds s now limit.toNat

section Rows

theorem jobRow_step {s : Store τ} (op : Op τ) {jobId : String} {r : JobRow τ}
    (hr : s.jobs.lookup jobId = some r) :
    ∃ r', (op.run s).2.jobs.lookup jobId = some r' ∧ (r' = r ∨ JobChange s op r r') := by
  rcases jobs_step s op jobId with hsame | ⟨x, r', hx, hr', hchange⟩ |
    ⟨payload, retention, now, updateId, minimal, -, -, -, hnone, -⟩
  · exact ⟨r, hsame.trans hr, .inl rfl⟩
  · obtain rfl := Option.some.inj (hx.symm.trans hr)
    exact ⟨r', hr', .inr hchange⟩
  · exact absurd (hnone.symm.trans hr) (by simp)

theorem jobRow_run {P : JobRow τ → Prop} {G : Store τ → Op τ → Prop} {s t : Store τ}
    {ops : List (Op τ)} {jobId : String} {r : JobRow τ}
    (hP : ∀ s op x x', G s op → s.jobs.lookup jobId = some x →
      (op.run s).2.jobs.lookup jobId = some x' → JobChange s op x x' → P x → P x')
    (hr : s.jobs.lookup jobId = some r) (hstart : P r) (hG : (machine τ).Admits G s ops)
    (hrun : (machine τ).run s ops = some t) : ∃ r', t.jobs.lookup jobId = some r' ∧ P r' := by
  refine (machine τ).invariant_of_admits ?_ (I := fun s => ∃ r', s.jobs.lookup jobId = some r' ∧
    P r') ⟨r, hr, hstart⟩ hG hrun
  rintro s op s' ⟨x, hx, hPx⟩ hop hstep
  obtain rfl := machine_step.mp hstep
  obtain ⟨x', hx', rfl | hchange⟩ := jobRow_step op hx
  · exact ⟨x', hx', hPx⟩
  · exact ⟨x', hx', hP s op x x' hop hx hx' hchange hPx⟩

end Rows

section Accepted

/-- The call is an accept of this update id that returns. -/
def Op.Accepts (op : Op τ) (updateId : Int) (s : Store τ) : Prop :=
  ∃ update, (op.run s).1 = .ok (.accepted update) ∧ update.job.updateId = updateId

omit [LinearOrder τ] [Add τ] [Zero τ] in
theorem lookup_str {t : Table (JobRow.jobId (τ := τ))} {n : Int} {r : JobRow τ} :
    t.lookup (str n) = some r ↔ r ∈ t.rows ∧ r.updateId = n := by
  rw [Table.lookup_eq_some]
  exact and_congr_right fun _ => ⟨str_injective, fun h => by rw [JobRow.jobId, h]⟩

theorem lookup_none_step {n : Int} {s : Store τ} {op : Op τ}
    (hnone : s.jobs.lookup (str n) = none) (hop : ¬ op.Accepts n s) :
    (op.run s).2.jobs.lookup (str n) = none := by
  rcases jobs_step s op (str n) with hsame | ⟨r, r', hr, -, -⟩ |
    ⟨payload, retention, now, updateId, minimal, rfl, hm, hid, -, -⟩
  · rw [hsame, hnone]
  · exact absurd (hnone.symm.trans hr) (by simp)
  · obtain rfl := str_injective hid
    rcases acceptUpdate_cases payload retention now s with
      ⟨error, h⟩ | ⟨n', minimal', hm', ⟨r, hr, h⟩ | ⟨-, h⟩⟩
    · rw [Op.run, wrap_snd, h, hnone]
    · obtain ⟨rfl, rfl⟩ := Prod.mk.inj (Except.ok.inj (hm.symm.trans hm'))
      exact absurd (hnone.symm.trans hr) (by simp)
    · obtain ⟨rfl, rfl⟩ := Prod.mk.inj (Except.ok.inj (hm.symm.trans hm'))
      exact absurd ⟨_, by rw [Op.run, wrap_fst, h]; rfl, rfl⟩ hop

theorem lookup_none_run {n : Int} {s t : Store τ} {ops : List (Op τ)}
    (hnone : s.jobs.lookup (str n) = none)
    (hops : (machine τ).Admits (fun s op => ¬ op.Accepts n s) s ops)
    (hr : (machine τ).run s ops = some t) : t.jobs.lookup (str n) = none := by
  refine (machine τ).invariant_of_admits ?_ (I := fun s => s.jobs.lookup (str n) = none) hnone
    hops hr
  intro s op s' hs hop hstep
  obtain rfl := machine_step.mp hstep
  exact lookup_none_step hs hop

theorem accepted_first {n : Int} {s : Store τ} {payload : JsonObject} {retention now : τ}
    (hnone : s.jobs.lookup (str n) = none)
    (haccept : (Op.acceptUpdate payload retention now).Accepts n s) :
    ∃ minimal, minimalUpdatePayload payload = .ok (n, minimal) ∧
      ((Op.acceptUpdate payload retention now).run s).2.jobs.lookup (str n) =
        some (acceptedRow n minimal retention now) := by
  obtain ⟨update, hreply, hid⟩ := haccept
  rw [Op.run, wrap_fst] at hreply
  rcases acceptUpdate_cases payload retention now s with
    ⟨error, h⟩ | ⟨n', minimal, hm, ⟨r, hr, h⟩ | ⟨-, h⟩⟩
  · rw [h] at hreply
    exact absurd hreply (by simp [Except.map])
  · rw [h] at hreply
    obtain rfl : ⟨rowToJob r, false⟩ = update := by simpa [Except.map] using hreply
    have hrow : n' = n := str_injective ((Table.key_of_lookup hr).symm.trans (congrArg str hid))
    rw [hrow, hnone] at hr
    exact absurd hr (by simp)
  · rw [h] at hreply
    obtain rfl : ⟨rowToJob (acceptedRow n' minimal retention now), true⟩ = update := by
      simpa [Except.map] using hreply
    obtain rfl : n' = n := hid
    refine ⟨minimal, hm, ?_⟩
    rw [Op.run, wrap_snd, h]
    exact (lookup_accepted minimal retention now hnone (str n')).trans (if_pos rfl)

theorem accepted_again {n : Int} {s : Store τ} {r : JobRow τ} {payload minimal : JsonObject}
    (retention now : τ) (hr : s.jobs.lookup (str n) = some r)
    (hm : minimalUpdatePayload payload = .ok (n, minimal)) :
    ((Op.acceptUpdate payload retention now).run s).2 = s := by
  rw [Op.run, wrap_snd]
  rcases acceptUpdate_cases payload retention now s with
    ⟨error, h⟩ | ⟨n', minimal', hm', ⟨r', -, h⟩ | ⟨hnone, -⟩⟩
  · rw [h]
  · rw [h]
  · obtain ⟨rfl, rfl⟩ := Prod.mk.inj (Except.ok.inj (hm.symm.trans hm'))
    exact absurd (hnone.symm.trans hr) (by simp)

omit [Zero τ] in
theorem JobChange.payload {s : Store τ} {op : Op τ} {r r' : JobRow τ}
    (h : JobChange s op r r') (hpurge : ¬ op.Purges r.jobId s) : r'.payload = r.payload := by
  cases h with
  | purged selected fits listed => exact absurd ⟨_, _, rfl, fits, listed⟩ hpurge
  | _ => rfl

end Accepted

section States

omit [Zero τ] in
theorem JobChange.completed_absorbing {s : Store τ} {op : Op τ} {r r' : JobRow τ}
    (h : JobChange s op r r') (hr : r.state = .completed) : r'.state = .completed := by
  cases h with
  | claimed grantable selected => simp [recoverable, hr] at selected
  | renewed running live => exact hr
  | checkpointed source guard => simp [hr] at source
  | completed source guard => rfl
  | failed source guard => simp [hr] at source
  | superseded live other source safe => rfl
  | requeued selected => simp [requeueSelected, hr] at selected
  | purged selected listed => exact hr

omit [Zero τ] in
theorem JobChange.of_failed {s : Store τ} {op : Op τ} {r r' : JobRow τ}
    (h : JobChange s op r r') (hr : r.state = .failed) :
    r'.state = .failed ∨
    ((∃ limit now, op = .requeueFailedDeliveries limit now) ∧ hasFailedDeliveries s r.jobId ∧
      r'.state = .checkpointed) ∨
    ((∃ job successor owner now, op = .supersedeFailedJob job successor owner now) ∧
      r'.state = .completed) := by
  cases h with
  | claimed grantable selected => simp [recoverable, hr] at selected
  | renewed running live => exact .inl hr
  | checkpointed source guard => simp [hr] at source
  | completed source guard => simp [hr] at source
  | failed source guard => exact .inl rfl
  | superseded live other source safe => exact .inr (.inr ⟨⟨_, _, _, _, rfl⟩, rfl⟩)
  | requeued selected =>
    simp only [requeueSelected, Bool.and_eq_true] at selected
    exact .inr (.inl ⟨⟨_, _, rfl⟩, selected.2, rfl⟩)
  | purged selected listed => exact .inl hr

omit [Zero τ] in
theorem JobChange.of_completed {s : Store τ} {op : Op τ} {r r' : JobRow τ}
    (h : JobChange s op r r') (hr : r.state = .completed) :
    r'.ownerId = r.ownerId ∧ r'.checkpoint = r.checkpoint := by
  cases h with
  | claimed grantable selected => simp [recoverable, hr] at selected
  | renewed running live => simp [hr] at running
  | checkpointed source guard => simp [hr] at source
  | completed source guard => simp [hr] at source
  | failed source guard => simp [hr] at source
  | superseded live other source safe => simp [hr] at source
  | requeued selected => simp [requeueSelected, hr] at selected
  | purged selected listed => exact ⟨rfl, rfl⟩

/-- A completed job stays completed, disowned and with the same checkpoint. -/
theorem completed_run {s t : Store τ} {ops : List (Op τ)} {jobId : String} {r : JobRow τ}
    (hrun : (machine τ).run s ops = some t) (hr : s.jobs.lookup jobId = some r)
    (hstate : r.state = .completed) :
    ∃ r', t.jobs.lookup jobId = some r' ∧ r'.state = .completed ∧ r'.ownerId = r.ownerId ∧
      r'.checkpoint = r.checkpoint := by
  refine jobRow_run (G := fun _ _ => True) ?_ hr ⟨hstate, rfl, rfl⟩
    (Machine.admits_true _ _ _) hrun
  rintro s op x x' - - - hchange ⟨hx, howner, hcheckpoint⟩
  obtain ⟨howner', hcheckpoint'⟩ := hchange.of_completed hx
  exact ⟨hchange.completed_absorbing hx, howner'.trans howner, hcheckpoint'.trans hcheckpoint⟩

end States

section Claim

/-- Work remains for the job. -/
def Unfinished (s : Store τ) (r : JobRow τ) : Prop :=
  (r.state = .accepted ∨ r.state = .running ∨ r.state = .checkpointed) ∧
    ∀ d, s.deliveries.lookup (r.jobId, "__job__") = some d → d.outcome = .failed

instance (s : Store τ) (r : JobRow τ) : Decidable (Unfinished s r) :=
  inferInstanceAs (Decidable ((r.state = .accepted ∨ r.state = .running ∨ r.state = .checkpointed) ∧
    ∀ d ∈ s.deliveries.lookup (r.jobId, "__job__"), d.outcome = .failed))

def unfinishedJobs (s : Store τ) : List (JobRow τ) := s.jobs.rows.filter fun r => Unfinished s r

/-- The claim returns exactly the unfinished jobs, oldest first. -/
def ClaimsUnfinished (s : Store τ) (owner : String) (limit : Int) (lease now : τ) : Prop :=
  ∃ rows : List (JobRow τ),
    ((Op.claimRecoverableJobs owner limit lease now).run s).1 = .ok (.jobs (rows.map rowToJob)) ∧
    rows.Pairwise (fun a b => a.acceptedAt < b.acceptedAt ∨
      (a.acceptedAt = b.acceptedAt ∧ a.updateId < b.updateId)) ∧
    ∀ r', r' ∈ rows ↔ ∃ r ∈ s.jobs.rows, r' = claimedRow owner lease now r ∧ Unfinished s r

omit [Add τ] [Zero τ] in
theorem recoverable_iff_unfinished {s : Store τ} {now : τ} {r : JobRow τ}
    (hexpired : ∀ expiry, r.claimExpiresAt = some expiry → expiry ≤ now) :
    recoverable s now r ↔ Unfinished s r := by
  have hall : r.claimExpiresAt.all (fun expiry => expiry ≤ now) = true := by
    cases hexpiry : r.claimExpiresAt with
    | none => rfl
    | some expiry => simpa using hexpired expiry hexpiry
  rw [recoverable, hall, Bool.and_eq_true, Bool.not_eq_true', hasJobReceipt_eq_false]
  apply and_congr_left'
  cases r.state <;> simp

omit [Add τ] [Zero τ] in
theorem filter_recoverable {s : Store τ} {now : τ}
    (hexpired : ∀ r ∈ s.jobs.rows, ∀ expiry, r.claimExpiresAt = some expiry → expiry ≤ now) :
    s.jobs.rows.filter (recoverable s now) = unfinishedJobs s := by
  apply List.filter_congr
  intro r hr
  rw [Bool.eq_iff_iff, decide_eq_true_eq]
  exact recoverable_iff_unfinished (hexpired r hr)

omit [Add τ] in
/-- After some moment the worker lease and every claim of this state have expired. -/
theorem exists_all_expired (s : Store τ) :
    ∃ deadline : τ, (∀ held, s.workerLease = some held → held.expiresAt ≤ deadline) ∧
      ∀ r ∈ s.jobs.rows, ∀ expiry, r.claimExpiresAt = some expiry → expiry ≤ deadline := by
  have hne : Nonempty τ := ⟨0⟩
  obtain ⟨deadline, hdeadline⟩ := (List.finite_toSet
    (s.jobs.rows.filterMap JobRow.claimExpiresAt ++
      (s.workerLease.map WorkerLease.expiresAt).toList)).bddAbove
  refine ⟨deadline, ?_, ?_⟩
  · intro held hheld
    apply hdeadline
    simp [hheld]
  · intro r hr expiry hexpiry
    apply hdeadline
    apply List.mem_append_left
    exact List.mem_filterMap.mpr ⟨r, hr, hexpiry⟩

omit [Zero τ] in
private theorem mem_claimedRows {owner : String} {limit : Nat} {lease now : τ} {s : Store τ}
    (hlimit : (s.jobs.rows.filter (recoverable s now)).length ≤ limit) {r' : JobRow τ} :
    r' ∈ claimedRows owner limit lease now s ↔
      ∃ r ∈ s.jobs.rows, r' = claimedRow owner lease now r ∧ recoverable s now r := by
  have hlen : (claimedJobs owner limit lease now s).rows.length ≤ s.jobs.rows.length := by
    simp [claimedJobs, Table.update]
  have hids {r : JobRow τ} (hr : r ∈ s.jobs.rows) :
      r.jobId ∈ claimedIds limit now s ↔ recoverable s now r := by
    constructor
    · intro h
      obtain ⟨x, hx, hid⟩ := List.mem_map.mp h
      obtain ⟨hmem, hselected⟩ := (Table.mem_select_of_filter_le hlimit).mp hx
      exact Table.eq_of_key hmem hr hid ▸ hselected
    · intro h
      exact List.mem_map.mpr ⟨r, (Table.mem_select_of_filter_le hlimit).mpr ⟨hr, h⟩, rfl⟩
  rw [claimedRows, Table.mem_select_of_le hlen, claimedJobs, Table.mem_update]
  constructor
  · rintro ⟨⟨r, hr, rfl⟩, hlisted⟩
    have hid : r.jobId ∈ claimedIds limit now s := by
      by_cases hmem : r.jobId ∈ claimedIds limit now s
      · exact hmem
      · simp [hmem] at hlisted
    exact ⟨r, hr, by simp [hid], (hids hr).mp hid⟩
  · rintro ⟨r, hr, rfl, hselected⟩
    have hid := (hids hr).mpr hselected
    exact ⟨⟨r, hr, by simp [hid]⟩, decide_eq_true hid⟩

/-- A claim that is made late enough, and for enough jobs, takes them all while they can be bound. -/
theorem claim_returns_unfinished {owner : String} {limit : Int} {lease now : τ} {s : Store τ}
    (howner : owner ≠ "") (hlease : 0 < lease) (hgrant : leaseGrantable s owner now)
    (hexpired : ∀ r ∈ s.jobs.rows, ∀ expiry, r.claimExpiresAt = some expiry → expiry ≤ now)
    (hbound : (unfinishedJobs s).length + 3 ≤ maxVariableNumber)
    (hlimit : (unfinishedJobs s).length < limit) (hfits : limit < 2 ^ 63) :
    ClaimsUnfinished s owner limit lease now := by
  have hcheck : (validateOwner owner *> validateLease lease *> validateLimit limit) = .ok () := by
    have hpositive : ¬ limit ≤ 0 := by omega
    have hlease' : ¬ lease ≤ 0 := not_le.mpr hlease
    simp only [validateOwner, validateLease, validateLimit, howner, hlease', hpositive, if_false]
    rfl
  have hinteger : fitsInteger limit.toNat := by
    simp only [fitsInteger, Bool.and_eq_true, decide_eq_true_eq]
    omega
  have hfilter := filter_recoverable hexpired
  have hids : bindable 3 (claimedIds limit.toNat now s) := by
    have hlen : (claimedIds limit.toNat now s).length =
        min limit.toNat (s.jobs.rows.filter (recoverable s now)).length := by
      rw [claimedIds, List.length_map, claimCandidates, Table.length_select]
    rw [hfilter] at hlen
    simp only [bindable, decide_eq_true_eq]
    omega
  have hsorted := Table.select_sorted (claimedJobs owner limit.toNat lease now s)
    (fun r => r.jobId ∈ claimedIds limit.toNat now s) claimOrder s.jobs.rows.length
  have hnodup := Table.select_keys_nodup (claimedJobs owner limit.toNat lease now s)
    (fun r => r.jobId ∈ claimedIds limit.toNat now s) claimOrder s.jobs.rows.length
  refine ⟨claimedRows owner limit.toNat lease now s, ?_, ?_, ?_⟩
  · simp only [Op.run, wrap_fst, JobStore.claimRecoverableJobs, checked, hcheck,
      claim_of_grantable hgrant hinteger hids, Except.map]
  · refine (hsorted.and (List.pairwise_map.mp hnodup)).imp ?_
    rintro a b ⟨hle, hne⟩
    have hid : a.updateId ≠ b.updateId := fun h => hne (JobRow.jobId_eq.mpr h)
    rcases Prod.Lex.le_iff.mp hle with hlt | ⟨heq, hidle⟩
    · exact .inl hlt
    · exact .inr ⟨heq, lt_of_le_of_ne hidle hid⟩
  · intro r'
    rw [mem_claimedRows (by rw [hfilter]; omega)]
    refine exists_congr fun r => and_congr_right fun hr => and_congr_right fun _ => ?_
    exact recoverable_iff_unfinished (hexpired r hr)

theorem claim_bound {owner : String} {limit : Int} {lease now : τ} {s : Store τ}
    {records : List JobRecord}
    (h : ((Op.claimRecoverableJobs owner limit lease now).run s).1 = .ok (.jobs records)) :
    records.length + 3 ≤ maxVariableNumber := by
  rcases length_records_of_claim h with rfl | ⟨hbound, hlength⟩
  · simp [maxVariableNumber]
  · have hle : (claimedRows owner limit.toNat lease now s).length ≤
        (claimedIds limit.toNat now s).length := length_claimedRows_le
    simp only [bindable, decide_eq_true_eq] at hbound
    omega

/-- No claim ever returns more jobs than it can bind. -/
theorem bound_of_claimsUnfinished {owner : String} {limit : Int} {lease now : τ} {s : Store τ}
    (h : ClaimsUnfinished s owner limit lease now) :
    (unfinishedJobs s).length + 3 ≤ maxVariableNumber := by
  obtain ⟨rows, hreply, -, hrows⟩ := h
  have hbound := claim_bound hreply
  have hids : ((unfinishedJobs s).map JobRow.jobId).Nodup :=
    s.jobs.keys_nodup.sublist (List.filter_sublist.map JobRow.jobId)
  have hsubset : (unfinishedJobs s).map JobRow.jobId ⊆ rows.map JobRow.jobId := by
    intro jobId hmem
    obtain ⟨r, hr, rfl⟩ := List.mem_map.mp hmem
    obtain ⟨hrow, hunfinished⟩ := List.mem_filter.mp hr
    exact List.mem_map.mpr ⟨claimedRow owner lease now r,
      (hrows _).mpr ⟨r, hrow, rfl, of_decide_eq_true hunfinished⟩, rfl⟩
  have hle := (hids.subperm hsubset).length_le
  simp only [List.length_map] at hle hbound
  omega

end Claim

section Accepts

/-- A webhook delivers the updates from 0 on, all at once. -/
def accepts (n : ℕ) : List (Op ℕ) :=
  (List.range n).map fun i : ℕ => .acceptUpdate [("update_id", .int i)] 100 0

omit [LinearOrder τ] [Zero τ] in
theorem acceptedRow_jobId (updateId : Int) (payload : JsonObject) (retention now : τ) :
    (acceptedRow updateId payload retention now).jobId = str updateId := rfl

omit [Zero τ] [LinearOrder τ] in
theorem acceptUpdateSync_new {s : Store τ} {updateId : Int} (payload : JsonObject)
    (retention now : τ) (hfits : fitsInteger updateId)
    (hnone : s.jobs.lookup (str updateId) = none) :
    (acceptUpdateSync updateId payload retention now s).2 =
      { s with
        jobs := s.jobs.upsert (acceptedRow updateId payload retention now) id fun _ => rfl } := by
  simp only [acceptUpdateSync, transaction, hfits, acceptedRow_jobId, hnone, not_true, if_false]

theorem accept_next {s : Store ℕ} {n : ℕ} (hn : n < 2 ^ 63)
    (hnone : s.jobs.lookup (str n) = none) :
    ((Op.acceptUpdate [("update_id", .int n)] 100 0).run s).2 =
      { s with
        jobs := s.jobs.upsert (acceptedRow n [("update_id", .int n)] 100 0) id fun _ => rfl } := by
  have hpayload : minimalUpdatePayload [("update_id", .int (n : Int))] =
      .ok (n, [("update_id", .int n)]) := by
    simp [minimalUpdatePayload, telegramUpdateFields, JsonObject.get]
  have hfits : fitsInteger n := by
    simp only [fitsInteger, Bool.and_eq_true, decide_eq_true_eq]
    omega
  rw [Op.run, wrap_snd, acceptUpdate, hpayload]
  exact acceptUpdateSync_new _ _ _ hfits hnone

theorem accepts_run (n : ℕ) (hn : n ≤ 2 ^ 63) :
    ∃ s : Store ℕ, (machine ℕ).run Store.initial (accepts n) = some s ∧
      s.deliveries = Table.empty ∧ s.jobs.rows.length = n ∧
      ∀ r ∈ s.jobs.rows, r.state = .accepted ∧ r.updateId < n := by
  induction n with
  | zero => exact ⟨Store.initial, rfl, rfl, rfl, fun r hr => absurd hr List.not_mem_nil⟩
  | succ n ih =>
    obtain ⟨s, hrun, hdeliveries, hlength, hrows⟩ := ih (by omega)
    have hnone : s.jobs.lookup (str n) = none := by
      rw [Table.lookup_eq_none]
      intro r hr hid
      have hlt := (hrows r hr).2
      rw [str_injective hid] at hlt
      omega
    let next : JobRow ℕ := acceptedRow n [("update_id", .int n)] 100 0
    have hupsert : (s.jobs.upsert next id fun _ => rfl).rows = s.jobs.rows ++ [next] := by
      rw [Table.upsert, dif_pos (by rw [acceptedRow_jobId, hnone])]
    have hstep : (machine ℕ).run s [.acceptUpdate [("update_id", .int n)] 100 0] =
        some { s with jobs := s.jobs.upsert next id fun _ => rfl } := by
      rw [machine_run, List.foldl_cons, List.foldl_nil, accept_next (by omega) hnone]
    refine ⟨{ s with jobs := s.jobs.upsert next id fun _ => rfl }, ?_, hdeliveries, ?_, ?_⟩
    · rw [accepts, List.range_succ, List.map_append]
      exact (machine ℕ).run_append_eq_some.mpr ⟨s, hrun, hstep⟩
    · rw [hupsert, List.length_append, hlength, List.length_singleton]
    · intro r hr
      rw [hupsert] at hr
      rcases List.mem_append.mp hr with hold | hnew
      · exact ⟨(hrows r hold).1, by have hlt := (hrows r hold).2; omega⟩
      · obtain rfl := List.mem_singleton.mp hnew
        exact ⟨rfl, by simp [next, acceptedRow]⟩

theorem unfinishedJobs_accepts {s : Store ℕ} (hdeliveries : s.deliveries = Table.empty)
    (hrows : ∀ r ∈ s.jobs.rows, r.state = .accepted) : unfinishedJobs s = s.jobs.rows := by
  rw [unfinishedJobs, List.filter_eq_self]
  intro r hr
  rw [decide_eq_true_eq, Unfinished, hdeliveries]
  exact ⟨.inl (hrows r hr), fun d hd => (by cases hd)⟩

end Accepts

/-- No accepted update is lost, duplicated or resurrected; and one claim returns what is unfinished
just as long as its statement can bind that many jobs. -/
theorem accepted_updates_survive :
    (∀ (s t : Store τ) (before after : List (Op τ)) (updateId : Int) (payload : JsonObject)
      (retention now : τ),
      (machine τ).run Store.initial before = some s →
      (machine τ).Admits (fun s op => ¬ op.Accepts updateId s) Store.initial before →
      (Op.acceptUpdate payload retention now).Accepts updateId s →
      (machine τ).run ((Op.acceptUpdate payload retention now).run s).2 after = some t →
      ∃ minimal, minimalUpdatePayload payload = .ok (updateId, minimal) ∧
        (∃! r, r ∈ t.jobs.rows ∧ r.updateId = updateId) ∧
        ((machine τ).Admits (fun s op => ¬ op.Purges (str updateId) s)
          ((Op.acceptUpdate payload retention now).run s).2 after →
          ∀ r ∈ t.jobs.rows, r.updateId = updateId → r.payload = minimal) ∧
        ∀ payload' minimal' retention' now', minimalUpdatePayload payload' = .ok (updateId, minimal') →
          ((Op.acceptUpdate payload' retention' now').run t).2 = t) ∧
    (∀ (s t : Store τ) (ops : List (Op τ)) (jobId : String) (r : JobRow τ),
      (machine τ).run s ops = some t → s.jobs.lookup jobId = some r → r.state = .completed →
      ∃ r', t.jobs.lookup jobId = some r' ∧ r'.state = .completed) ∧
    (∀ (s : Store τ) (op : Op τ) (jobId : String) (r : JobRow τ),
      s.jobs.lookup jobId = some r → r.state = .failed →
      ∃ r', (op.run s).2.jobs.lookup jobId = some r' ∧ (r'.state = .failed ∨
        ((∃ limit now, op = .requeueFailedDeliveries limit now) ∧ hasFailedDeliveries s jobId ∧
          r'.state = .checkpointed) ∨
        ((∃ job successor owner now, op = .supersedeFailedJob job successor owner now) ∧
          r'.state = .completed))) ∧
    (∀ (s : Store τ) (ops : List (Op τ)) (owner : String) (lease : τ),
      (machine τ).run Store.initial ops = some s → owner ≠ "" → 0 < lease →
      ((∃ deadline : τ, ∀ now, deadline ≤ now →
        ∃ limit, ClaimsUnfinished s owner limit lease now) ↔
          (unfinishedJobs s).length + 3 ≤ maxVariableNumber) ∧
      ((unfinishedJobs s).length + 3 ≤ maxVariableNumber → ∃ deadline : τ, ∀ now (limit : Int),
        deadline ≤ now → (unfinishedJobs s).length < limit → limit < 2 ^ 63 →
          ClaimsUnfinished s owner limit lease now)) := by
  refine ⟨?_, ?_, ?_, ?_⟩
  · intro s t before after updateId payload retention now hbefore hfresh haccept hafter
    have hnone : s.jobs.lookup (str updateId) = none := lookup_none_run rfl hfresh hbefore
    obtain ⟨minimal, hm, hstored⟩ := accepted_first hnone haccept
    refine ⟨minimal, hm, ?_, ?_, ?_⟩
    · obtain ⟨r, hr, -⟩ := jobRow_run (P := fun _ => True) (G := fun _ _ => True)
        (fun _ _ _ _ _ _ _ _ _ => trivial) hstored trivial (Machine.admits_true _ _ _) hafter
      refine ⟨r, lookup_str.mp hr, ?_⟩
      intro x hx
      exact Option.some.inj ((lookup_str.mpr hx).symm.trans hr)
    · intro hkept r hr hid
      obtain ⟨x, hx, hpayload⟩ := jobRow_run (P := fun r => r.payload = minimal)
        (fun s op x x' hop hx _ hchange hpayload =>
          (hchange.payload (Table.key_of_lookup hx ▸ hop)).trans hpayload) hstored rfl hkept hafter
      obtain rfl := Option.some.inj ((lookup_str.mpr ⟨hr, hid⟩).symm.trans hx)
      exact hpayload
    · intro payload' minimal' retention' now' hm'
      obtain ⟨r, hr, -⟩ := jobRow_run (P := fun _ => True) (G := fun _ _ => True)
        (fun _ _ _ _ _ _ _ _ _ => trivial) hstored trivial (Machine.admits_true _ _ _) hafter
      exact accepted_again retention' now' hr hm'
  · intro s t ops jobId r hrun hr hcompleted
    obtain ⟨r', hr', hcompleted', -, -⟩ := completed_run hrun hr hcompleted
    exact ⟨r', hr', hcompleted'⟩
  · intro s op jobId r hr hfailed
    obtain ⟨r', hr', rfl | hchange⟩ := jobRow_step op hr
    · exact ⟨r', hr', .inl hfailed⟩
    · exact ⟨r', hr', Table.key_of_lookup hr ▸ hchange.of_failed hfailed⟩
  · intro s ops owner lease _ howner hlease
    have hlate (hbound : (unfinishedJobs s).length + 3 ≤ maxVariableNumber) :
        ∃ deadline : τ, ∀ now (limit : Int), deadline ≤ now →
          (unfinishedJobs s).length < limit → limit < 2 ^ 63 →
            ClaimsUnfinished s owner limit lease now := by
      obtain ⟨deadline, hheld, hclaims⟩ := exists_all_expired s
      refine ⟨deadline, fun now limit hnow => ?_⟩
      exact claim_returns_unfinished howner hlease
        (fun held h => .inr ((hheld held h).trans hnow))
        (fun r hr expiry hexpiry => (hclaims r hr expiry hexpiry).trans hnow) hbound
    refine ⟨⟨?_, ?_⟩, hlate⟩
    · rintro ⟨deadline, hclaims⟩
      obtain ⟨limit, hclaim⟩ := hclaims deadline le_rfl
      exact bound_of_claimsUnfinished hclaim
    · intro hbound
      obtain ⟨deadline, hclaims⟩ := hlate hbound
      refine ⟨deadline, fun now hnow => ⟨(unfinishedJobs s).length + 1, ?_⟩⟩
      rw [maxVariableNumber] at hbound
      exact hclaims now _ hnow (by omega) (by omega)

/-- Update 7 is accepted after update 5, fails, and is accepted again by a duplicate webhook. -/
theorem accepted_updates_survive_failed :
    ∃ s t : Store ℕ,
      (machine ℕ).run Store.initial [.acceptUpdate [("update_id", .int 5)] 100 0] = some s ∧
      (machine ℕ).run ((Op.acceptUpdate [("update_id", .int 7)] 100 1).run s).2
        [.fail "7" "boom" none 3, .complete "5" none 4] = some t ∧
      (∃! r, r ∈ t.jobs.rows ∧ r.updateId = 7) ∧
      (∀ r ∈ t.jobs.rows, r.updateId = 7 → r.payload = [("update_id", .int 7)]) ∧
      ((Op.acceptUpdate [("update_id", .int 7)] 100 9).run t).2 = t ∧
      (∃ r', ((Op.fail "5" "late" none 5).run t).2.jobs.lookup "5" = some r' ∧
        r'.state = .completed) ∧
      (∃ r', ((Op.purgeExpiredPayloads 500 10).run t).2.jobs.lookup "7" = some r' ∧
        (r'.state = .failed ∨ r'.state = .checkpointed ∨ r'.state = .completed)) ∧
      ∃ deadline : ℕ, ∀ now, deadline ≤ now → ClaimsUnfinished t "b" 1 60 now := by
  obtain ⟨hsurvive, hcompleted, hfailed, hclaim⟩ := accepted_updates_survive (τ := ℕ)
  have hnone : (machine ℕ).Admits (fun s op => ¬ op.Accepts 7 s) Store.initial
      [.acceptUpdate [("update_id", .int 5)] 100 0] := by
    refine ⟨?_, fun _ _ => trivial⟩
    rintro ⟨update, hreply, hid⟩
    cases hreply
    exact absurd hid (by decide)
  have hkept (s : Store ℕ) : (machine ℕ).Admits (fun s op => ¬ op.Purges (str 7) s) s
      [.fail "7" "boom" none 3, .complete "5" none 4] := by
    refine ⟨?_, fun _ _ => ⟨?_, fun _ _ => trivial⟩⟩
    all_goals
      rintro ⟨now, limit, hop, -⟩
      cases hop
  obtain ⟨minimal, hm, hrow, hpayload, hagain⟩ := hsurvive _ _
    [.acceptUpdate [("update_id", .int 5)] 100 0]
    [.fail "7" "boom" none 3, .complete "5" none 4] 7
    [("update_id", .int 7)] 100 1 rfl hnone ⟨_, rfl, rfl⟩ rfl
  obtain rfl : [("update_id", .int 7)] = minimal := (Prod.mk.inj (Except.ok.inj hm)).2
  let t : Store ℕ := ((Op.complete "5" none 4).run ((Op.fail "7" "boom" none 3).run
    ((Op.acceptUpdate [("update_id", .int 7)] 100 1).run
      ((Op.acceptUpdate [("update_id", .int 5)] 100 0).run Store.initial).2).2).2).2
  refine ⟨_, t, rfl, rfl, hrow, hpayload (hkept _), hagain _ _ 100 9 hm, ?_, ?_, ?_⟩
  · exact hcompleted t _ [.fail "5" "late" none 5] "5" ⟨5, [("update_id", .int 5)], .completed, none,
      none, none, none, ((100 : ℕ) : WithTop ℕ), 0, 4⟩ rfl rfl rfl
  · obtain ⟨r', hr', hstate⟩ := hfailed t (.purgeExpiredPayloads 500 10) "7"
      ⟨7, [("update_id", .int 7)], .failed, none, none, none, some "boom", ((101 : ℕ) : WithTop ℕ),
        1, 3⟩ rfl rfl
    refine ⟨r', hr', ?_⟩
    rcases hstate with h | ⟨-, -, h⟩ | ⟨-, h⟩
    · exact .inl h
    · exact .inr (.inl h)
    · exact .inr (.inr h)
  · have hnone : unfinishedJobs t = [] := rfl
    obtain ⟨deadline, hclaims⟩ := (hclaim t [.acceptUpdate [("update_id", .int 5)] 100 0,
      .acceptUpdate [("update_id", .int 7)] 100 1, .fail "7" "boom" none 3,
      .complete "5" none 4] "b" 60 rfl (by decide) (by decide)).2 (by rw [hnone]; decide)
    exact ⟨deadline, fun now hnow => hclaims now 1 hnow (by simp [hnone]) (by decide)⟩

/-- With 32764 updates waiting no claim returns them all, whoever makes it, whenever, and with
whatever limit. -/
theorem accepted_updates_stranded :
    ∃ s : Store ℕ, (machine ℕ).run Store.initial (accepts 32764) = some s ∧
      (unfinishedJobs s).length = 32764 ∧
      ∀ owner limit lease now, ¬ ClaimsUnfinished s owner limit lease now := by
  obtain ⟨s, hrun, hdeliveries, hlength, hrows⟩ := accepts_run 32764 (by decide)
  have hcount : (unfinishedJobs s).length = 32764 := by
    rw [unfinishedJobs_accepts hdeliveries fun r hr => (hrows r hr).1, hlength]
  refine ⟨s, hrun, hcount, fun owner limit lease now hclaim => ?_⟩
  have hbound := bound_of_claimsUnfinished hclaim
  rw [hcount, maxVariableNumber] at hbound
  omega

end YtdlBot.JobStore
