import YtdlBot.JobStore.Receipts

/-!
# Claim fencing

A claim takes a job away from its previous owner. From then on the previous owner's guarded
calls on that job are refused until it claims the job again itself, whatever clock readings the
calls carry, and a refused call changes nothing.
-/

namespace YtdlBot.JobStore

open Framework

variable {τ : Type} [LinearOrder τ] [Add τ] [Zero τ]

/-- The call is a claim by `owner` that returns the job. -/
def Op.Claims (op : Op τ) (owner jobId : String) (s : Store τ) : Prop :=
  ∃ limit lease now records, op = .claimRecoverableJobs owner limit lease now ∧
    (op.run s).1 = .ok (.jobs records) ∧ jobId ∈ records.map JobRecord.id

/-- The job a guarded call needs and the owner it is made for. -/
def Op.guard : Op τ → Option (String × String)
  | .renewClaim job owner _ _ => some (job, owner)
  | .checkpoint job _ (some owner) _ => some (job, owner)
  | .complete job (some owner) _ => some (job, owner)
  | .fail job _ (some owner) _ => some (job, owner)
  | .beginDeliveryAttempts job _ owner _ _ => some (job, owner)
  | .finalizeDeliveryAttempt job _ _ owner _ _ => some (job, owner)
  | .supersedeFailedJob _ successor owner _ => some (successor, owner)
  | _ => none

/-- The call does not return `True`; it may raise. -/
def Op.Refused (op : Op τ) (s : Store τ) : Prop := (op.run s).1 ≠ .ok (.bool true)

section Claims

/-- A returned job was running only under an expired claim, and it is now the claimer's. -/
theorem Op.Claims.spec {op : Op τ} {owner jobId : String} {s : Store τ}
    (h : op.Claims owner jobId s) :
    ∃ limit lease now r, op = .claimRecoverableJobs owner limit lease now ∧
      leaseGrantable s owner now ∧ s.jobs.lookup jobId = some r ∧ recoverable s now r ∧
      (op.run s).2.jobs.lookup jobId = some (claimedRow owner lease now r) := by
  obtain ⟨limit, lease, now, records, rfl, hreply, hmem⟩ := h
  have hclaim := claim_cases owner limit.toNat lease now s
  simp only [Op.run, wrap_snd] at hreply ⊢
  unfold JobStore.claimRecoverableJobs checked at hreply ⊢
  cases hcheck : validateOwner owner *> validateLease lease *> validateLimit limit with
  | error e =>
    rw [hcheck] at hreply
    exact absurd hreply (by simp [wrap_fst, Except.map])
  | ok u =>
    rw [hcheck] at hreply
    rcases hclaim with ⟨error, herror⟩ | ⟨records', hreply', hcases⟩
    · exact absurd hreply (by simp [wrap_fst, herror, Except.map])
    have hrecords : records' = records := by
      simpa [wrap_fst, Except.map, hreply'] using hreply
    subst hrecords
    rcases hcases jobId with ⟨hnot, -⟩ | ⟨-, hgrant, r, hrow, hselected, hclaimed⟩
    · exact absurd hmem hnot
    · exact ⟨limit, lease, now, r, rfl, hgrant, hrow, hselected, hclaimed⟩

theorem claim_jobs_of_not_claims {owner : String} {limit : Int} {lease now : τ} {s : Store τ}
    {jobId : String}
    (h : ¬ (Op.claimRecoverableJobs owner limit lease now).Claims owner jobId s) :
    ((Op.claimRecoverableJobs owner limit lease now).run s).2.jobs.lookup jobId =
      s.jobs.lookup jobId := by
  have hclaim := claim_cases owner limit.toNat lease now s
  simp only [Op.run, wrap_snd]
  unfold claimRecoverableJobs checked
  cases hcheck : validateOwner owner *> validateLease lease *> validateLimit limit with
  | error e => rfl
  | ok u =>
    rcases hclaim with ⟨error, herror⟩ | ⟨records, hreply, hcases⟩
    · simp only [herror]
    rcases hcases jobId with ⟨-, hsame⟩ | ⟨hmem, -⟩
    · exact hsame
    · refine absurd ⟨limit, lease, now, records, rfl, ?_, hmem⟩ h
      simp [Op.run, wrap_fst, claimRecoverableJobs, checked, hcheck, hreply, Except.map]

end Claims

section Owner

/-- The row of a job is not `owner`'s. -/
def NotOwned (owner jobId : String) (s : Store τ) : Prop :=
  ∀ r, s.jobs.lookup jobId = some r → r.ownerId ≠ some owner

/-- Only a claim makes a job an owner's. -/
theorem notOwned_step {owner jobId : String} {s : Store τ} {op : Op τ}
    (h : NotOwned owner jobId s) (hclaim : ¬ op.Claims owner jobId s) :
    NotOwned owner jobId (op.run s).2 := by
  intro r' hr'
  rcases jobs_step s op jobId with hsame | ⟨r, x, hr, hx, hchange⟩ |
    ⟨payload, retention, now, updateId, minimal, -, -, -, -, hfresh⟩
  · exact h r' (hsame ▸ hr')
  · obtain rfl := Option.some.inj (hx.symm.trans hr')
    have hnot := h r hr
    cases hchange with
    | @claimed claimer limit lease now r grantable selected =>
      by_cases hsame : claimer = owner
      · subst hsame
        rw [claim_jobs_of_not_claims hclaim] at hx
        exact h _ hx
      · exact fun heq => hsame (Option.some.inj heq)
    | renewed running live => exact hnot
    | requeued selected => exact hnot
    | purged selected listed => exact hnot
    | checkpointed source guard => simp [transitionedRow]
    | completed source guard => simp [transitionedRow]
    | failed source guard => simp [transitionedRow]
    | superseded live other source safe => simp [supersededRow]
  · obtain rfl := Option.some.inj (hfresh.symm.trans hr')
    simp [acceptedRow]

/-- Once it is not an owner's, it stays so until the owner claims it. -/
theorem notOwned_run {owner jobId : String} {s t : Store τ} {ops : List (Op τ)}
    (h : NotOwned owner jobId s)
    (hops : (machine τ).Admits (fun s op => ¬ op.Claims owner jobId s) s ops)
    (hr : (machine τ).run s ops = some t) : NotOwned owner jobId t := by
  refine (machine τ).invariant_of_admits ?_ h hops hr
  intro s op s' hs hclaim hstep
  obtain rfl := machine_step.mp hstep
  exact notOwned_step hs hclaim

end Owner

section Guard

omit [Add τ] [Zero τ] in
theorem owner_of_ownsLiveJob {s : Store τ} {jobId owner : String} {now : τ}
    (h : ownsLiveJob s jobId owner now) :
    ∃ r, s.jobs.lookup jobId = some r ∧ r.ownerId = some owner := by
  simp only [ownsLiveJob, Bool.and_eq_true, Option.any_eq_true, JobRow.claimLive,
    decide_eq_true_eq] at h
  obtain ⟨⟨r, hr, -, howner, -⟩, -⟩ := h
  exact ⟨r, hr, howner⟩

omit [LinearOrder τ] [Add τ] [Zero τ] in
private theorem owner_of_rowcount {s : Store τ} {jobId owner : String} {q : JobRow τ → Bool}
    (hq : ∀ r, q r → r.ownerId = some owner)
    (h : s.jobs.rowcount (fun r => r.jobId = jobId && q r) = 1) :
    ∃ r, s.jobs.lookup jobId = some r ∧ r.ownerId = some owner := by
  rw [Table.rowcount_key] at h
  cases hany : (s.jobs.lookup jobId).any q with
  | false => simp [hany] at h
  | true =>
    obtain ⟨r, hr, hqr⟩ := (Option.any_eq_true _ _).mp hany
    exact ⟨r, hr, hq r hqr⟩

omit [Add τ] [Zero τ] in
private theorem transition_ok {s : Store τ} {jobId owner : String} {state : JobState}
    {value : Option JsonObject} {error : Option String} {now : τ} {sources : List JobState}
    (h : (transitionSync jobId state value error now sources (some owner) s).1 = .ok true) :
    ∃ r, s.jobs.lookup jobId = some r ∧ r.ownerId = some owner := by
  simp only [transitionSync, transaction, Except.ok.injEq, decide_eq_true_eq] at h
  refine owner_of_rowcount ?_ h
  intro r hr
  simp only [ownerGuard, JobRow.claimLive, Bool.and_eq_true, decide_eq_true_eq] at hr
  exact hr.2.1.1

omit [Zero τ] in
private theorem renewClaim_ok {s : Store τ} {jobId owner : String} {lease now : τ}
    (h : (renewClaimSync jobId owner lease now s).1 = .ok true) :
    ∃ r, s.jobs.lookup jobId = some r ∧ r.ownerId = some owner := by
  simp only [renewClaimSync, transaction, Except.ok.injEq, decide_eq_true_eq] at h
  refine owner_of_rowcount ?_ h
  intro r hr
  simp only [JobRow.claimLive, Bool.and_eq_true, decide_eq_true_eq] at hr
  exact hr.1.2.1

omit [Add τ] [Zero τ] in
private theorem finalize_ok {s : Store τ} {jobId item owner : String} {outcome : DeliveryOutcome}
    {delivery : Option String} {now : τ}
    (h : (finalizeDeliveryAttemptSync jobId item outcome owner delivery now s).1 = .ok true) :
    ownsLiveJob s jobId owner now := by
  by_contra hlive
  simp [finalizeDeliveryAttemptSync, transaction, hlive] at h

omit [Add τ] [Zero τ] in
private theorem supersede_ok {s : Store τ} {jobId successor owner : String} {now : τ}
    (h : (supersedeFailedJobSync jobId successor owner now s).1 = .ok true) :
    ownsLiveJob s successor owner now := by
  by_contra hlive
  simp [supersedeFailedJobSync, transaction, hlive] at h

omit [LinearOrder τ] [Add τ] [Zero τ] in
private theorem checked_ok {ρ : Type} {check : Except StoreError Unit}
    {method : Store τ → Except StoreError ρ × Store τ} {s : Store τ} {reply : ρ}
    (h : (checked check method s).1 = .ok reply) : (method s).1 = .ok reply := by
  cases check with
  | ok u => exact h
  | error e => exact absurd h (by simp [checked])

omit [LinearOrder τ] [Add τ] [Zero τ] in
private theorem wrap_bool_ok {result : Except StoreError Bool × Store τ} {b : Bool} :
    (wrap .bool result).1 = .ok (.bool b) ↔ result.1 = .ok b := by
  obtain ⟨reply, s'⟩ := result
  cases reply <;> simp [wrap, Except.map]

theorem owner_of_guard {s : Store τ} {op : Op τ} {jobId owner : String}
    (hguard : op.guard = some (jobId, owner)) (h : (op.run s).1 = .ok (.bool true)) :
    ∃ r, s.jobs.lookup jobId = some r ∧ r.ownerId = some owner := by
  cases op with
  | renewClaim job own lease now =>
    obtain ⟨rfl, rfl⟩ := Prod.mk.inj (Option.some.inj hguard)
    exact renewClaim_ok (checked_ok (wrap_bool_ok.mp h))
  | checkpoint job value own now =>
    cases own with
    | none => simp [Op.guard] at hguard
    | some own =>
      obtain ⟨rfl, rfl⟩ := Prod.mk.inj (Option.some.inj hguard)
      exact transition_ok (wrap_bool_ok.mp h)
  | complete job own now =>
    cases own with
    | none => simp [Op.guard] at hguard
    | some own =>
      obtain ⟨rfl, rfl⟩ := Prod.mk.inj (Option.some.inj hguard)
      exact transition_ok (wrap_bool_ok.mp h)
  | fail job error own now =>
    cases own with
    | none => simp [Op.guard] at hguard
    | some own =>
      obtain ⟨rfl, rfl⟩ := Prod.mk.inj (Option.some.inj hguard)
      exact transition_ok (wrap_bool_ok.mp h)
  | beginDeliveryAttempts job items own now sqlFails =>
    obtain ⟨rfl, rfl⟩ := Prod.mk.inj (Option.some.inj hguard)
    rcases beginDeliveryAttempts_cases job items own now sqlFails s with ⟨hrefused, -⟩ | ⟨-, hlive, -⟩
    · exact absurd (wrap_bool_ok.mp h) hrefused
    · exact owner_of_ownsLiveJob hlive
  | finalizeDeliveryAttempt job item outcome own delivery now =>
    obtain ⟨rfl, rfl⟩ := Prod.mk.inj (Option.some.inj hguard)
    exact owner_of_ownsLiveJob (finalize_ok (checked_ok (wrap_bool_ok.mp h)))
  | supersedeFailedJob job successor own now =>
    obtain ⟨rfl, rfl⟩ := Prod.mk.inj (Option.some.inj hguard)
    exact owner_of_ownsLiveJob (supersede_ok (wrap_bool_ok.mp h))
  | _ => simp [Op.guard] at hguard

end Guard

section Refused

omit [LinearOrder τ] [Add τ] [Zero τ] in
private theorem jobs_of_rowcount {s : Store τ} {jobId : String} {q : JobRow τ → Bool}
    {f : JobRow τ → JobRow τ} {hf : ∀ r, (f r).jobId = r.jobId}
    (h : s.jobs.rowcount (fun r => r.jobId = jobId && q r) ≠ 1) :
    { s with jobs := s.jobs.update (fun r => r.jobId = jobId && q r) f hf } = s := by
  rw [Table.update_of_rowcount_zero (Table.rowcount_key_zero h)]

omit [LinearOrder τ] [Add τ] [Zero τ] in
private theorem deliveries_of_rowcount {s : Store τ} {key : String × String}
    {q : DeliveryRow τ → Bool} {f : DeliveryRow τ → DeliveryRow τ} {hf : ∀ d, (f d).key = d.key}
    (h : s.deliveries.rowcount (fun d => d.key = key && q d) ≠ 1) :
    { s with deliveries := s.deliveries.update (fun d => d.key = key && q d) f hf } = s := by
  rw [Table.update_of_rowcount_zero (Table.rowcount_key_zero h)]

omit [Add τ] [Zero τ] in
private theorem transition_refused {s : Store τ} {jobId : String} {owner : Option String}
    {state : JobState} {value : Option JsonObject} {error : Option String} {now : τ}
    {sources : List JobState}
    (h : (transitionSync jobId state value error now sources owner s).1 ≠ .ok true) :
    (transitionSync jobId state value error now sources owner s).2 = s := by
  simp only [transitionSync, transaction, ne_eq, Except.ok.injEq, decide_eq_true_eq] at h ⊢
  exact jobs_of_rowcount h

omit [Zero τ] in
private theorem renewClaim_refused {s : Store τ} {jobId owner : String} {lease now : τ}
    (h : (renewClaimSync jobId owner lease now s).1 ≠ .ok true) :
    (renewClaimSync jobId owner lease now s).2 = s := by
  simp only [renewClaimSync, transaction, ne_eq, Except.ok.injEq, decide_eq_true_eq] at h ⊢
  exact jobs_of_rowcount h

omit [Add τ] [Zero τ] in
private theorem finalize_refused {s : Store τ} {jobId item owner : String}
    {outcome : DeliveryOutcome} {delivery : Option String} {now : τ}
    (h : (finalizeDeliveryAttemptSync jobId item outcome owner delivery now s).1 ≠ .ok true) :
    (finalizeDeliveryAttemptSync jobId item outcome owner delivery now s).2 = s := by
  simp only [finalizeDeliveryAttemptSync, transaction] at h ⊢
  by_cases hlive : ownsLiveJob s jobId owner now
  · simp only [hlive, not_true_eq_false, if_false, ne_eq, Except.ok.injEq,
      decide_eq_true_eq] at h ⊢
    exact deliveries_of_rowcount h
  · simp only [hlive]
    rfl

omit [Add τ] [Zero τ] in
private theorem supersede_refused {s : Store τ} {jobId successor owner : String} {now : τ}
    (h : (supersedeFailedJobSync jobId successor owner now s).1 ≠ .ok true) :
    (supersedeFailedJobSync jobId successor owner now s).2 = s := by
  simp only [supersedeFailedJobSync, transaction] at h ⊢
  by_cases hlive : ownsLiveJob s successor owner now
  · simp only [hlive, not_true_eq_false, if_false] at h ⊢
    cases hloop : supersedeLoop s successor now (s.jobs.rows.length + 1) [] jobId with
    | none => rfl
    | some result =>
      obtain ⟨reply, s'⟩ := result
      simp only [hloop, ne_eq, Except.ok.injEq] at h ⊢
      rcases supersedeLoop_cases hloop with hsame | ⟨htrue, -⟩
      · exact hsame
      · exact absurd htrue h
  · simp only [hlive]
    rfl

omit [LinearOrder τ] [Add τ] [Zero τ] in
private theorem checked_refused {check : Except StoreError Unit}
    {method : Store τ → Except StoreError Bool × Store τ} {s : Store τ}
    (hmethod : (method s).1 ≠ .ok true → (method s).2 = s)
    (h : (checked check method s).1 ≠ .ok true) : (checked check method s).2 = s := by
  cases check with
  | ok u => exact hmethod h
  | error e => rfl

/-- A guarded call that is refused leaves the whole store unchanged. -/
theorem unchanged_of_refused {s : Store τ} {op : Op τ} {g : String × String}
    (hguard : op.guard = some g) (h : op.Refused s) : (op.run s).2 = s := by
  cases op with
  | renewClaim job own lease now =>
    exact checked_refused renewClaim_refused fun hok => h (wrap_bool_ok.mpr hok)
  | checkpoint job value own now =>
    exact transition_refused fun hok => h (wrap_bool_ok.mpr hok)
  | complete job own now =>
    exact transition_refused fun hok => h (wrap_bool_ok.mpr hok)
  | fail job error own now =>
    exact transition_refused fun hok => h (wrap_bool_ok.mpr hok)
  | beginDeliveryAttempts job items own now sqlFails =>
    rcases beginDeliveryAttempts_cases job items own now sqlFails s with ⟨-, hsame⟩ | ⟨hok, -⟩
    · exact hsame
    · exact absurd (wrap_bool_ok.mpr hok) h
  | finalizeDeliveryAttempt job item outcome own delivery now =>
    exact checked_refused finalize_refused fun hok => h (wrap_bool_ok.mpr hok)
  | supersedeFailedJob job successor own now =>
    exact supersede_refused fun hok => h (wrap_bool_ok.mpr hok)
  | _ => simp [Op.guard] at hguard

end Refused

section Running

omit [LinearOrder τ] [Add τ] [Zero τ] in
/-- A running job has an owner and a claim expiry. -/
def RunningHeld (s : Store τ) : Prop :=
  ∀ jobId r, s.jobs.lookup jobId = some r → r.state = .running →
    r.ownerId.isSome ∧ r.claimExpiresAt.isSome

theorem runningHeld_step {s : Store τ} (op : Op τ) (h : RunningHeld s) :
    RunningHeld (op.run s).2 := by
  intro jobId r' hr' hrunning
  rcases jobs_step s op jobId with hsame | ⟨r, x, hr, hx, hchange⟩ |
    ⟨payload, retention, now, updateId, minimal, -, -, -, -, hfresh⟩
  · exact h jobId r' (hsame ▸ hr') hrunning
  · obtain rfl := Option.some.inj (hx.symm.trans hr')
    cases hchange with
    | claimed grantable selected => exact ⟨rfl, rfl⟩
    | renewed running live => exact ⟨(h jobId r hr running).1, rfl⟩
    | purged selected listed => exact h jobId r hr hrunning
    | checkpointed source guard => simp [transitionedRow] at hrunning
    | completed source guard => simp [transitionedRow] at hrunning
    | failed source guard => simp [transitionedRow] at hrunning
    | superseded live other source safe => simp [supersededRow] at hrunning
    | requeued selected => simp [requeuedRow] at hrunning
  · obtain rfl := Option.some.inj (hfresh.symm.trans hr')
    simp [acceptedRow] at hrunning

theorem runningHeld_run {s : Store τ} {ops : List (Op τ)}
    (hr : (machine τ).run Store.initial ops = some s) : RunningHeld s := by
  refine (machine τ).invariant ?_ ?_ hr
  · intro s op s' hs hstep
    obtain rfl := machine_step.mp hstep
    exact runningHeld_step op hs
  · intro jobId r hlookup
    simp [Store.initial] at hlookup

end Running

/-- Claims wait for expiry, fence off the previous owner, and refused calls change nothing. -/
theorem claim_fencing :
    (∀ (s : Store τ) (ops : List (Op τ)) (owner : String) (limit : Int) (lease now : τ)
      (jobId : String) (r : JobRow τ),
      (machine τ).run Store.initial ops = some s → s.jobs.lookup jobId = some r →
      r.state = .running →
      (Op.claimRecoverableJobs owner limit lease now).Claims owner jobId s →
      (∃ expiry, r.claimExpiresAt = some expiry ∧ expiry ≤ now) ∧
        ∀ held, s.workerLease = some held → held.ownerId = owner ∨ held.expiresAt ≤ now) ∧
    (∀ (s t : Store τ) (claim : Op τ) (ops : List (Op τ)) (a b jobId : String), a ≠ b →
      claim.Claims b jobId s →
      (machine τ).Admits (fun s op => ¬ op.Claims a jobId s) (claim.run s).2 ops →
      (machine τ).run (claim.run s).2 ops = some t →
      ∀ op : Op τ, op.guard = some (jobId, a) → op.Refused t) ∧
    (∀ (s : Store τ) (op : Op τ), op.guard.isSome → op.Refused s → (op.run s).2 = s) := by
  refine ⟨?_, ?_, ?_⟩
  · intro s ops owner limit lease now jobId r hr hlookup hrunning hclaims
    obtain ⟨limit', lease', now', x, hop, hgrant, hx, hselected, -⟩ := hclaims.spec
    injection hop with _ _ _ hnow
    subst hnow
    obtain rfl := Option.some.inj (hx.symm.trans hlookup)
    have hheld := (runningHeld_run hr jobId x hx hrunning).2
    obtain ⟨expiry, hexpiry⟩ := Option.isSome_iff_exists.mp hheld
    simp only [recoverable, hrunning, hexpiry, Option.all_some, Bool.and_eq_true] at hselected
    exact ⟨⟨expiry, hexpiry, by simpa using hselected.1⟩, hgrant⟩
  · intro s t claim ops a b jobId hab hclaims hops hr op hguard hok
    obtain ⟨limit, lease, now, r, -, -, -, -, hclaimed⟩ := hclaims.spec
    have hstart : NotOwned a jobId (claim.run s).2 := by
      intro r' hr'
      obtain rfl := Option.some.inj (hclaimed.symm.trans hr')
      exact fun heq => hab (Option.some.inj heq).symm
    obtain ⟨r', hr', howner⟩ := owner_of_guard hguard hok
    exact notOwned_run hstart hops hr r' hr' howner
  · intro s op hguard hrefused
    obtain ⟨g, hg⟩ := Option.isSome_iff_exists.mp hguard
    exact unchanged_of_refused hg hrefused

/-- Owner `b` takes over an expired claim of `a`, whose late `complete` is refused. -/
theorem claim_fencing_takeover :
    ∃ s t : Store ℕ,
      (machine ℕ).run Store.initial [.acceptUpdate [("update_id", .int 7)] 100 0,
        .claimRecoverableJobs "a" 10 60 1] = some s ∧
      (∃ expiry, ((s.jobs.lookup "7").bind JobRow.claimExpiresAt) = some expiry ∧ expiry ≤ 100) ∧
      (machine ℕ).run s [.claimRecoverableJobs "b" 10 60 100, .renewWorker "b" 60 101] = some t ∧
      (Op.complete "7" (some "a") 20).Refused t ∧ ((Op.complete "7" (some "a") 20).run t).2 = t := by
  have hclaims : (Op.claimRecoverableJobs "b" 10 60 100).Claims "b" "7"
      ((Op.claimRecoverableJobs "a" 10 60 1).run
        ((Op.acceptUpdate [("update_id", .int 7)] 100 0).run Store.initial).2).2 :=
    ⟨10, 60, 100, _, rfl, rfl, List.mem_singleton.mpr rfl⟩
  have hops : ∀ (s : Store ℕ), ¬ (Op.renewWorker "b" 60 101).Claims "a" "7" s := by
    rintro s ⟨limit, lease, now, records, hop, -⟩
    cases hop
  obtain ⟨hexpired, hfenced, hunchanged⟩ := claim_fencing (τ := ℕ)
  have hrefused : (Op.complete "7" (some "a") 20).Refused _ :=
    hfenced _ _ (.claimRecoverableJobs "b" 10 60 100) [.renewWorker "b" 60 101] "a" "b" "7"
      (by decide) hclaims ⟨hops _, fun _ _ => trivial⟩ rfl _ rfl
  refine ⟨_, _, rfl, ?_, rfl, hrefused, hunchanged _ _ rfl hrefused⟩
  exact (hexpired _ [.acceptUpdate [("update_id", .int 7)] 100 0,
    .claimRecoverableJobs "a" 10 60 1] "b" 10 60 100 "7" _ rfl rfl rfl hclaims).1

end YtdlBot.JobStore
