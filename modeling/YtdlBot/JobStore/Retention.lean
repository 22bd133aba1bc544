import YtdlBot.JobStore.Fencing
import YtdlBot.JobStore.Recovery

/-!
# Retention of payloads

A purge and a requeue look at the same condition, in different transactions. Between them the
receipts of a failed job cannot change, so a purged job is never picked up again.
-/

namespace YtdlBot.JobStore

open Framework

variable {τ : Type} [LinearOrder τ] [Add τ] [Zero τ]

/-- Receipts of jobs are written by `begin_delivery_attempts` and `finalize_delivery_attempt`
only; `record_delivery` is for ids that are no job's. -/
def ReceiptsReserved (s : Store τ) (op : Op τ) : Prop :=
  ∀ job outcome item delivery now, op = .recordDelivery job outcome item delivery now →
    s.jobs.lookup job = none

/-- The job will not be selected by any recovery query: it is done, or it failed and no receipt
asks for a retry. -/
def Retired (jobId : String) (s : Store τ) : Prop :=
  ∃ r, s.jobs.lookup jobId = some r ∧
    (r.state = .completed ∨ (r.state = .failed ∧
      ∀ item d, s.deliveries.lookup (jobId, item) = some d → d.outcome ≠ .failed))

section Receipts

omit [Add τ] [Zero τ] in
theorem state_of_ownsLiveJob {s : Store τ} {jobId owner : String} {now : τ} {r : JobRow τ}
    (h : ownsLiveJob s jobId owner now) (hr : s.jobs.lookup jobId = some r) :
    r.state = .running := by
  simp only [ownsLiveJob, hr, Option.any_some, Bool.and_eq_true, decide_eq_true_eq] at h
  exact h.1.1

theorem receipts_of_not_running {s : Store τ} {op : Op τ} {jobId : String} {r : JobRow τ}
    (hop : ReceiptsReserved s op) (hr : s.jobs.lookup jobId = some r) (hstate : r.state ≠ .running)
    (item : String) :
    (op.run s).2.deliveries.lookup (jobId, item) = s.deliveries.lookup (jobId, item) := by
  rcases deliveries_step s op (jobId, item) with hsame | ⟨d, -, hchange⟩
  · exact hsame
  · generalize hold : s.deliveries.lookup (jobId, item) = old at hchange
    generalize hkey : (jobId, item) = key at hchange
    cases hchange with
    | recorded =>
      obtain ⟨rfl, rfl⟩ := Prod.mk.inj hkey
      have hnone := hop _ _ _ _ _ rfl
      exact absurd (hnone.symm.trans hr) (by simp)
    | reserved live listed open_ =>
      obtain ⟨rfl, rfl⟩ := Prod.mk.inj hkey
      exact absurd (state_of_ownsLiveJob live hr) hstate
    | finalized live reserved own =>
      obtain ⟨rfl, rfl⟩ := Prod.mk.inj hkey
      exact absurd (state_of_ownsLiveJob live hr) hstate
    | retried failed =>
      have hjob : r.jobId = retryKey _ := (Table.key_of_lookup hr).trans (Prod.mk.inj hkey).1
      exact absurd hjob (str_ne_retry r.updateId _)

end Receipts

section Purge

omit [Add τ] [Zero τ] in
theorem retired_of_purged {s : Store τ} {now : τ} {limit : Nat} {jobId : String}
    (h : jobId ∈ purgedIds s now limit) : Retired jobId s := by
  obtain ⟨r, hr, rfl⟩ := List.mem_map.mp h
  obtain ⟨hmem, hselected⟩ := Table.mem_of_mem_select hr
  refine ⟨r, Table.lookup_of_mem hmem, ?_⟩
  simp only [purgeSelected, Bool.and_eq_true, Bool.or_eq_true, Bool.not_eq_true',
    decide_eq_true_eq] at hselected
  obtain ⟨⟨hstate, -⟩, hretry⟩ := hselected
  rcases hstate with hcompleted | hfailed
  · exact .inl hcompleted
  · refine .inr ⟨hfailed, hasFailedDeliveries_eq_false.mp ?_⟩
    simpa [hfailed] using hretry

/-- A retired job stays retired. -/
theorem retired_step {s : Store τ} {op : Op τ} {jobId : String} (hop : ReceiptsReserved s op)
    (h : Retired jobId s) : Retired jobId (op.run s).2 := by
  obtain ⟨r, hr, hstate⟩ := h
  obtain ⟨r', hr', hrow⟩ := jobRow_step op hr
  refine ⟨r', hr', ?_⟩
  rcases hstate with hcompleted | ⟨hfailed, hreceipts⟩
  · rcases hrow with rfl | hchange
    · exact .inl hcompleted
    · exact .inl (hchange.completed_absorbing hcompleted)
  · have hkept : ∀ item d, (op.run s).2.deliveries.lookup (jobId, item) = some d →
        d.outcome ≠ .failed := by
      intro item d hd
      rw [receipts_of_not_running hop hr (by simp [hfailed])] at hd
      exact hreceipts item d hd
    rcases hrow with rfl | hchange
    · exact .inr ⟨hfailed, hkept⟩
    · rcases hchange.of_failed hfailed with hstill | ⟨-, hretry, -⟩ | ⟨-, hcompleted⟩
      · exact .inr ⟨hstill, hkept⟩
      · rw [Table.key_of_lookup hr, hasFailedDeliveries_eq_false.mpr hreceipts] at hretry
        exact absurd hretry (by decide)
      · exact .inl hcompleted

theorem retired_run {s t : Store τ} {ops : List (Op τ)} {jobId : String} (h : Retired jobId s)
    (hops : (machine τ).Admits ReceiptsReserved s ops) (hr : (machine τ).run s ops = some t) :
    Retired jobId t := by
  refine (machine τ).invariant_of_admits ?_ h hops hr
  intro s op s' hs hop hstep
  obtain rfl := machine_step.mp hstep
  exact retired_step hop hs

/-- No claim returns a retired job. -/
theorem not_claims_of_retired {s : Store τ} {op : Op τ} {owner jobId : String}
    (h : Retired jobId s) : ¬ op.Claims owner jobId s := by
  intro hclaims
  obtain ⟨limit, lease, now, r, -, -, hr, hselected, -⟩ := hclaims.spec
  obtain ⟨r', hr', hstate⟩ := h
  obtain rfl := Option.some.inj (hr.symm.trans hr')
  rcases hstate with hcompleted | ⟨hfailed, -⟩
  · simp [recoverable, hcompleted] at hselected
  · simp [recoverable, hfailed] at hselected

end Purge

/-- A purged job is never claimed again. -/
theorem purged_never_claimed (s t : Store τ) (ops : List (Op τ)) (purge : Op τ) (jobId : String)
    (hpurge : purge.Purges jobId s) (hops : (machine τ).run (purge.run s).2 ops = some t)
    (hreserved : (machine τ).Admits ReceiptsReserved (purge.run s).2 ops) :
    ∀ (claim : Op τ) (owner : String), ¬ claim.Claims owner jobId t := by
  intro claim owner
  obtain ⟨now, limit, rfl, -, hlisted⟩ := hpurge
  have hretired : Retired jobId ((Op.purgeExpiredPayloads now limit).run s).2 := by
    refine retired_step ?_ (retired_of_purged hlisted)
    intro job outcome item delivery clock hop
    cases hop
  exact not_claims_of_retired (retired_run hretired hreserved hops)

/-- A failed job without receipts is purged; a later requeue does not bring it back. -/
theorem purged_never_claimed_failed :
    ∃ s t : Store ℕ, (machine ℕ).run Store.initial [.acceptUpdate [("update_id", .int 7),
        ("message", .str "link")] 100 0, .fail "7" "boom" none 1] = some s ∧
      (machine ℕ).run ((Op.purgeExpiredPayloads 500 10).run s).2
        [.requeueFailedDeliveries 10 600] = some t ∧
      ∀ (claim : Op ℕ) (owner : String), ¬ claim.Claims owner "7" t := by
  refine ⟨_, _, rfl, rfl, ?_⟩
  refine purged_never_claimed _ _ [.requeueFailedDeliveries 10 600] (.purgeExpiredPayloads 500 10)
    "7" ⟨500, 10, rfl, rfl, List.mem_singleton.mpr rfl⟩ rfl ⟨?_, fun _ _ => trivial⟩
  intro job outcome item delivery now hop
  cases hop

end YtdlBot.JobStore
