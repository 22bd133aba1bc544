import YtdlBot.JobStore.Steps

/-!
# Holding the worker lease

Only an acquisition or a claim makes an owner the holder of the worker lease; a renewal prolongs
what its owner already holds. A claim takes no more jobs than it asks for.
-/

namespace YtdlBot.JobStore

open Framework

variable {τ : Type} [LinearOrder τ] [Add τ] [Zero τ]

/-- The owner that a call can make the holder of the worker lease. -/
def Op.grants : Op τ → Option String
  | .acquireWorker owner _ _ | .claimRecoverableJobs owner _ _ _ => some owner
  | _ => none

/-- The lease is kept, released, or written by a grant or by its holder. -/
def LeaseStep (s : Store τ) (op : Op τ) (s' : Store τ) : Prop :=
  s'.workerLease = s.workerLease ∨ s'.workerLease = none ∨
    ∃ lease, s'.workerLease = some lease ∧
      (op.grants = some lease.ownerId ∨
        ∃ held, s.workerLease = some held ∧ held.ownerId = lease.ownerId)

omit [Zero τ] in
private theorem acquire_leaseStep {op : Op τ} {owner : String} {s : Store τ}
    (hop : op.grants = some owner) (lease now : τ) :
    LeaseStep s op (acquireWorkerInTransaction owner lease now s).2 := by
  by_cases h : leaseGrantable s owner now
  · rw [acquireWorkerInTransaction_of_grantable lease h]
    exact .inr (.inr ⟨_, rfl, .inl hop⟩)
  · rw [acquireWorkerInTransaction_of_not_grantable lease h]
    exact .inl rfl

omit [Zero τ] in
private theorem claim_leaseStep {op : Op τ} {owner : String} {s : Store τ}
    (hop : op.grants = some owner) (limit : Nat) (lease now : τ) :
    LeaseStep s op (claimRecoverableJobsSync owner limit lease now s).2 := by
  by_cases h : leaseGrantable s owner now
  · by_cases hnot : ¬ (fitsInteger limit ∧ bindable 3 (claimedIds limit now s))
    · obtain ⟨error, herror⟩ := claim_of_not_bound lease h hnot
      rw [herror]
      exact .inl rfl
    · obtain ⟨hfits, hbound⟩ := not_not.mp hnot
      rw [claim_of_grantable h hfits hbound]
      exact .inr (.inr ⟨_, rfl, .inl hop⟩)
  · rw [claim_of_not_grantable h]
    exact .inl rfl

omit [Zero τ] in
private theorem renew_leaseStep (op : Op τ) (owner : String) (lease now : τ) (s : Store τ) :
    LeaseStep s op (renewWorkerSync owner lease now s).2 := by
  unfold renewWorkerSync
  refine transaction_snd (LeaseStep s op) (.inl rfl) ?_
  intro reply s' hbody
  split at hbody
  next hheld =>
    obtain ⟨-, rfl⟩ := Prod.mk.inj (Except.ok.inj hbody)
    obtain ⟨held, hsome, hlive⟩ := (Option.any_eq_true _ _).mp hheld
    simp only [Bool.and_eq_true, decide_eq_true_eq] at hlive
    exact .inr (.inr ⟨_, rfl, .inr ⟨held, hsome, hlive.1⟩⟩)
  · obtain ⟨-, rfl⟩ := Prod.mk.inj (Except.ok.inj hbody)
    exact .inl rfl

omit [LinearOrder τ] [Add τ] [Zero τ] in
private theorem release_leaseStep (op : Op τ) (owner : String) (s : Store τ) :
    LeaseStep s op (releaseWorkerSync owner s).2 := by
  simp only [LeaseStep, releaseWorkerSync, transaction]
  split
  · exact .inr (.inl rfl)
  · exact .inl rfl

/-- Every call does to the worker lease what `LeaseStep` says. -/
theorem lease_step (s : Store τ) (op : Op τ) : LeaseStep s op (op.run s).2 := by
  have same {s' : Store τ} (h : s'.workerLease = s.workerLease) : LeaseStep s op s' := .inl h
  cases op with
  | acceptUpdate payload retention now =>
    rcases acceptUpdate_cases payload retention now s with
      ⟨error, h⟩ | ⟨updateId, minimal, -, ⟨r, -, h⟩ | ⟨-, h⟩⟩ <;>
      exact same (by simp only [Op.run, wrap_snd, h])
  | acquireWorker owner lease now =>
    exact checked_snd (LeaseStep s _) (same rfl)
      (acquire_leaseStep (rfl : Op.grants (.acquireWorker owner lease now) = some owner) lease now)
  | renewWorker owner lease now =>
    exact checked_snd (LeaseStep s _) (same rfl) (renew_leaseStep _ owner lease now s)
  | releaseWorker owner =>
    exact checked_snd (LeaseStep s _) (same rfl) (release_leaseStep _ owner s)
  | claimRecoverableJobs owner limit lease now =>
    exact checked_snd (LeaseStep s _) (same rfl)
      (claim_leaseStep (rfl : Op.grants (.claimRecoverableJobs owner limit lease now) = some owner)
        limit.toNat lease now)
  | renewClaim job owner lease now => exact checked_snd (LeaseStep s _) (same rfl) (same rfl)
  | checkpoint job value owner now => exact same rfl
  | complete job owner now => exact same rfl
  | fail job error owner now => exact same rfl
  | recordDelivery job outcome item delivery now =>
    refine checked_snd (LeaseStep s _) (same rfl) (transaction_snd (LeaseStep s _) (same rfl) ?_)
    intro reply s' hbody
    dsimp only at hbody
    split at hbody
    · obtain ⟨-, rfl⟩ := Prod.mk.inj (Except.ok.inj hbody)
      exact same rfl
    · cases hbody
  | beginDeliveryAttempts job items owner now sqlFails =>
    refine checked_snd (LeaseStep s _) (same rfl) (transaction_snd (LeaseStep s _) (same rfl) ?_)
    intro reply s' hbody
    split at hbody
    · obtain ⟨-, rfl⟩ := Prod.mk.inj (Except.ok.inj hbody)
      exact same rfl
    split at hbody
    · obtain ⟨-, rfl⟩ := Prod.mk.inj (Except.ok.inj hbody)
      exact same rfl
    cases hreserve : reserveItems sqlFails job owner now 0 items s with
    | error error => simp [hreserve, Except.map] at hbody
    | ok reserved =>
      obtain ⟨table, rfl⟩ := reserveItems_frame hreserve
      simp only [hreserve, Except.map, Except.ok.injEq, Prod.mk.injEq] at hbody
      exact same (by rw [← hbody.2])
  | finalizeDeliveryAttempt job item outcome owner delivery now =>
    refine checked_snd (LeaseStep s _) (same rfl) (transaction_snd (LeaseStep s _) (same rfl) ?_)
    intro reply s' hbody
    split at hbody
    · obtain ⟨-, rfl⟩ := Prod.mk.inj (Except.ok.inj hbody)
      exact same rfl
    · obtain ⟨-, rfl⟩ := Prod.mk.inj (Except.ok.inj hbody)
      exact same rfl
  | beginRetryToken token now =>
    refine transaction_snd (LeaseStep s _) (same rfl) ?_
    intro reply s' hbody
    dsimp only at hbody
    split at hbody
    · obtain ⟨-, rfl⟩ := Prod.mk.inj (Except.ok.inj hbody)
      exact same rfl
    split at hbody <;>
    · obtain ⟨-, rfl⟩ := Prod.mk.inj (Except.ok.inj hbody)
      exact same rfl
  | supersedeFailedJob job successor owner now =>
    refine transaction_snd (LeaseStep s _) (same rfl) ?_
    intro reply s' hbody
    split at hbody
    · obtain ⟨-, rfl⟩ := Prod.mk.inj (Except.ok.inj hbody)
      exact same rfl
    cases hloop : supersedeLoop s successor now (s.jobs.rows.length + 1) [] job with
    | none => simp [hloop] at hbody
    | some result =>
      simp only [hloop, Except.ok.injEq] at hbody
      subst hbody
      rcases supersedeLoop_cases hloop with rfl | ⟨-, r, -, -, -, -, rfl⟩
      · exact same rfl
      · exact same rfl
  | requeueFailedDeliveries limit now =>
    obtain ⟨jobs, h⟩ := requeueFailedDeliveries_frame limit.toNat now s
    exact checked_snd (LeaseStep s _) (same rfl) (same (by rw [h]))
  | purgeExpiredPayloads now limit =>
    obtain ⟨jobs, h⟩ := purgeExpiredPayloads_frame now limit.toNat s
    exact checked_snd (LeaseStep s _) (same rfl) (same (by rw [h]))
  | writeProbe now =>
    obtain ⟨generation, h⟩ := writeProbe_frame now s
    exact same (by rw [Op.run, wrap_snd, h])
  | aborted => exact same rfl

/-- The lease is not the owner's. -/
def NotLeased (owner : String) (s : Store τ) : Prop :=
  ∀ lease, s.workerLease = some lease → lease.ownerId ≠ owner

theorem notLeased_run {owner : String} {s : Store τ} {op : Op τ} (h : NotLeased owner s)
    (hop : op.grants ≠ some owner) : NotLeased owner (op.run s).2 := by
  intro lease hlease howner
  rcases lease_step s op with hsame | hnone | ⟨written, hwritten, hgrant | ⟨held, hheld, hid⟩⟩
  · exact h lease (hsame ▸ hlease) howner
  · simp [hnone] at hlease
  · obtain rfl := Option.some.inj (hwritten.symm.trans hlease)
    exact hop (howner ▸ hgrant)
  · obtain rfl := Option.some.inj (hwritten.symm.trans hlease)
    exact h held hheld (hid.trans howner)

theorem notLeased_release {owner : String} {s : Store τ} {reply : Reply}
    (h : ((Op.releaseWorker owner).run s).1 = .ok reply) :
    NotLeased owner ((Op.releaseWorker owner).run s).2 := by
  simp only [Op.run, wrap_fst, wrap_snd, releaseWorker, checked] at h ⊢
  cases hcheck : validateOwner owner with
  | error error => simp [hcheck, Except.map] at h
  | ok u =>
    simp only [NotLeased, releaseWorkerSync, transaction]
    intro lease hlease
    split at hlease
    · cases hlease
    next hother =>
      simp only [hlease, Option.any_some, decide_eq_true_eq] at hother
      exact hother

section Limit

omit [Add τ] [Zero τ] in
theorem length_claimedIds (limit : Nat) (now : τ) (s : Store τ) :
    (claimedIds limit now s).length ≤ limit := by
  simp only [claimedIds, claimCandidates, Table.select, List.length_map, List.length_take]
  omega

omit [Zero τ] in
theorem length_claimedRows (owner : String) (limit : Nat) (lease now : τ) (s : Store τ) :
    (claimedRows owner limit lease now s).length ≤ limit :=
  length_claimedRows_le.trans (length_claimedIds limit now s)

theorem length_claim {owner : String} {limit : Int} {lease now : τ} {s : Store τ}
    {records : List JobRecord}
    (h : ((Op.claimRecoverableJobs owner limit lease now).run s).1 = .ok (.jobs records)) :
    records.length ≤ limit.toNat := by
  rcases length_records_of_claim h with rfl | ⟨-, hlength⟩
  · exact Nat.zero_le _
  · rw [hlength]
    exact length_claimedRows owner limit.toNat lease now s

end Limit

end YtdlBot.JobStore
