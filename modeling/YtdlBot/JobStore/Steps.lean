import YtdlBot.Framework.Machine
import YtdlBot.JobStore.Operations

/-!
# Steps of the job store

The store as a machine whose actions are the method calls of any callers. What one call can do
to a job row, to a delivery row and to the worker lease is said once here; the invariants are
case analyses over these three descriptions.
-/

namespace YtdlBot.JobStore

open Framework

/-- A method call with its arguments and its clock reading. `aborted` is a call of any method
whose transaction SQLite ends with an error (lock timeout, failed statement, failed commit). -/
inductive Op (τ : Type) where
  | acceptUpdate (payload : JsonObject) (retention now : τ)
  | acquireWorker (ownerId : String) (leaseSeconds now : τ)
  | renewWorker (ownerId : String) (leaseSeconds now : τ)
  | releaseWorker (ownerId : String)
  | claimRecoverableJobs (ownerId : String) (limit : Int) (leaseSeconds now : τ)
  | renewClaim (jobId ownerId : String) (leaseSeconds now : τ)
  | checkpoint (jobId : String) (checkpoint : Option JsonObject) (ownerId : Option String) (now : τ)
  | complete (jobId : String) (ownerId : Option String) (now : τ)
  | fail (jobId error : String) (ownerId : Option String) (now : τ)
  | recordDelivery (jobId : String) (outcome : DeliveryOutcome) (itemKey : String)
      (deliveryId : Option String) (now : τ)
  | beginDeliveryAttempts (jobId : String) (itemKeys : List String) (ownerId : String) (now : τ)
      (sqlFails : Nat → Bool)
  | finalizeDeliveryAttempt (jobId itemKey : String) (outcome : DeliveryOutcome)
      (ownerId : String) (deliveryId : Option String) (now : τ)
  | beginRetryToken (token : String) (now : τ)
  | supersedeFailedJob (jobId successorId ownerId : String) (now : τ)
  | requeueFailedDeliveries (limit : Int) (now : τ)
  | purgeExpiredPayloads (now : τ) (limit : Int)
  | writeProbe (now : τ)
  | aborted

inductive Reply where
  | none
  | bool (value : Bool)
  | accepted (update : AcceptedUpdate)
  | jobs (records : List JobRecord)
  | outcome (value : DeliveryOutcome)
  | count (value : Nat)

variable {τ : Type} [LinearOrder τ] [Add τ] [Zero τ]

def wrap {ρ : Type} (f : ρ → Reply) (result : Except StoreError ρ × Store τ) :
    Except StoreError Reply × Store τ :=
  (result.1.map f, result.2)

/-- Carry out one call. -/
def Op.run : Op τ → Store τ → Except StoreError Reply × Store τ
  | .acceptUpdate payload retention now, s => wrap .accepted (JobStore.acceptUpdate payload retention now s)
  | .acquireWorker owner lease now, s => wrap .bool (JobStore.acquireWorker owner lease now s)
  | .renewWorker owner lease now, s => wrap .bool (JobStore.renewWorker owner lease now s)
  | .releaseWorker owner, s => wrap (fun _ => .none) (JobStore.releaseWorker owner s)
  | .claimRecoverableJobs owner limit lease now, s =>
    wrap .jobs (JobStore.claimRecoverableJobs owner limit lease now s)
  | .renewClaim job owner lease now, s => wrap .bool (JobStore.renewClaim job owner lease now s)
  | .checkpoint job value owner now, s => wrap .bool (JobStore.checkpoint job value owner now s)
  | .complete job owner now, s => wrap .bool (JobStore.complete job owner now s)
  | .fail job error owner now, s => wrap .bool (JobStore.fail job error owner now s)
  | .recordDelivery job outcome item delivery now, s =>
    wrap .outcome (JobStore.recordDelivery job outcome item delivery now s)
  | .beginDeliveryAttempts job items owner now sqlFails, s =>
    wrap .bool (JobStore.beginDeliveryAttempts job items owner now sqlFails s)
  | .finalizeDeliveryAttempt job item outcome owner delivery now, s =>
    wrap .bool (JobStore.finalizeDeliveryAttempt job item outcome owner delivery now s)
  | .beginRetryToken token now, s => wrap .bool (beginRetryTokenSync token now s)
  | .supersedeFailedJob job successor owner now, s =>
    wrap .bool (supersedeFailedJobSync job successor owner now s)
  | .requeueFailedDeliveries limit now, s =>
    wrap .count (JobStore.requeueFailedDeliveries limit now s)
  | .purgeExpiredPayloads now limit, s => wrap .count (JobStore.purgeExpiredPayloads now limit s)
  | .writeProbe now, s => wrap (fun _ => .none) (writeProbeSync now s)
  | .aborted, s => (.error .sqliteError, s)

/-- Any caller may make any call at any time. -/
def machine (τ : Type) [LinearOrder τ] [Add τ] [Zero τ] : Machine (Store τ) (Op τ) :=
  ⟨fun s op => some (op.run s).2⟩

theorem machine_step {s s' : Store τ} {op : Op τ} :
    (machine τ).step s op = some s' ↔ (op.run s).2 = s' := by
  simp only [machine, Option.some.injEq]

theorem machine_run (s : Store τ) (ops : List (Op τ)) :
    (machine τ).run s ops = some (ops.foldl (fun s op => (op.run s).2) s) := by
  induction ops generalizing s with
  | nil => rfl
  | cons op ops ih => exact ih (op.run s).2

section Wrappers

variable {ρ : Type}

omit [LinearOrder τ] [Add τ] [Zero τ] in
@[simp] theorem wrap_snd (f : ρ → Reply) (result : Except StoreError ρ × Store τ) :
    (wrap f result).2 = result.2 := rfl

omit [LinearOrder τ] [Add τ] [Zero τ] in
theorem wrap_fst (f : ρ → Reply) (result : Except StoreError ρ × Store τ) :
    (wrap f result).1 = result.1.map f := rfl

omit [LinearOrder τ] [Add τ] [Zero τ] in
theorem checked_snd (P : Store τ → Prop) {check : Except StoreError Unit}
    {method : Store τ → Except StoreError ρ × Store τ} {s : Store τ} (hs : P s)
    (hm : P (method s).2) : P (checked check method s).2 := by
  cases check with
  | ok u => exact hm
  | error e => exact hs

omit [LinearOrder τ] [Add τ] [Zero τ] in
theorem transaction_snd (P : Store τ → Prop)
    {body : Store τ → Except StoreError (ρ × Store τ)} {s : Store τ} (hs : P s)
    (hbody : ∀ reply s', body s = .ok (reply, s') → P s') : P (transaction body s).2 := by
  unfold transaction
  cases h : body s with
  | ok result => exact hbody result.1 result.2 h
  | error e => exact hs

end Wrappers

/-- The lease is free, expired or the claimer's own. -/
def leaseGrantable (s : Store τ) (ownerId : String) (now : τ) : Prop :=
  ∀ lease, s.workerLease = some lease → lease.ownerId = ownerId ∨ lease.expiresAt ≤ now

/-- What a call can turn an existing job row into. -/
inductive JobChange (s : Store τ) : Op τ → JobRow τ → JobRow τ → Prop
  | claimed {owner : String} {limit : Int} {lease now : τ} {r : JobRow τ}
      (grantable : leaseGrantable s owner now) (selected : recoverable s now r) :
      JobChange s (.claimRecoverableJobs owner limit lease now) r (claimedRow owner lease now r)
  | renewed {owner : String} {lease now : τ} {r : JobRow τ}
      (running : r.state = .running) (live : r.claimLive owner now) :
      JobChange s (.renewClaim r.jobId owner lease now) r (renewedRow lease now r)
  | checkpointed {value : Option JsonObject} {owner : Option String} {now : τ} {r : JobRow τ}
      (source : r.state ∈ [.accepted, .running, .checkpointed]) (guard : ownerGuard s owner now r) :
      JobChange s (.checkpoint r.jobId value owner now) r
        (transitionedRow .checkpointed value none now r)
  | completed {owner : Option String} {now : τ} {r : JobRow τ}
      (source : r.state ∈ [.running, .checkpointed, .accepted]) (guard : ownerGuard s owner now r) :
      JobChange s (.complete r.jobId owner now) r (transitionedRow .completed none none now r)
  | failed {error : String} {owner : Option String} {now : τ} {r : JobRow τ}
      (source : r.state ∈ [.running, .checkpointed, .accepted]) (guard : ownerGuard s owner now r) :
      JobChange s (.fail r.jobId error owner now) r
        (transitionedRow .failed none (some (error.take 2000).toString) now r)
  | superseded {job successor owner : String} {now : τ} {r : JobRow τ}
      (live : ownsLiveJob s successor owner now) (other : r.jobId ≠ successor)
      (source : r.state = .failed ∨ r.state = .checkpointed)
      (safe : hasUnsafeDeliveries s r.jobId = false) :
      JobChange s (.supersedeFailedJob job successor owner now) r (supersededRow successor now r)
  | requeued {limit : Int} {now : τ} {r : JobRow τ} (selected : requeueSelected s r) :
      JobChange s (.requeueFailedDeliveries limit now) r (requeuedRow now r)
  | purged {now : τ} {limit : Int} {r : JobRow τ} (selected : purgeSelected s now r)
      (fits : fitsInteger limit.toNat) (listed : r.jobId ∈ purgedIds s now limit.toNat) :
      JobChange s (.purgeExpiredPayloads now limit) r (purgedRow r)

/-- The job rows a call leaves behind, one job at a time. -/
def JobsStep (s : Store τ) (op : Op τ) (s' : Store τ) (jobId : String) : Prop :=
  s'.jobs.lookup jobId = s.jobs.lookup jobId ∨
  (∃ r r', s.jobs.lookup jobId = some r ∧ s'.jobs.lookup jobId = some r' ∧ JobChange s op r r') ∨
  (∃ payload retention now updateId minimal, op = .acceptUpdate payload retention now ∧
    minimalUpdatePayload payload = .ok (updateId, minimal) ∧ jobId = str updateId ∧
    s.jobs.lookup jobId = none ∧
    s'.jobs.lookup jobId = some (acceptedRow updateId minimal retention now))

omit [Zero τ] in
private theorem JobsStep.of_eq {s s' : Store τ} {op : Op τ} (jobId : String)
    (h : s'.jobs = s.jobs) : JobsStep s op s' jobId :=
  .inl (by rw [h])

omit [Zero τ] in
private theorem JobsStep.of_update {s s' : Store τ} {op : Op τ} (jobId : String)
    {p : JobRow τ → Bool} {f : JobRow τ → JobRow τ}
    (h : s'.jobs.rows = s.jobs.rows.map fun r => if p r then f r else r)
    (hf : ∀ r, (f r).jobId = r.jobId)
    (change : ∀ r ∈ s.jobs.rows, p r → JobChange s op r (f r)) : JobsStep s op s' jobId := by
  have hlookup : s'.jobs.lookup jobId = (s.jobs.lookup jobId).map fun r => if p r then f r else r := by
    rw [← s.jobs.lookup_update p f hf jobId]
    simp only [Table.lookup, h, Table.update]
  cases hr : s.jobs.lookup jobId with
  | none => exact .inl (by rw [hlookup, hr, Option.map_none])
  | some r =>
    rw [hr, Option.map_some] at hlookup
    cases hp : p r with
    | true =>
      rw [hp, if_pos rfl] at hlookup
      exact .inr (.inl ⟨r, f r, hr, hlookup, change r (Table.mem_of_lookup hr) hp⟩)
    | false =>
      rw [hp, if_neg (by simp)] at hlookup
      exact .inl (by rw [hlookup, hr])

section Jobs

omit [Zero τ] [LinearOrder τ] in
theorem acceptUpdate_cases (payload : JsonObject) (retention now : τ) (s : Store τ) :
    (∃ error, acceptUpdate payload retention now s = (.error error, s)) ∨
    ∃ updateId minimal, minimalUpdatePayload payload = .ok (updateId, minimal) ∧
      ((∃ r, s.jobs.lookup (str updateId) = some r ∧
        acceptUpdate payload retention now s = (.ok ⟨rowToJob r, false⟩, s)) ∨
      (s.jobs.lookup (str updateId) = none ∧
        acceptUpdate payload retention now s =
          (.ok ⟨rowToJob (acceptedRow updateId minimal retention now), true⟩,
            { s with
              jobs := s.jobs.upsert (acceptedRow updateId minimal retention now) id
                fun _ => rfl }))) := by
  unfold acceptUpdate
  cases hm : minimalUpdatePayload payload with
  | error e => exact .inl ⟨e, rfl⟩
  | ok result =>
    obtain ⟨updateId, minimal⟩ := result
    have hid : (acceptedRow updateId minimal retention now).jobId = str updateId := rfl
    simp only [acceptUpdateSync, transaction]
    by_cases hfit : fitsInteger updateId
    · cases hr : s.jobs.lookup (str updateId) with
      | some r => exact .inr ⟨updateId, minimal, rfl, .inl ⟨r, hr, by simp [hfit, hid, hr]⟩⟩
      | none => exact .inr ⟨updateId, minimal, rfl, .inr ⟨hr, by simp [hfit, hid, hr]⟩⟩
    · exact .inl ⟨.overflowError, by simp [hfit]⟩

omit [LinearOrder τ] [Zero τ] in
theorem lookup_accepted {updateId : Int} {s : Store τ} (minimal : JsonObject) (retention now : τ)
    (hnone : s.jobs.lookup (str updateId) = none) (jobId : String) :
    (s.jobs.upsert (acceptedRow updateId minimal retention now) id fun _ => rfl).lookup jobId =
      if jobId = str updateId then some (acceptedRow updateId minimal retention now)
      else s.jobs.lookup jobId := by
  rw [Table.lookup_upsert]
  change (if jobId = str updateId then _ else _) = _
  by_cases hj : jobId = str updateId
  · subst hj
    rw [if_pos rfl, if_pos rfl, hnone]
    rfl
  · rw [if_neg hj, if_neg hj]

omit [Zero τ] in
private theorem acceptUpdate_jobs (payload : JsonObject) (retention now : τ) (s : Store τ)
    (jobId : String) :
    JobsStep s (.acceptUpdate payload retention now) (acceptUpdate payload retention now s).2
      jobId := by
  rcases acceptUpdate_cases payload retention now s with
    ⟨error, h⟩ | ⟨updateId, minimal, hm, ⟨r, -, h⟩ | ⟨hnone, h⟩⟩
  · rw [h]
    exact .of_eq jobId rfl
  · rw [h]
    exact .of_eq jobId rfl
  · rw [h]
    have hlookup := lookup_accepted minimal retention now hnone jobId
    by_cases hj : jobId = str updateId
    · subst hj
      rw [if_pos rfl] at hlookup
      exact .inr (.inr ⟨payload, retention, now, updateId, minimal, rfl, hm, rfl, hnone, hlookup⟩)
    · rw [if_neg hj] at hlookup
      exact .inl hlookup

omit [Zero τ] in
theorem acquireWorkerInTransaction_eq (owner : String) (lease now : τ) (s : Store τ) :
    ∃ held, (acquireWorkerInTransaction owner lease now s).2 = { s with workerLease := held } := by
  unfold acquireWorkerInTransaction
  split
  · exact ⟨_, rfl⟩
  · split
    · exact ⟨_, rfl⟩
    · exact ⟨s.workerLease, rfl⟩

omit [Zero τ] in
theorem acquireWorkerInTransaction_of_grantable {owner : String} {now : τ} {s : Store τ}
    (lease : τ) (h : leaseGrantable s owner now) :
    acquireWorkerInTransaction owner lease now s =
      (true, { s with workerLease := some ⟨owner, now + lease⟩ }) := by
  unfold acquireWorkerInTransaction
  cases hheld : s.workerLease with
  | none => rfl
  | some held => simp [h held hheld]

omit [Zero τ] in
theorem acquireWorkerInTransaction_of_not_grantable {owner : String} {now : τ} {s : Store τ}
    (lease : τ) (h : ¬ leaseGrantable s owner now) :
    acquireWorkerInTransaction owner lease now s = (false, s) := by
  unfold leaseGrantable at h
  push Not at h
  obtain ⟨held, hheld, hother, hlive⟩ := h
  simp [acquireWorkerInTransaction, hheld, hother, hlive]

section Claim

variable (owner : String) (limit : Nat) (lease now : τ) (s : Store τ)

omit [Add τ] [Zero τ] in
def claimedIds : List String := (claimCandidates s limit now).map JobRow.jobId

omit [Zero τ] in
/-- The job table a granted claim leaves behind. -/
def claimedJobs : Table (JobRow.jobId (τ := τ)) :=
  s.jobs.update (fun r => r.jobId ∈ claimedIds limit now s) (claimedRow owner lease now)
    (claimedRow_jobId owner lease now)

omit [Zero τ] in
/-- The rows a granted claim reads back. -/
def claimedRows : List (JobRow τ) :=
  (claimedJobs owner limit lease now s).select (fun r => r.jobId ∈ claimedIds limit now s)
    claimOrder s.jobs.rows.length

variable {owner limit lease now s}

omit [Zero τ] in
theorem claim_of_grantable (h : leaseGrantable s owner now) (hfits : fitsInteger limit)
    (hbound : bindable 3 (claimedIds limit now s)) :
    claimRecoverableJobsSync owner limit lease now s =
      (.ok ((claimedRows owner limit lease now s).map rowToJob),
        { s with
          workerLease := some ⟨owner, now + lease⟩
          jobs := claimedJobs owner limit lease now s }) := by
  simp only [claimRecoverableJobsSync, transaction,
    acquireWorkerInTransaction_of_grantable lease h]
  have hids : (claimCandidates { s with workerLease := some ⟨owner, now + lease⟩ } limit now).map
      JobRow.jobId = claimedIds limit now s := rfl
  rw [hids]
  by_cases hnone : claimedIds limit now s = []
  · have hjobs : claimedJobs owner limit lease now s = s.jobs :=
      Table.update_eq_self fun r _ => by simp [hnone]
    have hrows : claimedRows owner limit lease now s = [] := by
      apply List.eq_nil_iff_forall_not_mem.mpr
      intro r hr
      have := (Table.mem_of_mem_select hr).2
      simp [hnone] at this
    simp only [hfits, hnone, not_true, if_true, if_false, hjobs, hrows, List.map_nil]
  · simp only [hfits, hbound, hnone, not_true, if_false, claimedRows, claimedJobs, Table.update,
      List.length_map]

omit [Zero τ] in
variable (lease) in
/-- A statement that does not take its parameters raises, and the lease is rolled back, too. -/
theorem claim_of_not_bound (h : leaseGrantable s owner now)
    (hnot : ¬ (fitsInteger limit ∧ bindable 3 (claimedIds limit now s))) :
    ∃ error, claimRecoverableJobsSync owner limit lease now s = (.error error, s) := by
  simp only [claimRecoverableJobsSync, transaction,
    acquireWorkerInTransaction_of_grantable lease h]
  have hids : (claimCandidates { s with workerLease := some ⟨owner, now + lease⟩ } limit now).map
      JobRow.jobId = claimedIds limit now s := rfl
  rw [hids]
  by_cases hfits : fitsInteger limit
  · have hbound : ¬ bindable 3 (claimedIds limit now s) := fun hbound => hnot ⟨hfits, hbound⟩
    have hsome : claimedIds limit now s ≠ [] := by
      intro hnone
      simp [hnone, bindable, maxVariableNumber] at hbound
    exact ⟨.sqliteError, by simp [hfits, hsome, hbound]⟩
  · exact ⟨.overflowError, by simp [hfits]⟩

omit [Zero τ] in
theorem claim_of_not_grantable (h : ¬ leaseGrantable s owner now) :
    claimRecoverableJobsSync owner limit lease now s = (.ok [], s) := by
  simp only [claimRecoverableJobsSync, transaction,
    acquireWorkerInTransaction_of_not_grantable lease h]

omit [Add τ] [Zero τ] in
theorem mem_claimedIds {jobId : String} :
    jobId ∈ claimedIds limit now s ↔
      ∃ r ∈ claimCandidates s limit now, s.jobs.lookup jobId = some r := by
  constructor
  · intro h
    obtain ⟨r, hr, rfl⟩ := List.mem_map.mp h
    exact ⟨r, hr, Table.lookup_of_mem (Table.mem_of_mem_select hr).1⟩
  · rintro ⟨r, hr, hlookup⟩
    exact List.mem_map.mpr ⟨r, hr, Table.key_of_lookup hlookup⟩

omit [Zero τ] in
theorem lookup_claimedJobs (owner : String) (limit : Nat) (lease now : τ) (s : Store τ)
    (jobId : String) :
    (claimedJobs owner limit lease now s).lookup jobId =
      if jobId ∈ claimedIds limit now s then (s.jobs.lookup jobId).map (claimedRow owner lease now)
      else s.jobs.lookup jobId := by
  rw [claimedJobs, Table.lookup_update]
  cases hr : s.jobs.lookup jobId with
  | none => simp
  | some r =>
    have hid : r.jobId = jobId := Table.key_of_lookup hr
    by_cases hmem : jobId ∈ claimedIds limit now s <;> simp [hid, hmem]

omit [Zero τ] in
theorem mem_claimedRows_ids {jobId : String} :
    jobId ∈ (claimedRows owner limit lease now s).map JobRow.jobId ↔
      jobId ∈ claimedIds limit now s := by
  have hlen : (claimedJobs owner limit lease now s).rows.length ≤ s.jobs.rows.length := by
    simp [claimedJobs, Table.update]
  constructor
  · intro h
    obtain ⟨r, hr, rfl⟩ := List.mem_map.mp h
    exact of_decide_eq_true ((Table.mem_select_of_le hlen).mp hr).2
  · intro h
    obtain ⟨r, hr, hlookup⟩ := mem_claimedIds.mp h
    have hclaimed := lookup_claimedJobs owner limit lease now s jobId
    rw [if_pos h, hlookup, Option.map_some] at hclaimed
    refine List.mem_map.mpr ⟨_, (Table.mem_select_of_le hlen).mpr
      ⟨Table.mem_of_lookup hclaimed, ?_⟩, Table.key_of_lookup hclaimed⟩
    rw [Table.key_of_lookup hclaimed]
    exact decide_eq_true h

omit [Zero τ] in
theorem length_claimedRows_le :
    (claimedRows owner limit lease now s).length ≤ (claimedIds limit now s).length := by
  have hnodup : ((claimedRows owner limit lease now s).map JobRow.jobId).Nodup :=
    Table.select_keys_nodup _ _ _ _
  have hsubset : (claimedRows owner limit lease now s).map JobRow.jobId ⊆ claimedIds limit now s :=
    fun _ hmem => mem_claimedRows_ids.mp hmem
  have hle := (hnodup.subperm hsubset).length_le
  rwa [List.length_map] at hle

theorem length_records_of_claim {owner : String} {limit : Int} {lease now : τ} {s : Store τ}
    {records : List JobRecord}
    (h : ((Op.claimRecoverableJobs owner limit lease now).run s).1 = .ok (.jobs records)) :
    records = [] ∨ bindable 3 (claimedIds limit.toNat now s) ∧
      records.length = (claimedRows owner limit.toNat lease now s).length := by
  simp only [Op.run, wrap_fst, claimRecoverableJobs, checked] at h
  cases hcheck : validateOwner owner *> validateLease lease *> validateLimit limit with
  | error error => simp [hcheck, Except.map] at h
  | ok u =>
    simp only [hcheck] at h
    by_cases hgrant : leaseGrantable s owner now
    · by_cases hnot : ¬ (fitsInteger limit.toNat ∧ bindable 3 (claimedIds limit.toNat now s))
      · obtain ⟨error, herror⟩ := claim_of_not_bound lease hgrant hnot
        simp [herror, Except.map] at h
      · obtain ⟨hfits, hbound⟩ := not_not.mp hnot
        simp only [claim_of_grantable hgrant hfits hbound, Except.map, Except.ok.injEq,
          Reply.jobs.injEq] at h
        rw [← h]
        exact .inr ⟨hbound, List.length_map _⟩
    · simp only [claim_of_not_grantable hgrant, Except.map, Except.ok.injEq, Reply.jobs.injEq] at h
      exact .inl h.symm

end Claim

omit [Zero τ] in
/-- A claim raises, or takes exactly the jobs whose records it returns. -/
theorem claim_cases (owner : String) (limit : Nat) (lease now : τ) (s : Store τ) :
    (∃ error, claimRecoverableJobsSync owner limit lease now s = (.error error, s)) ∨
    ∃ records, (claimRecoverableJobsSync owner limit lease now s).1 = .ok records ∧ ∀ jobId,
      (jobId ∉ records.map JobRecord.id ∧
        (claimRecoverableJobsSync owner limit lease now s).2.jobs.lookup jobId =
          s.jobs.lookup jobId) ∨
      (jobId ∈ records.map JobRecord.id ∧ leaseGrantable s owner now ∧
        ∃ r, s.jobs.lookup jobId = some r ∧ recoverable s now r ∧
          (claimRecoverableJobsSync owner limit lease now s).2.jobs.lookup jobId =
            some (claimedRow owner lease now r)) := by
  by_cases hgrant : leaseGrantable s owner now
  · by_cases hnot : ¬ (fitsInteger limit ∧ bindable 3 (claimedIds limit now s))
    · exact .inl (claim_of_not_bound lease hgrant hnot)
    obtain ⟨hfits, hbound⟩ := not_not.mp hnot
    rw [claim_of_grantable hgrant hfits hbound]
    refine .inr ⟨_, rfl, ?_⟩
    intro jobId
    have hids : ((claimedRows owner limit lease now s).map rowToJob).map JobRecord.id =
        (claimedRows owner limit lease now s).map JobRow.jobId := by
      rw [List.map_map]
      rfl
    have hlookup := lookup_claimedJobs owner limit lease now s jobId
    rw [hids, mem_claimedRows_ids]
    by_cases hmem : jobId ∈ claimedIds limit now s
    · obtain ⟨r, hr, hrow⟩ := mem_claimedIds.mp hmem
      rw [if_pos hmem, hrow, Option.map_some] at hlookup
      exact .inr ⟨hmem, hgrant, r, hrow, (Table.mem_of_mem_select hr).2, hlookup⟩
    · rw [if_neg hmem] at hlookup
      exact .inl ⟨hmem, hlookup⟩
  · rw [claim_of_not_grantable hgrant]
    exact .inr ⟨[], rfl, fun jobId => .inl ⟨by simp, rfl⟩⟩

omit [Zero τ] in
private theorem claim_jobs (owner : String) (limit : Int) (lease now : τ) (s : Store τ)
    (jobId : String) :
    JobsStep s (.claimRecoverableJobs owner limit lease now)
      (claimRecoverableJobsSync owner limit.toNat lease now s).2 jobId := by
  rcases claim_cases owner limit.toNat lease now s with ⟨error, herror⟩ | ⟨records, -, hcases⟩
  · rw [herror]
    exact .of_eq jobId rfl
  rcases hcases jobId with ⟨-, hsame⟩ | ⟨-, hgrant, r, hrow, hselected, hclaimed⟩
  · exact .inl hsame
  · exact .inr (.inl ⟨r, _, hrow, hclaimed, .claimed hgrant hselected⟩)

omit [Zero τ] in
private theorem renewClaim_jobs (job owner : String) (lease now : τ) (s : Store τ)
    (jobId : String) :
    JobsStep s (.renewClaim job owner lease now) (renewClaimSync job owner lease now s).2 jobId := by
  simp only [renewClaimSync, transaction]
  refine JobsStep.of_update jobId rfl (fun _ => rfl) ?_
  intro r _ hp
  simp only [Bool.and_eq_true, decide_eq_true_eq] at hp
  obtain ⟨rfl, ⟨hrun, hlive⟩, -⟩ := hp
  exact .renewed hrun hlive

omit [Zero τ] in
private theorem transition_jobs {op : Op τ} {job : String} {state : JobState}
    {value : Option JsonObject} {error : Option String} {now : τ} {sources : List JobState}
    {owner : Option String} (s : Store τ) (jobId : String)
    (change : ∀ r : JobRow τ, r.jobId = job → r.state ∈ sources → ownerGuard s owner now r →
      JobChange s op r (transitionedRow state value error now r)) :
    JobsStep s op (transitionSync job state value error now sources owner s).2 jobId := by
  simp only [transitionSync, transaction]
  refine JobsStep.of_update jobId rfl (fun _ => rfl) ?_
  intro r _ hp
  simp only [Bool.and_eq_true, decide_eq_true_eq] at hp
  exact change r hp.1 hp.2.1 hp.2.2

omit [LinearOrder τ] [Add τ] [Zero τ] in
/-- What the `while` loop commits: nothing, or the retirement of the last job of the chain. -/
theorem supersedeLoop_cases {s s' : Store τ} {successor : String} {now : τ} {fuel : Nat}
    {visited : List String} {jobId : String} {reply : Bool}
    (h : supersedeLoop s successor now fuel visited jobId = some (reply, s')) :
    s' = s ∨ (reply = true ∧ ∃ r, r ∈ s.jobs.rows ∧ r.jobId ≠ successor ∧
      (r.state = .failed ∨ r.state = .checkpointed) ∧ hasUnsafeDeliveries s r.jobId = false ∧
      s' = { s with
        jobs := s.jobs.update (fun x => x.jobId = r.jobId) (supersededRow successor now)
          (supersededRow_jobId successor now) }) := by
  induction fuel generalizing visited jobId with
  | zero => simp [supersedeLoop] at h
  | succ fuel ih =>
    rw [supersedeLoop] at h
    split at h
    · exact .inl (Prod.mk.inj (Option.some.inj h)).2.symm
    rename_i hother
    split at h
    · exact .inl (Prod.mk.inj (Option.some.inj h)).2.symm
    split at h
    · exact .inl (Prod.mk.inj (Option.some.inj h)).2.symm
    rename_i r hr
    have hid := Table.key_of_lookup hr
    split at h
    · exact .inl (Prod.mk.inj (Option.some.inj h)).2.symm
    rename_i hsafe
    split at h
    · split at h
      · exact ih h
      · exact .inl (Prod.mk.inj (Option.some.inj h)).2.symm
    split at h
    · exact .inl (Prod.mk.inj (Option.some.inj h)).2.symm
    rename_i hstate
    simp only [Option.some.injEq, Prod.mk.injEq] at h
    obtain ⟨rfl, rfl⟩ := h
    subst hid
    refine .inr ⟨rfl, r, Table.mem_of_lookup hr, hother, ?_, by simpa using hsafe, rfl⟩
    by_contra hcon
    rw [not_or] at hcon
    exact hstate hcon

omit [Zero τ] in
private theorem supersede_jobs (job successor owner : String) (now : τ) (s : Store τ)
    (jobId : String) :
    JobsStep s (.supersedeFailedJob job successor owner now)
      (supersedeFailedJobSync job successor owner now s).2 jobId := by
  simp only [supersedeFailedJobSync, transaction]
  by_cases hlive : ownsLiveJob s successor owner now
  · simp only [hlive, not_true_eq_false, if_false]
    cases hloop : supersedeLoop s successor now (s.jobs.rows.length + 1) [] job with
    | none => exact .of_eq jobId rfl
    | some result =>
      obtain ⟨reply, s'⟩ := result
      rcases supersedeLoop_cases hloop with rfl | ⟨-, r, hr, hother, hstate, hsafe, rfl⟩
      · exact .of_eq jobId rfl
      · refine JobsStep.of_update jobId rfl (fun _ => rfl) ?_
        intro x hx hp
        have hxr : x = r := Table.eq_of_key hx hr (of_decide_eq_true hp)
        subst hxr
        exact .superseded hlive hother hstate hsafe
  · simpa [hlive] using JobsStep.of_eq jobId rfl

omit [Zero τ] in
private theorem requeue_jobs (limit : Int) (now : τ) (s : Store τ) (jobId : String) :
    JobsStep s (.requeueFailedDeliveries limit now)
      (requeueFailedDeliveriesSync limit.toNat now s).2 jobId := by
  unfold requeueFailedDeliveriesSync
  refine transaction_snd (fun s' => JobsStep s _ s' jobId) (.of_eq jobId rfl) ?_
  intro reply s' hbody
  dsimp only at hbody
  split at hbody
  · cases hbody
  split at hbody
  · cases hbody
  obtain ⟨-, rfl⟩ := Prod.mk.inj (Except.ok.inj hbody)
  refine JobsStep.of_update jobId rfl (fun _ => rfl) ?_
  intro r hr hp
  simp only [Bool.and_eq_true, decide_eq_true_eq] at hp
  obtain ⟨r', hr', hid⟩ := List.mem_map.mp hp.1
  obtain ⟨hmem, hsel⟩ := Table.mem_of_mem_select hr'
  refine .requeued ?_
  simp only [requeueSelected, Bool.and_eq_true, decide_eq_true_eq] at hsel ⊢
  exact ⟨hp.2, hid ▸ hsel.2⟩

omit [Zero τ] in
private theorem purge_jobs (now : τ) (limit : Int) (s : Store τ) (jobId : String) :
    JobsStep s (.purgeExpiredPayloads now limit)
      (purgeExpiredPayloadsSync now limit.toNat s).2 jobId := by
  unfold purgeExpiredPayloadsSync
  refine transaction_snd (fun s' => JobsStep s _ s' jobId) (.of_eq jobId rfl) ?_
  intro reply s' hbody
  dsimp only at hbody
  split at hbody
  · cases hbody
  next hfits =>
  obtain ⟨-, rfl⟩ := Prod.mk.inj (Except.ok.inj hbody)
  refine JobsStep.of_update jobId rfl (fun _ => rfl) ?_
  intro r hr hp
  obtain ⟨r', hr', hid⟩ := List.mem_map.mp (of_decide_eq_true hp)
  obtain ⟨hmem, hsel⟩ := Table.mem_of_mem_select hr'
  exact .purged (Table.eq_of_key hmem hr hid ▸ hsel) (not_not.mp hfits) (of_decide_eq_true hp)

end Jobs

section Frames

omit [Zero τ] in
theorem renewWorker_frame (owner : String) (lease now : τ) (s : Store τ) :
    ∃ held, (renewWorkerSync owner lease now s).2 = { s with workerLease := held } := by
  simp only [renewWorkerSync, transaction]
  by_cases h : holdsLiveLease s owner now
  · exact ⟨some ⟨owner, now + lease⟩, by simp [h]⟩
  · exact ⟨s.workerLease, by simp [h]⟩

omit [LinearOrder τ] [Add τ] [Zero τ] in
theorem reserveItem_frame (job item owner : String) (now : τ) (s : Store τ) :
    ∃ table, (reserveItem job item owner now s).2 = { s with deliveries := table } := by
  unfold reserveItem
  split
  · exact ⟨_, rfl⟩
  · split
    · exact ⟨_, rfl⟩
    · exact ⟨s.deliveries, rfl⟩

omit [LinearOrder τ] [Add τ] [Zero τ] in
theorem reserveItems_frame {sqlFails : Nat → Bool} {job owner : String} {now : τ} {i : Nat}
    {items : List String} {s s' : Store τ}
    (h : reserveItems sqlFails job owner now i items s = .ok s') :
    ∃ table, s' = { s with deliveries := table } := by
  induction items generalizing i s with
  | nil => exact ⟨s.deliveries, (Except.ok.inj h).symm⟩
  | cons item items ih =>
    rw [reserveItems] at h
    split at h
    · exact absurd h (by simp)
    split at h
    · rename_i s₁ hitem
      obtain ⟨table, hs₁⟩ := reserveItem_frame job item owner now s
      obtain ⟨table', hs'⟩ := ih h
      rw [hitem] at hs₁
      dsimp only at hs₁
      exact ⟨table', by rw [hs', hs₁]⟩
    · exact absurd h (by simp)

omit [Add τ] [Zero τ] in
private theorem beginDeliveryAttempts_frame (job : String) (items : List String) (owner : String)
    (now : τ) (sqlFails : Nat → Bool) (s : Store τ) :
    ∃ table, (beginDeliveryAttemptsSync job items owner now sqlFails s).2 =
      { s with deliveries := table } := by
  unfold beginDeliveryAttemptsSync
  refine transaction_snd (fun s' => ∃ table, s' = { s with deliveries := table })
    ⟨s.deliveries, rfl⟩ ?_
  intro reply s' h
  split at h
  · exact ⟨s.deliveries, (Prod.mk.inj (Except.ok.inj h)).2.symm⟩
  split at h
  · exact ⟨s.deliveries, (Prod.mk.inj (Except.ok.inj h)).2.symm⟩
  cases hr : reserveItems sqlFails job owner now 0 items s with
  | error e => simp [hr, Except.map] at h
  | ok s₁ =>
    simp only [hr, Except.map, Except.ok.injEq, Prod.mk.injEq] at h
    exact h.2 ▸ reserveItems_frame hr

omit [Add τ] [Zero τ] in
private theorem finalizeDeliveryAttempt_frame (job item : String) (outcome : DeliveryOutcome)
    (owner : String) (delivery : Option String) (now : τ) (s : Store τ) :
    ∃ table, (finalizeDeliveryAttemptSync job item outcome owner delivery now s).2 =
      { s with deliveries := table } := by
  simp only [finalizeDeliveryAttemptSync, transaction]
  by_cases h : ownsLiveJob s job owner now
  · simp only [h, not_true_eq_false, if_false]
    exact ⟨_, rfl⟩
  · exact ⟨s.deliveries, by simp [h]⟩

omit [LinearOrder τ] [Add τ] [Zero τ] in
private theorem recordDelivery_frame (job item : String) (outcome : DeliveryOutcome)
    (delivery : Option String) (now : τ) (s : Store τ) :
    ∃ table, (recordDeliverySync job item outcome delivery now s).2 =
      { s with deliveries := table } := by
  unfold recordDeliverySync
  refine transaction_snd (fun s' => ∃ table, s' = { s with deliveries := table })
    ⟨s.deliveries, rfl⟩ ?_
  intro reply s' h
  dsimp only at h
  split at h
  · exact ⟨_, (Prod.mk.inj (Except.ok.inj h)).2.symm⟩
  · exact absurd h (by simp)

omit [LinearOrder τ] [Add τ] [Zero τ] in
private theorem beginRetryToken_frame (token : String) (now : τ) (s : Store τ) :
    ∃ table, (beginRetryTokenSync token now s).2 = { s with deliveries := table } := by
  unfold beginRetryTokenSync
  refine transaction_snd (fun s' => ∃ table, s' = { s with deliveries := table })
    ⟨s.deliveries, rfl⟩ ?_
  intro reply s' h
  dsimp only at h
  split at h
  · exact ⟨_, (Prod.mk.inj (Except.ok.inj h)).2.symm⟩
  split at h
  · exact ⟨_, (Prod.mk.inj (Except.ok.inj h)).2.symm⟩
  · exact ⟨s.deliveries, (Prod.mk.inj (Except.ok.inj h)).2.symm⟩

omit [Add τ] [Zero τ] in
theorem writeProbe_frame (now : τ) (s : Store τ) :
    ∃ generation, (writeProbeSync now s).2 = { s with healthProbe := generation } := by
  simp only [writeProbeSync, transaction]
  by_cases h : s.workerLease.any fun lease => now < lease.expiresAt
  · exact ⟨s.healthProbe + 1, by simp [h]⟩
  · exact ⟨s.healthProbe, by simp [h]⟩

omit [Add τ] [Zero τ] in
theorem requeueFailedDeliveries_frame (limit : Nat) (now : τ) (s : Store τ) :
    ∃ jobs, (requeueFailedDeliveriesSync limit now s).2 = { s with jobs := jobs } := by
  unfold requeueFailedDeliveriesSync
  refine transaction_snd (fun s' => ∃ jobs, s' = { s with jobs := jobs }) ⟨s.jobs, rfl⟩ ?_
  intro reply s' hbody
  dsimp only at hbody
  split at hbody
  · cases hbody
  split at hbody
  · cases hbody
  · exact ⟨_, (Prod.mk.inj (Except.ok.inj hbody)).2.symm⟩

omit [Add τ] [Zero τ] in
theorem purgeExpiredPayloads_frame (now : τ) (limit : Nat) (s : Store τ) :
    ∃ jobs, (purgeExpiredPayloadsSync now limit s).2 = { s with jobs := jobs } := by
  unfold purgeExpiredPayloadsSync
  refine transaction_snd (fun s' => ∃ jobs, s' = { s with jobs := jobs }) ⟨s.jobs, rfl⟩ ?_
  intro reply s' hbody
  dsimp only at hbody
  split at hbody
  · cases hbody
  · exact ⟨_, (Prod.mk.inj (Except.ok.inj hbody)).2.symm⟩

end Frames

/-- Every call does to every job row what `JobsStep` says. -/
theorem jobs_step (s : Store τ) (op : Op τ) (jobId : String) :
    JobsStep s op (op.run s).2 jobId := by
  have same {s' : Store τ} (h : s'.jobs = s.jobs) : JobsStep s op s' jobId := .of_eq jobId h
  cases op with
  | acceptUpdate payload retention now => exact acceptUpdate_jobs payload retention now s jobId
  | acquireWorker owner lease now =>
    obtain ⟨held, h⟩ := acquireWorkerInTransaction_eq owner lease now s
    have hsync : (acquireWorkerSync owner lease now s).2 = { s with workerLease := held } := h
    exact checked_snd (fun s' => JobsStep s _ s' jobId) (same rfl) (same (by rw [hsync]))
  | renewWorker owner lease now =>
    obtain ⟨held, h⟩ := renewWorker_frame owner lease now s
    exact checked_snd (fun s' => JobsStep s _ s' jobId) (same rfl) (same (by rw [h]))
  | releaseWorker owner =>
    exact checked_snd (fun s' => JobsStep s _ s' jobId) (same rfl) (same rfl)
  | claimRecoverableJobs owner limit lease now =>
    exact checked_snd (fun s' => JobsStep s _ s' jobId) (same rfl)
      (claim_jobs owner limit lease now s jobId)
  | renewClaim job owner lease now =>
    exact checked_snd (fun s' => JobsStep s _ s' jobId) (same rfl)
      (renewClaim_jobs job owner lease now s jobId)
  | checkpoint job value owner now =>
    exact transition_jobs s jobId fun r hid hsource hguard => hid ▸ .checkpointed hsource hguard
  | complete job owner now =>
    exact transition_jobs s jobId fun r hid hsource hguard => hid ▸ .completed hsource hguard
  | fail job error owner now =>
    exact transition_jobs s jobId fun r hid hsource hguard => hid ▸ .failed hsource hguard
  | recordDelivery job outcome item delivery now =>
    obtain ⟨table, h⟩ := recordDelivery_frame job item outcome delivery now s
    exact checked_snd (fun s' => JobsStep s _ s' jobId) (same rfl) (same (by rw [h]))
  | beginDeliveryAttempts job items owner now sqlFails =>
    obtain ⟨table, h⟩ := beginDeliveryAttempts_frame job items owner now sqlFails s
    exact checked_snd (fun s' => JobsStep s _ s' jobId) (same rfl) (same (by rw [h]))
  | finalizeDeliveryAttempt job item outcome owner delivery now =>
    obtain ⟨table, h⟩ := finalizeDeliveryAttempt_frame job item outcome owner delivery now s
    exact checked_snd (fun s' => JobsStep s _ s' jobId) (same rfl) (same (by rw [h]))
  | beginRetryToken token now =>
    obtain ⟨table, h⟩ := beginRetryToken_frame token now s
    exact same (by rw [Op.run, wrap_snd, h])
  | supersedeFailedJob job successor owner now =>
    exact supersede_jobs job successor owner now s jobId
  | requeueFailedDeliveries limit now =>
    exact checked_snd (fun s' => JobsStep s _ s' jobId) (same rfl)
      (requeue_jobs limit now s jobId)
  | purgeExpiredPayloads now limit =>
    exact checked_snd (fun s' => JobsStep s _ s' jobId) (same rfl)
      (purge_jobs now limit s jobId)
  | writeProbe now =>
    obtain ⟨generation, h⟩ := writeProbe_frame now s
    exact same (by rw [Op.run, wrap_snd, h])
  | aborted => exact same rfl

end YtdlBot.JobStore
