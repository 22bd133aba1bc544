import YtdlBot.JobStore.Schema

/-!
# Operations of the job store

Each definition is one method of `JobStore`. A method checks its arguments, reads the clock
(the reading is the argument `now`; it may be stale by the time the transaction runs) and runs
one `BEGIN IMMEDIATE` transaction, so other transactions are seen entirely or not at all.
-/

namespace YtdlBot.JobStore

open Framework

variable {τ : Type} [LinearOrder τ]

/-- `with self._transaction()`: a body that returns is committed, one that raises is rolled
back. -/
def transaction {ρ : Type} (body : Store τ → Except StoreError (ρ × Store τ)) (s : Store τ) :
    Except StoreError ρ × Store τ :=
  match body s with
  | .ok (reply, s') => (.ok reply, s')
  | .error error => (.error error, s)

/-- Run a method's argument checks before its transaction. -/
def checked {ρ : Type} (check : Except StoreError Unit)
    (method : Store τ → Except StoreError ρ × Store τ) (s : Store τ) :
    Except StoreError ρ × Store τ :=
  match check with
  | .ok () => method s
  | .error error => (.error error, s)

def validateOwner (ownerId : String) : Except StoreError Unit :=
  if ownerId = "" then .error (.valueError "owner_id must not be empty") else .ok ()

def validateLease [Zero τ] (leaseSeconds : τ) : Except StoreError Unit :=
  if leaseSeconds ≤ 0 then .error (.valueError "lease_seconds must be positive") else .ok ()

def validateLimit (limit : Int) : Except StoreError Unit :=
  if limit ≤ 0 then .error (.valueError "limit must be positive") else .ok ()

/-- The values an `INTEGER` column or a `LIMIT` can be bound to. -/
def fitsInteger (n : Int) : Bool := -2 ^ 63 ≤ n && n < 2 ^ 63

/-- `SQLITE_MAX_VARIABLE_NUMBER`, as SQLite is built by default. -/
def maxVariableNumber : Nat := 32766

/-- A statement with one `?` for each job and so many `others`. -/
def bindable (others : Nat) (jobIds : List String) : Bool :=
  others + jobIds.length ≤ maxVariableNumber

def validateItemKey (itemKey : String) : Except StoreError Unit :=
  if itemKey = "" then .error (.valueError "item_key must not be empty") else .ok ()

def validateItemKeys (itemKeys : List String) : Except StoreError Unit :=
  if itemKeys = [] ∨ "" ∈ itemKeys then .error (.valueError "item_keys must not be empty")
  else .ok ()

section Accept

def telegramUpdateFields : List String :=
  ["business_connection", "business_message", "callback_query", "channel_post", "chat_boost",
    "chat_join_request", "chat_member", "chosen_inline_result", "deleted_business_messages",
    "edited_business_message", "edited_channel_post", "edited_message", "inline_query",
    "message", "message_reaction", "message_reaction_count", "my_chat_member", "poll",
    "poll_answer", "pre_checkout_query", "purchased_paid_media", "removed_chat_boost",
    "shipping_query"]

/-- The update id and the payload that is stored for it. -/
def minimalUpdatePayload (payload : JsonObject) : Except StoreError (Int × JsonObject) :=
  match payload.get "update_id" with
  | some (.int rawUpdateId) =>
    .ok (rawUpdateId, ("update_id", .int rawUpdateId) ::
      telegramUpdateFields.filterMap fun key =>
        match payload.get key with
        | none | some .null => none
        | some value => some (key, value))
  | _ => .error (.typeError "Telegram update_id must be an integer")

variable [Add τ]

def acceptedRow (updateId : Int) (payload : JsonObject) (retention now : τ) : JobRow τ where
  updateId := updateId
  payload := payload
  state := .accepted
  ownerId := none
  claimExpiresAt := none
  checkpoint := none
  error := none
  payloadExpiresAt := ((now + retention : τ) : WithTop τ)
  acceptedAt := now
  updatedAt := now

/-- `INSERT OR IGNORE`, then the row is read back. -/
def acceptUpdateSync (updateId : Int) (payload : JsonObject) (retention now : τ) :
    Store τ → Except StoreError AcceptedUpdate × Store τ :=
  transaction fun s =>
    if ¬ fitsInteger updateId then .error .overflowError
    else
      let row := acceptedRow updateId payload retention now
      match s.jobs.lookup row.jobId with
      | some existing => .ok (⟨rowToJob existing, false⟩, s)
      | none => .ok (⟨rowToJob row, true⟩, { s with jobs := s.jobs.upsert row id fun _ => rfl })

def acceptUpdate (payload : JsonObject) (retention now : τ) (s : Store τ) :
    Except StoreError AcceptedUpdate × Store τ :=
  match minimalUpdatePayload payload with
  | .error error => (.error error, s)
  | .ok (updateId, minimal) => acceptUpdateSync updateId minimal retention now s

end Accept

section Worker

variable [Add τ]

/-- The upsert of the singleton lease; the flag is `rowcount == 1`. -/
def acquireWorkerInTransaction (ownerId : String) (leaseSeconds now : τ) (s : Store τ) :
    Bool × Store τ :=
  let granted := { s with workerLease := some ⟨ownerId, now + leaseSeconds⟩ }
  match s.workerLease with
  | none => (true, granted)
  | some lease =>
    if lease.ownerId = ownerId ∨ lease.expiresAt ≤ now then (true, granted) else (false, s)

def acquireWorkerSync (ownerId : String) (leaseSeconds now : τ) :
    Store τ → Except StoreError Bool × Store τ :=
  transaction fun s => .ok (acquireWorkerInTransaction ownerId leaseSeconds now s)

def acquireWorker [Zero τ] (ownerId : String) (leaseSeconds now : τ) :
    Store τ → Except StoreError Bool × Store τ :=
  checked (validateOwner ownerId *> validateLease leaseSeconds)
    (acquireWorkerSync ownerId leaseSeconds now)

/-- `ownerId` holds the singleton lease at this clock reading. -/
def holdsLiveLease (s : Store τ) (ownerId : String) (now : τ) : Bool :=
  s.workerLease.any fun lease => lease.ownerId = ownerId && now < lease.expiresAt

def renewWorkerSync (ownerId : String) (leaseSeconds now : τ) :
    Store τ → Except StoreError Bool × Store τ :=
  transaction fun s =>
    if holdsLiveLease s ownerId now then
      .ok (true, { s with workerLease := some ⟨ownerId, now + leaseSeconds⟩ })
    else .ok (false, s)

def renewWorker [Zero τ] (ownerId : String) (leaseSeconds now : τ) :
    Store τ → Except StoreError Bool × Store τ :=
  checked (validateOwner ownerId *> validateLease leaseSeconds)
    (renewWorkerSync ownerId leaseSeconds now)

omit [LinearOrder τ] [Add τ] in
def releaseWorkerSync (ownerId : String) : Store τ → Except StoreError Unit × Store τ :=
  transaction fun s =>
    .ok ((), { s with
      workerLease := if s.workerLease.any fun lease => lease.ownerId = ownerId then none
        else s.workerLease })

omit [LinearOrder τ] [Add τ] in
def releaseWorker (ownerId : String) : Store τ → Except StoreError Unit × Store τ :=
  checked (validateOwner ownerId) (releaseWorkerSync ownerId)

end Worker

section Claim

variable [Add τ]

/-- The rows of `deliveries` that keep a job from being picked up again. -/
def hasJobReceipt (s : Store τ) (jobId : String) : Bool :=
  s.deliveries.rows.any fun d =>
    d.jobId = jobId && d.itemKey = "__job__" && (d.outcome = .success || d.outcome = .uncertain)

/-- The `WHERE` clause of the recovery query. -/
def recoverable (s : Store τ) (now : τ) (r : JobRow τ) : Bool :=
  (r.state = .accepted || r.state = .checkpointed ||
    (r.state = .running && r.claimExpiresAt.all fun expiry => expiry ≤ now)) &&
  !hasJobReceipt s r.jobId

/-- `ORDER BY accepted_at, update_id`. -/
def claimOrder (r : JobRow τ) : τ ×ₗ Int := toLex (r.acceptedAt, r.updateId)

def claimedRow (ownerId : String) (leaseSeconds now : τ) (r : JobRow τ) : JobRow τ :=
  { r with
    state := .running
    ownerId := some ownerId
    claimExpiresAt := some (now + leaseSeconds)
    updatedAt := now }

omit [LinearOrder τ] in
theorem claimedRow_jobId (ownerId : String) (leaseSeconds now : τ) (r : JobRow τ) :
    (claimedRow ownerId leaseSeconds now r).jobId = r.jobId := rfl

/-- The rows the recovery query selects. -/
def claimCandidates (s : Store τ) (limit : Nat) (now : τ) : List (JobRow τ) :=
  s.jobs.select (recoverable s now) claimOrder limit

def claimRecoverableJobsSync (ownerId : String) (limit : Nat) (leaseSeconds now : τ) :
    Store τ → Except StoreError (List JobRecord) × Store τ :=
  transaction fun s =>
    match acquireWorkerInTransaction ownerId leaseSeconds now s with
    | (false, s) => .ok ([], s)
    | (true, s) =>
      let jobIds := (claimCandidates s limit now).map JobRow.jobId
      if ¬ fitsInteger limit then .error .overflowError
      else if jobIds = [] then .ok ([], s)
      else if ¬ bindable 3 jobIds then .error .sqliteError
      else
        let jobs := s.jobs.update (fun r => r.jobId ∈ jobIds) (claimedRow ownerId leaseSeconds now)
          (claimedRow_jobId ownerId leaseSeconds now)
        .ok ((jobs.select (fun r => r.jobId ∈ jobIds) claimOrder jobs.rows.length).map rowToJob,
          { s with jobs := jobs })

def claimRecoverableJobs [Zero τ] (ownerId : String) (limit : Int) (leaseSeconds now : τ) :
    Store τ → Except StoreError (List JobRecord) × Store τ :=
  checked (validateOwner ownerId *> validateLease leaseSeconds *> validateLimit limit)
    (claimRecoverableJobsSync ownerId limit.toNat leaseSeconds now)

/-- `state = 'running' AND owner_id = ? AND claim_expires_at > ?` of one row. -/
def JobRow.claimLive (r : JobRow τ) (ownerId : String) (now : τ) : Bool :=
  r.ownerId = some ownerId && r.claimExpiresAt.any fun expiry => now < expiry

/-- `_owns_live_job`. -/
def ownsLiveJob (s : Store τ) (jobId ownerId : String) (now : τ) : Bool :=
  (s.jobs.lookup jobId).any (fun r => r.state = .running && r.claimLive ownerId now) &&
    holdsLiveLease s ownerId now

def renewedRow (leaseSeconds now : τ) (r : JobRow τ) : JobRow τ :=
  { r with claimExpiresAt := some (now + leaseSeconds), updatedAt := now }

omit [LinearOrder τ] in
theorem renewedRow_jobId (leaseSeconds now : τ) (r : JobRow τ) :
    (renewedRow leaseSeconds now r).jobId = r.jobId := rfl

def renewClaimSync (jobId ownerId : String) (leaseSeconds now : τ) :
    Store τ → Except StoreError Bool × Store τ :=
  transaction fun s =>
    let matched := fun r : JobRow τ => r.jobId = jobId &&
      (r.state = .running && r.claimLive ownerId now && holdsLiveLease s ownerId now)
    let jobs := s.jobs.update matched (renewedRow leaseSeconds now)
      (renewedRow_jobId leaseSeconds now)
    .ok (s.jobs.rowcount matched = 1, { s with jobs := jobs })

def renewClaim [Zero τ] (jobId ownerId : String) (leaseSeconds now : τ) :
    Store τ → Except StoreError Bool × Store τ :=
  checked (validateOwner ownerId *> validateLease leaseSeconds)
    (renewClaimSync jobId ownerId leaseSeconds now)

end Claim

section Transition

/-- Without an owner the update is not guarded. -/
def ownerGuard (s : Store τ) (ownerId : Option String) (now : τ) (r : JobRow τ) : Bool :=
  match ownerId with
  | none => true
  | some owner => r.claimLive owner now && holdsLiveLease s owner now

def transitionedRow (state : JobState) (checkpoint : Option JsonObject) (error : Option String)
    (now : τ) (r : JobRow τ) : JobRow τ :=
  { r with
    state := state
    ownerId := none
    claimExpiresAt := none
    checkpoint := checkpoint.orElse fun _ => r.checkpoint
    error := error
    updatedAt := now }

omit [LinearOrder τ] in
theorem transitionedRow_jobId (state : JobState) (checkpoint : Option JsonObject)
    (error : Option String) (now : τ) (r : JobRow τ) :
    (transitionedRow state checkpoint error now r).jobId = r.jobId := rfl

def transitionSync (jobId : String) (state : JobState) (checkpoint : Option JsonObject)
    (error : Option String) (now : τ) (fromStates : List JobState) (ownerId : Option String) :
    Store τ → Except StoreError Bool × Store τ :=
  transaction fun s =>
    let matched := fun r : JobRow τ => r.jobId = jobId &&
      (r.state ∈ fromStates && ownerGuard s ownerId now r)
    let jobs := s.jobs.update matched (transitionedRow state checkpoint error now)
      (transitionedRow_jobId state checkpoint error now)
    .ok (s.jobs.rowcount matched = 1, { s with jobs := jobs })

def checkpoint (jobId : String) (checkpoint : Option JsonObject) (ownerId : Option String)
    (now : τ) : Store τ → Except StoreError Bool × Store τ :=
  transitionSync jobId .checkpointed checkpoint none now [.accepted, .running, .checkpointed]
    ownerId

def complete (jobId : String) (ownerId : Option String) (now : τ) :
    Store τ → Except StoreError Bool × Store τ :=
  transitionSync jobId .completed none none now [.running, .checkpointed, .accepted] ownerId

def fail (jobId error : String) (ownerId : Option String) (now : τ) :
    Store τ → Except StoreError Bool × Store τ :=
  transitionSync jobId .failed none (some (error.take 2000).toString) now
    [.running, .checkpointed, .accepted] ownerId

end Transition

section Delivery

/-- The `CASE` expressions of the upsert: a final receipt keeps its outcome and its id. -/
def recordedRow (outcome : DeliveryOutcome) (deliveryId : Option String) (now : τ)
    (d : DeliveryRow τ) : DeliveryRow τ :=
  { d with
    outcome := if d.isFinal then d.outcome else outcome
    deliveryId := if d.isFinal then d.deliveryId else deliveryId
    updatedAt := now
    finalized := true
    ownerId := none }

omit [LinearOrder τ] in
theorem recordedRow_key (outcome : DeliveryOutcome) (deliveryId : Option String) (now : τ)
    (d : DeliveryRow τ) : (recordedRow outcome deliveryId now d).key = d.key := rfl

def recordDeliverySync (jobId itemKey : String) (outcome : DeliveryOutcome)
    (deliveryId : Option String) (now : τ) :
    Store τ → Except StoreError DeliveryOutcome × Store τ :=
  transaction fun s =>
    let deliveries := s.deliveries.upsert ⟨jobId, itemKey, outcome, deliveryId, now, true, none⟩
      (recordedRow outcome deliveryId now) (recordedRow_key outcome deliveryId now)
    match deliveries.lookup (jobId, itemKey) with
    | some row => .ok (row.outcome, { s with deliveries := deliveries })
    | none => .error (.runtimeError "delivery outcome was not persisted")

def recordDelivery (jobId : String) (outcome : DeliveryOutcome) (itemKey : String)
    (deliveryId : Option String) (now : τ) :
    Store τ → Except StoreError DeliveryOutcome × Store τ :=
  checked (validateItemKey itemKey) (recordDeliverySync jobId itemKey outcome deliveryId now)

def reservedRow (ownerId : String) (now : τ) (d : DeliveryRow τ) : DeliveryRow τ :=
  { d with
    outcome := .uncertain
    deliveryId := none
    updatedAt := now
    finalized := false
    ownerId := some ownerId }

omit [LinearOrder τ] in
theorem reservedRow_key (ownerId : String) (now : τ) (d : DeliveryRow τ) :
    (reservedRow ownerId now d).key = d.key := rfl

/-- The reserving upsert of one item, with its `rowcount`. -/
def reserveItem (jobId itemKey ownerId : String) (now : τ) (s : Store τ) : Nat × Store τ :=
  let reserved := { s with
    deliveries := s.deliveries.upsert
      ⟨jobId, itemKey, .uncertain, none, now, false, some ownerId⟩ (reservedRow ownerId now)
      (reservedRow_key ownerId now) }
  match s.deliveries.lookup (jobId, itemKey) with
  | none => (1, reserved)
  | some d => if d.outcome = .failed ∨ d.finalized = false then (1, reserved) else (0, s)

/-- The reserving loop. `sqlFails i` says that SQLite refuses the statement of the `i`-th item,
as a full disk or a trigger would. -/
def reserveItems (sqlFails : Nat → Bool) (jobId ownerId : String) (now : τ) :
    Nat → List String → Store τ → Except StoreError (Store τ)
  | _, [], s => .ok s
  | i, itemKey :: itemKeys, s =>
    if sqlFails i then .error .sqliteError
    else
      match reserveItem jobId itemKey ownerId now s with
      | (1, s') => reserveItems sqlFails jobId ownerId now (i + 1) itemKeys s'
      | _ => .error (.runtimeError "delivery attempt reservation was not persisted")

def beginDeliveryAttemptsSync (jobId : String) (itemKeys : List String) (ownerId : String)
    (now : τ) (sqlFails : Nat → Bool) : Store τ → Except StoreError Bool × Store τ :=
  transaction fun s =>
    if ¬ ownsLiveJob s jobId ownerId now then .ok (false, s)
    else if itemKeys.any fun itemKey =>
        (s.deliveries.lookup (jobId, itemKey)).any DeliveryRow.isFinal then .ok (false, s)
    else (reserveItems sqlFails jobId ownerId now 0 itemKeys s).map fun s' => (true, s')

def beginDeliveryAttempts (jobId : String) (itemKeys : List String) (ownerId : String)
    (now : τ) (sqlFails : Nat → Bool) : Store τ → Except StoreError Bool × Store τ :=
  checked (validateOwner ownerId *> validateItemKeys itemKeys)
    (beginDeliveryAttemptsSync jobId itemKeys ownerId now sqlFails)

def finalizedRow (outcome : DeliveryOutcome) (deliveryId : Option String) (now : τ)
    (d : DeliveryRow τ) : DeliveryRow τ :=
  { d with
    outcome := outcome
    deliveryId := deliveryId
    updatedAt := now
    finalized := true
    ownerId := none }

omit [LinearOrder τ] in
theorem finalizedRow_key (outcome : DeliveryOutcome) (deliveryId : Option String) (now : τ)
    (d : DeliveryRow τ) : (finalizedRow outcome deliveryId now d).key = d.key := rfl

def finalizeDeliveryAttemptSync (jobId itemKey : String) (outcome : DeliveryOutcome)
    (ownerId : String) (deliveryId : Option String) (now : τ) :
    Store τ → Except StoreError Bool × Store τ :=
  transaction fun s =>
    if ¬ ownsLiveJob s jobId ownerId now then .ok (false, s)
    else
      let matched := fun d : DeliveryRow τ => d.key = (jobId, itemKey) &&
        (d.finalized = false && d.ownerId = some ownerId)
      let deliveries := s.deliveries.update matched (finalizedRow outcome deliveryId now)
        (finalizedRow_key outcome deliveryId now)
      .ok (s.deliveries.rowcount matched = 1, { s with deliveries := deliveries })

def finalizeDeliveryAttempt (jobId itemKey : String) (outcome : DeliveryOutcome)
    (ownerId : String) (deliveryId : Option String) (now : τ) :
    Store τ → Except StoreError Bool × Store τ :=
  checked (validateOwner ownerId *> validateItemKey itemKey)
    (finalizeDeliveryAttemptSync jobId itemKey outcome ownerId deliveryId now)

omit [LinearOrder τ] in
def deliveryOutcome (s : Store τ) (jobId itemKey : String) : Option DeliveryOutcome :=
  (s.deliveries.lookup (jobId, itemKey)).map DeliveryRow.outcome

omit [LinearOrder τ] in
def shouldDeliver (s : Store τ) (jobId itemKey : String) : Bool :=
  deliveryOutcome s jobId itemKey ≠ some .success &&
    deliveryOutcome s jobId itemKey ≠ some .uncertain

omit [LinearOrder τ] in
/-- `SELECT 1 FROM deliveries WHERE job_id = ? AND outcome != 'failed'`. -/
def hasUnsafeDeliveries (s : Store τ) (jobId : String) : Bool :=
  s.deliveries.rows.any fun d => d.jobId = jobId && d.outcome ≠ .failed

omit [LinearOrder τ] in
def hasFailedDeliveries (s : Store τ) (jobId : String) : Bool :=
  s.deliveries.rows.any fun d => d.jobId = jobId && d.outcome = .failed

def retryKey (token : String) : String := "retry:" ++ token

omit [LinearOrder τ] in
def retriedRow (now : τ) (d : DeliveryRow τ) : DeliveryRow τ :=
  { d with outcome := .uncertain, updatedAt := now, finalized := false }

omit [LinearOrder τ] in
theorem retriedRow_key (now : τ) (d : DeliveryRow τ) : (retriedRow now d).key = d.key := rfl

omit [LinearOrder τ] in
/-- The upsert of a polling retry; an existing row is taken only when it failed for good. -/
def beginRetryTokenSync (token : String) (now : τ) :
    Store τ → Except StoreError Bool × Store τ :=
  transaction fun s =>
    let begun := { s with
      deliveries := s.deliveries.upsert
        ⟨retryKey token, "__job__", .uncertain, none, now, false, none⟩
        (retriedRow now) (retriedRow_key now) }
    match s.deliveries.lookup (retryKey token, "__job__") with
    | none => .ok (true, begun)
    | some d => if d.outcome = .failed ∧ d.finalized then .ok (true, begun) else .ok (false, s)

end Delivery

section Supersede

def supersededRow (successorId : String) (now : τ) (r : JobRow τ) : JobRow τ :=
  { r with
    state := .completed
    ownerId := none
    claimExpiresAt := none
    checkpoint := some ((r.checkpoint.getD []).set "superseded_by" (.str successorId))
    error := none
    updatedAt := now }

omit [LinearOrder τ] in
theorem supersededRow_jobId (successorId : String) (now : τ) (r : JobRow τ) :
    (supersededRow successorId now r).jobId = r.jobId := rfl

/-- The `while job_id != successor_id` loop; `none` when the fuel runs out. -/
def supersedeLoop (s : Store τ) (successorId : String) (now : τ) :
    Nat → List String → String → Option (Bool × Store τ)
  | 0, _, _ => none
  | fuel + 1, visited, jobId =>
    if jobId = successorId then some (true, s)
    else if jobId ∈ visited then some (false, s)
    else
      match s.jobs.lookup jobId with
      | none => some (false, s)
      | some row =>
        if hasUnsafeDeliveries s jobId then some (false, s)
        else if row.state = .completed then
          match (row.checkpoint.getD []).get "superseded_by" with
          | some (.str nextId) => supersedeLoop s successorId now fuel (jobId :: visited) nextId
          | _ => some (false, s)
        else if row.state ≠ .failed ∧ row.state ≠ .checkpointed then some (false, s)
        else
          some (true, { s with
            jobs := s.jobs.update (fun r => r.jobId = jobId) (supersededRow successorId now)
              (supersededRow_jobId successorId now) })

/-- `supersedeLoop` visits a job at most once, so one more round than there are jobs suffices. -/
def supersedeFailedJobSync (jobId successorId ownerId : String) (now : τ) :
    Store τ → Except StoreError Bool × Store τ :=
  transaction fun s =>
    if ¬ ownsLiveJob s successorId ownerId now then .ok (false, s)
    else
      match supersedeLoop s successorId now (s.jobs.rows.length + 1) [] jobId with
      | some result => .ok result
      | none => .error (.runtimeError "unreachable")

end Supersede

section Maintenance

def requeueSelected (s : Store τ) (r : JobRow τ) : Bool :=
  r.state = .failed && hasFailedDeliveries s r.jobId

def requeuedRow (now : τ) (r : JobRow τ) : JobRow τ :=
  { r with state := .checkpointed, error := none, updatedAt := now }

omit [LinearOrder τ] in
theorem requeuedRow_jobId (now : τ) (r : JobRow τ) : (requeuedRow now r).jobId = r.jobId := rfl

def requeueFailedDeliveriesSync (limit : Nat) (now : τ) :
    Store τ → Except StoreError Nat × Store τ :=
  transaction fun s =>
    let jobIds := (s.jobs.select (requeueSelected s)
      (fun r => toLex (r.updatedAt, r.updateId)) limit).map JobRow.jobId
    if ¬ fitsInteger limit then .error .overflowError
    else if ¬ bindable 1 jobIds then .error .sqliteError
    else
      let jobs := s.jobs.update (fun r => r.jobId ∈ jobIds && r.state = .failed) (requeuedRow now)
        (requeuedRow_jobId now)
      .ok (jobIds.length, { s with jobs := jobs })

def requeueFailedDeliveries (limit : Int) (now : τ) : Store τ → Except StoreError Nat × Store τ :=
  checked (validateLimit limit) (requeueFailedDeliveriesSync limit.toNat now)

/-- The opposite condition of `requeueSelected` keeps the payload of a retryable job. -/
def purgeSelected (s : Store τ) (now : τ) (r : JobRow τ) : Bool :=
  (r.state = .completed || r.state = .failed) && r.payloadExpiresAt ≤ (now : WithTop τ) &&
    !(r.state = .failed && hasFailedDeliveries s r.jobId)

omit [LinearOrder τ] in
def purgedRow (r : JobRow τ) : JobRow τ :=
  { r with payload := [("update_id", .int r.updateId)], payloadExpiresAt := ⊤ }

omit [LinearOrder τ] in
theorem purgedRow_jobId (r : JobRow τ) : (purgedRow r).jobId = r.jobId := rfl

/-- The jobs the retention query selects. -/
def purgedIds (s : Store τ) (now : τ) (limit : Nat) : List String :=
  (s.jobs.select (purgeSelected s now) (fun r => toLex (r.payloadExpiresAt, r.updateId))
    limit).map JobRow.jobId

def purgeExpiredPayloadsSync (now : τ) (limit : Nat) : Store τ → Except StoreError Nat × Store τ :=
  transaction fun s =>
    if ¬ fitsInteger limit then .error .overflowError
    else
      let jobIds := purgedIds s now limit
      let jobs := s.jobs.update (fun r => r.jobId ∈ jobIds) purgedRow purgedRow_jobId
      .ok (jobIds.length, { s with jobs := jobs })

def purgeExpiredPayloads (now : τ) (limit : Int) : Store τ → Except StoreError Nat × Store τ :=
  checked (validateLimit limit) (purgeExpiredPayloadsSync now limit.toNat)

def writeProbeSync (now : τ) : Store τ → Except StoreError Unit × Store τ :=
  transaction fun s =>
    if s.workerLease.any fun lease => now < lease.expiresAt then
      .ok ((), { s with healthProbe := s.healthProbe + 1 })
    else .error (.runtimeError "durable worker lease is not live")

end Maintenance

end YtdlBot.JobStore
