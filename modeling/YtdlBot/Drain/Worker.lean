import YtdlBot.JobStore.Steps

/-!
# The durable worker

`DurableUpdateWorker` and `DrainController` over the job store: the supervisor with the handler and
the heartbeat of its job, the drain, start and stop, and the store operations. An action is what
one task does between two suspension points, a cancellation reaching a task at its await, or a
thread that carries out an operation. A thread cannot be cancelled: an operation that nobody awaits
any more may still commit, at any time or never.
-/

namespace YtdlBot.Drain

open Framework JobStore

/-- What a thread is asked to do. Its clock reading was taken by the caller. -/
inductive Call (τ : Type) where
  | op (op : Op τ)
  | hasFailedDeliveries (jobId : String)

abbrev Answer := Except StoreError Reply

structure Request (τ : Type) where
  call : Call τ
  answer : Option Answer

/-- How `process_update` ends. `marked` is the type of the error that
`mark_current_job_failed` has left in the context. -/
inductive Ending where
  | returned (marked : Option String)
  | cancelled
  | raised (error : String)
deriving DecidableEq

/-- The task of `start_job`. -/
structure Handler where
  job : JobRecord
  /-- `cancelling()` is not zero. -/
  cancelling : Bool
  /-- The drain has cancelled it. -/
  drained : Bool
  ending : Option Ending

/-- How the body of `_process_job` is left. -/
inductive Exit where
  | again
  | failed
  | cancelled
deriving DecidableEq

/-- Which transition `_process_job` awaits. -/
inductive Recording where
  /-- The checkpoint after a cancellation. -/
  | interrupted
  /-- The checkpoint after `WorkerLeaseLost`. -/
  | lost
  | failed
  /-- After `RetryableDeliveryFailed`. -/
  | retryable
  | completed
deriving DecidableEq

/-- Where the supervisor is. Requests and handlers are named by their number; `cancelled` is a
cancellation that is delivered once the awaited future has settled. -/
inductive Phase where
  | created
  /-- `_wait_for_poll` -/
  | polling
  | claiming (request : Nat) (cancelled : Bool)
  /-- The checkpoint in `_claim_next` of a job that is not started. -/
  | returning (request : Nat) (cancelled : Bool)
  | renewing (request : Nat)
  /-- The checkpoint of a job that `start_job` has refused. -/
  | refused (request : Nat)
  /-- `asyncio.wait` for the handler and the heartbeat. -/
  | waiting (handler : Nat)
  /-- `asyncio.gather(process_task)` once the heartbeat has failed. -/
  | joining (handler : Nat) (cancelled : Bool)
  /-- The loop over `asyncio.shield(settled)` after a cancellation. -/
  | settling (handler : Nat)
  /-- `has_failed_deliveries` -/
  | inspecting (handler request : Nat)
  | recording (handler : Nat) (what : Recording) (request : Nat)
  /-- `asyncio.gather(heartbeat)` in the `finally` clause. -/
  | closing (handler : Nat) (exit : Exit) (cancelled : Bool)
  /-- `_release_worker` after a failure. -/
  | releasing (request : Nat)
  /-- `_wait_for_restart` -/
  | restarting
  /-- `_reacquire_worker` -/
  | acquiring (request : Nat) (cancelled : Bool)
  | ended
deriving DecidableEq

/-- The task of `_heartbeat`, which awaits two renewals at a time. -/
inductive Heartbeat where
  | absent
  | sleeping (jobId : String)
  | renewing (jobId : String) (worker claim : Nat)
  /-- It has raised `WorkerLeaseLost`. -/
  | lost
deriving DecidableEq

structure DrainResult where
  completed : Nat
  checkpointed : Nat
  cancelled : Nat
  timedOut : Bool
deriving DecidableEq

/-- Where `_drain` is; `active` is the copy that `drain` has made. -/
inductive DrainPhase where
  | created (active : List (String × Nat))
  | waiting (active : List (String × Nat))
  /-- The second `asyncio.wait`, for the cancelled handlers. -/
  | stopping (completed : Nat) (pending : List (String × Nat))
  | checkpointing (completed cancelled : Nat) (requests : List Nat)
  | ended (result : DrainResult)
deriving DecidableEq

/-- Where `_start_once` is. -/
inductive Start where
  | created
  | acquiring (request : Nat) (cancelled : Bool)
  | requeueing (request : Nat)
  | purging (request : Nat)
  | releasing (request : Nat)
  | ended
deriving DecidableEq

/-- Where `_stop_once` is, and after it `_finish_stop`. -/
inductive Stop where
  | created
  | draining
  /-- `asyncio.gather` of the supervisor, the start and the maintenance. -/
  | joining
  | releasing (request : Nat)
  | ended (request : Nat)
deriving DecidableEq

/-- Where a task of `_run_maintenance` is. -/
inductive Maintenance where
  | waiting
  | purging (request : Nat)
  | ended
deriving DecidableEq

inductive Transition where
  | checkpointed
  | completed
  | failed
deriving DecidableEq

/-- What the worker and the drain have done, each with the facts of that moment. -/
inductive Event where
  /-- A claim is requested; `busy` says that some handler runs. -/
  | claimed (busy : Bool)
  /-- A handler of the job that the request `claim` has returned. -/
  | created (jobId : String) (claim : Nat) (draining : Bool)
  /-- A transition of a job is requested; `live` says that a handler of the job runs, `handler` is
  the one that the supervisor records, and `claim` the request that has returned a job which is not
  started. -/
  | moved (transition : Transition) (jobId : String) (live : Bool) (handler : Option Handler)
    (claim : Option Nat)

/-- The constructor's arguments, checked there. `text` is `str(error)`. -/
structure Settings (τ : Type) [LinearOrder τ] [Zero τ] where
  ownerId : String
  leaseSeconds : τ
  text : StoreError → String
  named : ownerId ≠ ""
  positive : 0 < leaseSeconds

structure World (τ : Type) where
  store : Store τ
  requests : List (Request τ)
  handlers : List Handler
  /-- `_active`: jobs with their handlers. -/
  active : List (String × Nat)
  heartbeat : Heartbeat
  /-- `_drain_task`; `_draining` is set with it. -/
  draining : Option DrainPhase
  supervisor : Option Phase
  /-- `cancelling()` of the supervisor is not zero. -/
  cancelling : Bool
  start : Option Start
  /-- `_stop` -/
  stopping : Bool
  stop : Option Stop
  maintenance : List Maintenance
  lastCompletedJobId : Option String
  log : List Event

inductive Action (τ : Type) where
  /-- The thread of a request carries it out. -/
  | commit (request : Nat)
  /-- The thread raises an SQLite error. -/
  | fault (request : Nat)
  /-- Any other caller of the store. -/
  | other (op : Op τ)
  | handlerEnds (handler : Nat) (ending : Ending)
  | heartbeat (now claimNow : τ)
  /-- The supervisor goes on; `now` is its clock reading. -/
  | resume (now : τ)
  | cancelSupervisor
  | drain
  /-- `timedOut`: the time of the current wait is over. -/
  | drainStep (clock : String → τ) (timedOut : Bool)
  | start
  | startStep (now : τ)
  | cancelStart
  | stop
  | stopStep
  | maintain (task : Nat) (now : τ)

variable {τ : Type} [LinearOrder τ] [Add τ] [Zero τ]

def Call.run : Call τ → Store τ → Answer × Store τ
  | .op operation, s => operation.run s
  | .hasFailedDeliveries jobId, s => (.ok (.bool (JobStore.hasFailedDeliveries s jobId)), s)

/-- The job of `claim_next`, which asks for one. -/
def claimedJob : Reply → Option JobRecord
  | .jobs records => records.head?
  | _ => none

def DrainPhase.isEnded : DrainPhase → Bool
  | .ended _ => true
  | _ => false

def Start.running : Option Start → Bool
  | none | some .ended => false
  | _ => true

def Phase.running : Option Phase → Bool
  | none | some .ended => false
  | _ => true

namespace World

def initial (store : Store τ) : World τ :=
  ⟨store, [], [], [], .absent, none, none, false, none, false, none, [], none, []⟩

variable (c : Settings τ) (w : World τ)

/-- A handler of the job runs. -/
def live (jobId : String) : Bool := w.handlers.any fun h => h.job.id = jobId && h.ending.isNone

def busy : Bool := w.handlers.any fun h => h.ending.isNone

/-- The handler is done. -/
def done (handler : Nat) : Bool := (w.handlers[handler]?).all fun h => h.ending.isSome

def answer (request : Nat) : Option Answer := (w.requests[request]?).bind Request.answer

/-- Start the thread of a request; its number is the length of the list before. -/
def submit (call : Call τ) : World τ := { w with requests := w.requests ++ [⟨call, none⟩] }

def enter (phase : Phase) : World τ := { w with supervisor := some phase }

def note (event : Event) : World τ := { w with log := w.log ++ [event] }

/-- `task.cancel()` on a handler; a task that is done is left alone. -/
def cancelHandler (handler : Nat) : World τ :=
  { w with handlers := w.handlers.modify handler fun h =>
      if h.ending.isNone then { h with cancelling := true } else h }

/-- The supervisor requests a transition of a job. -/
def move (transition : Transition) (op : Op τ) (jobId : String) (handler : Option Handler)
    (claim : Option Nat) : World τ :=
  (w.note (.moved transition jobId (w.live jobId) handler claim)).submit (.op op)

/-- `store.checkpoint(job.id, job.checkpoint, owner_id=self.owner_id)` -/
def checkpoint (job : JobRecord) (handler : Option Handler) (claim : Option Nat) (now : τ) :
    World τ :=
  w.move .checkpointed (.checkpoint job.id job.checkpoint (some c.ownerId) now) job.id handler claim

section Supervisor

/-- The loops of `_supervise` and `_run`, from their conditions to the next await. -/
def loop (now : τ) : World τ :=
  if w.stopping then w.enter .ended
  else if w.draining.isSome then w.enter .polling
  else
    ((w.note (.claimed w.busy)).submit
      (.op (.claimRecoverableJobs c.ownerId 1 c.leaseSeconds now))).enter
        (.claiming w.requests.length false)

/-- `_release_worker` after an error that `_supervise` has caught. -/
def restart : World τ :=
  (w.submit (.op (.releaseWorker c.ownerId))).enter (.releasing w.requests.length)

/-- `renew_worker` when there is no job. -/
def renew (now : τ) : World τ :=
  (w.submit (.op (.renewWorker c.ownerId c.leaseSeconds now))).enter (.renewing w.requests.length)

/-- `acquire_worker` in `_reacquire_worker`. -/
def reacquire (now : τ) : World τ :=
  (w.submit (.op (.acquireWorker c.ownerId c.leaseSeconds now))).enter
    (.acquiring w.requests.length false)

/-- `start_job` and what depends on its result, for the job of the request `claim`. -/
def process (claim : Nat) (job : JobRecord) (now : τ) : World τ :=
  if w.draining.isSome then
    (w.checkpoint c job none (some claim) now).enter (.refused w.requests.length)
  else
    { w with
      handlers := w.handlers ++ [⟨job, false, false, none⟩]
      active := w.active.filter (·.1 ≠ job.id) ++ [(job.id, w.handlers.length)]
      heartbeat := .sleeping job.id
      supervisor := some (.waiting w.handlers.length)
      log := w.log ++ [.created job.id claim w.draining.isSome] }

/-- The `finally` clause up to its await: the heartbeat is cancelled. -/
def close (handler : Nat) (exit : Exit) : World τ :=
  { w with heartbeat := .absent, supervisor := some (.closing handler exit false) }

/-- The `except asyncio.CancelledError` clause up to its loop. -/
def interrupt (handler : Nat) : World τ := (w.cancelHandler handler).enter (.settling handler)

def fail (handler : Nat) (h : Handler) (what : Recording) (error : String) (now : τ) : World τ :=
  (w.move .failed (.fail h.job.id error (some c.ownerId) now) h.job.id (some h) none).enter
    (.recording handler what w.requests.length)

def complete (handler : Nat) (h : Handler) (now : τ) : World τ :=
  (w.move .completed (.complete h.job.id (some c.ownerId) now) h.job.id (some h) none).enter
    (.recording handler .completed w.requests.length)

def checkpointHandled (handler : Nat) (h : Handler) (what : Recording) (now : τ) : World τ :=
  (w.checkpoint c h.job (some h) none now).enter (.recording handler what w.requests.length)

/-- `await process_task` and the checks that follow it. -/
def handled (handler : Nat) (h : Handler) (ending : Ending) (now : τ) : World τ :=
  match ending with
  | .cancelled => w.interrupt handler
  | .raised error => w.fail c handler h .failed error now
  | .returned marked =>
    if w.draining.isSome && h.cancelling then w.interrupt handler
    else
      match marked with
      | some kind => w.fail c handler h .failed ("Telegram handler failed: " ++ kind) now
      | none =>
        (w.submit (.hasFailedDeliveries h.job.id)).enter (.inspecting handler w.requests.length)

/-- `finish_job`: the job is taken off the list if it is still this handler's. -/
def finishJob (handler : Nat) : World τ :=
  { w with active := w.active.filter fun entry => entry.2 ≠ handler }

/-- What the supervisor does at the end of `_process_job`. -/
def leave (now : τ) : Exit → World τ
  | .again => w.loop c now
  | .failed => w.restart c
  | .cancelled => w.enter .ended

/-- After the transition has settled. -/
def recorded (handler : Nat) (what : Recording) : Answer → World τ
  | .error _ => w.close handler .failed
  | .ok reply =>
    match what with
    | .interrupted => w.close handler (if w.cancelling then .cancelled else .again)
    | .lost => w.close handler .failed
    | .failed => w.close handler .again
    | .retryable =>
      match reply with
      | .bool true => w.close handler .again
      | _ => w.close handler .failed
    | .completed =>
      match reply with
      | .bool true =>
        { w.close handler .again with
          lastCompletedJobId := (w.handlers[handler]?).map fun h => h.job.id }
      | _ => w.close handler .failed

/-- The supervisor goes on from its await. -/
def resume (now : τ) : Option (World τ) :=
  match w.supervisor with
  | none | some .ended => none
  | some .created | some .polling => some (w.loop c now)
  | some (.claiming request cancelled) => (w.answer request).map fun
    | .error _ => w.restart c
    | .ok reply =>
      match claimedJob reply with
      | none => if cancelled then w.enter .ended else w.renew c now
      | some job =>
        if cancelled || w.stopping then
          (w.checkpoint c job none (some request) now).enter
            (.returning w.requests.length cancelled)
        else w.process c request job now
  | some (.returning request cancelled) => (w.answer request).map fun
    | .error _ => w.restart c
    | .ok _ => if cancelled then w.enter .ended else w.renew c now
  | some (.renewing request) => (w.answer request).map fun
    | .ok (.bool true) => w.enter .polling
    | _ => w.restart c
  | some (.refused request) => (w.answer request).map fun
    | .error _ => w.restart c
    | .ok _ => w.loop c now
  | some (.waiting handler) =>
    match w.heartbeat with
    | .lost => some ((w.cancelHandler handler).enter (.joining handler false))
    | _ => (w.handlers[handler]?).bind fun h => h.ending.map fun ending =>
      w.handled c handler h ending now
  | some (.joining handler cancelled) =>
    (w.handlers[handler]?).bind fun h => h.ending.map fun _ =>
      if cancelled then w.enter (.settling handler)
      else w.checkpointHandled c handler h .lost now
  | some (.settling handler) =>
    (w.handlers[handler]?).bind fun h => h.ending.map fun _ =>
      if w.draining.all DrainPhase.isEnded then w.checkpointHandled c handler h .interrupted now
      else w.close handler (if w.cancelling then .cancelled else .again)
  | some (.inspecting handler request) =>
    (w.handlers[handler]?).bind fun h => (w.answer request).map fun
      | .error error => w.fail c handler h .failed (c.text error) now
      | .ok (.bool true) => w.fail c handler h .retryable "delivery has known failed items" now
      | .ok _ => w.complete c handler h now
  | some (.recording handler what request) => (w.answer request).map (w.recorded handler what)
  | some (.closing handler exit cancelled) =>
    if cancelled then some (w.enter .ended) else some ((w.finishJob handler).leave c now exit)
  | some (.releasing request) => (w.answer request).map fun _ => w.enter .restarting
  | some .restarting => some (if w.stopping then w.enter .ended else w.reacquire c now)
  | some (.acquiring request cancelled) => (w.answer request).map fun
    | .error _ => w.enter .restarting
    | .ok (.bool true) => if cancelled then w.enter .ended else w.loop c now
    | .ok _ => if cancelled then w.enter .ended else w.enter .restarting

/-- A cancellation reaches the await of the supervisor. -/
def interrupted (phase : Phase) : World τ :=
  match phase with
  | .claiming request _ => w.enter (.claiming request true)
  -- `_settle` swallows it.
  | .returning request cancelled => w.enter (.returning request cancelled)
  | .waiting handler | .inspecting handler _ => w.interrupt handler
  -- `gather` hands it on to the handler and raises it when the handler is done.
  | .joining handler _ => (w.cancelHandler handler).enter (.joining handler true)
  | .settling handler => w.enter (.settling handler)
  | .recording handler _ _ => w.close handler .cancelled
  | .closing handler exit _ => w.enter (.closing handler exit true)
  | .acquiring request _ => w.enter (.acquiring request true)
  | .created | .polling | .renewing _ | .refused _ | .releasing _ | .restarting | .ended =>
    w.enter .ended

def cancelSupervisor : Option (World τ) :=
  match w.supervisor with
  | none | some .ended => none
  | some phase => some ({ w with cancelling := true }.interrupted phase)

end Supervisor

/-- The heartbeat goes on. `gather` raises the first error, without waiting for the other call. -/
def beat (now claimNow : τ) : Option (World τ) :=
  match w.heartbeat with
  | .absent | .lost => none
  | .sleeping jobId =>
    let requested := (w.submit (.op (.renewWorker c.ownerId c.leaseSeconds now))).submit
      (.op (.renewClaim jobId c.ownerId c.leaseSeconds claimNow))
    some { requested with
      heartbeat := .renewing jobId w.requests.length (w.requests.length + 1) }
  | .renewing jobId worker claim =>
    match w.answer worker, w.answer claim with
    | some (.error _), _ | _, some (.error _) => some { w with heartbeat := .lost }
    | some (.ok (.bool true)), some (.ok (.bool true)) =>
      some { w with heartbeat := .sleeping jobId }
    | some _, some _ => some { w with heartbeat := .lost }
    | _, _ => none

section Drain

/-- `drain`; a later call shares the first one's task. -/
def drain : World τ :=
  match w.draining with
  | none => { w with draining := some (.created w.active) }
  | some _ => w

/-- The cancellation of the pending handlers. -/
def cancelPending (pending : List (String × Nat)) : World τ :=
  { w with handlers := w.handlers.mapIdx fun i h =>
      if h.ending.isNone && i ∈ pending.map Prod.snd then
        { h with cancelling := true, drained := true }
      else h }

/-- The checkpoints of the handlers that have stopped. -/
def checkpointStopped (clock : String → τ) : List (String × Nat) → World τ → World τ
  | [], w => w
  | (jobId, _) :: stopped, w =>
    checkpointStopped clock stopped
      (w.move .checkpointed (.checkpoint jobId none (some c.ownerId) (clock jobId)) jobId none none)

/-- `checkpoint_task.result() is True` -/
def succeeded (request : Nat) : Bool :=
  match w.answer request with
  | some (.ok (.bool true)) => true
  | _ => false

/-- The drain goes on. -/
def drainStep (clock : String → τ) (timedOut : Bool) : Option (World τ) :=
  match w.draining with
  | none | some (.ended _) => none
  | some (.created active) =>
    let phase := if active = [] then .ended ⟨0, 0, 0, false⟩ else .waiting active
    some { w with draining := some phase }
  | some (.waiting active) =>
    let completed := active.filter fun entry => w.done entry.2
    let pending := active.filter fun entry => !w.done entry.2
    if pending = [] then
      some { w with draining := some (.ended ⟨completed.length, 0, 0, false⟩) }
    else if timedOut then
      some { w.cancelPending pending with draining := some (.stopping completed.length pending) }
    else none
  | some (.stopping completed pending) =>
    let stopped := pending.filter fun entry => w.done entry.2
    if stopped.length = pending.length || timedOut then
      let requests := (List.range stopped.length).map (w.requests.length + ·)
      let phase := if stopped = [] then .ended ⟨completed, 0, pending.length, true⟩
        else .checkpointing completed pending.length requests
      some { checkpointStopped c clock stopped w with draining := some phase }
    else none
  | some (.checkpointing completed cancelled requests) =>
    if requests.all (fun request => (w.answer request).isSome) || timedOut then
      let checkpointed := (requests.filter w.succeeded).length
      some { w with draining := some (.ended ⟨completed, checkpointed, cancelled, true⟩) }
    else none

end Drain

section Starting

/-- `start` up to its await. -/
def startCall : Option (World τ) :=
  if w.stopping || Phase.running w.supervisor || Start.running w.start then none
  else some { w with start := some .created }

/-- The `except BaseException` clause of `_start_once`. -/
def abandonStart : World τ :=
  { w.submit (.op (.releaseWorker c.ownerId)) with start := some (.releasing w.requests.length) }

def requeueFailures (now : τ) : World τ :=
  { w.submit (.op (.requeueFailedDeliveries 100 now)) with
    start := some (.requeueing w.requests.length) }

def runMaintenanceOnce (now : τ) : World τ :=
  w.submit (.op (.purgeExpiredPayloads now 1000))

/-- The two tasks that `_start_once` ends with. -/
def launch : World τ :=
  { w with
    supervisor := some .created
    cancelling := false
    maintenance := w.maintenance ++ [.waiting]
    start := some .ended }

/-- `_start_once` goes on. -/
def startStep (now : τ) : Option (World τ) :=
  match w.start with
  | none | some .ended => none
  | some .created =>
    some { w.submit (.op (.acquireWorker c.ownerId c.leaseSeconds now)) with
      start := some (.acquiring w.requests.length false) }
  | some (.acquiring request cancelled) => (w.answer request).map fun
    | .ok (.bool true) => if cancelled then w.abandonStart c else w.requeueFailures now
    | _ => w.abandonStart c
  | some (.requeueing request) => (w.answer request).map fun
    | .ok (.count requeued) =>
      if requeued < 100 then
        { w.runMaintenanceOnce now with start := some (.purging w.requests.length) }
      else w.requeueFailures now
    | _ => w.abandonStart c
  | some (.purging request) => (w.answer request).map fun _ =>
    if w.stopping then w.abandonStart c else w.launch
  | some (.releasing request) => (w.answer request).map fun _ => { w with start := some .ended }

/-- `startup.cancel()` reaches the await of `_start_once`. -/
def cancelStart : World τ :=
  match w.start with
  | some .created => { w with start := some .ended }
  | some (.acquiring request _) => { w with start := some (.acquiring request true) }
  | some (.requeueing _) | some (.purging _) => w.abandonStart c
  | some (.releasing _) | some .ended | none => w

end Starting

section Stopping

def stopCall : World τ :=
  { w with stopping := true, stop := w.stop.or (some .created) }

/-- From the end of the drain to the task of `_finish_stop`. -/
def finishStop : World τ :=
  let w :=
    if w.active.any fun entry => !w.done entry.2 then w.cancelSupervisor.getD w else w
  { w with stop := some .joining }

def maintenanceEnded : Bool := w.maintenance.getLast?.all (· = .ended)

/-- `_stop_once` and `_finish_stop` go on. No task is started after `stop`, so that the tasks of
now are those that `_stop_once` has read. -/
def stopStep : Option (World τ) :=
  match w.stop with
  | none | some (.ended _) => none
  | some .created =>
    let w := w.cancelStart c
    some (if w.draining.isSome then w.finishStop else { w.drain with stop := some .draining })
  | some .draining => if w.draining.all DrainPhase.isEnded then some w.finishStop else none
  | some .joining =>
    if Phase.running w.supervisor || Start.running w.start || !w.maintenanceEnded then none
    else some { w.submit (.op (.releaseWorker c.ownerId)) with
      stop := some (.releasing w.requests.length) }
  | some (.releasing request) => (w.answer request).map fun _ =>
    { w with stop := some (.ended request) }

/-- A task of `_run_maintenance` goes on, by the stop event or its timer. -/
def maintain (task : Nat) (now : τ) : Option (World τ) :=
  (w.maintenance[task]?).bind fun
    | .waiting =>
      if w.stopping then some { w with maintenance := w.maintenance.set task .ended }
      else some { w.runMaintenanceOnce now with
        maintenance := w.maintenance.set task (.purging w.requests.length) }
    | .purging request => (w.answer request).map fun _ =>
      { w with maintenance := w.maintenance.set task (if w.stopping then .ended else .waiting) }
    | .ended => none

end Stopping

/-- A thread that has not answered carries its call out. -/
def commit (request : Nat) : Option (World τ) :=
  (w.requests[request]?).bind fun r =>
    if r.answer.isSome then none
    else
      let result := r.call.run w.store
      some { w with
        store := result.2
        requests := w.requests.set request { r with answer := some result.1 } }

def fault (request : Nat) : Option (World τ) :=
  (w.requests[request]?).bind fun r =>
    if r.answer.isSome then none
    else some { w with
      requests := w.requests.set request { r with answer := some (.error .sqliteError) } }

def handlerEnds (handler : Nat) (ending : Ending) : Option (World τ) :=
  (w.handlers[handler]?).bind fun h =>
    if h.ending.isSome then none
    else some { w with handlers := w.handlers.set handler { h with ending := some ending } }

def step : Action τ → Option (World τ)
  | .commit request => w.commit request
  | .fault request => w.fault request
  | .other op => some { w with store := (op.run w.store).2 }
  | .handlerEnds handler ending => w.handlerEnds handler ending
  | .heartbeat now claimNow => w.beat c now claimNow
  | .resume now => w.resume c now
  | .cancelSupervisor => w.cancelSupervisor
  | .drain => some w.drain
  | .drainStep clock timedOut => w.drainStep c clock timedOut
  | .start => w.startCall
  | .startStep now => w.startStep c now
  | .cancelStart => some (w.cancelStart c)
  | .stop => some w.stopCall
  | .stopStep => w.stopStep c
  | .maintain task now => w.maintain task now

end World

def machine (c : Settings τ) : Machine (World τ) (Action τ) := ⟨World.step c⟩

end YtdlBot.Drain
