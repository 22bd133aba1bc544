import Mathlib.Logic.Function.Basic
import YtdlBot.Framework.Machine
import YtdlBot.Framework.Tally

/-!
# The download queue

`DownloadQueue` over a semaphore, with any number of leases and of `_enter` calls on them. A
block under the queue lock that awaits nothing is one step; a step that needs the lock can be
taken while nobody holds it across an await. Cancellations are delivered at the awaits.
-/

namespace YtdlBot.DownloadQueue

open Framework

/-- `_Waiter.state`. The future of a waiter is resolved when the state becomes `granted`; it is
only ever awaited through `asyncio.shield`, so nothing cancels it. -/
inductive WaiterState where
  | waiting
  | granted
  | cancelled
deriving DecidableEq

/-- Where a call of `DownloadLease._enter` is. -/
inductive Phase where
  /-- `update_ui(Texts.MAINTENANCE_MODE)`. -/
  | maintenance
  /-- `async with self._lock` in `_acquire`. -/
  | entering
  /-- `update_ui(Texts.QUEUE_FULL)`, with the lock held. -/
  | full
  /-- `self._send_position(waiter)`. -/
  | positioning
  /-- `asyncio.wait_for(asyncio.shield(waiter.future))`. -/
  | waiting
  /-- `self._withdraw(waiter)` after the timeout; this await is not shielded. -/
  | timedOut
  /-- `update_ui(Texts.QUEUE_TIMEOUT)`. -/
  | timeoutUi
  /-- `asyncio.shield(self._withdraw(waiter))` after a cancellation. -/
  | cancelled
  /-- Cancelled once more: the caller is gone, its withdrawal still waits for the lock. -/
  | abandoned
  | ended
deriving DecidableEq

/-- The call, or the withdrawal it left behind, has still to deal with its waiter. -/
def Phase.queued : Phase → Bool
  | .positioning | .waiting | .timedOut | .cancelled | .abandoned => true
  | _ => false

/-- The caller still awaits `_enter`. -/
def Phase.running : Phase → Bool
  | .abandoned | .ended => false
  | _ => true

/-- `_release_task` of a lease; `_released` is set when the task is created. -/
inductive ReleaseTask where
  | none
  | pending
  | done
deriving DecidableEq

structure Lease where
  acquired : Bool
  release : ReleaseTask
deriving DecidableEq

/-- One call of `_enter`, with the state of the waiter it puts into the queue. -/
structure Call where
  lease : Nat
  phase : Phase
  state : WaiterState
deriving DecidableEq

/-- `waiters` lists the calls whose waiters are in `_waiters`; `lock` is the call that holds the
queue lock across an await; `free` is the value of the semaphore. -/
structure Queue where
  free : Nat
  maxQueue : Nat
  waiters : List Nat
  positions : Nat → Nat
  lock : Option Nat
  leases : List Lease
  calls : List Call

inductive Action where
  /-- `DownloadQueue.acquire`: a new lease. -/
  | acquire
  /-- A call of `_enter` on a lease, up to its first await. -/
  | enter (l : Nat) (diskCritical : Bool)
  /-- The locked block of `_acquire`. -/
  | locked (i : Nat)
  /-- The UI callback that the call awaits returns or raises. -/
  | uiDone (i : Nat)
  /-- The future is resolved and the call goes on. -/
  | wake (i : Nat)
  | timeout (i : Nat)
  /-- The locked block of `_withdraw`. -/
  | withdraw (i : Nat)
  /-- The task of the call is cancelled. -/
  | cancel (i : Nat)
  /-- A call of `DownloadLease.release`, up to its await. -/
  | release (l : Nat)
  /-- The release task of the lease takes the lock. -/
  | releaseSlot (l : Nat)

namespace Queue

def initial (n maxQueue : Nat) : Queue := ⟨n, maxQueue, [], fun _ => 0, none, [], []⟩

/-- The loop of `_reposition_locked`. -/
def reposition : List Nat → Nat → (Nat → Nat) → Nat → Nat
  | [], _, positions => positions
  | i :: rest, index, positions =>
    reposition rest (index + 1) (Function.update positions i index)

def setCall (q : Queue) (i : Nat) (c : Call) : Queue := { q with calls := q.calls.set i c }

/-- `_handoff_locked`, over what is left of `_waiters`. -/
def handoff : List Nat → Queue → Queue
  | [], q => { q with waiters := [], free := q.free + 1 }
  | i :: rest, q =>
    match q.calls[i]? with
    | none => handoff rest q
    | some c =>
      if c.state ≠ .waiting then handoff rest (q.setCall i { c with state := .cancelled })
      else
        { q.setCall i { c with state := .granted } with
          waiters := rest
          positions := reposition rest 1 q.positions }

/-- The locked block of `_withdraw`, after which the call is in `phase`. -/
def withdraw (q : Queue) (i : Nat) (c : Call) (phase : Phase) : Queue :=
  match c.state with
  | .waiting =>
    { q.setCall i { c with phase := phase, state := .cancelled } with
      waiters := q.waiters.erase i
      positions := reposition (q.waiters.erase i) 1 q.positions }
  | .granted => handoff q.waiters (q.setCall i { c with phase := phase, state := .cancelled })
  | .cancelled => q.setCall i { c with phase := phase }

/-- `_acquire` returns `True` and `_enter` sets `_acquired`. -/
def hold (q : Queue) (i : Nat) (c : Call) (x : Lease) : Queue :=
  { q.setCall i { c with phase := .ended } with
    leases := q.leases.set c.lease { x with acquired := true } }

/-- The locked block of `_acquire`. -/
def lockedBlock (q : Queue) (i : Nat) (c : Call) (x : Lease) : Queue :=
  if 0 < q.free then { q.hold i c x with free := q.free - 1 }
  else if q.maxQueue ≤ q.waiters.length then
    { q.setCall i { c with phase := .full } with lock := some i }
  else
    { q.setCall i { c with phase := .positioning } with
      waiters := q.waiters ++ [i]
      positions := Function.update q.positions i (q.waiters.length + 1) }

/-- A cancellation is delivered to call `i`. -/
def cancelCall (q : Queue) (i : Nat) (c : Call) : Queue :=
  match c.phase with
  | .maintenance | .entering | .timeoutUi => q.setCall i { c with phase := .ended }
  | .full => { q.setCall i { c with phase := .ended } with lock := none }
  | .positioning | .waiting => q.setCall i { c with phase := .cancelled }
  -- the exception leaves the handler of `TimeoutError` before `_withdraw` got the lock
  | .timedOut => q.setCall i { c with phase := .ended }
  | .cancelled => q.setCall i { c with phase := .abandoned }
  | .abandoned | .ended => q

def step (q : Queue) : Action → Option Queue
  | .acquire => some { q with leases := q.leases ++ [⟨false, .none⟩] }
  | .enter l diskCritical =>
    q.leases[l]?.map fun x =>
      -- a released lease raises, an acquired one is returned at once
      if x.release ≠ .none ∨ x.acquired = true then q
      else
        { q with
          calls := q.calls ++ [⟨l, if diskCritical then .maintenance else .entering, .waiting⟩] }
  | .locked i =>
    q.calls[i]?.bind fun c => q.leases[c.lease]?.bind fun x =>
      match c.phase, q.lock with
      | .entering, none => some (q.lockedBlock i c x)
      | _, _ => none
  | .uiDone i =>
    q.calls[i]?.bind fun c =>
      match c.phase with
      | .maintenance | .timeoutUi => some (q.setCall i { c with phase := .ended })
      | .full => some { q.setCall i { c with phase := .ended } with lock := none }
      | .positioning => some (q.setCall i { c with phase := .waiting })
      | _ => none
  | .wake i =>
    q.calls[i]?.bind fun c => q.leases[c.lease]?.bind fun x =>
      match c.phase, c.state with
      | .waiting, .granted => some (q.hold i c x)
      | _, _ => none
  | .timeout i =>
    q.calls[i]?.bind fun c =>
      match c.phase with
      | .waiting => some (q.setCall i { c with phase := .timedOut })
      | _ => none
  | .withdraw i =>
    q.calls[i]?.bind fun c =>
      match c.phase, q.lock with
      | .timedOut, none => some (q.withdraw i c .timeoutUi)
      | .cancelled, none => some (q.withdraw i c .ended)
      | .abandoned, none => some (q.withdraw i c .ended)
      | _, _ => none
  | .cancel i => q.calls[i]?.map fun c => q.cancelCall i c
  | .release l =>
    q.leases[l]?.map fun x =>
      if x.acquired = true ∧ x.release = .none then
        { q with leases := q.leases.set l { x with release := .pending } }
      else q
  | .releaseSlot l =>
    q.leases[l]?.bind fun x =>
      match x.release, q.lock with
      | .pending, none =>
        some (handoff q.waiters { q with leases := q.leases.set l { x with release := .done } })
      | _, _ => none

def machine : Machine Queue Action := ⟨step⟩

end Queue

end YtdlBot.DownloadQueue
