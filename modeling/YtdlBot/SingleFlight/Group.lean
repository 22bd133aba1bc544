import Mathlib.Logic.Function.Basic
import YtdlBot.Framework.Machine
import YtdlBot.Framework.Tally

/-!
# Single flight

`SingleFlightGroup` with any number of concurrent `do` calls. Nothing is awaited while the lock
is held, so a locked block is one step; the awaits of a call and of the shared task lie between
the steps, and cancellations are delivered there.
-/

namespace YtdlBot.SingleFlight

open Framework

/-- How a task ends. -/
inductive Outcome (ε T : Type) where
  | value (value : T)
  | error (error : ε)
  | cancelled
deriving DecidableEq

/-- The task of a flight: created, inside `work()`, or done. -/
inductive Task (ε T : Type) where
  | created
  | running
  | done (outcome : Outcome ε T)
deriving DecidableEq

def Task.isDone {ε T : Type} : Task ε T → Bool
  | .done _ => true
  | _ => false

/-- A `_Flight` object; `cancelled` says that the group called `task.cancel()`. -/
structure Flight (κ ε T : Type) where
  key : κ
  task : Task ε T
  subscribers : Int
  cancelled : Bool

/-- Where a `do` call is. From `leaving` on it runs `_unsubscribe_uninterruptibly`, with what it
will return or raise and whether a cancellation arrived meanwhile. -/
inductive Phase (ε T : Type) where
  /-- `await asyncio.shield(flight.task)`. -/
  | waiting
  /-- The `_unsubscribe` task has not taken the lock yet. -/
  | leaving (result : Outcome ε T) (cancellation : Bool)
  /-- The `_unsubscribe` task waits for the factory it cancelled. -/
  | unwinding (result : Outcome ε T) (cancellation : Bool)
  /-- The `_unsubscribe` task is done. -/
  | cleaned (result : Outcome ε T) (cancellation : Bool)
  | ended (result : Outcome ε T)
deriving DecidableEq

/-- A `do` call that subscribed; `cancelled` says that its task was cancelled inside it. -/
structure Call (κ ε T : Type) where
  key : κ
  flight : Nat
  phase : Phase ε T
  cancelled : Bool

/-- The call has not unsubscribed yet. -/
def Call.subscribed {κ ε T : Type} (c : Call κ ε T) : Bool :=
  match c.phase with
  | .waiting | .leaving _ _ => true
  | _ => false

/-- `_flights` refers to the flight objects by their position in `heap`. -/
structure Group (κ ε T : Type) where
  flights : κ → Option Nat
  heap : List (Flight κ ε T)
  calls : List (Call κ ε T)

inductive Action (κ ε T : Type) where
  /-- `do(key, work)` up to its await. `markers` are the keys of the active factory markers of
  this group that the caller inherits, `task` the flight whose task makes the call. -/
  | do (key : κ) (markers : List κ) (task : Option Nat)
  /-- The first step of the task of a flight. -/
  | start (f : Nat)
  /-- `work()` returns or raises. -/
  | finish (f : Nat) (outcome : Outcome ε T)
  /-- The shared task is done and the call goes on. -/
  | wake (i : Nat)
  /-- The task of the call is cancelled. -/
  | cancel (i : Nat)
  /-- The locked block of `_unsubscribe`. -/
  | unsubscribe (i : Nat)
  /-- The factory the call cancelled is done. -/
  | unwound (i : Nat)
  | return (i : Nat)

namespace Group

variable {κ ε T : Type} [DecidableEq κ]

def initial : Group κ ε T := ⟨fun _ => none, [], []⟩

def setCall (g : Group κ ε T) (i : Nat) (c : Call κ ε T) (phase : Phase ε T) : Group κ ε T :=
  { g with calls := g.calls.set i { c with phase := phase } }

def setFlight (g : Group κ ε T) (f : Nat) (x : Flight κ ε T) : Group κ ε T :=
  { g with heap := g.heap.set f x }

/-- The locked block of `do`. -/
def subscribe (g : Group κ ε T) (key : κ) : Group κ ε T :=
  match g.flights key with
  | none =>
    { flights := Function.update g.flights key (some g.heap.length)
      heap := g.heap ++ [⟨key, .created, 1, false⟩]
      calls := g.calls ++ [⟨key, g.heap.length, .waiting, false⟩] }
  | some f =>
    { g with
      heap := g.heap.modify f fun x => { x with subscribers := x.subscribers + 1 }
      calls := g.calls ++ [⟨key, f, .waiting, false⟩] }

/-- The locked block of `_unsubscribe` for call `i`; the last subscriber pops the flight and
cancels a task that is not done, and then waits for it. -/
def unsubscribe (g : Group κ ε T) (i : Nat) (c : Call κ ε T) (x : Flight κ ε T)
    (result : Outcome ε T) (cancellation : Bool) : Group κ ε T :=
  if g.flights c.key ≠ some c.flight then g.setCall i c (.cleaned result cancellation)
  else
    let x := { x with subscribers := x.subscribers - 1 }
    if x.subscribers = 0 then
      let g := { g with flights := Function.update g.flights c.key none }
      if x.task.isDone then
        (g.setFlight c.flight x).setCall i c (.cleaned result cancellation)
      else
        (g.setFlight c.flight { x with cancelled := true }).setCall i c
          (.unwinding result cancellation)
    else (g.setFlight c.flight x).setCall i c (.cleaned result cancellation)

/-- The exception a call is cancelled with replaces the awaited outcome, or is kept in
`cancellation` until the unsubscription is over. -/
def cancelCall (c : Call κ ε T) : Call κ ε T :=
  match c.phase with
  | .waiting => { c with phase := .leaving .cancelled false, cancelled := true }
  | .leaving result _ => { c with phase := .leaving result true, cancelled := true }
  | .unwinding result _ => { c with phase := .unwinding result true, cancelled := true }
  | .cleaned result _ => { c with phase := .cleaned result true, cancelled := true }
  | .ended _ => c

def step (g : Group κ ε T) : Action κ ε T → Option (Group κ ε T)
  | .do key markers task =>
    -- `SingleFlightReentryError` is raised before the call subscribes
    if key ∈ markers ∨ (g.flights key).isSome ∧ g.flights key = task then some g
    else some (g.subscribe key)
  | .start f =>
    g.heap[f]?.bind fun x =>
      match x.task with
      -- a task cancelled before its first step never runs its coroutine
      | .created =>
        some (g.setFlight f { x with task := if x.cancelled then .done .cancelled else .running })
      | _ => none
  | .finish f outcome =>
    g.heap[f]?.bind fun x =>
      match x.task with
      | .running => some (g.setFlight f { x with task := .done outcome })
      | _ => none
  | .wake i =>
    g.calls[i]?.bind fun c =>
      match c.phase, g.heap[c.flight]?.map Flight.task with
      | .waiting, some (.done outcome) => some (g.setCall i c (.leaving outcome false))
      | _, _ => none
  | .cancel i => g.calls[i]?.map fun c => { g with calls := g.calls.set i (cancelCall c) }
  | .unsubscribe i =>
    g.calls[i]?.bind fun c =>
      match c.phase, g.heap[c.flight]? with
      | .leaving result cancellation, some x => some (g.unsubscribe i c x result cancellation)
      | _, _ => none
  | .unwound i =>
    g.calls[i]?.bind fun c =>
      match c.phase, g.heap[c.flight]?.map Flight.task with
      | .unwinding result cancellation, some (.done _) =>
        some (g.setCall i c (.cleaned result cancellation))
      | _, _ => none
  | .return i =>
    g.calls[i]?.bind fun c =>
      match c.phase with
      | .cleaned result cancellation =>
        some (g.setCall i c (.ended (if cancellation then .cancelled else result)))
      | _ => none

def machine (κ ε T : Type) [DecidableEq κ] : Machine (Group κ ε T) (Action κ ε T) := ⟨step⟩

end Group

end YtdlBot.SingleFlight
