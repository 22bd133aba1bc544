import Mathlib.Data.List.AList
import Mathlib.Logic.Function.Basic
import YtdlBot.Framework.Machine
import YtdlBot.Framework.Tally

/-!
# The process supervisor

`ProcessSupervisor` with any number of `run`, `open` and `cancel_owner` calls. `_lock` and
`active_processes_lock` are never held across an await, so taking them does not suspend and a
locked block belongs to the step around it. Cancellations are delivered at the other awaits; a
shielded operation is a task that outlives its caller. Signals to a process group fail only
because the group is gone.
-/

namespace YtdlBot.Process

open Framework

inductive Kind where
  | run
  | open (stderrPipe : Bool)
deriving DecidableEq

/-- Where a `run` or `open` call is. `h` is the handle of its process and `k` the shielded task
it awaits. -/
inductive Phase where
  | created
  /-- `_workload_slots.acquire()`. -/
  | workloadWait
  /-- `_process_slots.acquire()`. -/
  | processWait
  /-- `asyncio.create_subprocess_exec`. -/
  | exec
  /-- `temporary.cancel()` for a process that could not be adopted. -/
  | unadopted (h k : Nat)
  /-- `temporary.close_tree()`. -/
  | unadoptedTree (h k : Nat)
  /-- `await handle.cancel()` of a fenced launch. -/
  | fencing (h : Nat)
  /-- `handle.cancel()` in the exception handler of `_start`. -/
  | startCancelling (h k : Nat)
  /-- `communicate()`, or the body of the `async with` block. -/
  | body (h : Nat)
  /-- `handle.cancel()` in the exception handler of `_run`. -/
  | runCancelling (h k : Nat)
  /-- `handle.cancel()` in the `finally` block of `open`. -/
  | openCancelling (h k : Nat)
  /-- The wait for `stderr_task` in the `finally` block of `open`. -/
  | openStderr (h : Nat)
  /-- The last shielded await: `_finish`, or `_release_owner_slot`. -/
  | leaving (k : Nat)
  | ended
deriving DecidableEq

/-- A `ProcessHandle` and its process. -/
structure Handle (Owner : Type) where
  call : Nat
  owner : Owner
  /-- The `temporary` handle of a process that could not be adopted. -/
  temporary : Bool
  /-- The handle is in `_by_owner`. -/
  registered : Bool
  /-- The process is in `state.active_processes`. -/
  active : Bool
  finished : Bool
  cancelRequested : Bool
  /-- `_teardown_lock` is held. -/
  teardown : Bool
  /-- `_terminate_group` has run to its end. -/
  killed : Bool
  /-- `proc.returncode` is set. -/
  exited : Bool

structure Call (Owner : Type) where
  kind : Kind
  owner : Owner
  generation : Nat
  phase : Phase

/-- A spawned task is the work it has still to do. -/
inductive Task (Owner : Type) where
  /-- `handle.cancel()` before it has the teardown lock, as a shielded task of its own or in
  `cancel_handle`, where `_finish` follows. -/
  | cancelling (h : Nat) (finish : Bool)
  | terminating (h : Nat) (finish : Bool)
  /-- `_finish` before its locked block. -/
  | finishing (h : Nat)
  /-- The rest of the first `_finish`, from `close_tree` on. -/
  | closing (h : Nat) (owner : Owner)
  | closeTree (h : Nat)
  | releaseOwner (owner : Owner)
  | done
  /-- `handle.cancel()` has raised. -/
  | failed
deriving DecidableEq

/-- Nothing is left to do. -/
def Task.isOver {Owner : Type} : Task Owner → Bool
  | .done | .failed => true
  | _ => false

inductive ExecResult where
  | failed
  /-- The Windows job cannot be assigned, or the handle cannot be built. -/
  | unadopted
  | started

inductive Action (Owner : Type) where
  /-- `run(...)`, which captures the generation of the owner. -/
  | run (owner : Owner)
  | open (owner : Owner) (stderrPipe : Bool)
  /-- The first step of `_start`. -/
  | start (i : Nat)
  /-- `_workload_slots.acquire()` returns. -/
  | workload (i : Nat)
  /-- `_process_slots.acquire()` returns. -/
  | process (i : Nat)
  | exec (i : Nat) (result : ExecResult)
  /-- The process of a handle exits. -/
  | exit (h : Nat)
  /-- `communicate()` returns, or raises after a failure, a timeout or a cancellation; or the
  body of the `async with` block is left. -/
  | leaveBody (i : Nat) (raised : Bool)
  /-- The wait for `stderr_task` returns or times out. -/
  | stderrDone (i : Nat)
  /-- The wait for `stderr_task` raises what `readline` raised. -/
  | stderrFails (i : Nat)
  /-- The operation the call awaits is done. -/
  | resume (i : Nat)
  | cancel (i : Nat)
  /-- The locked block of `cancel_owner`, which then spawns its `cancel_handle` tasks. -/
  | cancelOwner (owner : Owner)
  /-- A spawned task goes on. -/
  | task (k : Nat)
  /-- `_cleanup_cancelled_paths` raises in a spawned task, such as the `ValueError` of `Path.glob` for
  a stem that is no pattern. -/
  | taskFails (k : Nat)

structure Supervisor (Owner : Type) where
  workloadSlots : Nat
  processSlots : Nat
  ownerSlotRefs : AList fun _ : Owner => Nat
  ownerGeneration : Owner → Nat
  handles : List (Handle Owner)
  calls : List (Call Owner)
  tasks : List (Task Owner)

namespace Supervisor

variable {Owner : Type} [DecidableEq Owner]

def initial (workloads processes : Nat) : Supervisor Owner :=
  ⟨workloads, processes, ∅, fun _ => 0, [], [], []⟩

def setCall (s : Supervisor Owner) (i : Nat) (c : Call Owner) : Supervisor Owner :=
  { s with calls := s.calls.set i c }

def setTask (s : Supervisor Owner) (k : Nat) (t : Task Owner) : Supervisor Owner :=
  { s with tasks := s.tasks.set k t }

def setHandle (s : Supervisor Owner) (h : Nat) (x : Handle Owner) : Supervisor Owner :=
  { s with handles := s.handles.set h x }

/-- `await asyncio.shield(...)`: the call moves to a phase that names the task it spawned. -/
def shield (s : Supervisor Owner) (i : Nat) (c : Call Owner) (phase : Nat → Phase)
    (t : Task Owner) : Supervisor Owner :=
  { s with
    calls := s.calls.set i { c with phase := phase s.tasks.length }
    tasks := s.tasks ++ [t] }

/-- One more reference in `_owner_slot_refs`. -/
def addOwnerRef (s : Supervisor Owner) (owner : Owner) : Supervisor Owner :=
  { s with
    ownerSlotRefs := s.ownerSlotRefs.insert owner ((s.ownerSlotRefs.lookup owner).getD 0 + 1) }

/-- `_release_owner_slot`. -/
def releaseOwnerSlot (s : Supervisor Owner) (owner : Owner) : Supervisor Owner :=
  let references := (s.ownerSlotRefs.lookup owner).getD 0
  if references ≤ 1 then
    { s with
      ownerSlotRefs := s.ownerSlotRefs.erase owner
      workloadSlots := s.workloadSlots + if references = 1 then 1 else 0 }
  else { s with ownerSlotRefs := s.ownerSlotRefs.insert owner (references - 1) }

/-- The generation `_start` goes by: `run` took it before, `open` leaves it to `_start`. -/
def launchGeneration (s : Supervisor Owner) (c : Call Owner) : Nat :=
  match c.kind with
  | .run => c.generation
  | .open _ => s.ownerGeneration c.owner

/-- `_start` up to its first await. -/
def startCall (s : Supervisor Owner) (i : Nat) (c : Call Owner) : Supervisor Owner :=
  let c := { c with generation := s.launchGeneration c }
  if c.owner ∈ s.ownerSlotRefs then
    (s.addOwnerRef c.owner).setCall i { c with phase := .processWait }
  else s.setCall i { c with phase := .workloadWait }

/-- `_acquire_owner_slot` after the semaphore let it through. -/
def takeWorkload (s : Supervisor Owner) (i : Nat) (c : Call Owner) : Supervisor Owner :=
  if c.owner ∈ s.ownerSlotRefs then
    -- the permit goes back at once, the owner has one already
    (s.addOwnerRef c.owner).setCall i { c with phase := .processWait }
  else
    { (s.addOwnerRef c.owner).setCall i { c with phase := .processWait } with
      workloadSlots := s.workloadSlots - 1 }

/-- `_start` after `_process_slots.acquire()`, up to its next await. -/
def takeProcess (s : Supervisor Owner) (i : Nat) (c : Call Owner) : Supervisor Owner :=
  if s.ownerGeneration c.owner ≠ c.generation then
    -- the process slot goes back at once
    s.shield i c .leaving (.releaseOwner c.owner)
  else { s.setCall i { c with phase := .exec } with processSlots := s.processSlots - 1 }

/-- `_start` after `create_subprocess_exec`, up to its next await. -/
def execDone (s : Supervisor Owner) (i : Nat) (c : Call Owner) : ExecResult → Supervisor Owner
  | .failed =>
    { s.shield i c .leaving (.releaseOwner c.owner) with processSlots := s.processSlots + 1 }
  | .unadopted =>
    { s.shield i c (.unadopted s.handles.length) (.cancelling s.handles.length false) with
      handles := s.handles ++
        [{ call := i, owner := c.owner, temporary := true, registered := false, active := false,
           finished := false, cancelRequested := false, teardown := false, killed := false,
           exited := false }] }
  | .started =>
    let cancelled := decide (s.ownerGeneration c.owner ≠ c.generation)
    let phase := if cancelled then Phase.fencing s.handles.length else .body s.handles.length
    { s.setCall i { c with phase := phase } with
      -- a fenced launch goes on into `handle.cancel()`
      handles := s.handles ++
        [{ call := i, owner := c.owner, temporary := false, registered := !cancelled,
           active := true, finished := false, cancelRequested := cancelled,
           teardown := cancelled, killed := false, exited := false }] }

/-- What follows `communicate()` or the body of the `async with` block. -/
def leaveBody (s : Supervisor Owner) (i : Nat) (c : Call Owner) (h : Nat) (x : Handle Owner)
    (raised : Bool) : Option (Supervisor Owner) :=
  match c.kind with
  | .run =>
    if raised then some (s.shield i c (.runCancelling h) (.cancelling h false))
    else if x.exited then some (s.shield i c .leaving (.finishing h))
    else none
  | .open stderrPipe =>
    if x.exited = false then some (s.shield i c (.openCancelling h) (.cancelling h false))
    else if stderrPipe then some (s.setCall i { c with phase := .openStderr h })
    else some (s.shield i c .leaving (.finishing h))

/-- The task `k` the call awaits is done, or has failed. -/
def resume (s : Supervisor Owner) (i : Nat) (c : Call Owner) : Option (Supervisor Owner) :=
  match c.phase with
  | .unadopted h k =>
    match s.tasks[k]? with
    | some .done => some (s.shield i c (.unadoptedTree h) (.closeTree h))
    | _ => none
  | .unadoptedTree _ k =>
    match s.tasks[k]? with
    | some .done =>
      some { s.shield i c .leaving (.releaseOwner c.owner) with processSlots := s.processSlots + 1 }
    | _ => none
  | .fencing h =>
    -- `handle.cancel()` is over and `ProcessOwnerCancelled` is raised, or what it has raised itself
    s.handles[h]?.map fun x =>
      (s.setHandle h { x with killed := true, teardown := false }).shield i c (.startCancelling h)
        (.cancelling h false)
  | .startCancelling h k =>
    match s.tasks[k]? with
    | some .done => some (s.shield i c .leaving (.finishing h))
    | some .failed => some (s.setCall i { c with phase := .ended })
    | _ => none
  | .runCancelling h k =>
    -- `_finish` stands in a `finally` block of its own
    match s.tasks[k]? with
    | some .done | some .failed => some (s.shield i c .leaving (.finishing h))
    | _ => none
  | .openCancelling h k =>
    match s.tasks[k]?, c.kind with
    | some .done, .open true => some (s.setCall i { c with phase := .openStderr h })
    | some .done, _ => some (s.shield i c .leaving (.finishing h))
    | some .failed, _ => some (s.setCall i { c with phase := .ended })
    | _, _ => none
  | .leaving k =>
    match s.tasks[k]? with
    | some .done => some (s.setCall i { c with phase := .ended })
    | _ => none
  | _ => none

/-- A cancellation is delivered to the task of call `i`. -/
def cancelCall (s : Supervisor Owner) (i : Nat) (c : Call Owner) : Supervisor Owner :=
  match c.phase with
  | .created | .workloadWait => s.setCall i { c with phase := .ended }
  | .processWait => s.shield i c .leaving (.releaseOwner c.owner)
  | .exec =>
    { s.shield i c .leaving (.releaseOwner c.owner) with processSlots := s.processSlots + 1 }
  | .fencing h =>
    -- the exception leaves `handle.cancel()` and with it the teardown lock
    match s.handles[h]? with
    | some x =>
      (s.setHandle h { x with teardown := false }).shield i c (.startCancelling h)
        (.cancelling h false)
    | none => s
  -- the handlers await with a shield, but are themselves left by the exception
  | .unadopted _ _ | .unadoptedTree _ _ | .startCancelling _ _ | .openCancelling _ _
  | .openStderr _ => s.setCall i { c with phase := .ended }
  | .runCancelling h _ => s.shield i c .leaving (.finishing h)
  | .body h =>
    match c.kind with
    | .run => s.shield i c (.runCancelling h) (.cancelling h false)
    -- raised inside the caller's block, which may leave it
    | .open _ => s
  | .leaving _ => s.setCall i { c with phase := .ended }
  | .ended => s

/-- `handles` of `cancel_owner`, from position `h` on. -/
def snapshot (owner : Owner) : Nat → List (Handle Owner) → List Nat
  | _, [] => []
  | h, x :: rest =>
    if x.registered = true ∧ x.owner = owner then h :: snapshot owner (h + 1) rest
    else snapshot owner (h + 1) rest

def cancelOwner (s : Supervisor Owner) (owner : Owner) : Supervisor Owner :=
  { s with
    ownerGeneration := Function.update s.ownerGeneration owner (s.ownerGeneration owner + 1)
    tasks := s.tasks ++ (snapshot owner 0 s.handles).map fun h => .cancelling h true }

/-- What follows `handle.cancel()` in a task. -/
def afterCancel (h : Nat) (finish : Bool) : Task Owner := if finish then .finishing h else .done

def stepTask (s : Supervisor Owner) (k : Nat) : Task Owner → Option (Supervisor Owner)
  | .cancelling h finish =>
    s.handles[h]?.bind fun x =>
      if x.teardown then none
      else if x.cancelRequested then some (s.setTask k (afterCancel h finish))
      else
        some ((s.setHandle h { x with cancelRequested := true, teardown := true }).setTask k
          (.terminating h finish))
  | .terminating h finish =>
    s.handles[h]?.map fun x =>
      (s.setHandle h { x with killed := true, teardown := false }).setTask k (afterCancel h finish)
  | .finishing h =>
    s.handles[h]?.map fun x =>
      if x.finished then (s.setHandle h { x with active := false }).setTask k .done
      else
        (s.setHandle h { x with finished := true, registered := false, active := false }).setTask k
          (.closing h x.owner)
  | .closing h owner =>
    s.handles[h]?.bind fun x =>
      if x.teardown then none
      else
        some ({ s with processSlots := s.processSlots + 1 }.releaseOwnerSlot owner |>.setTask k
          .done)
  | .closeTree h =>
    s.handles[h]?.bind fun x => if x.teardown then none else some (s.setTask k .done)
  | .releaseOwner owner => some ((s.releaseOwnerSlot owner).setTask k .done)
  | .done | .failed => none

/-- The group is terminated and `handle.cancel()` raises after that; in `cancel_handle` there is no
`_finish` then. A temporary handle has no paths to clean up. -/
def failTask (s : Supervisor Owner) (k : Nat) : Task Owner → Option (Supervisor Owner)
  | .terminating h _ =>
    s.handles[h]?.bind fun x =>
      if x.temporary then none
      else some ((s.setHandle h { x with killed := true, teardown := false }).setTask k .failed)
  | _ => none

omit [DecidableEq Owner] in
theorem failTask_cases {s s' : Supervisor Owner} {k : Nat} {t : Task Owner}
    (hs : s.failTask k t = some s') :
    ∃ h finish x, t = .terminating h finish ∧ s.handles[h]? = some x ∧
      s' = (s.setHandle h { x with killed := true, teardown := false }).setTask k .failed := by
  cases t with
  | terminating h finish =>
    obtain ⟨x, hx, hs⟩ := Option.bind_eq_some_iff.mp hs
    obtain ⟨-, hs⟩ := Option.ite_none_left_eq_some.mp hs
    exact ⟨h, finish, x, rfl, hx, (Option.some.inj hs).symm⟩
  | cancelling | finishing | closing | closeTree | releaseOwner | done | failed => cases hs

def step (s : Supervisor Owner) : Action Owner → Option (Supervisor Owner)
  | .run owner =>
    some { s with calls := s.calls ++ [⟨.run, owner, s.ownerGeneration owner, .created⟩] }
  | .open owner stderrPipe =>
    some { s with calls := s.calls ++ [⟨.open stderrPipe, owner, 0, .created⟩] }
  | .start i =>
    s.calls[i]?.bind fun c =>
      match c.phase with
      | .created => some (s.startCall i c)
      | _ => none
  | .workload i =>
    s.calls[i]?.bind fun c =>
      match c.phase with
      | .workloadWait => if 0 < s.workloadSlots then some (s.takeWorkload i c) else none
      | _ => none
  | .process i =>
    s.calls[i]?.bind fun c =>
      match c.phase with
      | .processWait => if 0 < s.processSlots then some (s.takeProcess i c) else none
      | _ => none
  | .exec i result =>
    s.calls[i]?.bind fun c =>
      match c.phase with
      | .exec => some (s.execDone i c result)
      | _ => none
  | .exit h => s.handles[h]?.map fun x => s.setHandle h { x with exited := true }
  | .leaveBody i raised =>
    s.calls[i]?.bind fun c =>
      match c.phase with
      | .body h => s.handles[h]?.bind fun x => s.leaveBody i c h x raised
      | _ => none
  | .stderrDone i =>
    s.calls[i]?.bind fun c =>
      match c.phase with
      | .openStderr h => some (s.shield i c .leaving (.finishing h))
      | _ => none
  | .stderrFails i =>
    s.calls[i]?.bind fun c =>
      match c.phase with
      | .openStderr _ => some (s.setCall i { c with phase := .ended })
      | _ => none
  | .resume i => s.calls[i]?.bind fun c => s.resume i c
  | .cancel i => s.calls[i]?.map fun c => s.cancelCall i c
  | .cancelOwner owner => some (s.cancelOwner owner)
  | .task k => s.tasks[k]?.bind fun t => s.stepTask k t
  | .taskFails k => s.tasks[k]?.bind fun t => s.failTask k t

def machine (Owner : Type) [DecidableEq Owner] : Machine (Supervisor Owner) (Action Owner) :=
  ⟨step⟩

end Supervisor

end YtdlBot.Process
