import YtdlBot.Framework.Machine
import YtdlBot.Leases.Discipline

/-!
# Processes on one directory

Any number of processes run reservations, janitor passes or bare critical sections over one
directory, one file-system call at a time. Any of them may crash between two calls, and the
media files themselves change at any time.
-/

namespace YtdlBot.Leases

open Framework
open Framework.Program (Follows)
open Framework.Routine (Meets)

/-- What a process runs. -/
inductive Task where
  | session (r : Reservation) (commands : List Reservation.Command)
  | janitor (maxTempAge : Rat) (passes : List Bool)
  /-- A delivery that lasts for some renewals of its leases. -/
  | delivery (materialized : List Reservation) (rounds : Nat)
  /-- The process enters the lock of each target in turn. -/
  | entering (entries : List (Name × Option Rat))
deriving DecidableEq

/-- `with _marker_lock(marker, stale_after=…)` with nothing to do inside, for each entry. -/
def enterAll : List (Name × Option Rat) → Op Unit Unit
  | [] => pure ()
  | (target, staleAfter) :: entries => do
    let _ ← Routine.capture (withLock target staleAfter (pure ()))
    enterAll entries

namespace Task

def role : Task → Role
  | .session _ _ | .delivery _ _ => .reservation
  | .janitor _ _ => .janitor
  | .entering entries => if ∃ entry ∈ entries, entry.2.isSome then .janitor else .reservation

def program : Task → Program Empty Call Call.Result Outcome
  | .session r commands => (Reservation.session commands r).bind fun _ => .pure .ended
  | .janitor maxTempAge passes => (Leases.janitor maxTempAge passes ()).bind fun _ => .pure .ended
  | .delivery materialized rounds => withLeaseRenewals materialized rounds
  | .entering entries => (enterAll entries ()).bind fun _ => .pure .ended

/-- Reservations have an owner and media files for paths, and no lock counts as stale before it is
older than `limit`. -/
def Proper (limit : Rat) : Task → Prop
  | .session r commands => HasOwner r ∧ ∀ command ∈ commands, command.OnBase
  | .janitor maxTempAge _ => limit ≤ maxTempAge
  | .delivery materialized _ => ∀ item ∈ materialized, HasOwner item
  | .entering entries => ∀ entry ∈ entries, ∀ age ∈ entry.2, limit ≤ age

instance (limit : Rat) : (task : Task) → Decidable (task.Proper limit)
  | .session _ _ => inferInstanceAs (Decidable (_ ∧ _))
  | .janitor _ _ => inferInstanceAs (Decidable (_ ≤ _))
  | .delivery materialized _ => inferInstanceAs (Decidable (∀ item ∈ materialized, HasOwner item))
  | .entering entries =>
    inferInstanceAs (Decidable (∀ entry ∈ entries, ∀ age ∈ entry.2, limit ≤ age))

end Task

theorem meets_enterAll {limit : Rat} {I : Unit → Prop} (entries : List (Name × Option Rat))
    {role : Role} (hstale : ∀ entry ∈ entries, ∀ age ∈ entry.2, role = .janitor ∧ limit ≤ age)
    {g : Know} (hg : g.At role [] []) :
    Meets (protocol limit) I g (enterAll entries) fun _ g' => g'.At role [] [] := by
  induction entries generalizing g with
  | nil => exact Routine.meets_pure hg
  | cons entry entries ih =>
    have hentered : Meets (protocol limit) I g
        (withLock (σ := Unit) entry.1 entry.2 (pure ())) fun _ g' => g'.At role [] [] := by
      apply meets_withLock hg (by simp) _ (List.Subset.refl _)
      · exact fun _ _ _ hg' => Routine.meets_pure (hg'.mono (List.nil_subset _))
      · exact fun age hage => hstale entry List.mem_cons_self age hage
    exact hentered.capture_bind fun _ _ hg' =>
      ih (fun other hmem => hstale other (List.mem_cons_of_mem _ hmem)) hg'

theorem meets_renewRounds {limit : Rat} {I : Unit → Prop} {items : List Reservation}
    (howners : ∀ item ∈ items, HasOwner item) (rounds : Nat) {g : Know}
    (hg : g.At .reservation [] []) :
    Meets (protocol limit) I g (renewRounds items rounds) fun _ g' => g'.At .reservation [] [] := by
  have hitems : ∀ (items : List Reservation) (g : Know), (∀ item ∈ items, HasOwner item) →
      g.At .reservation [] [] →
      Meets (protocol limit) I g (renewItems items) fun _ g' => g'.At .reservation [] [] := by
    intro items
    induction items with
    | nil => exact fun _ _ hg => Routine.meets_pure hg
    | cons item items ih =>
      intro g howners hg
      have hrenewed : Meets (protocol limit) I g (renewLease item)
          fun _ g' => g'.At .reservation [] [] := by
        intro s hs
        have hrenew : Reservation.Command.OnBase .renew := trivial
        apply (meets_command hrenew hg item (howners item List.mem_cons_self)).bind
        exact fun result g' hg' => ⟨hg'.1, hs⟩
      apply hrenewed.bind
      · exact fun _ _ hg' => ih _ (fun other hmem => howners other (List.mem_cons_of_mem _ hmem)) hg'
      · exact fun _ _ hg' => hg'
  induction rounds generalizing g with
  | zero => exact Routine.meets_pure hg
  | succ rounds ih =>
    exact (hitems items g howners hg).bind (fun _ _ hg' => ih hg') (fun _ _ hg' => hg')

structure Process where
  task : Task
  program : Program Empty Call Call.Result Outcome
  know : Know
  alive : Bool

/-- The lock file that a call removes. -/
def Call.unlocks : Call → Option Name
  | .unlink (.lock target) | .remove (.lock target) => some target
  | _ => none

namespace Process

def start (task : Task) : Process := ⟨task, task.program, .initial task.role, true⟩

def nextCall (p : Process) : Option Call :=
  match p.program with
  | .perform call _ => some call
  | .pure _ | .raise _ => none

theorem program_of_nextCall {p : Process} {call : Call} (h : p.nextCall = some call) :
    ∃ next, p.program = .perform call next := by
  unfold nextCall at h
  cases hprogram : p.program with
  | perform call' next =>
    rw [hprogram] at h
    obtain rfl := Option.some.inj h
    exact ⟨next, rfl⟩
  | pure value =>
    rw [hprogram] at h
    cases h
  | raise error => cases error

/-- The lock file that the next call removes. -/
def unlocks (p : Process) : Option Name := p.nextCall.bind Call.unlocks

/-- The target whose sidecar the next call reads. -/
def inspects (p : Process) : Option Name :=
  match p.nextCall with
  | some (.read (.lease target)) => some target
  | _ => none

/-- The target whose lock file the next call creates. -/
def locks (p : Process) : Option Name :=
  match p.nextCall with
  | some (.create target _) => some target
  | _ => none

/-- The file that the next call moves. -/
def moves (p : Process) : Option Name :=
  match p.nextCall with
  | some (.replace source _) => some source
  | _ => none

/-- What the task has come to. -/
def outcome (p : Process) : Option Outcome :=
  match p.program with
  | .pure outcome => some outcome
  | .perform _ _ | .raise _ => none

/-- The process is alive and inside the critical section of `target`. -/
def Inside (p : Process) (target : Name) : Prop := p.alive = true ∧ p.know.Holds target

instance (p : Process) (target : Name) : Decidable (p.Inside target) :=
  inferInstanceAs (Decidable (_ ∧ _))

end Process

theorem Task.follows {limit : Rat} {task : Task} (h : task.Proper limit) :
    Follows (protocol limit) (.initial task.role) task.program fun _ _ => True := by
  cases task with
  | session r commands =>
    exact (meets_session commands h.2 (Know.at_initial _) r h.1).bind fun _ _ _ => trivial
  | janitor maxTempAge passes =>
    exact (meets_janitor (I := fun _ => True) passes h (Know.at_initial _) () trivial).bind
      fun _ _ _ => trivial
  | delivery materialized rounds =>
    apply (meets_renewRounds (I := fun _ => True) h rounds (Know.at_initial _) () trivial).bind
    rintro ⟨result, s⟩ g -
    cases result with
    | ok _ => trivial
    | error error => trivial
  | entering entries =>
    have hstale : ∀ entry ∈ entries, ∀ age ∈ entry.2,
        (Task.entering entries).role = .janitor ∧ limit ≤ age := by
      intro entry hentry age hage
      refine ⟨if_pos ⟨entry, hentry, ?_⟩, h entry hentry age hage⟩
      rw [Option.mem_def.mp hage, Option.isSome_some]
    exact (meets_enterAll (I := fun _ => True) entries hstale (Know.at_initial _) ()
      trivial).bind fun _ _ _ => trivial

structure World where
  disk : Disk
  processes : List Process

inductive Action where
  | spawn (task : Task)
  /-- Process `i` makes its next call. -/
  | advance (i : Nat) (fault : Fault) (listing : List Name)
  | crash (i : Nat)
  | tick (elapsed : Rat)
  /-- A media file is written or removed. -/
  | media (name : Name) (content : Option Content)
  /-- A directory is made or changed, or removed. -/
  | directory (name : Name) (mtime : Option Rat)

namespace World

def initial (now : Rat) : World := ⟨⟨now, 0, fun _ => none, fun _ => none⟩, []⟩

def setProcess (w : World) (i : Nat) (p : Process) : World :=
  { w with processes := w.processes.set i p }

/-- What a call of `p` makes of the directory and of the process. -/
def afterCall (limit : Rat) (w : World) (i : Nat) (p : Process) (fault : Fault)
    (listing : List Name) (call : Call)
    (next : call.Result → Program Empty Call Call.Result Outcome) :
    World :=
  let done := w.disk.perform fault listing call
  { w with disk := done.2 }.setProcess i
    { p with program := next done.1, know := nextKnow limit p.know call done.1 }

def step (limit : Rat) (w : World) : Action → Option World
  | .spawn task => some { w with processes := w.processes ++ [.start task] }
  | .advance i fault listing =>
    w.processes[i]?.bind fun p =>
      if p.alive then
        match p.program with
        | .perform call next => some (w.afterCall limit i p fault listing call next)
        | .pure _ | .raise _ => none
      else none
  | .crash i => w.processes[i]?.map fun p => w.setProcess i { p with alive := false }
  | .tick elapsed =>
    if 0 ≤ elapsed then some { w with disk := { w.disk with now := w.disk.now + elapsed } }
    else none
  | .media name content =>
    match content with
    | some content => some { w with disk := w.disk.writeFile name content }
    | none => some { w with disk := w.disk.put name none }
  | .directory name mtime =>
    some { w with disk := { w.disk with directories := Function.update w.disk.directories name mtime } }

/-- `limit` is the age at which a lock first counts as stale for any of the processes. -/
def machine (limit : Rat) : Machine World Action := ⟨step limit⟩

end World

end YtdlBot.Leases
