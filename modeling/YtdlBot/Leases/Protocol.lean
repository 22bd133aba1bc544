import YtdlBot.Leases.Operations

/-!
# What a process knows

Which locks a process holds, which lock it found stale, and what the files that its locks guard
may contain. A sidecar is changed only under its lock, and the janitor deletes only what it found
without an active lease.
-/

namespace YtdlBot.Leases

open Framework
open Framework.Program (Protocol)

/-- A janitor may break stale locks and delete media files. -/
inductive Role where
  | janitor
  | reservation
deriving DecidableEq

/-- A lock file that the process created and has not released yet. -/
structure Hold where
  target : Name
  inode : Nat
  token : Nat
  since : Rat
deriving DecidableEq

/-- A sidecar with this content names an owner. -/
def Named (content : Option Content) : Prop := (content.bind Content.identity).isSome

structure Know where
  role : Role
  held : List Hold
  /-- The last clock reading since the process last took a lock. -/
  clock : Option Rat
  /-- The lock file that was found stale: its target and inode. -/
  stale : Option (Name × Nat)
  /-- What a guarded file may contain. -/
  maybe : Name → Option Content → Prop
  /-- The media file that is, or may be, renamed: from where and onto which name. -/
  promoting : Option (Name × Name)

/-- The target whose lock guards a file: its sidecar and the temporary files of that. -/
def guardOf : Name → Option Name
  | .lease target | .temp target _ => some target
  | .base _ | .lock _ => none

namespace Know

def initial (role : Role) : Know := ⟨role, [], none, none, fun _ _ => True, none⟩

def Holds (g : Know) (target : Name) : Prop := ∃ h ∈ g.held, h.target = target

instance (g : Know) (target : Name) : Decidable (g.Holds target) :=
  inferInstanceAs (Decidable (∃ h ∈ g.held, h.target = target))

/-- No rename onto `target` is under way. -/
def Settled (g : Know) (target : Name) : Prop := ∀ source, g.promoting ≠ some (source, target)

/-- The sidecar of `target` names an owner. -/
def Leased (g : Know) (target : Name) : Prop := ∀ content, g.maybe (.lease target) content → Named content

/-- The sidecar of `target` was found without an active lease. -/
def Inactive (g : Know) (target : Name) : Prop :=
  ∀ content, g.maybe (.lease target) content →
    ∀ owner expiresAt, content.bind Content.identity = some (owner, expiresAt) →
      ∃ now, g.clock = some now ∧ expiresAt ≤ now

/-- A new lock is taken; nothing is known yet of what it guards. -/
def take (g : Know) (h : Hold) : Know :=
  { g with
    held := h :: g.held
    clock := none
    maybe := fun name => if guardOf name = some h.target then fun _ => True else g.maybe name }

/-- The lock of `target` is given up. -/
def drop (g : Know) (target : Name) : Know :=
  { g with
    held := g.held.filter fun h => h.target ≠ target
    promoting := g.promoting.filter fun rename => rename.2 ≠ target }

def set (g : Know) (name : Name) (contents : Option Content → Prop) : Know :=
  { g with maybe := Function.update g.maybe name contents }

@[simp] theorem set_self (g : Know) (name : Name) (contents : Option Content → Prop) :
    (g.set name contents).maybe name = contents := Function.update_self ..

theorem set_other (g : Know) {name other : Name} (contents : Option Content → Prop)
    (h : other ≠ name) : (g.set name contents).maybe other = g.maybe other :=
  Function.update_of_ne h ..

/-- The file is seen with `content`. -/
def see (g : Know) (name : Name) (content : Option Content) : Know :=
  g.set name fun other => g.maybe name other ∧ other = content

/-- A sidecar is replaced; a failed call may have replaced it. -/
def replaced (g : Know) (source destination : Name) (done : Done) : Know :=
  (g.set destination fun content =>
    match done with
    | .ok => g.maybe source content
    | .fault => g.maybe destination content ∨ g.maybe source content).set source fun _ => True

/-- A media file is renamed, forth or back; a failed call may have renamed it. -/
def renamed (g : Know) (source destination : Name) (done : Done) : Know :=
  if g.promoting = some (destination, source) then
    match done with
    | .ok => { g with promoting := none }
    | .fault => g
  else { g with promoting := some (source, destination) }

/-- The rename is over when nothing is left of it. -/
def settle (g : Know) (isOver : Name × Name → Bool) : Know :=
  { g with promoting := g.promoting.filter fun rename => !isOver rename }

/-- The lock file still holds the token that this process wrote. -/
def reads (g : Know) (target : Name) (result : ReadText) : Bool :=
  g.held.any fun h => h.target = target ∧ result = .ok (.token h.token)

/-- A rename forth needs the lock and the lease of the destination. -/
def Renames (g : Know) (source destination : Name) : Prop :=
  g.role = .reservation ∧ (g.promoting = some (destination, source) ∨
    (g.promoting = none ∧ g.Holds destination ∧ g.Leased destination))

end Know

/-- What a process knows after a call. `limit` bounds from below the age at which locks count as
stale. A janitor takes an unreadable sidecar for a missing one. -/
def nextKnow (limit : Rat) (g : Know) : (call : Call) → call.Result → Know
  | .clock, now => { g with clock := some now }
  | .create target token, result =>
    match result with
    | .created inode since => g.take ⟨target, inode, token, since⟩
    | .exists | .fault => g
  | .stat name, result =>
    match name, result with
    | .lock target, .ok mtime inode =>
      { g with
        stale := g.clock.bind fun now =>
          if limit < now - mtime then some (target, inode) else none }
    | _, _ => g
  | .read name, result =>
    match name, result with
    | .lock target, result => if g.reads target result then g else g.drop target
    | name, .ok content => g.see name (some content)
    | name, .notFound => g.see name none
    | name, .fault => if g.role = .janitor then g.see name none else g
  | .unlink name, result =>
    match name, result with
    | .lock target, _ => { g.drop target with stale := none }
    | .base file, .ok | .base file, .notFound => g.settle fun rename => rename.2 = .base file
    | name, .ok | name, .notFound => g.set name fun content => content = none
    | name, .fault => g.set name fun content => g.maybe name content ∨ content = none
  | .writeText name content, result =>
    match result with
    | .ok => g.set name fun other => other = some content
    | .fault => g.set name fun _ => True
  | .replace source destination, result =>
    match source with
    | .base _ => g.renamed source destination result
    | _ => g.replaced source destination result
  | .exists name, result =>
    g.settle fun rename => (name = rename.1 && result) || (name = rename.2 && !result)
  | .remove name, _ =>
    match name with
    | .lock target => { g.drop target with stale := none }
    | _ => g
  | .uuid, _ | .writeToken _ _ _, _ | .fsync, _ | .listdir, _ | .isDir _, _ | .getmtime _, _
  | .scandir _, _ | .rmdir _, _ => g

def allowsCall (g : Know) : Call → Prop
  | .create target _ => ¬ g.Holds target
  | .writeToken target inode token =>
    ∃ h ∈ g.held, h.target = target ∧ h.inode = inode ∧ h.token = token
  | .unlink name =>
    match name with
    | .lock target => g.Holds target ∨ ∃ inode, g.stale = some (target, inode)
    | .lease target =>
      g.Holds target ∧ g.Settled target ∧ (g.role = .janitor → g.Inactive target)
    | .base file => g.role = .janitor → g.Holds (.base file) ∧ g.Inactive (.base file)
    | .temp _ _ => True
  | .writeText name _ => ∃ target owner, name = .temp target owner ∧ g.Holds target
  | .replace source destination =>
    match source, destination with
    | .base _, .base _ => g.Renames source destination
    | .temp target _, .lease target' =>
      target = target' ∧ g.Holds target ∧ ∀ content, g.maybe source content → Named content
    | _, _ => False
  | .stat name => ∀ target, name = .lock target → g.role = .janitor
  | .read name => ∃ target, name = .lease target ∨ name = .lock target
  | .remove name => name.inSlideshow = true
  | .clock | .uuid | .fsync | .exists _ | .listdir | .isDir _ | .getmtime _ | .scandir _
  | .rmdir _ => True

def protocol (limit : Rat) : Protocol Call Call.Result Know := ⟨allowsCall, nextKnow limit⟩

end YtdlBot.Leases
