import YtdlBot.Framework.Environment
import YtdlBot.Leases.Operations

/-!
# A promotion that fails

`promote` alone on the directory, with one forward call that fails and a way back on which the
rename and the rewriting of the old marker may fail too. A failed rename may have taken effect, and
a failed write may have left anything; a failed unlink has removed nothing, as POSIX promises.
-/

namespace YtdlBot.Leases

open Framework
open Framework.Routine (Ends throw capture ofExcept get modify)

def Name.isAux : Name → Bool
  | .lock _ | .temp _ _ => true
  | .base _ | .lease _ => false

/-- Reading the clock, making a token and looking for a file never fail. -/
def Call.fallible : Call → Bool
  | .clock | .uuid | .exists _ | .listdir => false
  | _ => true

/-- A failed call of this kind may have had an effect. -/
def Call.mayHaveEffect : Call → Bool
  | .writeToken _ _ _ | .writeText _ _ | .replace _ _ => true
  | _ => false

inductive Phase where
  | forward
  /-- A forward call has failed. -/
  | failed
  /-- The handler looks for the files or renames back. -/
  | back
deriving DecidableEq

/-- `unwritten`: a call of the rewriting of the old marker has failed. -/
structure Progress where
  phase : Phase
  unwritten : Bool
deriving DecidableEq

def Progress.fail (g : Progress) : Progress := { g with phase := .failed }

structure Scene where
  disk : Disk
  progress : Progress

namespace Promoting

variable (owner : String) (old new : Name)

/-- The calls that write the old marker. -/
def rewrites : Call → Bool
  | .writeText name _ => decide (name = .temp old owner)
  | .replace source _ => decide (source = .temp old owner)
  | .unlink name => decide (name = .temp old owner)
  | _ => false

/-- The handler has taken over. -/
def turns (call : Call) : Bool := decide (call = .exists old) || decide (call = .replace new old)

def Permitted (g : Progress) (call : Call) (fault : Fault) : Prop :=
  fault = .none ∨ (call.fallible = true ∧ (fault = .dirty → call.mayHaveEffect = true) ∧
    (g.phase = .forward ∨ call = .replace new old ∨
      (g.phase = .back ∧ rewrites owner old call = true)))

def next (g : Progress) (call : Call) (fault : Fault) : Progress where
  phase :=
    if turns old new call then .back
    else if g.phase = .forward ∧ fault ≠ .none then .failed
    else g.phase
  unwritten :=
    g.unwritten || (decide (g.phase = .back) && rewrites owner old call && decide (fault ≠ .none))

/-- Time may pass before a call of the promotion by `owner` of `old` to `new`, and the call may
fail. -/
def environment : Environment Call Call.Result Scene where
  answers w call response w' := ∃ now fault, w.disk.now ≤ now ∧
    Permitted owner old new w.progress call fault ∧
    ({ w.disk with now := now } : Disk).perform fault [] call = (response, w'.disk) ∧
    w'.progress = next owner old new w.progress call fault

end Promoting

/-- The promotion by `owner` of a media file to the name of a media file. -/
structure Promotion where
  owner : String
  source : BaseName
  destination : BaseName

namespace Promotion

variable (p : Promotion)

abbrev old : Name := .base p.source
abbrev new : Name := .base p.destination
abbrev rewrites : Call → Bool := Promoting.rewrites p.owner p.old
abbrev turns : Call → Bool := Promoting.turns p.old p.new
abbrev next : Progress → Call → Fault → Progress := Promoting.next p.owner p.old p.new
abbrev environment : Environment Call Call.Result Scene :=
  Promoting.environment p.owner p.old p.new

end Promotion

/-- Owner and expiry of the sidecar of a target. -/
def Disk.identity (d : Disk) (target : Name) : Option (String × Rat) :=
  (d.content (.lease target)).bind Content.identity

/-- The sidecar of the target names the owner. -/
def Disk.Owned (d : Disk) (owner : String) (target : Name) : Prop :=
  (d.identity target).map Prod.fst = some owner

instance (d : Disk) (owner : String) (target : Name) : Decidable (d.Owned owner target) :=
  inferInstanceAs (Decidable (_ = _))

/-- Only the listed files and auxiliary ones have changed. -/
structure Frame (names : List Name) (w w' : Scene) : Prop where
  now : w.disk.now ≤ w'.disk.now
  files : ∀ name, name.isAux = false → name ∉ names → w'.disk.files name = w.disk.files name

namespace Frame

variable {names names' : List Name} {w w' w'' : Scene}

theorem refl (w : Scene) : Frame names w w := ⟨le_refl _, fun _ _ _ => rfl⟩

theorem trans (h : Frame names w w') (h' : Frame names w' w'') : Frame names w w'' :=
  ⟨h.now.trans h'.now, fun name haux hname => (h'.files name haux hname).trans (h.files name haux hname)⟩

theorem mono (h : Frame names w w') (hsub : names ⊆ names') : Frame names' w w' :=
  ⟨h.now, fun name haux hname => h.files name haux fun hmem => hname (hsub hmem)⟩

theorem drop {name : Name} (h : Frame (name :: names) w w') (haux : name.isAux = true) :
    Frame names w w' := by
  refine ⟨h.now, fun other hother hmem => h.files other hother ?_⟩
  intro hcons
  rcases List.mem_cons.mp hcons with rfl | hrest
  · rw [haux] at hother
    cases hother
  · exact hmem hrest

theorem identity (h : Frame names w w') {target : Name} (htarget : .lease target ∉ names) :
    w'.disk.identity target = w.disk.identity target := by
  rw [Disk.identity, Disk.identity, Disk.content, Disk.content, h.files _ rfl htarget]

end Frame

namespace Promotion

variable {p : Promotion} {w w' : Scene}

/-- A call failed: the forward one, or one that rewrites the old marker. -/
def Slip (p : Promotion) (w : Scene) (call : Call) (w' : Scene) : Prop :=
  (w.progress.phase = .forward ∧ w'.progress = w.progress.fail) ∨
    (w.progress.phase = .back ∧ p.rewrites call = true ∧ w'.progress = ⟨.back, true⟩)

section Answers

variable {call : Call} {fault : Fault}

/-- A rename, with what it does to the two names. -/
def Moved (source destination : Name) (w w' : Scene) : Prop :=
  (w.disk.files source).isSome = true ∧ w'.disk.files destination = w.disk.files source ∧
    w'.disk.files source = none

def Unmoved (source destination : Name) (w w' : Scene) : Prop :=
  w'.disk.files destination = w.disk.files destination ∧ w'.disk.files source = w.disk.files source

end Answers

/-- The call that failed was a forward one, or one of the rewriting of the old marker. -/
def Failed (w w' : Scene) : Prop :=
  (w.progress.phase = .forward ∧ w'.progress = w.progress.fail) ∨
    (w.progress.phase = .back ∧ w'.progress = ⟨.back, true⟩)

theorem Slip.failed {call : Call} (h : p.Slip w call w') : Failed w w' := by
  rcases h with hforward | ⟨hback, -, hprogress⟩
  · exact .inl hforward
  · exact .inr ⟨hback, hprogress⟩

theorem Failed.trans {w'' : Scene} (h : Failed w w') (h' : Failed w' w'') : Failed w w'' := by
  rcases h with ⟨hforward, hprogress⟩ | ⟨hback, hprogress⟩
  · rcases h' with ⟨hphase, -⟩ | ⟨hphase, -⟩
    · rw [hprogress] at hphase
      cases hphase
    · rw [hprogress] at hphase
      cases hphase
  · rcases h' with ⟨hphase, -⟩ | ⟨-, hprogress'⟩
    · rw [hprogress] at hphase
      cases hphase
    · exact .inr ⟨hback, hprogress'⟩

/-- No lease of another owner on the target is live any more. -/
def Clear (p : Promotion) (target : Name) (w w' : Scene) : Prop :=
  ∀ owner expiresAt, w.disk.identity target = some (owner, expiresAt) → owner ≠ p.owner →
    expiresAt ≤ w'.disk.now

theorem Clear.later {target : Name} {w'' : Scene} (h : p.Clear target w w')
    (hnow : w'.disk.now ≤ w''.disk.now) : p.Clear target w w'' :=
  fun owner expiresAt hidentity hne => (h owner expiresAt hidentity hne).trans hnow

theorem clear_of_owned {target : Name} (h : w.disk.Owned p.owner target) :
    p.Clear target w w' := by
  intro owner expiresAt hidentity hne
  rw [Disk.Owned, hidentity] at h
  exact absurd (Option.some.inj h) hne

section Operations

variable {s : Reservation} {target : Name}

/-- The sidecar is as it was, or names the owner. -/
def Rewritten (p : Promotion) (target : Name) (w w' : Scene) : Prop :=
  w'.disk.files (.lease target) = w.disk.files (.lease target) ∨ w'.disk.Owned p.owner target

theorem Rewritten.later {w'' : Scene} (h : p.Rewritten target w w') (hframe : Frame [] w' w'') :
    p.Rewritten target w w'' := by
  rcases h with hsame | howned
  · exact .inl ((hframe.files _ rfl List.not_mem_nil).trans hsame)
  · right
    rw [Disk.Owned, hframe.identity List.not_mem_nil]
    exact howned

theorem Owned.later {w'' : Scene} (h : w'.disk.Owned p.owner target) (hframe : Frame [] w' w'') :
    w''.disk.Owned p.owner target := by
  rw [Disk.Owned, hframe.identity List.not_mem_nil]
  exact h

/-- Of the locks only that of the target has changed. -/
def OnlyLock (target : Name) (w w' : Scene) : Prop :=
  ∀ other, other ≠ target → w'.disk.files (.lock other) = w.disk.files (.lock other)

theorem OnlyLock.trans {w'' : Scene} (h : OnlyLock target w w') (h' : OnlyLock target w' w'') :
    OnlyLock target w w'' :=
  fun other hother => (h' other hother).trans (h other hother)

end Operations

end Promotion

end YtdlBot.Leases
