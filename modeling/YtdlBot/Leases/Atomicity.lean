import YtdlBot.Leases.Promotion

/-!
# Atomic promotion

What a failed `promote` leaves behind. The handler sees only which of the two files exist; a missing
old file makes it take a file that was there before for the one it has moved itself.
-/

namespace YtdlBot.Leases

open Framework
open Framework.Routine (Ends MayEnd throw capture ofExcept get modify)
open Reservation (addPath discardPath)

namespace Promoting

variable (owner : String) (old new : Name)

/-- What a failed promotion must leave: the media data protected or deleted, no marker that
`release` would miss, and everything of other owners as it was. -/
structure Atomic (before : Reservation) (d : Disk) (after : Reservation) (w : Scene) : Prop where
  media : old ∈ before.paths → d.Owned owner old → (d.files old).isSome = true →
    (∃ path, (path = old ∨ path = new) ∧ w.disk.files path = d.files old ∧
        path ∈ after.paths ∧ w.disk.Owned owner path) ∨
      (w.progress.unwritten = true ∧ w.disk.files old = none ∧ w.disk.files new = none)
  tracked : ∀ path, w.disk.Owned owner path →
    path ∈ after.paths ∨ (d.Owned owner path ∧ path ∉ before.paths)
  foreign : ∀ file other expiresAt, d.identity (.base file) = some (other, expiresAt) →
    other ≠ owner → w.disk.now < expiresAt →
    w.disk.files (.base file) = d.files (.base file) ∧
      w.disk.files (.lease (.base file)) = d.files (.lease (.base file))

/-- The promotion gets as far as its forward operations. -/
structure Ready (r : Reservation) (d : Disk) : Prop where
  unreleased : r.released = false
  differ : old ≠ new
  source : old ∈ r.paths
  destination : new ∉ r.paths
  owned : d.Owned owner old
  unlocked : d.files (.lock old) = none ∧ d.files (.lock new) = none

end Promoting

namespace Promotion

variable (p : Promotion)

abbrev Atomic : Reservation → Disk → Reservation → Scene → Prop :=
  Promoting.Atomic p.owner p.old p.new
abbrev Ready : Reservation → Disk → Prop := Promoting.Ready p.owner p.old p.new
variable {p} {r₀ s : Reservation} {w₀ w w' : Scene}

section Handler

theorem Atomic.later (h : p.Atomic r₀ w₀.disk s w) (hframe : Frame [] w w')
    (hunwritten : w'.progress.unwritten = w.progress.unwritten) :
    p.Atomic r₀ w₀.disk s w' := by
  have howned : ∀ path, w'.disk.Owned p.owner path ↔ w.disk.Owned p.owner path := by
    intro path
    rw [Disk.Owned, hframe.identity List.not_mem_nil]
    exact Iff.rfl
  have hfiles : ∀ name, name.isAux = false → w'.disk.files name = w.disk.files name :=
    fun name haux => hframe.files name haux List.not_mem_nil
  refine ⟨?_, ?_, ?_⟩
  · intro hin hold hsome
    rcases h.media hin hold hsome with ⟨path, hpath, hfile, hmem, hpathOwned⟩ | ⟨hlost, holdNone, hnewNone⟩
    · refine .inl ⟨path, hpath, ?_, hmem, (howned path).mpr hpathOwned⟩
      rcases hpath with rfl | rfl
      · rw [hfiles _ rfl]
        exact hfile
      · rw [hfiles _ rfl]
        exact hfile
    · refine .inr ⟨by rw [hunwritten]; exact hlost, ?_, ?_⟩
      · rw [hfiles _ rfl]
        exact holdNone
      · rw [hfiles _ rfl]
        exact hnewNone
  · exact fun path hpath => h.tracked path ((howned path).mp hpath)
  · intro file owner expiresAt hidentity hne hlive
    obtain ⟨hfile, hlease⟩ := h.foreign file owner expiresAt hidentity hne
      (lt_of_le_of_lt hframe.now hlive)
    exact ⟨(hfiles _ rfl).trans hfile, (hfiles _ rfl).trans hlease⟩

end Handler

section Run

/-- A promotion that raised is atomic. One that has used up its failing call may as well have
returned; it cannot raise any more. -/
def Settled (p : Promotion) (r₀ : Reservation) (w₀ : Scene) (result : Except LeaseError Unit)
    (r : Reservation) (w : Scene) : Prop :=
  p.Atomic r₀ w₀.disk r w ∨ (result = .ok () ∧ w.progress.phase ≠ .forward)

/-- With the media file missing, what is at the new path is ours, or there is nothing. -/
def Calm (p : Promotion) (w : Scene) : Prop :=
  w.disk.files p.old = none →
    w.disk.Owned p.owner p.new ∨ (w.disk.files p.new = none ∧ p.Clear p.new w w)

theorem Calm.clear (hcalm : p.Calm w₀) (hold : w₀.disk.files p.old = none)
    (hnow : w₀.disk.now ≤ w.disk.now) : p.Clear p.new w₀ w := by
  rcases hcalm hold with howned | ⟨-, hclear⟩
  · exact clear_of_owned howned
  · exact hclear.later hnow

theorem Clear.before {w₁ : Scene} {target : Name} (h : p.Clear target w₁ w)
    (hframe : Frame [] w₀ w₁) : p.Clear target w₀ w := by
  intro owner expiresAt hidentity
  rw [← hframe.identity List.not_mem_nil] at hidentity
  exact h owner expiresAt hidentity

theorem Settled.later {r : Except LeaseError Unit} (h : p.Settled r₀ w₀ r s w)
    (hframe : Frame [] w w') (hunwritten : w'.progress.unwritten = w.progress.unwritten)
    (hphase : w.progress.phase ≠ .forward → w'.progress = w.progress) :
    p.Settled r₀ w₀ r s w' := by
  rcases h with hatomic | ⟨hr, hforward⟩
  · exact .inl (hatomic.later hframe hunwritten)
  · right
    refine ⟨hr, ?_⟩
    rw [hphase hforward]
    exact hforward

end Run

end Promotion

end YtdlBot.Leases
