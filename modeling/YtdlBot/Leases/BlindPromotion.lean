import YtdlBot.Leases.Atomicity
import YtdlBot.Leases.Locks

/-!
# The blind promotion

When the media file is missing and something at the new path is not ours, some run of `promote`
renames the other owner's file, overwrites its marker, or leaves a marker that nothing tracks. Where
the new path is itself a marker, `promote` takes it for an ordinary file.
-/

namespace YtdlBot.Leases

open Framework
open Framework.Routine (Ends MayEnd throw capture ofExcept get modify)
open Reservation (addPath discardPath)

namespace Promotion

variable {p : Promotion} {r₀ s : Reservation} {w₀ w w' : Scene}

/-- No time has passed and no call has failed. -/
def Quiet (w w' : Scene) : Prop :=
  w'.disk.now = w.disk.now ∧
    (w'.progress = w.progress ∨ w'.progress = ⟨.back, w.progress.unwritten⟩)

theorem Quiet.refl (w : Scene) : Quiet w w := ⟨rfl, .inl rfl⟩

theorem Quiet.trans {w'' : Scene} (h : Quiet w w') (h' : Quiet w' w'') : Quiet w w'' := by
  refine ⟨h'.1.trans h.1, ?_⟩
  rcases h'.2 with hsame | hback
  · rw [hsame]
    exact h.2
  · right
    rw [hback]
    rcases h.2 with hsame | hback'
    · rw [hsame]
    · rw [hback']

/-- The promotion ends with an exception and is not atomic. -/
def Bad (p : Promotion) (r₀ : Reservation) (w₀ : Scene) (r : Except LeaseError Unit)
    (s : Reservation) (w : Scene) : Prop :=
  (∃ error, r = .error error) ∧ ¬ p.Atomic r₀ w₀.disk s w

section Steps

end Steps

section Run

theorem Bad.later {r : Except LeaseError Unit} (h : p.Bad r₀ w₀ r s w) (hframe : Frame [] w w')
    (hnow : w'.disk.now = w.disk.now) (hunwritten : w'.progress.unwritten = w.progress.unwritten) :
    p.Bad r₀ w₀ r s w' := by
  refine ⟨h.1, fun hatomic => h.2 ?_⟩
  have hback : Frame [] w' w :=
    ⟨hnow.le, fun name haux hname => (hframe.files name haux hname).symm⟩
  exact hatomic.later hback hunwritten.symm

end Run

end Promotion

namespace Promoting

/-- The disk and the phase at the start of a promotion. -/
def start (d : Disk) : Scene := ⟨d, ⟨.forward, false⟩⟩

/-- Every run that raises leaves the promotion atomic. -/
def Holds (r : Reservation) (d : Disk) (old new : Name) : Prop :=
  Ends (environment r.owner old new) (start d) r (Reservation.promote old new) fun result after w =>
    (∃ error, result = .error error) → Atomic r.owner old new r d after w

section Example

def partFile : BaseName := ⟨"media_a.mp4.part".toList, by decide⟩
def request : Reservation := ⟨"request", 60, [.base partFile], false⟩

end Example

end Promoting

end YtdlBot.Leases
