import Mathlib.Order.WellFounded
import YtdlBot.Framework.Machine

/-!
# Machines that end

A measure that every step decreases rules out infinite runs. Together with a step from every state
that is not final, every run can be continued to a final state and to nothing else.
-/

namespace YtdlBot.Framework.Machine

variable {σ α β : Type*} (M : Machine σ α)

/-- Every run ends, and only in final states. -/
structure Ends (final : σ → Prop) (s : σ) : Prop where
  /-- No run goes on for ever. -/
  finite : ∀ run : Nat → σ, run 0 = s → ¬ ∀ n, ∃ a, M.step (run n) a = some (run (n + 1))
  /-- No run is stuck before its end. -/
  progress : ∀ (as : List α) (t : σ), M.run s as = some t → ¬ final t → ∃ a t', M.step t a = some t'

/-- A measure decreases along the steps from the states of an invariant. -/
theorem finite_of_measure {I : σ → Prop} (rank : σ → β) {r : β → β → Prop} (hwf : WellFounded r)
    (hinv : ∀ s a s', I s → M.step s a = some s' → I s')
    (hdec : ∀ s a s', I s → M.step s a = some s' → r (rank s') (rank s)) (run : Nat → σ)
    (hstart : I (run 0)) : ¬ ∀ n, ∃ a, M.step (run n) a = some (run (n + 1)) := by
  intro hsteps
  have hall : ∀ n, I (run n) := by
    intro n
    induction n with
    | zero => exact hstart
    | succ n ih =>
      obtain ⟨a, ha⟩ := hsteps n
      exact hinv _ a _ ih ha
  have hdescent : ∀ n, r (rank (run (n + 1))) (rank (run n)) := by
    intro n
    obtain ⟨a, ha⟩ := hsteps n
    exact hdec _ a _ (hall n) ha
  exact (wellFounded_iff_isEmpty_descending_chain.mp hwf).false ⟨fun n => rank (run n), hdescent⟩

end YtdlBot.Framework.Machine
