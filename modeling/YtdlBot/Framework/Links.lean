import Mathlib.Data.List.Nodup
import Mathlib.Data.List.Perm.Subperm
import Mathlib.Logic.Relation

/-!
# Growing acyclic links

A link relation to which only links into sinks are added never gets a cycle, and a walk that
never visits a place twice is no longer than the list of places.
-/

namespace YtdlBot.Framework

open Relation

variable {α : Type*} {r r' : α → α → Prop}

/-- No place is reached from itself. -/
def Acyclic (r : α → α → Prop) : Prop := ∀ a, ¬ TransGen r a a

theorem Acyclic.mono (h : Acyclic r') (hsub : ∀ a b, r a b → r' a b) : Acyclic r :=
  fun a hcycle => h a (TransGen.mono hsub _ _ hcycle)

theorem Acyclic.of_sink {sink : α} (h : Acyclic r) (hadd : ∀ a b, r' a b → r a b ∨ b = sink)
    (hsink : ∀ b, ¬ r' sink b) : Acyclic r' := by
  have hpath : ∀ a b, TransGen r' a b → TransGen r a b ∨ b = sink := by
    intro a b hab
    induction hab with
    | single hlink =>
      rcases hadd _ _ hlink with hold | hnew
      · exact .inl (.single hold)
      · exact .inr hnew
    | tail hab hlink ih =>
      rcases hadd _ _ hlink with hold | hnew
      · rcases ih with hold' | rfl
        · exact .inl (hold'.tail hold)
        · exact absurd hlink (hsink _)
      · exact .inr hnew
  intro a hcycle
  rcases hpath a a hcycle with hold | rfl
  · exact h a hold
  · obtain ⟨b, hlink, -⟩ := TransGen.head'_iff.mp hcycle
    exact hsink b hlink

theorem length_le_of_nodup_subset {visited places : List α} (hnodup : visited.Nodup)
    (hsub : ∀ a ∈ visited, a ∈ places) : visited.length ≤ places.length :=
  (List.subperm_of_subset hnodup hsub).length_le

end YtdlBot.Framework
