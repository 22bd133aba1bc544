import Mathlib.Data.List.Nodup

/-!
# Waiting lines

A line of those that wait, with the history of who joined and who was served. Members leave from
anywhere, the head is served; so nobody is served before an earlier member that stayed.
-/

namespace YtdlBot.Framework

variable {ι : Type*}

/-- Who was served and who still waits, in the order in which they joined. -/
structure InLine (joined served line : List ι) : Prop where
  order : (served ++ line).Sublist joined
  nodup : joined.Nodup

namespace InLine

variable {joined served line : List ι} {i j : ι}

theorem empty : InLine ([] : List ι) [] [] := ⟨List.Sublist.refl _, List.nodup_nil⟩

theorem join (h : InLine joined served line) (hi : i ∉ joined) :
    InLine (joined ++ [i]) served (line ++ [i]) where
  order := by
    rw [← List.append_assoc]
    exact h.order.append (List.Sublist.refl _)
  nodup := by
    rw [List.nodup_append]
    refine ⟨h.nodup, List.nodup_singleton i, fun a ha b hb heq => ?_⟩
    obtain rfl := List.mem_singleton.mp hb
    exact hi (heq ▸ ha)

theorem serve (h : InLine joined served (i :: line)) : InLine joined (served ++ [i]) line where
  order := by
    rw [List.append_assoc]
    exact h.order
  nodup := h.nodup

theorem leave [BEq ι] (h : InLine joined served line) (i : ι) :
    InLine joined served (line.erase i) where
  order := (List.Sublist.append (List.Sublist.refl _) List.erase_sublist).trans h.order
  nodup := h.nodup

theorem nodup_all (h : InLine joined served line) : (served ++ line).Nodup := h.nodup.sublist h.order

theorem nodup_line (h : InLine joined served line) : line.Nodup :=
  (List.nodup_append.mp h.nodup_all).2.1

theorem not_served (h : InLine joined served line) (hi : i ∈ line) : i ∉ served := fun hserved =>
  (List.nodup_append.mp h.nodup_all).2.2 i hserved i hi rfl

theorem mem_joined (h : InLine joined served line) (hi : i ∈ line) : i ∈ joined :=
  h.order.subset (List.mem_append_right _ hi)

theorem pair_sublist {l part : List ι} (hnodup : l.Nodup) (hpart : part.Sublist l)
    (hpair : [i, j].Sublist l) (hi : i ∈ part) (hj : j ∈ part) : [i, j].Sublist part := by
  induction hpart with
  | slnil => cases hi
  | @cons part l a hpart ih =>
    rw [List.nodup_cons] at hnodup
    refine ih hnodup.2 ?_ hi hj
    cases hpair with
    | cons _ hpair => exact hpair
    | cons_cons _ hpair => exact absurd (hpart.subset hi) hnodup.1
  | @cons_cons part l a hpart ih =>
    rw [List.nodup_cons] at hnodup
    cases hpair with
    | cons _ hpair =>
      have hia : i ≠ a := fun heq => hnodup.1 (heq ▸ hpair.subset List.mem_cons_self)
      have hja : j ≠ a := fun heq =>
        hnodup.1 (heq ▸ hpair.subset (List.mem_cons_of_mem _ List.mem_cons_self))
      have hi' := (List.mem_cons.mp hi).resolve_left hia
      have hj' := (List.mem_cons.mp hj).resolve_left hja
      exact (ih hnodup.2 hpair hi' hj').cons _
    | cons_cons _ hpair =>
      have hjl : j ∈ l := List.singleton_sublist.mp hpair
      have hja : j ≠ i := fun heq => hnodup.1 (heq ▸ hjl)
      exact (List.singleton_sublist.mpr ((List.mem_cons.mp hj).resolve_left hja)).cons_cons _

/-- First come, first served. -/
theorem fifo (h : InLine joined served line) (hpair : [i, j].Sublist joined) (hj : j ∈ served)
    (hi : i ∈ served ++ line) : [i, j].Sublist served := by
  have hall := pair_sublist h.nodup h.order hpair hi (List.mem_append_left _ hj)
  obtain ⟨first, second, hsplit, hfirst, hsecond⟩ := List.sublist_append_iff.mp hall
  have hlast : second = [] := by
    by_contra hne
    have hmem : j ∈ second := by
      have hlast := congrArg List.getLast? hsplit
      rw [List.getLast?_append_of_ne_nil _ hne] at hlast
      exact List.mem_of_getLast? hlast.symm
    exact h.not_served (hsecond.subset hmem) hj
  rw [hlast, List.append_nil] at hsplit
  exact hsplit ▸ hfirst

end InLine

end YtdlBot.Framework
