import YtdlBot.Materialization.Fallback

/-!
# The item in hand

At any time the factory owns one item at most; every other item that was returned to it has been
released once.
-/

namespace YtdlBot.Materialization.Fallback

open Framework
open Media (MediaCandidate materializationCandidates)

/-- Every item has been released once. -/
structure AllReleased (returned : Nat) (released published : List Nat) : Prop where
  once : ∀ n < returned, released.count n = 1
  fresh : ∀ n, returned ≤ n → released.count n = 0
  unpublished : published = []

/-- Every item but one has been released once. -/
structure OneLeft (item returned : Nat) (released published : List Nat) : Prop where
  bound : item < returned
  kept : released.count item = 0
  once : ∀ n < returned, n ≠ item → released.count n = 1
  fresh : ∀ n, returned ≤ n → released.count n = 0
  unpublished : published = []

section Released

variable {item returned : Nat} {released published : List Nat}

theorem OneLeft.release (h : OneLeft item returned released published) :
    AllReleased returned (released ++ [item]) published := by
  constructor
  · intro n hn
    by_cases hitem : n = item
    · subst hitem
      simp [h.kept]
    · simpa [Ne.symm hitem] using h.once n hn hitem
  · intro n hn
    have hitem : item ≠ n := by
      have := h.bound
      omega
    simpa [hitem] using h.fresh n hn
  · exact h.unpublished

theorem AllReleased.receive (h : AllReleased returned released published) :
    OneLeft returned (returned + 1) released published := by
  constructor
  · exact Nat.lt_succ_self _
  · exact h.fresh _ (le_refl _)
  · intro n hn hitem
    exact h.once n (by omega)
  · intro n hn
    exact h.fresh n (Nat.le_of_succ_le hn)
  · exact h.unpublished

end Released

namespace State

variable {τ : Type} {c : Settings} {s s' : State τ} {item : MaterializedItem τ} {error : Error}

abbrev Clear (s : State τ) : Prop := AllReleased s.returned s.released s.published

abbrev Holding (s : State τ) (item : MaterializedItem τ) : Prop :=
  OneLeft item.number s.returned s.released s.published

/-- The number of the result. -/
def result (s : State τ) : Option Nat :=
  match s.phase with
  | .ended (.ok item) => some item.number
  | _ => none

/-- Every item is passed on, as the result or by publication to the users that wait for it, or it
is released once. -/
def Disposed (s : State τ) : Prop :=
  ∀ n < s.returned,
    ((s.result = some n ∨ n ∈ s.published) ∧ s.released.count n = 0) ∨
      (s.result ≠ some n ∧ n ∉ s.published ∧ s.released.count n = 1)

/-- The item that the factory has in hand. -/
def Owned (s : State τ) : Prop :=
  match s.phase with
  | .resolving | .racing => s.Clear ∧ s.completedValid = false
  | .materializing _ => s.Clear ∧ s.completedValid = false
  | .validating item => s.Holding item ∧ s.completedValid = false ∧ s.completed = some item
  | .releasing _ _ | .awaitingPrefetch _ | .reserving _ => s.Clear ∧ s.completedValid = false
  | .joining (.ok item) => s.Holding item ∧ s.completedValid = true ∧ s.completed = some item
  | .joining (.error _) => s.Clear ∧ s.completedValid = false
  | .releasingValid _ | .discarding _ => s.Clear
  | .storing item | .publishing item => s.Holding item
  | .ended _ => s.Disposed

theorem disposed_of_clear (h : s.Clear) : (s.ends (.error error)).Disposed := by
  intro n hn
  right
  refine ⟨?_, ?_, h.once n hn⟩
  · simp [ends, result]
  · simp [ends, h.unpublished]

theorem disposed_of_holding (h : s.Holding item) : (s.ends (.ok item)).Disposed := by
  intro n hn
  by_cases hitem : n = item.number
  · left
    subst hitem
    exact ⟨.inl rfl, h.kept⟩
  · right
    refine ⟨?_, ?_, h.once n hn hitem⟩
    · simpa [ends, result] using Ne.symm hitem
    · simp [ends, h.unpublished]

theorem disposed_of_published (h : s.Holding item) (cancelled : Bool) :
    ({ s with published := s.published ++ [item.number] }.ends
      (if cancelled then .error .cancelled else .ok item)).Disposed := by
  intro n hn
  by_cases hitem : n = item.number
  · left
    subst hitem
    refine ⟨.inr ?_, h.kept⟩
    simp [ends]
  · right
    refine ⟨?_, ?_, h.once n hn hitem⟩
    · cases cancelled <;> simp [ends, result, Ne.symm hitem]
    · simp [ends, h.unpublished, hitem]

theorem owned_leave_error (h : s.Clear) (hvalid : s.completedValid = false) :
    (s.leave (.error error)).Owned := by
  unfold leave
  split
  · exact ⟨h, hvalid⟩
  · exact disposed_of_clear h

theorem startPrefetch_eq : ∃ retried prefetch, s.startPrefetch c =
    { s with retriedTiktokCheap := retried, cheapPrefetch := prefetch } := by
  unfold startPrefetch
  split
  · exact ⟨true, true, rfl⟩
  · exact ⟨s.retriedTiktokCheap, s.cheapPrefetch, rfl⟩

theorem owned_iterate (h : s.Clear) (hvalid : s.completedValid = false) : (s.iterate c).Owned := by
  obtain ⟨retried, prefetch, hstart⟩ := startPrefetch_eq (c := c) (s := s)
  unfold iterate
  rw [hstart]
  dsimp only
  split
  · exact owned_leave_error h hvalid
  · exact ⟨h, rfl⟩

theorem owned_fallBack (h : s.Clear) (hvalid : s.completedValid = false) :
    (s.fallBack error).Owned := by
  unfold fallBack
  split
  · exact ⟨h, hvalid⟩
  · exact ⟨h, hvalid⟩

theorem owned_handle (h : s.Clear) (hvalid : s.completedValid = false) :
    (s.handle c error).Owned := by
  unfold handle
  dsimp only
  split
  · exact owned_fallBack h hvalid
  · split_ifs
    · split
      · exact owned_fallBack h hvalid
      · exact owned_iterate h hvalid
    · exact owned_fallBack h hvalid

theorem clear_of_raises (h : s.Owned) (hphase : s.phase.raises) :
    s.Clear ∧ s.completedValid = false := by
  unfold Owned at h
  cases hp : s.phase <;> rw [hp] at h hphase <;> first | exact h | exact absurd hphase id

theorem clear_of_handles (h : s.Owned) (hphase : s.phase.handles error) :
    s.Clear ∧ s.completedValid = false := by
  unfold Owned at h
  cases hp : s.phase <;> rw [hp] at h hphase <;> first | exact h | exact absurd hphase id

theorem clear_of_last (h : s.Owned) (hphase : s.phase.last) : s.Clear := by
  unfold Owned at h
  cases hp : s.phase <;> rw [hp] at h hphase <;>
    first | exact h.1 | exact h | exact absurd hphase id

theorem owned_initial (resolved : Option (ResolvedMedia τ)) : (initial c resolved).Owned := by
  have hclear : (blank : State τ).Clear := ⟨fun n hn => absurd hn (Nat.not_lt_zero n), fun _ _ => rfl, rfl⟩
  unfold initial
  cases resolved with
  | some selected => exact owned_iterate hclear rfl
  | none =>
    dsimp only
    split
    · exact ⟨hclear, rfl⟩
    · exact ⟨hclear, rfl⟩

theorem owned_move (h : s.Owned) (hmove : Move c s s') : s'.Owned := by
  cases hmove with
  | begin hphase selected =>
    rw [Owned, hphase] at h
    exact owned_iterate h.1 h.2
  | raced hphase candidate =>
    rw [Owned, hphase] at h
    exact h.1.receive
  | halted hphase error => exact disposed_of_clear (clear_of_last h hphase)
  | received hphase hkey =>
    rw [Owned, hphase] at h
    exact ⟨h.1.receive, h.2, rfl⟩
  | left hphase error =>
    obtain ⟨hclear, hvalid⟩ := clear_of_raises h hphase
    exact owned_leave_error hclear hvalid
  | handled hphase =>
    obtain ⟨hclear, hvalid⟩ := clear_of_handles h hphase
    exact owned_handle hclear hvalid
  | valid hphase =>
    rw [Owned, hphase] at h
    obtain ⟨hholding, -, hcompleted⟩ := h
    unfold leave
    split
    · exact ⟨hholding, rfl, hcompleted⟩
    · exact hholding
  | @rejected item hphase error =>
    rw [Owned, hphase] at h
    obtain ⟨hholding, hvalid, -⟩ := h
    unfold note
    split
    · exact ⟨hholding.release, hvalid⟩
    · exact ⟨hholding.release, hvalid⟩
  | prefetched hphase now =>
    rw [Owned, hphase] at h
    exact h
  | refetched hphase now havailable hreserve =>
    rw [Owned, hphase] at h
    exact owned_iterate h.1 h.2
  | reserved hphase havailable hreserve =>
    rw [Owned, hphase] at h
    exact owned_iterate h.1 h.2
  | @interrupted outcome item hphase hvalid hcompleted =>
    rw [Owned, hphase] at h
    cases outcome with
    | ok found =>
      obtain ⟨hholding, -, hfound⟩ := h
      obtain rfl := Option.some.inj (hfound.symm.trans hcompleted)
      exact hholding.release
    | error error => simp [hvalid] at h
  | @abandoned outcome hphase hnothing =>
    rw [Owned, hphase] at h
    cases outcome with
    | ok found => exact absurd ⟨h.2.1, by simp [h.2.2]⟩ hnothing
    | error error => exact disposed_of_clear h.1
  | @joined outcome hphase =>
    rw [Owned, hphase] at h
    cases outcome with
    | ok found => exact h.1
    | error error => exact disposed_of_clear h.1
  | stored hphase =>
    rw [Owned, hphase] at h
    exact h
  | @discarded item hphase error =>
    have hholding : s.Holding item := by
      rcases hphase with hphase | hphase <;> rw [Owned, hphase] at h <;> exact h
    exact hholding.release
  | @published item hphase cancelled =>
    rw [Owned, hphase] at h
    exact disposed_of_published h cancelled
  | inVain hphase =>
    rw [Owned, hphase] at h
    exact disposed_of_holding h

theorem not_disposed (h : s.Owned) (hphase : s.phase = .publishing item) :
    ¬ (s.ends (.error error)).Disposed := by
  rw [Owned, hphase] at h
  intro hdisposed
  rcases hdisposed item.number h.bound with ⟨hpassed, -⟩ | ⟨-, -, hone⟩
  · simp [ends, result, h.unpublished] at hpassed
  · have hnone : s.released.count item.number = 1 := hone
    rw [h.kept] at hnone
    cases hnone

end State

end YtdlBot.Materialization.Fallback
