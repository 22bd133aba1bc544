import Mathlib.Data.List.Basic

/-!
# Computations that may fail

A sequence of fallible steps has a result only when every step has one.
-/

namespace YtdlBot.Framework

variable {α β ε : Type}

theorem bind_eq_ok {x : Except ε α} {f : α → Except ε β} {b : β} (h : x >>= f = .ok b) :
    ∃ a, x = .ok a ∧ f a = .ok b := by
  cases x with
  | error e => cases h
  | ok a => exact ⟨a, rfl, h⟩

theorem ok_bind (a : α) (f : α → Except ε β) : (.ok a >>= f) = f a := rfl

theorem check_eq_ok {c : Prop} [Decidable c] {error : ε} {after : α → Except ε β}
    {rest : Except ε β} {b : β} :
    (if c then throw error >>= after else rest) = .ok b ↔ ¬ c ∧ rest = .ok b := by
  by_cases hc : c
  · simp [hc, bind, Except.bind, throw, throwThe, MonadExceptOf.throw]
  · simp [hc]

theorem map_eq_ok {x : Except ε α} {f : α → β} {b : β} (h : x.map f = .ok b) :
    ∃ a, x = .ok a ∧ f a = b := by
  cases x with
  | error e => cases h
  | ok a => exact ⟨a, rfl, Except.ok.inj h⟩

theorem mem_of_mapM_eq_ok {f : α → Except ε β} {l : List α} {values : List β} {value : β}
    (h : l.mapM f = .ok values) (hvalue : value ∈ values) : ∃ x ∈ l, f x = .ok value := by
  induction l generalizing values with
  | nil =>
    rw [List.mapM_nil] at h
    obtain rfl := Except.ok.inj h
    simp at hvalue
  | cons x l ih =>
    rw [List.mapM_cons] at h
    obtain ⟨first, hfirst, h⟩ := bind_eq_ok h
    obtain ⟨rest, hrest, h⟩ := bind_eq_ok h
    obtain rfl := Except.ok.inj h
    rcases List.mem_cons.mp hvalue with rfl | hmem
    · exact ⟨x, by simp, hfirst⟩
    · obtain ⟨y, hy, hyvalue⟩ := ih hrest hmem
      exact ⟨y, by simp [hy], hyvalue⟩

theorem mapM_value_of_mem {f : α → Except ε β} {l : List α} {values : List β} {x : α}
    (h : l.mapM f = .ok values) (hx : x ∈ l) : ∃ value ∈ values, f x = .ok value := by
  induction l generalizing values with
  | nil => simp at hx
  | cons y l ih =>
    rw [List.mapM_cons] at h
    obtain ⟨first, hfirst, h⟩ := bind_eq_ok h
    obtain ⟨rest, hrest, h⟩ := bind_eq_ok h
    obtain rfl := Except.ok.inj h
    rcases List.mem_cons.mp hx with rfl | hmem
    · exact ⟨first, by simp, hfirst⟩
    · obtain ⟨value, hvalue, hxvalue⟩ := ih hrest hmem
      exact ⟨value, by simp [hvalue], hxvalue⟩

theorem mapM_eq_some (f : α → Option β) (l : List α) (values : List β) :
    l.mapM f = some values ↔ values.map some = l.map f := by
  induction l generalizing values with
  | nil =>
    rw [List.mapM_nil, List.map_nil, List.map_eq_nil_iff]
    constructor
    · intro h
      exact (Option.some.inj h).symm
    · rintro rfl
      rfl
  | cons x l ih =>
    rw [List.mapM_cons, List.map_cons]
    cases hx : f x with
    | none => cases values <;> simp
    | some value =>
      cases values with
      | nil => simp [Option.bind_eq_some_iff]
      | cons first rest =>
        simp only [Option.bind_eq_bind, Option.bind_some, Option.pure_def,
          Option.bind_eq_some_iff, Option.some.injEq, List.cons.injEq, List.map_cons, ← ih]
        constructor
        · rintro ⟨other, hother, hfirst, rfl⟩
          exact ⟨hfirst.symm, hother⟩
        · rintro ⟨hfirst, hrest⟩
          exact ⟨rest, hrest, hfirst.symm, rfl⟩

theorem getElem?_of_map_some {f : α → Option β} {l : List α} {values : List β}
    (h : values.map some = l.map f) (index : Nat) : values[index]? = l[index]?.bind f := by
  have hindex := congrArg (fun l => l[index]?) h
  simp only [List.getElem?_map] at hindex
  cases hx : l[index]? with
  | none =>
    rw [hx] at hindex
    simpa using hindex
  | some x =>
    rw [hx] at hindex
    cases hv : values[index]? with
    | none => simp [hv] at hindex
    | some value => simpa [hv] using hindex

end YtdlBot.Framework
