import Mathlib.Algebra.GroupWithZero.Nat
import Mathlib.Data.List.Basic

/-!
# Parties and tallies

A system of parties is a list that only grows at its end; a party is replaced in place. A tally
is the sum of a weight over the parties, so that one step moves it by one weight.
-/

namespace YtdlBot.Framework

variable {α : Type*}

section Parties

variable {l : List α} {i j : Nat} {a b : α}

theorem getElem?_replaced (h : l[i]? = some a) :
    (l.set i b)[j]? = if j = i then some b else l[j]? := by
  have hlt : i < l.length := (List.getElem?_eq_some_iff.mp h).1
  rw [List.getElem?_set]
  by_cases hji : j = i
  · subst hji
    simp [hlt]
  · have hij : ¬ i = j := fun heq => hji heq.symm
    simp [hij, hji]

theorem getElem?_joined : (l ++ [b])[j]? = if j = l.length then some b else l[j]? := by
  by_cases hj : j = l.length
  · subst hj
    simp
  · rw [if_neg hj]
    by_cases hlt : j < l.length
    · exact List.getElem?_append_left hlt
    · have hout : l.length + 1 ≤ j := by omega
      rw [List.getElem?_eq_none (by simpa using hout), List.getElem?_eq_none (by omega)]

theorem ne_length_of_some (h : l[i]? = some a) : i ≠ l.length := by
  have hlt : i < l.length := (List.getElem?_eq_some_iff.mp h).1
  omega

theorem getElem?_replaced_self (h : l[i]? = some a) : (l.set i b)[i]? = some b :=
  (getElem?_replaced h).trans (if_pos rfl)

theorem replaced_cases {c : α} (h : l[i]? = some a) (hc : (l.set i b)[j]? = some c) :
    (j = i ∧ c = b) ∨ (j ≠ i ∧ l[j]? = some c) := by
  rw [getElem?_replaced h] at hc
  split at hc
  · exact .inl ⟨‹_›, (Option.some.inj hc).symm⟩
  · exact .inr ⟨‹_›, hc⟩

theorem replaced_stays {c : α} (h : l[i]? = some a) (hc : l[j]? = some c) :
    (j = i ∧ c = a ∧ (l.set i b)[j]? = some b) ∨ (j ≠ i ∧ (l.set i b)[j]? = some c) := by
  rw [getElem?_replaced h]
  by_cases hji : j = i
  · subst hji
    exact .inl ⟨rfl, Option.some.inj (hc.symm.trans h), if_pos rfl⟩
  · exact .inr ⟨hji, (if_neg hji).trans hc⟩

theorem getElem?_joined_of_some (h : l[i]? = some a) : (l ++ [b])[i]? = some a :=
  getElem?_joined.trans ((if_neg (ne_length_of_some h)).trans h)

theorem joined_cases {c : α} (hc : (l ++ [b])[j]? = some c) :
    (j = l.length ∧ c = b) ∨ (j ≠ l.length ∧ l[j]? = some c) := by
  rw [getElem?_joined] at hc
  split at hc
  · exact .inl ⟨‹_›, (Option.some.inj hc).symm⟩
  · exact .inr ⟨‹_›, hc⟩

theorem mem_replaced (h : l[i]? = some a) : b ∈ l.set i b :=
  List.mem_of_getElem? (getElem?_replaced_self h)

theorem mem_replaced_of_mem {c : α} (h : l[i]? = some a) (hc : c ∈ l) : c = a ∨ c ∈ l.set i b := by
  obtain ⟨j, hj⟩ := List.mem_iff_getElem?.mp hc
  by_cases hji : j = i
  · subst hji
    exact .inl (Option.some.inj (hj.symm.trans h))
  · exact .inr (List.mem_of_getElem? ((getElem?_replaced h).trans ((if_neg hji).trans hj)))

end Parties

/-- The sum of a weight over the parties. -/
def tally (w : α → Nat) (l : List α) : Nat := (l.map w).sum

section Tally

variable {w : α → Nat} {l : List α} {i j : Nat} {a b : α}

@[simp] theorem tally_nil : tally w [] = 0 := rfl

theorem tally_cons : tally w (a :: l) = w a + tally w l := by
  simp [tally]

theorem tally_append (l' : List α) : tally w (l ++ l') = tally w l + tally w l' := by
  simp [tally]

theorem tally_joined : tally w (l ++ [b]) = tally w l + w b := by
  simp [tally]

theorem tally_replaced (h : l[i]? = some a) :
    tally w (l.set i b) + w a = tally w l + w b := by
  induction l generalizing i with
  | nil => simp at h
  | cons first rest ih =>
    cases i with
    | zero =>
      obtain rfl : first = a := by simpa using h
      rw [List.set_cons_zero, tally_cons, tally_cons]
      omega
    | succ i =>
      have hrest := ih (i := i) (by simpa using h)
      rw [List.set_cons_succ, tally_cons, tally_cons]
      omega

theorem le_tally (h : l[i]? = some a) : w a ≤ tally w l := by
  induction l generalizing i with
  | nil => simp at h
  | cons first rest ih =>
    rw [tally_cons]
    cases i with
    | zero =>
      obtain rfl : first = a := by simpa using h
      omega
    | succ i =>
      have hle := ih (i := i) (by simpa using h)
      omega

theorem tally_eq_zero : tally w l = 0 ↔ ∀ a ∈ l, w a = 0 := by
  induction l with
  | nil => simp
  | cons first rest ih =>
    rw [tally_cons, Nat.add_eq_zero_iff, ih, List.forall_mem_cons]

theorem tally_pos : 0 < tally w l ↔ ∃ (i : Nat) (a : α), l[i]? = some a ∧ 0 < w a := by
  constructor
  · intro hpos
    by_contra hnone
    have hzero : tally w l = 0 := by
      rw [tally_eq_zero]
      intro a ha
      obtain ⟨i, hi⟩ := List.mem_iff_getElem?.mp ha
      by_contra hne
      exact hnone ⟨i, a, hi, by omega⟩
    omega
  · rintro ⟨i, a, hi, hpos⟩
    have hle := le_tally (w := w) hi
    omega

theorem tally_congr {w' : α → Nat} (h : ∀ a ∈ l, w a = w' a) : tally w l = tally w' l := by
  rw [tally, tally, List.map_congr_left h]

theorem tally_perm {l' : List α} (h : l.Perm l') : tally w l = tally w l' := by
  induction h with
  | nil => rfl
  | cons a _ ih => rw [tally_cons, tally_cons, ih]
  | swap a b l => simp only [tally_cons]; omega
  | trans _ _ ih ih' => exact ih.trans ih'

theorem tally_filter_add (w : α → Nat) (p : α → Bool) :
    tally w (l.filter p) + tally w (l.filter fun a => !p a) = tally w l := by
  induction l with
  | nil => rfl
  | cons first rest ih =>
    cases hp : p first with
    | true => simp only [List.filter_cons, hp, if_true, Bool.not_true, Bool.false_eq_true, if_false,
        tally_cons, ← ih, Nat.add_assoc]
    | false =>
      simp only [List.filter_cons, hp, if_true, Bool.not_false, Bool.false_eq_true, if_false,
        tally_cons, ← ih]
      omega

theorem tally_indicator [DecidableEq α] {x : α} {n : Nat} (h : l.Nodup) :
    tally (fun a => if a = x then n else 0) l = if x ∈ l then n else 0 := by
  induction l with
  | nil => rfl
  | cons first rest ih =>
    obtain ⟨hnot, hrest⟩ := List.nodup_cons.mp h
    rw [tally_cons, ih hrest]
    by_cases hfirst : first = x
    · subst hfirst
      simp [hnot]
    · have hne : ¬ x = first := fun heq => hfirst heq.symm
      simp [hfirst, hne]

theorem length_filter_eq_tally (p : α → Bool) :
    (l.filter p).length = tally (fun a => if p a then 1 else 0) l := by
  induction l with
  | nil => rfl
  | cons first rest ih =>
    rw [tally_cons, ← ih]
    cases hp : p first with
    | true => simp [hp, Nat.add_comm]
    | false => simp [hp]

/-- If only parties in a range of places count, they are at most as many as the places. -/
theorem length_filter_le_of_index {p : α → Bool} (first stop : Nat)
    (h : ∀ (i : Nat) (a : α), l[i]? = some a → p a = true → first ≤ i ∧ i < stop) :
    (l.filter p).length ≤ stop - first := by
  induction l generalizing first stop with
  | nil => exact Nat.zero_le _
  | cons head rest ih =>
    have hrest := ih (first - 1) (stop - 1) fun i a ha hp => by
      have hi := h (i + 1) a ha hp
      omega
    cases hp : p head with
    | true =>
      have h0 := h 0 head rfl hp
      rw [List.filter_cons_of_pos hp, List.length_cons]
      omega
    | false =>
      rw [List.filter_cons_of_neg (by simp [hp])]
      by_cases hempty : (rest.filter p).length = 0
      · omega
      · omega

end Tally

end YtdlBot.Framework
