import Mathlib.Logic.Function.Basic
import Mathlib.Order.Lattice

/-!
# Maps whose values expire

A value counts only before its expiry, whether or not the map has dropped it since; two maps that
agree on the values that count agree on them ever after.
-/

namespace YtdlBot.Framework

structure Expiring (α τ : Type) where
  value : α
  expiresAt : τ

abbrev ExpiryMap (κ α τ : Type) := κ → Option (Expiring α τ)

/-- Operations of a map whose values expire. A value that its reader keeps may live on until
`touch`; one that its reader does not keep is dropped. -/
inductive MapOp (κ α τ : Type) where
  | get (key : κ) (keep : α → Bool) (touch : Option τ)
  | put (key : κ) (value : α) (expiresAt : τ)
  | delete (key : κ)

namespace ExpiryMap

variable {κ α τ : Type} [LinearOrder τ]

/-- The value of a key that has not expired. -/
def current (m : ExpiryMap κ α τ) (now : τ) (key : κ) : Option (Expiring α τ) :=
  (m key).filter fun r => now < r.expiresAt

/-- The maps agree from `now` on. -/
def Same (now : τ) (m m' : ExpiryMap κ α τ) : Prop :=
  ∀ later, now ≤ later → ∀ key, m.current later key = m'.current later key

theorem current_eq_some {m : ExpiryMap κ α τ} {now : τ} {key : κ} {r : Expiring α τ} :
    m.current now key = some r ↔ m key = some r ∧ now < r.expiresAt := by
  rw [current, Option.filter_eq_some_iff, decide_eq_true_iff]

variable {m m' : ExpiryMap κ α τ} {time now : τ} {key : κ}

theorem Same.trans {m'' : ExpiryMap κ α τ} (h : Same now m m')
    (h' : Same now m' m'') : Same now m m'' :=
  fun later hle key => (h later hle key).trans (h' later hle key)

theorem Same.symm (h : Same now m m') : Same now m' m :=
  fun later hle key => (h later hle key).symm

theorem Same.later (h : Same time m m') (hle : time ≤ now) :
    Same now m m' := fun later hlater => h later (le_trans hle hlater)

theorem current_earlier {later : τ} (hle : now ≤ later) {r : Expiring α τ}
    (h : m.current later key = some r) : m.current now key = some r := by
  obtain ⟨hvalue, hexpires⟩ := current_eq_some.mp h
  exact current_eq_some.mpr ⟨hvalue, lt_of_le_of_lt hle hexpires⟩

section Put

variable [DecidableEq κ]

def put (m : ExpiryMap κ α τ) (key : κ) (r : Option (Expiring α τ)) : ExpiryMap κ α τ :=
  Function.update m key r

theorem current_put_self (r : Option (Expiring α τ)) :
    (m.put key r).current now key = r.filter fun r => now < r.expiresAt := by
  rw [current, put, Function.update_self]

theorem current_put_other {other : κ} (r : Option (Expiring α τ)) (hne : other ≠ key) :
    (m.put key r).current now other = m.current now other := by
  rw [current, put, Function.update_of_ne hne, current]

theorem Same.put {m m' : ExpiryMap κ α τ} (h : Same now m m') (key : κ)
    (r : Option (Expiring α τ)) : Same now (m.put key r) (m'.put key r) := by
  intro later hle other
  by_cases hother : other = key
  · subst hother
    rw [current_put_self, current_put_self]
  · rw [current_put_other _ hother, current_put_other _ hother]
    exact h later hle other

end Put

section Apply

variable [DecidableEq κ]

/-- What a map holds after an operation at `now`; a `put` also costs the keys that are evicted. -/
def apply (now : τ) (evicted : κ → Bool) (m : ExpiryMap κ α τ) : MapOp κ α τ → ExpiryMap κ α τ
  | .get key keep touch =>
    match m.current now key with
    | none => m
    | some r =>
      if keep r.value then
        match touch with
        | none => m
        | some expiresAt => m.put key (some ⟨r.value, expiresAt⟩)
      else m.put key none
  | .put key value expiresAt => fun other =>
    if other = key then some ⟨value, expiresAt⟩ else if evicted other then none else m other
  | .delete key => m.put key none

theorem Same.apply (h : Same now m m') (evicted : κ → Bool) (op : MapOp κ α τ) :
    Same now (m.apply now evicted op) (m'.apply now evicted op) := by
  cases op with
  | get key keep touch =>
    have hcurrent := h now (le_refl _) key
    simp only [ExpiryMap.apply, hcurrent]
    split
    · exact h
    · split
      · split
        · exact h
        · exact h.put _ _
      · exact h.put _ _
  | put key value expiresAt =>
    intro later hle other
    have hother := h later hle other
    unfold current at hother ⊢
    simp only [ExpiryMap.apply]
    split
    · rfl
    · split
      · rfl
      · exact hother
  | delete key => exact h.put _ _

end Apply

end ExpiryMap

end YtdlBot.Framework
