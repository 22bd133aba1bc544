import Mathlib.Data.List.Nodup
import Mathlib.Data.List.Sort

/-!
# Tables with a primary key

A table is a list of rows in which no two rows have the same key; the proof travels with the
rows. Statements of the database are the operations below, and every one of them is described
by what it does to `lookup`.
-/

namespace YtdlBot.Framework

/-- Rows whose keys are pairwise distinct. -/
structure Table {α κ : Type} (key : α → κ) where
  rows : List α
  keys_nodup : (rows.map key).Nodup

namespace Table

variable {α κ : Type} {key : α → κ}

def empty : Table key := ⟨[], List.nodup_nil⟩

section Lookup

variable [DecidableEq κ]

/-- `SELECT * WHERE key = k`: at most one row. -/
def lookup (t : Table key) (k : κ) : Option α :=
  t.rows.find? fun r => key r = k

@[simp] theorem lookup_empty (k : κ) : (empty : Table key).lookup k = none := rfl

private theorem find?_key_eq {rows : List α} (hn : (rows.map key).Nodup) {r : α} (hr : r ∈ rows) :
    rows.find? (fun x => key x = key r) = some r := by
  induction rows with
  | nil => simp at hr
  | cons x xs ih =>
    rw [List.map_cons, List.nodup_cons] at hn
    rcases List.mem_cons.mp hr with rfl | hr
    · simp
    · have hx : key x ≠ key r := fun h => hn.1 (h ▸ List.mem_map_of_mem hr)
      rw [List.find?_cons_of_neg (by simpa using hx)]
      exact ih hn.2 hr

theorem lookup_eq_some {t : Table key} {k : κ} {r : α} :
    t.lookup k = some r ↔ r ∈ t.rows ∧ key r = k := by
  constructor
  · intro h
    exact ⟨List.mem_of_find?_eq_some h, by simpa using List.find?_some h⟩
  · rintro ⟨hr, rfl⟩
    exact find?_key_eq t.keys_nodup hr

theorem lookup_eq_none {t : Table key} {k : κ} :
    t.lookup k = none ↔ ∀ r ∈ t.rows, key r ≠ k := by
  simp [lookup, List.find?_eq_none]

theorem lookup_of_mem {t : Table key} {r : α} (hr : r ∈ t.rows) : t.lookup (key r) = some r :=
  lookup_eq_some.mpr ⟨hr, rfl⟩

theorem mem_of_lookup {t : Table key} {k : κ} {r : α} (h : t.lookup k = some r) : r ∈ t.rows :=
  (lookup_eq_some.mp h).1

theorem key_of_lookup {t : Table key} {k : κ} {r : α} (h : t.lookup k = some r) : key r = k :=
  (lookup_eq_some.mp h).2

theorem eq_of_key {t : Table key} {r r' : α} (hr : r ∈ t.rows) (hr' : r' ∈ t.rows)
    (h : key r = key r') : r = r' :=
  Option.some.inj ((lookup_of_mem hr).symm.trans (h ▸ lookup_of_mem hr'))

end Lookup

/-- `UPDATE ... SET f WHERE p`; `f` leaves the key column alone. -/
def update (t : Table key) (p : α → Bool) (f : α → α) (hf : ∀ r, key (f r) = key r) : Table key where
  rows := t.rows.map fun r => if p r then f r else r
  keys_nodup := by
    have hkeys : (t.rows.map fun r => if p r then f r else r).map key = t.rows.map key := by
      rw [List.map_map]
      apply List.map_congr_left
      intro r _
      by_cases h : p r <;> simp [h, hf]
    rw [hkeys]
    exact t.keys_nodup

/-- The `rowcount` of such an update. -/
def rowcount (t : Table key) (p : α → Bool) : Nat := t.rows.countP p

/-- `INSERT`, with `f` applied to the row that already has the key. -/
def upsert [DecidableEq κ] (t : Table key) (r : α) (f : α → α) (hf : ∀ r, key (f r) = key r) :
    Table key :=
  if h : t.lookup (key r) = none then
    ⟨t.rows ++ [r], by
      rw [List.map_append, List.map_singleton, List.nodup_append]
      refine ⟨t.keys_nodup, List.nodup_singleton _, ?_⟩
      intro a ha b hb
      obtain ⟨x, hx, rfl⟩ := List.mem_map.mp ha
      rw [List.mem_singleton] at hb
      subst hb
      exact lookup_eq_none.mp h x hx⟩
  else t.update (fun x => key x = key r) f hf

theorem mem_update {t : Table key} {p : α → Bool} {f : α → α} {hf : ∀ r, key (f r) = key r}
    {r : α} : r ∈ (t.update p f hf).rows ↔ ∃ x ∈ t.rows, (if p x then f x else x) = r :=
  List.mem_map

theorem update_eq_self {t : Table key} {p : α → Bool} {f : α → α} {hf : ∀ r, key (f r) = key r}
    (h : ∀ r ∈ t.rows, p r = false) : t.update p f hf = t := by
  have hrows : t.rows.map (fun r => if p r then f r else r) = t.rows := by
    conv_rhs => rw [← List.map_id t.rows]
    apply List.map_congr_left
    intro r hr
    simp [h r hr]
  cases t
  simp only [update] at hrows ⊢
  congr

theorem update_of_rowcount_zero {t : Table key} {p : α → Bool} {f : α → α}
    {hf : ∀ r, key (f r) = key r} (h : t.rowcount p = 0) : t.update p f hf = t :=
  update_eq_self fun r hr => by simpa using List.countP_eq_zero.mp h r hr

section Update

variable [DecidableEq κ]

theorem lookup_update (t : Table key) (p : α → Bool) (f : α → α) (hf : ∀ r, key (f r) = key r)
    (k : κ) :
    (t.update p f hf).lookup k = (t.lookup k).map fun r => if p r then f r else r := by
  have hcomp : (fun x => decide (key x = k)) ∘ (fun r => if p r then f r else r) =
      fun x => decide (key x = k) := by
    funext r
    by_cases h : p r <;> simp [h, hf]
  rw [lookup, update, List.find?_map, hcomp]
  rfl

theorem lookup_upsert (t : Table key) (r : α) (f : α → α) (hf : ∀ r, key (f r) = key r) (k : κ) :
    (t.upsert r f hf).lookup k =
      if k = key r then some (((t.lookup k).map f).getD r) else t.lookup k := by
  unfold upsert
  split
  · rename_i hnone
    change (t.rows ++ [r]).find? (fun x => key x = k) = _
    rw [List.find?_append]
    by_cases hk : k = key r
    · subst hk
      have : t.rows.find? (fun x => key x = key r) = none := hnone
      simp [this, hnone]
    · rw [List.find?_singleton, if_neg (by simpa using Ne.symm hk), if_neg hk, Option.or_none]
      rfl
  · rename_i hsome
    rw [lookup_update]
    by_cases hk : k = key r
    · subst hk
      obtain ⟨x, hx⟩ := Option.ne_none_iff_exists'.mp hsome
      simp [hx, key_of_lookup hx]
    · rw [if_neg hk]
      cases hx : t.lookup k with
      | none => rfl
      | some x => simp [key_of_lookup hx, hk]

private theorem countP_key {rows : List α} (hn : (rows.map key).Nodup) (k : κ) (q : α → Bool) :
    rows.countP (fun r => key r = k && q r) =
      ((rows.find? fun r => key r = k).any q).toNat := by
  induction rows with
  | nil => rfl
  | cons x xs ih =>
    rw [List.map_cons, List.nodup_cons] at hn
    by_cases hx : key x = k
    · have hrest : xs.countP (fun r => key r = k && q r) = 0 := by
        rw [List.countP_eq_zero]
        intro r hr
        have hr : key r ≠ k := fun h => hn.1 (hx.trans h.symm ▸ List.mem_map_of_mem hr)
        simp [hr]
      rw [List.countP_cons, hrest, List.find?_cons_of_pos (by simpa using hx)]
      cases hq : q x <;> simp [hx, hq]
    · rw [List.countP_cons_of_neg (by simp [hx]), List.find?_cons_of_neg (by simpa using hx)]
      exact ih hn.2

/-- An update of one key matches at most one row. -/
theorem rowcount_key (t : Table key) (k : κ) (q : α → Bool) :
    t.rowcount (fun r => key r = k && q r) = ((t.lookup k).any q).toNat :=
  countP_key t.keys_nodup k q

theorem rowcount_key_zero {t : Table key} {k : κ} {q : α → Bool}
    (h : t.rowcount (fun r => key r = k && q r) ≠ 1) :
    t.rowcount (fun r => key r = k && q r) = 0 := by
  rw [rowcount_key] at h ⊢
  cases hany : (t.lookup k).any q with
  | false => rfl
  | true => exact absurd (by rw [hany]; rfl) h

end Update

/-- `SELECT * WHERE p ORDER BY ... LIMIT n`, ordered by the sort key `o`. -/
def select {ο : Type} [LinearOrder ο] (t : Table key) (p : α → Bool) (o : α → ο) (n : Nat) :
    List α :=
  ((t.rows.filter p).insertionSort fun a b => o a ≤ o b).take n

section Select

variable {ο : Type} [LinearOrder ο]

theorem mem_of_mem_select {t : Table key} {p : α → Bool} {o : α → ο} {n : Nat} {r : α}
    (h : r ∈ t.select p o n) : r ∈ t.rows ∧ p r := by
  have := List.mem_of_mem_take h
  rwa [List.mem_insertionSort, List.mem_filter] at this

theorem length_select (t : Table key) (p : α → Bool) (o : α → ο) (n : Nat) :
    (t.select p o n).length = min n (t.rows.filter p).length := by
  rw [select, List.length_take, List.length_insertionSort]

theorem mem_select_of_filter_le {t : Table key} {p : α → Bool} {o : α → ο} {n : Nat}
    (hn : (t.rows.filter p).length ≤ n) {r : α} : r ∈ t.select p o n ↔ r ∈ t.rows ∧ p r := by
  rw [select, List.take_of_length_le, List.mem_insertionSort, List.mem_filter]
  rwa [List.length_insertionSort]

theorem mem_select_of_le {t : Table key} {p : α → Bool} {o : α → ο} {n : Nat}
    (hn : t.rows.length ≤ n) {r : α} : r ∈ t.select p o n ↔ r ∈ t.rows ∧ p r :=
  mem_select_of_filter_le ((List.length_filter_le _ _).trans hn)

theorem select_sorted (t : Table key) (p : α → Bool) (o : α → ο) (n : Nat) :
    (t.select p o n).Pairwise fun a b => o a ≤ o b := by
  have htotal : Std.Total fun a b : α => o a ≤ o b := ⟨fun a b => le_total (o a) (o b)⟩
  have htrans : IsTrans α fun a b => o a ≤ o b := ⟨fun _ _ _ => le_trans⟩
  exact (List.pairwise_insertionSort _ _).sublist (List.take_sublist _ _)

theorem select_keys_nodup (t : Table key) (p : α → Bool) (o : α → ο) (n : Nat) :
    ((t.select p o n).map key).Nodup := by
  have hfilter : ((t.rows.filter p).map key).Nodup :=
    t.keys_nodup.sublist (List.filter_sublist.map key)
  have hsort : (((t.rows.filter p).insertionSort fun a b => o a ≤ o b).map key).Nodup :=
    ((List.perm_insertionSort _ _).map key).nodup_iff.mpr hfilter
  exact hsort.sublist ((List.take_sublist _ _).map key)

end Select

end Table

end YtdlBot.Framework
