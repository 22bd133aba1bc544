import Mathlib.Data.List.Basic

/-!
# Partial machines

A system is given by one partial step function. Runs are lists of actions; an invariant is
proved for one step and lifted to every run, also to the runs whose steps all meet a side
condition on the state they are taken in.
-/

namespace YtdlBot.Framework

/-- `step s a = none` says that action `a` cannot be taken in `s`. -/
structure Machine (σ α : Type*) where
  step : σ → α → Option σ

namespace Machine

variable {σ τ α β : Type*} (M : Machine σ α)

/-- Take the actions in order. -/
def run : σ → List α → Option σ
  | s, [] => some s
  | s, a :: as => (M.step s a).bind fun s' => run s' as

/-- Every action of the run is taken in a state in which `G` allows it. -/
def Admits (G : σ → α → Prop) : σ → List α → Prop
  | _, [] => True
  | s, a :: as => G s a ∧ ∀ s', M.step s a = some s' → Admits G s' as

@[simp] theorem run_nil (s : σ) : M.run s [] = some s := rfl

theorem run_cons (s : σ) (a : α) (as : List α) :
    M.run s (a :: as) = (M.step s a).bind fun s' => M.run s' as := rfl

theorem run_cons_eq_some {s t : σ} {a : α} {as : List α} :
    M.run s (a :: as) = some t ↔ ∃ s', M.step s a = some s' ∧ M.run s' as = some t := by
  simp only [run_cons, Option.bind_eq_some_iff]

theorem run_append (s : σ) (as bs : List α) :
    M.run s (as ++ bs) = (M.run s as).bind fun s' => M.run s' bs := by
  induction as generalizing s with
  | nil => rfl
  | cons a as ih =>
    rw [List.cons_append, run_cons, run_cons, Option.bind_assoc]
    congr 1
    funext s'
    exact ih s'

theorem run_append_eq_some {s u : σ} {as bs : List α} :
    M.run s (as ++ bs) = some u ↔ ∃ t, M.run s as = some t ∧ M.run t bs = some u := by
  rw [run_append, Option.bind_eq_some_iff]

theorem admits_true (s : σ) (as : List α) : M.Admits (fun _ _ => True) s as := by
  induction as generalizing s with
  | nil => trivial
  | cons a as ih => exact ⟨trivial, fun s' _ => ih s'⟩

theorem admits_of_forall {G : α → Prop} {as : List α} (h : ∀ a ∈ as, G a) (s : σ) :
    M.Admits (fun _ a => G a) s as := by
  induction as generalizing s with
  | nil => trivial
  | cons a as ih => exact ⟨h a (by simp), fun s' _ => ih (fun b hb => h b (by simp [hb])) s'⟩

theorem admits_cons {G : σ → α → Prop} {s s' : σ} {a : α} {as : List α}
    (hstep : M.step s a = some s') (hG : G s a) (has : M.Admits G s' as) :
    M.Admits G s (a :: as) := by
  refine ⟨hG, ?_⟩
  intro t ht
  rw [hstep, Option.some.injEq] at ht
  exact ht ▸ has

theorem Admits.and {G H : σ → α → Prop} {s : σ} {as : List α} (hG : M.Admits G s as)
    (hH : M.Admits H s as) : M.Admits (fun s a => G s a ∧ H s a) s as := by
  induction as generalizing s with
  | nil => trivial
  | cons a as ih => exact ⟨⟨hG.1, hH.1⟩, fun s' hs' => ih (hG.2 s' hs') (hH.2 s' hs')⟩

theorem admits_mono {G H : σ → α → Prop} (h : ∀ s a, G s a → H s a) {s : σ} {as : List α}
    (hG : M.Admits G s as) : M.Admits H s as := by
  induction as generalizing s with
  | nil => trivial
  | cons a as ih => exact ⟨h s a hG.1, fun s' hs' => ih (hG.2 s' hs')⟩

/-- A run can be checked against a decidable side condition. -/
instance decidableAdmits (G : σ → α → Prop) [∀ s a, Decidable (G s a)] :
    ∀ (s : σ) (as : List α), Decidable (M.Admits G s as)
  | _, [] => isTrue trivial
  | s, a :: as =>
    match hstep : M.step s a with
    | none =>
      decidable_of_iff (G s a)
        ⟨fun hG => ⟨hG, fun s' hs' => by rw [hstep] at hs'; cases hs'⟩, fun h => h.1⟩
    | some s' =>
      have := decidableAdmits G s' as
      decidable_of_iff (G s a ∧ M.Admits G s' as)
        ⟨fun h => M.admits_cons hstep h.1 h.2, fun h => ⟨h.1, h.2 s' hstep⟩⟩

/-- An invariant of the steps that `G` allows holds along every run of such steps. -/
theorem invariant_of_admits {G : σ → α → Prop} {I : σ → Prop}
    (hstep : ∀ s a s', I s → G s a → M.step s a = some s' → I s')
    {s t : σ} {as : List α} (hs : I s) (hG : M.Admits G s as) (hr : M.run s as = some t) : I t := by
  induction as generalizing s with
  | nil =>
    rw [run_nil, Option.some.injEq] at hr
    exact hr ▸ hs
  | cons a as ih =>
    obtain ⟨s', ha, hr⟩ := M.run_cons_eq_some.mp hr
    exact ih (hstep s a s' hs hG.1 ha) (hG.2 s' ha) hr

/-- An invariant of every step holds along every run. -/
theorem invariant {I : σ → Prop} (hstep : ∀ s a s', I s → M.step s a = some s' → I s')
    {s t : σ} {as : List α} (hs : I s) (hr : M.run s as = some t) : I t := by
  induction as generalizing s with
  | nil =>
    rw [run_nil, Option.some.injEq] at hr
    exact hr ▸ hs
  | cons a as ih =>
    obtain ⟨s', ha, hr⟩ := M.run_cons_eq_some.mp hr
    exact ih (hstep s a s' hs ha) hr

/-- When `f` takes each step of `M` to the step of `N` under the same action, it takes runs to runs. -/
theorem run_map {N : Machine τ α} {I : σ → Prop} {G : α → Prop} (f : σ → τ)
    (hstep : ∀ s a, I s → G a → N.step (f s) a = (M.step s a).map f ∧
      ∀ s', M.step s a = some s' → I s')
    {s : σ} {as : List α} (hs : I s) (has : ∀ a ∈ as, G a) :
    N.run (f s) as = (M.run s as).map f ∧ ∀ t, M.run s as = some t → I t := by
  induction as generalizing s with
  | nil => simp [hs]
  | cons a as ih =>
    obtain ⟨hmap, hinv⟩ := hstep s a hs (has a (by simp))
    have hrest : ∀ b ∈ as, G b := fun b hb => has b (by simp [hb])
    simp only [run_cons, hmap]
    cases ha : M.step s a with
    | none => simp
    | some s' => exact ih (hinv s' ha) hrest

end Machine

end YtdlBot.Framework
