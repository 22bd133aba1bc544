import Mathlib.Data.Int.Order.Basic
import YtdlBot.Race.CircuitBreaker

/-!
# Half-open probing

The probe flag does not say whose probe it is. As long as no attempt from before the circuit opened
reports in the wrong moment, the flag is up exactly while the one probe is in flight.
-/

namespace YtdlBot.Race

open Framework

variable {τ : Type}

namespace Breaker

variable {b : Breaker τ} {route : Route} {i : Nat} {c : Circuit τ} {r : Route} {x : Option Attempt} {j : Nat}

theorem circuits_other (hr : r ≠ route) :
    (b.setCircuit route c).circuits r = b.circuits r := Function.update_of_ne hr _ _

@[simp] theorem circuits_self : (b.setCircuit route c).circuits route = c :=
  Function.update_self _ _ _

theorem openings_other (hr : r ≠ route) :
    (b.setCircuit route c).openings r = b.openings r := Function.update_of_ne hr _ _

theorem openings_self (b : Breaker τ) (route : Route) (c : Circuit τ) :
    ((b.circuits route).openUntil = none ∧
      (b.setCircuit route c).openings route = b.openings route + 1) ∨
    ((c.openUntil.isSome = true → (b.circuits route).openUntil.isSome = true) ∧
      (b.setCircuit route c).openings route = b.openings route) := by
  simp only [setCircuit, Function.update_self]
  cases (b.circuits route).openUntil with
  | none =>
    cases c.openUntil with
    | none => exact .inr ⟨id, rfl⟩
    | some u => exact .inl ⟨rfl, rfl⟩
  | some u => exact .inr ⟨fun _ => rfl, rfl⟩

theorem openings_le : b.openings r ≤ (b.setCircuit route c).openings r := by
  by_cases hr : r = route
  · subst hr
    rcases openings_self b r c with ⟨-, h⟩ | ⟨-, h⟩
    · exact h ▸ Nat.le_succ _
    · exact Nat.le_of_eq h.symm
  · exact Nat.le_of_eq (openings_other hr).symm

theorem setCircuit_self (b : Breaker τ) (route : Route) :
    b.setCircuit route (b.circuits route) = b := by
  have hcount : (if (b.circuits route).openUntil.isNone && (b.circuits route).openUntil.isSome
      then b.openings route + 1 else b.openings route) = b.openings route := by
    cases (b.circuits route).openUntil <;> rfl
  simp only [setCircuit, hcount, Function.update_eq_self]

theorem attempts_cases {a : Attempt} (h : (b.setAttempt i x).attempts j = some a) :
    (j = i ∧ x = some a) ∨ (j ≠ i ∧ b.attempts j = some a) := by
  unfold setAttempt at h
  by_cases hj : j = i
  · rw [hj] at h
    simp only [Function.update_self] at h
    exact .inl ⟨hj, h⟩
  · simp only [Function.update_of_ne hj] at h
    exact .inr ⟨hj, h⟩

end Breaker

variable [LinearOrder τ]

namespace Circuit

variable {c : Circuit τ} {now : τ}

theorem halfOpen_iff : c.halfOpen now = true ↔ ∃ u, c.openUntil = some u ∧ u ≤ now := by
  simp only [halfOpen, Option.any_eq_true, decide_eq_true_eq]

theorem halfOpen_mono {t : τ} (h : c.halfOpen now = true) (ht : now ≤ t) :
    c.halfOpen t = true := by
  obtain ⟨u, hu, hle⟩ := halfOpen_iff.mp h
  exact halfOpen_iff.mpr ⟨u, hu, le_trans hle ht⟩

theorem isSome_of_halfOpen (h : c.halfOpen now = true) : c.openUntil.isSome = true := by
  obtain ⟨u, hu, -⟩ := halfOpen_iff.mp h
  rw [hu]
  rfl

/-- What an acquired attempt finds: no probe, and a circuit that is closed or half-open. -/
theorem tryAcquire_cases (c : Circuit τ) (now : τ) :
    (c.tryAcquire now = (false, c)) ∨
    (c.openUntil = none ∧ c.tryAcquire now = (true, c)) ∨
    (c.probeInflight = false ∧ c.halfOpen now = true ∧
      c.tryAcquire now = (true, { c with probeInflight := true })) := by
  unfold tryAcquire
  cases havailable : c.isAvailable now with
  | false => exact .inl rfl
  | true =>
    right
    simp only [isAvailable, Bool.and_eq_true, Bool.not_eq_true'] at havailable
    obtain ⟨⟨-, hflag⟩, huntil⟩ := havailable
    cases hopen : c.openUntil with
    | none => exact .inl ⟨rfl, by simp⟩
    | some u =>
      rw [hopen] at huntil
      exact .inr ⟨hflag, by simpa [halfOpen, hopen] using huntil, by simp⟩

end Circuit

namespace Breaker

/-- An attempt that was admitted before its circuit opened. -/
def Late (b : Breaker τ) (a : Attempt) : Prop := a.openings < b.openings a.route

instance (b : Breaker τ) (a : Attempt) : Decidable (b.Late a) :=
  inferInstanceAs (Decidable (_ < _))

/-- `i` is in flight on the route, admitted since its circuit opened. -/
def Probes (b : Breaker τ) (route : Route) (i : Nat) : Prop :=
  b.attempts i = some ⟨route, b.openings route⟩

/-- At most one attempt admitted after the circuit opened is in flight while it is half-open. -/
def Exclusive (b : Breaker τ) : Prop :=
  ∀ route, (b.circuits route).halfOpen b.now = true →
    ∀ i j, b.Probes route i → b.Probes route j → i = j

/-- The flag goes down, the circuit closes or its cooldown is extended. -/
def Moved (c c' : Circuit τ) : Prop :=
  (c.probeInflight = true ∧ c'.probeInflight = false) ∨ c'.openUntil ≠ c.openUntil

/-- What moves a half-open circuit is the outcome of the attempt admitted after it opened. -/
def OwnOutcome (b : Breaker τ) (a : Action τ) (b' : Breaker τ) : Prop :=
  ∀ route, (b.circuits route).halfOpen b.now = true → Moved (b.circuits route) (b'.circuits route) →
    ∃ i outcome, a = .finish i outcome ∧ b.Probes route i

omit [LinearOrder τ] in
theorem not_moved {c c' : Circuit τ} (hflag : c'.probeInflight = false → c.probeInflight = false)
    (huntil : c'.openUntil = c.openUntil) : ¬ Moved c c' := by
  rintro (⟨hup, hdown⟩ | hchange)
  · rw [hflag hdown] at hup
    cases hup
  · exact hchange huntil

/-- The flag is up only while somebody is in flight on the route. -/
def Flagged (b : Breaker τ) : Prop :=
  ∀ route, (b.circuits route).probeInflight = true → ∃ i a, b.attempts i = some a ∧ a.route = route

structure Inv (b : Breaker τ) : Prop where
  bounded : ∀ i a, b.attempts i = some a → a.openings ≤ b.openings a.route
  probing : ∀ route, (b.circuits route).probeInflight = true →
    (b.circuits route).halfOpen b.now = true
  sole : ∀ route, (b.circuits route).openUntil.isSome = true →
    ∀ i j, b.Probes route i → b.Probes route j → i = j
  held : ∀ route, (b.circuits route).openUntil.isSome = true →
    ∀ i, b.Probes route i → (b.circuits route).probeInflight = true

theorem inv_initial (now : τ) : Inv (initial now) where
  bounded := fun _ _ h => nomatch h
  probing := fun _ h => nomatch h
  sole := fun _ h => nomatch h
  held := fun _ h => nomatch h

end Breaker

variable [Add τ] [Sub τ] [OfNat τ 60] [OfNat τ 300]

section Reports

variable {c : Circuit τ} {now : τ} {outcome : Outcome}

theorem Outcome.probeInflight_report (outcome : Outcome) (c : Circuit τ) (now : τ) :
    (outcome.report c now).probeInflight = false := by
  cases outcome with
  | success =>
    simp only [Outcome.report, Circuit.recordSuccess]
    split_ifs with hflag
    · rfl
    · simpa using hflag
  | failure kind => cases kind <;> rfl
  | release => rfl

theorem Outcome.openUntil_report (hflag : c.probeInflight = false)
    (hthird : ¬ (outcome = .failure .transient ∧ 3 ≤ (c.recentFailures now).length)) :
    (outcome.report c now).openUntil = c.openUntil := by
  cases outcome with
  | success => simp [Outcome.report, Circuit.recordSuccess, hflag]
  | failure kind =>
    cases kind with
    | transient =>
      have hfew : ¬ 3 ≤ (c.recentFailures now).length := fun h => hthird ⟨rfl, h⟩
      simp only [Circuit.recentFailures] at hfew
      simp [Outcome.report, Circuit.recordFailure, Circuit.recentFailures, hflag] at hfew ⊢
      omega
    | _ => rfl
  | release => rfl

end Reports

namespace Breaker

variable {b b' : Breaker τ} {a : Action τ} {as : List (Action τ)}

/-- No attempt from before the circuit opened reports to a half-open circuit while a probe is in
flight, or with the third transient failure in 60 s. -/
def Punctual (b : Breaker τ) : Action τ → Prop
  | .finish i outcome => ∀ a ∈ b.attempts i, b.Late a →
      (b.circuits a.route).halfOpen b.now = true → (b.circuits a.route).probeInflight = false ∧
        ¬ (outcome = .failure .transient ∧
          3 ≤ ((b.circuits a.route).recentFailures b.now).length)
  | _ => True

instance (b : Breaker τ) : (a : Action τ) → Decidable (b.Punctual a)
  | .finish i outcome =>
    inferInstanceAs (Decidable (∀ a ∈ b.attempts i, b.Late a →
      (b.circuits a.route).halfOpen b.now = true → (b.circuits a.route).probeInflight = false ∧
        ¬ (outcome = .failure .transient ∧
          3 ≤ ((b.circuits a.route).recentFailures b.now).length)))
  | .tryAcquire _ _ | .tick _ | .resetConfiguration => isTrue trivial

omit [Add τ] [Sub τ] [OfNat τ 60] [OfNat τ 300] in
theorem Inv.replace (hb : Inv b) (route : Route) (hnow : b'.now = b.now)
    (hcircuits : ∀ r, r ≠ route → b'.circuits r = b.circuits r)
    (hopenings : ∀ r, r ≠ route → b'.openings r = b.openings r)
    (hattempts : ∀ j x, x.route ≠ route → b'.attempts j = some x → b.attempts j = some x)
    (hbounded : ∀ j x, b'.attempts j = some x → x.route = route → x.openings ≤ b'.openings route)
    (hprobing : (b'.circuits route).probeInflight = true →
      (b'.circuits route).halfOpen b.now = true)
    (hsole : (b'.circuits route).openUntil.isSome = true →
      ∀ i j, b'.Probes route i → b'.Probes route j → i = j)
    (hheld : (b'.circuits route).openUntil.isSome = true →
      ∀ i, b'.Probes route i → (b'.circuits route).probeInflight = true) : Inv b' := by
  have hprobes : ∀ r, r ≠ route → ∀ i, b'.Probes r i → b.Probes r i := by
    intro r hr i hi
    rw [Probes, hopenings r hr] at hi
    exact hattempts i _ hr hi
  constructor
  case bounded =>
    intro j x hj
    by_cases hx : x.route = route
    · rw [hx]
      exact hbounded j x hj hx
    · rw [hopenings _ hx]
      exact hb.bounded j x (hattempts j x hx hj)
  case probing =>
    intro r hr
    rw [hnow]
    by_cases hroute : r = route
    · rw [hroute] at hr ⊢
      exact hprobing hr
    · rw [hcircuits r hroute] at hr ⊢
      exact hb.probing r hr
  case sole =>
    intro r hr i j hi hj
    by_cases hroute : r = route
    · rw [hroute] at hr hi hj
      exact hsole hr i j hi hj
    · rw [hcircuits r hroute] at hr
      exact hb.sole r hr i j (hprobes r hroute i hi) (hprobes r hroute j hj)
  case held =>
    intro r hr i hi
    by_cases hroute : r = route
    · rw [hroute] at hr hi ⊢
      exact hheld hr i hi
    · rw [hcircuits r hroute] at hr ⊢
      exact hb.held r hr i (hprobes r hroute i hi)

/-- The report of an attempt leaves nobody in flight who was admitted since the circuit opened. -/
theorem Inv.finish (hb : Inv b) {i : Nat} {outcome : Outcome} {a : Attempt}
    (ha : b.attempts i = some a) (hpunctual : b.Punctual (.finish i outcome)) :
    Inv ((b.setCircuit a.route (outcome.report (b.circuits a.route) b.now)).setAttempt i none) := by
  have hflag := outcome.probeInflight_report (b.circuits a.route) b.now
  generalize outcome.report (b.circuits a.route) b.now = c at hflag
  have hleft : ∀ {j x}, ((b.setCircuit a.route c).setAttempt i none).attempts j = some x →
      j ≠ i ∧ b.attempts j = some x := by
    intro j x hj
    rcases attempts_cases hj with ⟨-, h⟩ | h
    · cases h
    · exact h
  have hcircuit : ((b.setCircuit a.route c).setAttempt i none).circuits a.route = c := circuits_self
  have hnone : c.openUntil.isSome = true → ∀ j,
      ¬ ((b.setCircuit a.route c).setAttempt i none).Probes a.route j := by
    intro hopen j hj
    obtain ⟨hji, hj⟩ := hleft hj
    have hle := hb.bounded j _ hj
    rcases openings_self b a.route c with ⟨-, hcount⟩ | ⟨hwas, hcount⟩
    · change (b.setCircuit a.route c).openings a.route ≤ b.openings a.route at hle
      omega
    · have hprobes : b.Probes a.route j := by
        rw [Probes, hj]
        exact congrArg (fun n => some (Attempt.mk a.route n)) hcount
      have hheld := hb.held _ (hwas hopen) j hprobes
      -- the flag is the other's, so the report comes from before the circuit opened
      rcases Nat.lt_or_eq_of_le (hb.bounded i a ha) with hlate | hcurrent
      · have hdown := (hpunctual a ha hlate (hb.probing _ hheld)).1
        rw [hheld] at hdown
        cases hdown
      · have hprobes' : b.Probes a.route i := by
          rw [Probes, ha, ← hcurrent]
        exact hji (hb.sole _ (hwas hopen) j i hprobes hprobes')
  refine hb.replace a.route rfl (fun r hr => circuits_other hr) (fun r hr => openings_other hr)
    (fun j x _ hj => (hleft hj).2) ?_ ?_ ?_ ?_
  · intro j x hj hx
    rw [← hx]
    exact Nat.le_trans (hb.bounded j x (hleft hj).2) openings_le
  · intro h
    rw [hcircuit, hflag] at h
    cases h
  · intro hopen j k hj
    rw [hcircuit] at hopen
    exact absurd hj (hnone hopen j)
  · intro hopen j hj
    rw [hcircuit] at hopen
    exact absurd hj (hnone hopen j)

/-- An attempt is admitted to a closed circuit, or as the probe of a half-open one. -/
def Acquired (b : Breaker τ) (route : Route) (c : Circuit τ) : Prop :=
  ((b.circuits route).openUntil = none ∧ c = b.circuits route) ∨
    ((b.circuits route).probeInflight = false ∧ (b.circuits route).halfOpen b.now = true ∧
      c = { b.circuits route with probeInflight := true })

theorem step_tryAcquire {i : Nat} {route : Route}
    (hstep : b.step (.tryAcquire i route) = some b') :
    b.attempts i = none ∧ (b' = b ∨ ∃ c, b.Acquired route c ∧
      b' = (b.setCircuit route c).setAttempt i (some ⟨route, b.openings route⟩)) := by
  have hi : b.attempts i = none := by
    cases hi : b.attempts i with
    | none => rfl
    | some a => simp [step, hi] at hstep
  refine ⟨hi, ?_⟩
  rcases Circuit.tryAcquire_cases (b.circuits route) b.now with h | ⟨hclosed, h⟩ |
    ⟨hdown, hhalf, h⟩
  · left
    simp only [step, hi, h, Option.isSome_none, Bool.false_eq_true, if_false,
      Option.some.injEq] at hstep
    rw [← hstep, setCircuit_self]
  · right
    simp only [step, hi, h, Option.isSome_none, Bool.false_eq_true, if_false, if_true,
      Option.some.injEq] at hstep
    exact ⟨_, .inl ⟨hclosed, rfl⟩, hstep.symm⟩
  · right
    simp only [step, hi, h, Option.isSome_none, Bool.false_eq_true, if_false, if_true,
      Option.some.injEq] at hstep
    exact ⟨_, .inr ⟨hdown, hhalf, rfl⟩, hstep.symm⟩

omit [Add τ] [Sub τ] [OfNat τ 60] [OfNat τ 300] in
theorem Inv.tryAcquire (hb : Inv b) {i : Nat} {c : Circuit τ} {route : Route}
    (hacquired : b.Acquired route c) :
    Inv ((b.setCircuit route c).setAttempt i (some ⟨route, b.openings route⟩)) := by
  have huntil : c.openUntil = (b.circuits route).openUntil := by
    rcases hacquired with ⟨-, rfl⟩ | ⟨-, -, rfl⟩
    · rfl
    · rfl
  have hopenings : (b.setCircuit route c).openings route = b.openings route := by
    rcases openings_self b route c with ⟨hclosed, hcount⟩ | ⟨-, hcount⟩
    · simp [setCircuit, huntil, hclosed]
    · exact hcount
  have hcircuit : ((b.setCircuit route c).setAttempt i (some ⟨route, b.openings route⟩)).circuits
      route = c := circuits_self
  have hadded : ∀ {j x}, ((b.setCircuit route c).setAttempt i
      (some ⟨route, b.openings route⟩)).attempts j = some x →
      (j = i ∧ x = ⟨route, b.openings route⟩) ∨ b.attempts j = some x := by
    intro j x hj
    rcases attempts_cases hj with ⟨hji, h⟩ | ⟨-, h⟩
    · exact .inl ⟨hji, (Option.some.inj h).symm⟩
    · exact .inr h
  -- before, nobody in flight was admitted since the circuit opened
  have honly : c.openUntil.isSome = true → c.probeInflight = true ∧ ∀ j,
      ((b.setCircuit route c).setAttempt i (some ⟨route, b.openings route⟩)).Probes route j →
        j = i := by
    intro hopen
    rcases hacquired with ⟨hclosed, rfl⟩ | ⟨hdown, hhalf, rfl⟩
    · rw [hclosed] at hopen
      cases hopen
    · refine ⟨rfl, fun j hj => ?_⟩
      rcases hadded hj with ⟨hji, -⟩ | hj
      · exact hji
      · have hprobes : b.Probes route j := hj.trans
          (congrArg (fun n => some (Attempt.mk route n)) hopenings)
        rw [hb.held route hopen j hprobes] at hdown
        cases hdown
  refine hb.replace route rfl (fun r hr => circuits_other hr) (fun r hr => openings_other hr)
    ?_ ?_ ?_ ?_ ?_
  · intro j x hx hj
    rcases hadded hj with ⟨-, rfl⟩ | hj
    · exact absurd rfl hx
    · exact hj
  · intro j x hj hx
    have hcount : ((b.setCircuit route c).setAttempt i
      (some ⟨route, b.openings route⟩)).openings route = b.openings route := hopenings
    rw [hcount]
    rcases hadded hj with ⟨-, rfl⟩ | hj
    · exact Nat.le_refl _
    · exact hx ▸ hb.bounded j x hj
  · intro hup
    rw [hcircuit] at hup ⊢
    rcases hacquired with ⟨-, rfl⟩ | ⟨-, hhalf, rfl⟩
    · exact hb.probing route hup
    · exact hhalf
  · intro hopen j k hj hk
    rw [hcircuit] at hopen
    rw [(honly hopen).2 j hj, (honly hopen).2 k hk]
  · intro hopen j hj
    rw [hcircuit] at hopen ⊢
    exact (honly hopen).1

theorem inv_step (hb : Inv b) (hpunctual : b.Punctual a) (hstep : b.step a = some b') : Inv b' := by
  cases a with
  | tryAcquire i route =>
    rcases step_tryAcquire hstep with ⟨-, rfl | ⟨c, hacquired, rfl⟩⟩
    · exact hb
    · exact hb.tryAcquire hacquired
  | finish i outcome =>
    simp only [step, Option.map_eq_some_iff] at hstep
    obtain ⟨a, ha, rfl⟩ := hstep
    exact hb.finish ha hpunctual
  | tick now =>
    simp only [step] at hstep
    split_ifs at hstep with hnow
    obtain rfl := Option.some.inj hstep
    exact ⟨hb.bounded, fun r hr => Circuit.halfOpen_mono (hb.probing r hr) hnow, hb.sole, hb.held⟩
  | resetConfiguration =>
    obtain rfl := Option.some.inj hstep
    exact ⟨hb.bounded, hb.probing, hb.sole, hb.held⟩

theorem flagged_step (hb : Flagged b) (hstep : b.step a = some b') : Flagged b' := by
  cases a with
  | tryAcquire i route =>
    rcases step_tryAcquire hstep with ⟨hi, rfl | ⟨c, hacquired, rfl⟩⟩
    · exact hb
    · intro r hr
      by_cases hroute : r = route
      · exact ⟨i, _, Function.update_self _ _ _, hroute.symm⟩
      · have hsame : ((b.setCircuit route c).setAttempt i
          (some ⟨route, b.openings route⟩)).circuits r = b.circuits r := circuits_other hroute
        rw [hsame] at hr
        obtain ⟨j, x, hj, hx⟩ := hb r hr
        have hji : j ≠ i := by
          rintro rfl
          rw [hi] at hj
          cases hj
        exact ⟨j, x, (Function.update_of_ne hji _ _).trans hj, hx⟩
  | finish i outcome =>
    simp only [step, Option.map_eq_some_iff] at hstep
    obtain ⟨a, ha, rfl⟩ := hstep
    intro r hr
    by_cases hroute : r = a.route
    · subst hroute
      have hdown := outcome.probeInflight_report (b.circuits a.route) b.now
      simp [setAttempt, hdown] at hr
    · have hsame : ((b.setCircuit a.route (outcome.report (b.circuits a.route) b.now)).setAttempt i
        none).circuits r = b.circuits r := circuits_other hroute
      rw [hsame] at hr
      obtain ⟨j, x, hj, hx⟩ := hb r hr
      have hji : j ≠ i := by
        rintro rfl
        rw [ha] at hj
        obtain rfl := Option.some.inj hj
        exact hroute hx.symm
      exact ⟨j, x, (Function.update_of_ne hji _ _).trans hj, hx⟩
  | tick now =>
    simp only [step] at hstep
    split_ifs at hstep with hnow
    obtain rfl := Option.some.inj hstep
    exact hb
  | resetConfiguration =>
    obtain rfl := Option.some.inj hstep
    exact hb

/-- Only reports lower a flag or move a cooldown, and a punctual one of an attempt from before the
circuit opened does not either. -/
theorem ownOutcome_step (hb : Inv b) (hpunctual : b.Punctual a) (hstep : b.step a = some b') :
    b.OwnOutcome a b' := by
  intro route hhalf hmoved
  cases a with
  | tryAcquire i r =>
    exfalso
    rcases step_tryAcquire hstep with ⟨-, rfl | ⟨c, hacquired, rfl⟩⟩
    · exact not_moved id rfl hmoved
    · by_cases hroute : route = r
      · subst hroute
        have hcircuit : ((b.setCircuit route c).setAttempt i
          (some ⟨route, b.openings route⟩)).circuits route = c := circuits_self
        rw [hcircuit] at hmoved
        rcases hacquired with ⟨-, rfl⟩ | ⟨hdown, -, rfl⟩
        · exact not_moved id rfl hmoved
        · exact absurd hmoved (not_moved (fun _ => hdown) rfl)
      · have hsame : ((b.setCircuit r c).setAttempt i
          (some ⟨r, b.openings r⟩)).circuits route = b.circuits route := circuits_other hroute
        rw [hsame] at hmoved
        exact not_moved id rfl hmoved
  | finish i outcome =>
    simp only [step, Option.map_eq_some_iff] at hstep
    obtain ⟨a, ha, rfl⟩ := hstep
    refine ⟨i, outcome, rfl, ?_⟩
    by_cases hroute : route = a.route
    · subst hroute
      have hcircuit : ((b.setCircuit a.route (outcome.report (b.circuits a.route) b.now)).setAttempt
        i none).circuits a.route = outcome.report (b.circuits a.route) b.now := circuits_self
      rw [hcircuit] at hmoved
      rcases Nat.lt_or_eq_of_le (hb.bounded i a ha) with hlate | hcurrent
      · obtain ⟨hdown, hthird⟩ := hpunctual a ha hlate hhalf
        exact absurd hmoved (not_moved (fun _ => hdown) (Outcome.openUntil_report hdown hthird))
      · rw [Probes, ha, ← hcurrent]
    · exfalso
      have hsame : ((b.setCircuit a.route (outcome.report (b.circuits a.route) b.now)).setAttempt i
        none).circuits route = b.circuits route := circuits_other hroute
      rw [hsame] at hmoved
      exact not_moved id rfl hmoved
  | tick now =>
    exfalso
    simp only [step] at hstep
    split_ifs at hstep with hnow
    obtain rfl := Option.some.inj hstep
    exact not_moved id rfl hmoved
  | resetConfiguration =>
    exfalso
    obtain rfl := Option.some.inj hstep
    exact not_moved id rfl hmoved

/-- While no attempt is in flight on a route its flag is down; and in a run of punctual reports
probing is exclusive, and only the probe's own outcome moves a half-open circuit. -/
theorem half_open_probing {now : τ} (hr : machine.run (initial now) as = some b) :
    (∀ route, (∀ i a, b.attempts i = some a → a.route ≠ route) →
      (b.circuits route).probeInflight = false) ∧
    (machine.Admits Punctual (initial now) as →
      b.Exclusive ∧ ∀ a b', b.Punctual a → b.step a = some b' → b.OwnOutcome a b') := by
  constructor
  · intro route hidle
    have hinitial : Flagged (initial now) := fun _ h => nomatch h
    have hflagged : Flagged b :=
      machine.invariant (fun _ _ _ hb hstep => flagged_step hb hstep) hinitial hr
    cases hflag : (b.circuits route).probeInflight with
    | false => rfl
    | true =>
      obtain ⟨i, a, ha, hroute⟩ := hflagged route hflag
      exact absurd hroute (hidle i a ha)
  · intro hpunctual
    have hb : Inv b := machine.invariant_of_admits
      (fun _ _ _ hb hG hstep => inv_step hb hG hstep) (inv_initial now) hpunctual hr
    exact ⟨fun route hhalf => hb.sole route (Circuit.isSome_of_halfOpen hhalf),
      fun _ _ hG hstep => ownOutcome_step hb hG hstep⟩

section Witness

/-- Three attempts fail; after the cooldown one probe is admitted and another is refused. -/
def probed : List (Action Int) :=
  [.tryAcquire 0 ("p", "y"), .tryAcquire 1 ("p", "y"), .tryAcquire 2 ("p", "y"),
    .tryAcquire 3 ("p", "y"), .finish 0 (.failure .transient), .finish 1 (.failure .transient),
    .finish 2 (.failure .transient), .tick 300, .tryAcquire 4 ("p", "y")]

theorem half_open_probing_probed :
    ∃ b, machine.run (initial 0) (probed ++ [.tryAcquire 5 ("p", "y")]) = some b ∧
      b.attempts 4 = some ⟨("p", "y"), 1⟩ ∧ b.Exclusive := by
  have hrun : ((machine.run (initial 0) (probed ++ [.tryAcquire 5 ("p", "y")])).map
      fun b => b.attempts 4) = some (some ⟨("p", "y"), 1⟩) := by
    decide +kernel
  obtain ⟨b, hr, hattempt⟩ := Option.map_eq_some_iff.mp hrun
  exact ⟨b, hr, hattempt, ((half_open_probing hr).2 (by decide +kernel)).1⟩

/-- The fourth attempt, admitted before the circuit opened, is cancelled while the probe is in
flight; then a second probe is admitted. -/
theorem half_open_probing_late :
    ¬ ∀ (as : List (Action Int)) (b : Breaker Int),
      machine.run (initial 0) as = some b → b.Exclusive := by
  intro h
  have hrun : ((machine.run (initial 0) (probed ++
      [.finish 3 .release, .tryAcquire 5 ("p", "y")])).all fun b =>
      decide ((b.circuits ("p", "y")).halfOpen b.now = true ∧ b.openings ("p", "y") = 1 ∧
        b.attempts 4 = some ⟨("p", "y"), 1⟩ ∧ b.attempts 5 = some ⟨("p", "y"), 1⟩)) = true ∧
      (machine.run (initial 0) (probed ++
        [.finish 3 .release, .tryAcquire 5 ("p", "y")])).isSome = true := by
    decide +kernel
  obtain ⟨b, hr⟩ := Option.isSome_iff_exists.mp hrun.2
  have hall := hrun.1
  rw [hr] at hall
  obtain ⟨hhalf, hopenings, hfour, hfive⟩ := of_decide_eq_true (Option.all_some ▸ hall)
  have hfour' : b.Probes ("p", "y") 4 := by rw [Probes, hfour, hopenings]
  have hfive' : b.Probes ("p", "y") 5 := by rw [Probes, hfive, hopenings]
  exact absurd (h _ b hr ("p", "y") hhalf 4 5 hfour' hfive') (by decide)

end Witness

end Breaker

end YtdlBot.Race
