import YtdlBot.Materialization.Race
import YtdlBot.Media.Alignment

/-!
# Falling through

`materialize` over its candidates, with the race of the first two as a run of `_race_small`: what
must have happened when it raises.
-/

namespace YtdlBot.Materialization.Race

open Framework

/-- The deadline has passed by then. -/
def Action.expires : Action → Bool
  | .start expired => expired
  | .wake _ expired => expired
  | .timeout => true
  | _ => false

/-- The caller is cancelled, or an item is not released. -/
def Action.disturbs : Action → Bool
  | .interrupt => true
  | .discarded error => error.isSome
  | .joined cancelled => cancelled
  | _ => false

/-- Nothing but the attempts has a part in it. -/
def Action.Plain (a : Action) : Prop := a.expires = false ∧ a.disturbs = false

namespace State

variable {v : Variant} {count : Nat} {s s' : State}

/-- The attempt has been looked at, and the race goes on after its error. -/
def Failed (v : Variant) (s : State) (i : Nat) : Prop :=
  i ∉ s.pending ∧ ∃ error, s.attempts i = some (.error error) ∧ v.retained error = true

/-- An attempt has been looked at whose error ends the race. -/
def Escaped (v : Variant) (count : Nat) (s : State) : Prop :=
  ∃ i < count, i ∉ s.pending ∧
    ∃ error, s.attempts i = some (.error error) ∧ v.retained error = false

/-- What the race loop has ended with comes from the attempts. -/
def Decided (v : Variant) (count : Nat) (s : State) : Except Error Unit → Prop
  | .ok () => (∀ i, s.winner = some i → i ∉ s.pending) ∧
      (s.winner = none → ∀ i < count, s.Failed v i)
  | .error _ => s.Escaped v count

/-- Every release has succeeded. -/
def Released (s : State) : Prop :=
  match s.cleanup with
  | .discarding _ _ cleanupError => cleanupError = none
  | .ended cleanupError => cleanupError = none
  | _ => True

/-- Undisturbed and in time, only the attempts decide how the race ends. -/
def Fair (v : Variant) (count : Nat) (s : State) : Prop :=
  match s.caller with
  | .created | .waiting => s.winner = none ∧ ∀ i < count, i ∈ s.pending ∨ s.Failed v i
  | .joining outcome cancellation => cancellation = false ∧ s.Released ∧ s.Decided v count outcome
  | .releasing _ _ _ => s.Escaped v count
  | .ended (.winner i) => i ∉ s.pending
  | .ended (.errors _) => ∀ i < count, s.Failed v i
  | .ended (.raised _) => s.Escaped v count ∨ (v.raises = true ∧ ∀ i < count, s.Failed v i)

theorem fair_initial (v : Variant) (count : Nat) : (initial count).Fair v count :=
  ⟨rfl, fun _ hi => .inl (List.mem_range.mpr hi)⟩

theorem scan_some {attempts : Nat → Option Outcome} {order : List Nat} {i : Nat}
    {errors : List Error} : (scan v attempts order (some i) errors).1 = some i := by
  induction order generalizing errors with
  | nil => rfl
  | cons j order ih =>
    unfold scan
    cases attempts j with
    | none => rfl
    | some outcome =>
      cases outcome with
      | item => exact ih
      | error error =>
        dsimp only
        split
        · exact ih
        · rfl

theorem scan_error {attempts : Nat → Option Outcome} {order : List Nat} {winner : Option Nat}
    {errors : List Error} {error : Error}
    (h : (scan v attempts order winner errors).2.2 = some error) :
    ∃ i ∈ order, attempts i = some (.error error) ∧ v.retained error = false := by
  induction order generalizing winner errors with
  | nil => simp [scan] at h
  | cons j order ih =>
    unfold scan at h
    cases hj : attempts j with
    | none => simp [hj] at h
    | some outcome =>
      rw [hj] at h
      cases outcome with
      | item =>
        obtain ⟨i, hi, herror⟩ := ih h
        exact ⟨i, List.mem_cons_of_mem _ hi, herror⟩
      | error found =>
        dsimp only at h
        split at h
        · obtain ⟨i, hi, herror⟩ := ih h
          exact ⟨i, List.mem_cons_of_mem _ hi, herror⟩
        · next hretained =>
          obtain rfl := Option.some.inj h
          exact ⟨j, List.mem_cons_self, hj, by simpa using hretained⟩

theorem scan_lost {attempts : Nat → Option Outcome} {order : List Nat} {winner : Option Nat}
    {errors : List Error} (hdone : ∀ i ∈ order, (attempts i).isSome = true)
    (hwinner : (scan v attempts order winner errors).1 = none)
    (herror : (scan v attempts order winner errors).2.2 = none) :
    ∀ i ∈ order, ∃ error, attempts i = some (.error error) ∧ v.retained error = true := by
  induction order generalizing winner errors with
  | nil => simp
  | cons j order ih =>
    have hrest : ∀ i ∈ order, (attempts i).isSome = true :=
      fun i hi => hdone i (List.mem_cons_of_mem _ hi)
    obtain ⟨outcome, hj⟩ := Option.isSome_iff_exists.mp (hdone j List.mem_cons_self)
    unfold scan at hwinner herror
    rw [hj] at hwinner herror
    cases outcome with
    | item =>
      dsimp only at hwinner
      split at hwinner
      · simp [scan_some] at hwinner
      · next hsome =>
        obtain ⟨i, rfl⟩ := Option.ne_none_iff_exists'.mp hsome
        simp [scan_some] at hwinner
    | error error =>
      dsimp only at hwinner herror
      split at hwinner
      · next hretained =>
        rw [if_pos hretained] at herror
        intro i hi
        rcases List.mem_cons.mp hi with rfl | hi
        · exact ⟨error, hj, hretained⟩
        · exact ih hrest hwinner herror i hi
      · next hretained => simp [hretained] at herror

theorem fair_loop (hwinner : s.winner = none)
    (hleft : ∀ i < count, i ∈ s.pending ∨ s.Failed v i) : (s.loop v false).Fair v count := by
  unfold loop
  split
  · next hpending =>
    have hempty : s.pending = [] := by simpa using hpending
    refine ⟨rfl, trivial, ?_, fun _ i hi => ?_⟩
    · intro i hi
      simp [join, hwinner] at hi
    · exact (hleft i hi).resolve_left (by simp [hempty])
  · exact ⟨hwinner, hleft⟩

theorem fair_look {order : List Nat} (hwinner : s.winner = none)
    (hleft : ∀ i < count, i ∈ s.pending ∨ s.Failed v i) (hpending : ∀ i ∈ s.pending, i < count)
    (horder : order.Perm (s.pending.filter fun i => (s.attempts i).isSome)) :
    (s.look v order false).Fair v count := by
  have hmem : ∀ i ∈ order, i ∈ s.pending ∧ (s.attempts i).isSome = true :=
    fun i hi => List.mem_filter.mp (horder.mem_iff.mp hi)
  have hlooked : ∀ i ∈ order, i ∉ s.pending.filter fun i => (s.attempts i).isNone := by
    intro i hi hleft
    have hnone := Option.isNone_iff_eq_none.mp (List.mem_filter.mp hleft).2
    simpa [hnone] using (hmem i hi).2
  unfold look
  rcases hresult : scan v s.attempts order s.winner s.errors with ⟨winner, errors, error⟩
  cases error with
  | some error =>
    obtain ⟨i, hi, herror, hretained⟩ := scan_error (congrArg (fun r => r.2.2) hresult)
    exact ⟨rfl, trivial, i, hpending i (hmem i hi).1, hlooked i hi, error, herror, hretained⟩
  | none =>
    cases winner with
    | some winner =>
      refine ⟨rfl, trivial, fun i hi => ?_, by simp [join]⟩
      obtain rfl := Option.some.inj hi
      rcases scan_winner (congrArg (fun r => r.1) hresult) with hsome | ⟨hi, -⟩
      · simp [hwinner] at hsome
      · exact hlooked winner hi
    | none =>
      refine fair_loop rfl fun i hi => ?_
      have hlost := scan_lost (fun i hi => (hmem i hi).2) (congrArg (fun r => r.1) hresult)
        (congrArg (fun r => r.2.2) hresult)
      rcases hleft i hi with hi | ⟨hnot, hfailed⟩
      · cases hdone : s.attempts i with
        | none => exact .inl (List.mem_filter.mpr ⟨hi, by simp [hdone]⟩)
        | some outcome =>
          have hfound : i ∈ order :=
            horder.mem_iff.mpr (List.mem_filter.mpr ⟨hi, by simp [hdone]⟩)
          exact .inr ⟨hlooked i hfound, hlost i hfound⟩
      · exact .inr ⟨fun hi => hnot (List.mem_filter.mp hi).1, hfailed⟩

theorem Failed.finish {i j : Nat} {outcome : Outcome} (h : s.Failed v j) (hi : s.attempts i = none) :
    { s with attempts := Function.update s.attempts i (some outcome) }.Failed v j := by
  obtain ⟨hpending, error, hj, hretained⟩ := h
  have hne : j ≠ i := by
    rintro rfl
    simp [hi] at hj
  exact ⟨hpending, error, by simpa [Function.update_of_ne hne] using hj, hretained⟩

theorem Escaped.finish {i : Nat} {outcome : Outcome} (h : s.Escaped v count)
    (hi : s.attempts i = none) :
    { s with attempts := Function.update s.attempts i (some outcome) }.Escaped v count := by
  obtain ⟨j, hj, hpending, error, hattempt, hretained⟩ := h
  have hne : j ≠ i := by
    rintro rfl
    simp [hi] at hattempt
  exact ⟨j, hj, hpending, error, by simpa [Function.update_of_ne hne] using hattempt, hretained⟩

theorem Fair.mono (h : s.Fair v count) (hcaller : s'.caller = s.caller)
    (hwinner : s'.winner = s.winner) (hpending : s'.pending = s.pending)
    (hfailed : ∀ i, s.Failed v i → s'.Failed v i) (hescaped : s.Escaped v count → s'.Escaped v count)
    (hreleased : s.Released → s'.Released) : s'.Fair v count := by
  unfold Fair at h ⊢
  rw [hcaller]
  cases hwhere : s.caller with
  | created | waiting =>
    simp only [hwhere] at h ⊢
    rw [hwinner, hpending]
    exact ⟨h.1, fun i hi => (h.2 i hi).imp_right (hfailed i)⟩
  | joining outcome cancellation =>
    simp only [hwhere] at h ⊢
    refine ⟨h.1, hreleased h.2.1, ?_⟩
    cases outcome with
    | ok =>
      obtain ⟨-, -, hlooked, hlost⟩ := h
      refine ⟨?_, fun hnone i hi => hfailed i (hlost (hwinner ▸ hnone) i hi)⟩
      rw [hwinner, hpending]
      exact hlooked
    | error error => exact hescaped h.2.2
  | releasing error ended cancellation =>
    simp only [hwhere] at h ⊢
    exact hescaped h
  | ended result =>
    simp only [hwhere] at h ⊢
    cases result with
    | winner i =>
      rw [hpending]
      exact h
    | errors errors => exact fun i hi => hfailed i (h i hi)
    | raised error => exact h.imp hescaped fun h => ⟨h.1, fun i hi => hfailed i (h.2 i hi)⟩

theorem Fair.finish {i : Nat} {outcome : Outcome} (h : s.Fair v count) (hi : s.attempts i = none) :
    { s with attempts := Function.update s.attempts i (some outcome) }.Fair v count :=
  h.mono rfl rfl rfl (fun _ hfailed => hfailed.finish hi) (fun hescaped => hescaped.finish hi) id

theorem Fair.clean {cleanup : Cleanup} {released : List Nat} (h : s.Fair v count)
    (hreleased : s.Released → { s with cleanup := cleanup }.Released) :
    { s with cleanup := cleanup, released := released }.Fair v count :=
  h.mono rfl rfl rfl (fun _ hfailed => hfailed) (fun hescaped => hescaped) hreleased

theorem fair_conclude {outcome : Except Error Unit} (h : s.Decided v count outcome) :
    (s.conclude v outcome).Fair v count := by
  cases outcome with
  | ok =>
    cases hwinner : s.winner with
    | some i =>
      rw [conclude_winner hwinner]
      exact h.1 i hwinner
    | none =>
      rw [conclude_lost hwinner]
      have hfailed := h.2 hwinner
      cases hraises : v.raises with
      | true =>
        simp only [Variant.lost, hraises, if_true]
        exact .inr ⟨hraises, hfailed⟩
      | false =>
        simp only [Variant.lost, hraises, Bool.false_eq_true, if_false]
        exact hfailed
  | error error =>
    cases hwinner : s.winner with
    | some i =>
      simp only [conclude, hwinner]
      exact h
    | none =>
      rw [conclude_raised hwinner]
      exact .inl h

theorem fair_step {a : Action} (h : s.Fair v count) (hpending : ∀ i ∈ s.pending, i < count)
    (ha : a.Plain) (hstep : s.step v count a = some s') : s'.Fair v count := by
  have hfair := h
  unfold Fair at h
  cases a with
  | start expired =>
    obtain rfl : expired = false := ha.1
    simp only [step] at hstep
    cases hcaller : s.caller <;> simp only [hcaller, reduceCtorEq] at hstep h
    obtain rfl := Option.some.inj hstep
    exact fair_loop h.1 h.2
  | finish i outcome =>
    simp only [step] at hstep
    split at hstep
    · next hi =>
      obtain rfl := Option.some.inj hstep
      exact hfair.finish hi.2
    · cases hstep
  | wake order expired =>
    obtain rfl : expired = false := ha.1
    simp only [step] at hstep
    cases hcaller : s.caller <;> simp only [hcaller, reduceCtorEq] at hstep h
    split at hstep
    · next horder =>
      obtain rfl := Option.some.inj hstep
      exact fair_look h.1 h.2 hpending horder.2.1
    · cases hstep
  | timeout => cases ha.1
  | interrupt => cases ha.2
  | gathered order =>
    simp only [step] at hstep
    cases hcleanup : s.cleanup <;> simp only [hcleanup, reduceCtorEq] at hstep
    split at hstep
    · obtain rfl := Option.some.inj hstep
      exact hfair.clean fun _ => rfl
    · cases hstep
  | discard =>
    simp only [step] at hstep
    cases hcleanup : s.cleanup with
    | discarding left active cleanupError =>
      have hnone : s.Released → cleanupError = none := by simp [Released, hcleanup]
      cases active <;> cases left <;> simp only [hcleanup, reduceCtorEq] at hstep
      · obtain rfl := Option.some.inj hstep
        exact hfair.clean hnone
      · split at hstep
        · obtain rfl := Option.some.inj hstep
          exact hfair.clean hnone
        · obtain rfl := Option.some.inj hstep
          exact hfair.clean hnone
    | _ => simp [hcleanup] at hstep
  | discarded error =>
    obtain rfl : error = none := by simpa [Action.disturbs] using ha.2
    simp only [step] at hstep
    cases hcleanup : s.cleanup with
    | discarding left active cleanupError =>
      have hnone : s.Released → cleanupError = none := by simp [Released, hcleanup]
      cases active <;> cases left <;> simp only [hcleanup, reduceCtorEq] at hstep
      obtain rfl := Option.some.inj hstep
      exact hfair.clean fun hreleased => by simp [Released, hnone hreleased]
    | _ => simp [hcleanup] at hstep
  | joined cancelled =>
    obtain rfl : cancelled = false := ha.2
    simp only [step] at hstep
    cases hcaller : s.caller <;> simp only [hcaller, reduceCtorEq] at hstep h
    cases hcleanup : s.cleanup <;> simp only [hcleanup, reduceCtorEq] at hstep
    obtain ⟨rfl, hreleased, hdecided⟩ := h
    obtain rfl : _ = none := by simpa only [Released, hcleanup] using hreleased
    simp only [awaitOwned, Bool.or_self, Bool.false_eq_true, if_false] at hstep
    obtain rfl := Option.some.inj hstep
    exact fair_conclude hdecided
  | released ended =>
    simp only [step] at hstep
    cases hcaller : s.caller with
    | releasing error before cancellation =>
      cases before <;> simp only [hcaller, reduceCtorEq] at hstep h
      obtain rfl := Option.some.inj hstep
      exact h
    | _ => simp [hcaller] at hstep
  | leave cancelled =>
    simp only [step] at hstep
    cases hcaller : s.caller with
    | releasing error before cancellation =>
      cases before <;> simp only [hcaller, reduceCtorEq] at hstep h
      split at hstep <;>
      · obtain rfl := Option.some.inj hstep
        exact .inl h
    | _ => simp [hcaller] at hstep

/-- In an undisturbed run within its time, a race without an item has seen every attempt fail, or
one of them end with another error. -/
theorem fair_run {as : List Action} (hplain : ∀ a ∈ as, a.Plain)
    (hrun : (machine v count).run (initial count) as = some s) : s.Fair v count := by
  have hstep : ∀ t a t', Inv count t ∧ t.Fair v count → a.Plain →
      (machine v count).step t a = some t' → Inv count t' ∧ t'.Fair v count :=
    fun t a t' h ha hstep => ⟨inv_step h.1 hstep, fair_step h.2 h.1.pending ha hstep⟩
  have hinitial : Inv count (initial count) ∧ (initial count).Fair v count :=
    ⟨inv_initial count, fair_initial v count⟩
  have hadmits := (machine v count).admits_of_forall hplain (initial count)
  exact ((machine v count).invariant_of_admits hstep hinitial hadmits hrun).2

end State

end YtdlBot.Materialization.Race

namespace YtdlBot.Materialization.Fallthrough

open Framework Media Media.Materialize
open MediaCache (MediaRequest)

section Candidates

variable {τ : Type}

/-- The checks of one candidate. -/
def checks (maxBytes : Int) (urls : Nat → Except Failure Unit) (position : Nat)
    (candidate : MediaCandidate τ) : Except Failure Unit :=
  checkDeclaredSize maxBytes candidate >>= fun _ => urls position

/-- It ends with an error that the loops keep. -/
def Fails {α : Type} (result : Except Failure α) : Prop :=
  ∃ failure, result = .error failure ∧ retained failure = true

variable {maxBytes : Int} {urls : Nat → Except Failure Unit} {start : Nat}
  {candidates : List (MediaCandidate τ)} {safe : List (Nat × MediaCandidate τ)}
  {errors : List Failure} {failure : Failure}

theorem validateAll_spec (h : validateAll maxBytes urls start candidates = .ok (safe, errors)) :
    (∀ entry ∈ safe, checks maxBytes urls entry.1 entry.2 = .ok () ∧
      ∃ i, entry.1 = start + i ∧ candidates[i]? = some entry.2) ∧
      ∀ i candidate, candidates[i]? = some candidate →
        (start + i, candidate) ∈ safe ∨ Fails (checks maxBytes urls (start + i) candidate) := by
  induction candidates generalizing start safe errors with
  | nil =>
    obtain ⟨rfl, rfl⟩ := Prod.mk.inj (Except.ok.inj h)
    simp
  | cons first candidates ih =>
    have hbehind : ∀ {i : Nat}, start + (i + 1) = start + 1 + i := by omega
    unfold validateAll at h
    split at h
    · next hpassed =>
      obtain ⟨⟨safe', errors'⟩, hrest, h⟩ := bind_eq_ok h
      obtain ⟨rfl, rfl⟩ := Prod.mk.inj (Except.ok.inj h)
      obtain ⟨hentries, hall⟩ := ih hrest
      refine ⟨fun entry hentry => ?_, fun i candidate hi => ?_⟩
      · rcases List.mem_cons.mp hentry with rfl | hentry
        · exact ⟨hpassed, 0, rfl, rfl⟩
        · obtain ⟨hpassed', i, hposition, hi⟩ := hentries entry hentry
          exact ⟨hpassed', i + 1, hposition.trans hbehind.symm, hi⟩
      · cases i with
        | zero =>
          obtain rfl := Option.some.inj hi
          exact .inl List.mem_cons_self
        | succ i =>
          rw [hbehind]
          exact (hall i candidate hi).imp_left (List.mem_cons_of_mem _)
    · next error hchecks =>
      split at h
      · next hretained =>
        obtain ⟨⟨safe', errors'⟩, hrest, h⟩ := bind_eq_ok h
        obtain ⟨rfl, rfl⟩ := Prod.mk.inj (Except.ok.inj h)
        obtain ⟨hentries, hall⟩ := ih hrest
        refine ⟨fun entry hentry => ?_, fun i candidate hi => ?_⟩
        · obtain ⟨hpassed, i, hposition, hi⟩ := hentries entry hentry
          exact ⟨hpassed, i + 1, hposition.trans hbehind.symm, hi⟩
        · cases i with
          | zero =>
            obtain rfl := Option.some.inj hi
            exact .inr ⟨error, hchecks, hretained⟩
          | succ i =>
            rw [hbehind]
            exact hall i candidate hi
      · cases h

theorem validateAll_sorted (h : validateAll maxBytes urls start candidates = .ok (safe, errors)) :
    safe.Pairwise fun entry entry' => entry.1 < entry'.1 := by
  induction candidates generalizing start safe errors with
  | nil =>
    obtain ⟨rfl, rfl⟩ := Prod.mk.inj (Except.ok.inj h)
    exact .nil
  | cons first candidates ih =>
    unfold validateAll at h
    split at h
    · obtain ⟨⟨safe', errors'⟩, hrest, h⟩ := bind_eq_ok h
      obtain ⟨rfl, rfl⟩ := Prod.mk.inj (Except.ok.inj h)
      refine List.pairwise_cons.mpr ⟨fun entry hentry => ?_, ih hrest⟩
      obtain ⟨-, i, hposition, -⟩ := (validateAll_spec hrest).1 entry hentry
      show start < entry.1
      omega
    · split at h
      · obtain ⟨⟨safe', errors'⟩, hrest, h⟩ := bind_eq_ok h
        obtain ⟨rfl, rfl⟩ := Prod.mk.inj (Except.ok.inj h)
        exact ih hrest
      · cases h

/-- The validation has got to position `i`: no candidate before it has ended it. -/
def Validates (maxBytes : Int) (urls : Nat → Except Failure Unit)
    (candidates : List (MediaCandidate τ)) (start i : Nat) : Prop :=
  ∀ j < i, ∀ candidate, candidates[j]? = some candidate →
    checks maxBytes urls (start + j) candidate = .ok () ∨
      Fails (checks maxBytes urls (start + j) candidate)

theorem Validates.cons {first : MediaCandidate τ} {i : Nat}
    (h : Validates maxBytes urls candidates (start + 1) i)
    (hfirst : checks maxBytes urls start first = .ok () ∨ Fails (checks maxBytes urls start first)) :
    Validates maxBytes urls (first :: candidates) start (i + 1) := by
  intro j hj candidate hcandidate
  cases j with
  | zero =>
    obtain rfl := Option.some.inj hcandidate
    exact hfirst
  | succ j =>
    have hlater := h j (by omega) candidate hcandidate
    rwa [Nat.add_right_comm, Nat.add_assoc] at hlater

theorem validateAll_error (h : validateAll maxBytes urls start candidates = .error failure) :
    ∃ i candidate, candidates[i]? = some candidate ∧
      Validates maxBytes urls candidates start i ∧
      checks maxBytes urls (start + i) candidate = .error failure ∧ retained failure = false := by
  induction candidates generalizing start with
  | nil => cases h
  | cons first candidates ih =>
    have hlater (hrest : validateAll maxBytes urls (start + 1) candidates = .error failure)
        (hfirst : checks maxBytes urls start first = .ok () ∨
          Fails (checks maxBytes urls start first)) :
        ∃ i candidate, (first :: candidates)[i]? = some candidate ∧
          Validates maxBytes urls (first :: candidates) start i ∧
          checks maxBytes urls (start + i) candidate = .error failure ∧
          retained failure = false := by
      obtain ⟨i, candidate, hi, hvalidates, hchecks, hretained⟩ := ih hrest
      exact ⟨i + 1, candidate, hi, hvalidates.cons hfirst,
        by rwa [← Nat.add_assoc, Nat.add_right_comm], hretained⟩
    unfold validateAll at h
    split at h
    · next hpassed =>
      cases hrest : validateAll maxBytes urls (start + 1) candidates with
      | ok both => simp [hrest, bind, Except.bind, pure, Except.pure] at h
      | error error =>
        simp only [hrest, bind, Except.bind, Except.error.injEq] at h
        exact hlater (h ▸ hrest) (.inl hpassed)
    · next error hchecks =>
      split at h
      · next hretained =>
        cases hrest : validateAll maxBytes urls (start + 1) candidates with
        | ok both => simp [hrest, bind, Except.bind, pure, Except.pure] at h
        | error error =>
          simp only [hrest, bind, Except.bind, Except.error.injEq] at h
          exact hlater (h ▸ hrest) (.inr ⟨_, hchecks, hretained⟩)
      · next hretained =>
        obtain rfl := Except.error.inj h
        exact ⟨0, first, rfl, fun j hj => absurd hj (Nat.not_lt_zero j), hchecks,
          by simpa using hretained⟩

end Candidates

section Main

variable {τ : Type} [LE τ] [DecidableLE τ] [Zero τ] (P : Gallery.Python τ) (maxBytes : Int)
  (request : MediaRequest) (world : World τ)

/-- The attempt of the candidate at its position. -/
def attemptOf (entry : Nat × MediaCandidate τ) : Except Failure (MaterializedItem τ) :=
  attempt P maxBytes request (world.attempts entry.1) entry.2

/-- An attempt that was not cancelled ends as it would alone. -/
def Agrees : Except Failure (MaterializedItem τ) → Race.Outcome → Prop
  | .ok _, .item => True
  | .error failure, .error error => retained failure = decide (error = .materialization)
  | _, _ => False

/-- What `materialize` gets from the race. -/
def Answers : Race.Caller → Except Failure (Option Bool × List Failure) → Prop
  | .ended (.winner i), .ok (some one, _) => one = decide (i = 1)
  | .ended (.errors _), .ok (none, _) => True
  | .ended (.raised _), .error _ => True
  | _, _ => False

/-- The world's race of these two is a run of `_race_small`. -/
structure Raced (first second : Nat × MediaCandidate τ) (as : List Race.Action)
    (s : Race.State) : Prop where
  run : (Race.machine Race.raceSmall 2).run (.initial 2) as = some s
  /-- Attempts that are pending when the race is over are cancelled. -/
  attempts : ∀ i entry outcome, [first, second][i]? = some entry → i ∉ s.pending →
    s.attempts i = some outcome → Agrees (attemptOf P maxBytes request world entry) outcome
  answer : Answers s.caller world.race

/-- The condition of the race. -/
def races (first second : MediaCandidate τ) : Bool :=
  isSmall first && isSmall second &&
    (request.outputVariant ≠ some youtubeShortDefaultVariant ||
      decide (shortEdge first = shortEdge second))

/-- The turn of candidate `i` has come: it has passed its checks, and all before it have failed. -/
structure Turn (candidates : List (MediaCandidate τ)) (i : Nat)
    (candidate : MediaCandidate τ) : Prop where
  listed : candidates[i]? = some candidate
  passed : checks maxBytes world.urls i candidate = .ok ()
  before : ∀ j < i, ∀ earlier, candidates[j]? = some earlier →
    Fails (checks maxBytes world.urls j earlier) ∨
      Fails (attemptOf P maxBytes request world (j, earlier))

/-- The first two candidates that have passed their checks, and are raced. -/
def Racing (candidates : List (MediaCandidate τ)) (first second : Nat × MediaCandidate τ) : Prop :=
  ∃ rest errors,
    validateAll maxBytes world.urls 0 candidates = .ok (first :: second :: rest, errors) ∧
      races request first.2 second.2 = true

/-- What has happened when `materialize` raises. -/
inductive Excuse (candidates : List (MediaCandidate τ)) (as : List Race.Action) : Prop where
  /-- There is no time left at the start, or the canonical URL is refused. -/
  | refused (failure : Failure) (h : world.entry = .error failure)
  /-- Every candidate has failed, in its checks or in its own attempt. -/
  | exhausted (h : ∀ i candidate, candidates[i]? = some candidate →
      Fails (checks maxBytes world.urls i candidate) ∨
        Fails (attemptOf P maxBytes request world (i, candidate)))
  /-- The checks of a candidate have raised what is no `MaterializationError`. -/
  | invalid (i : Nat) (candidate : MediaCandidate τ) (failure : Failure)
      (hcandidate : candidates[i]? = some candidate)
      (hreached : Validates maxBytes world.urls candidates 0 i)
      (h : checks maxBytes world.urls i candidate = .error failure)
      (hretained : retained failure = false)
  /-- A candidate whose turn had come, or one of the two that are raced, has raised what is no
  `MaterializationError`. -/
  | escaped (i : Nat) (candidate : MediaCandidate τ) (failure : Failure)
      (hturn : Turn P maxBytes request world candidates i candidate ∨
        ∃ other, Racing maxBytes request world candidates (i, candidate) other ∨
          Racing maxBytes request world candidates other (i, candidate))
      (h : attemptOf P maxBytes request world (i, candidate) = .error failure)
      (hretained : retained failure = false)
  /-- The deadline had passed when a candidate's turn came. -/
  | expired (i : Nat) (candidate : MediaCandidate τ)
      (hturn : Turn P maxBytes request world candidates i candidate)
      (h : world.expired i = true)
  /-- The race was cut off by the deadline, cancelled, or could not release an item. -/
  | cut (first second : Nat × MediaCandidate τ) (s : Race.State) (a : Race.Action)
      (hracing : Racing maxBytes request world candidates first second)
      (hraced : Raced P maxBytes request world first second as s) (ha : a ∈ as)
      (h : ¬ a.Plain)

variable {P maxBytes request world} {candidates : List (MediaCandidate τ)}
  {safe : List (Nat × MediaCandidate τ)} {failure : Failure} {as : List Race.Action}

theorem tryAll_error {errors : List Failure}
    (h : tryAll P maxBytes request world safe errors = .error failure) :
    (∃ before entry after, safe = before ++ entry :: after ∧
      (∀ earlier ∈ before, Fails (attemptOf P maxBytes request world earlier)) ∧
      (world.expired entry.1 = true ∨
        (attemptOf P maxBytes request world entry = .error failure ∧ retained failure = false))) ∨
      ∀ entry ∈ safe, Fails (attemptOf P maxBytes request world entry) := by
  induction safe generalizing errors with
  | nil => exact .inr (by simp)
  | cons first safe ih =>
    unfold tryAll at h
    split at h
    · next hexpired => exact .inl ⟨[], first, safe, rfl, by simp, .inl hexpired⟩
    · split at h
      · cases h
      · next error hattempt =>
        split at h
        · next hretained =>
          have hfirst : Fails (attemptOf P maxBytes request world first) :=
            ⟨error, hattempt, hretained⟩
          rcases ih h with ⟨before, entry, after, rfl, hbefore, hended⟩ | hall
          · refine .inl ⟨first :: before, entry, after, rfl, ?_, hended⟩
            exact List.forall_mem_cons.mpr ⟨hfirst, hbefore⟩
          · exact .inr (List.forall_mem_cons.mpr ⟨hfirst, hall⟩)
        · next hretained =>
          obtain rfl := Except.error.inj h
          exact .inl ⟨[], first, safe, rfl, by simp, .inr ⟨hattempt, by simpa using hretained⟩⟩

/-- The safe candidates are at their positions and in order, and the others have failed. -/
structure Validated (P : Gallery.Python τ) (maxBytes : Int) (request : MediaRequest)
    (world : World τ) (candidates : List (MediaCandidate τ))
    (safe : List (Nat × MediaCandidate τ)) : Prop where
  listed : ∀ entry ∈ safe, candidates[entry.1]? = some entry.2
  passed : ∀ entry ∈ safe, checks maxBytes world.urls entry.1 entry.2 = .ok ()
  sorted : safe.Pairwise fun entry entry' => entry.1 < entry'.1
  others : ∀ i candidate, candidates[i]? = some candidate →
    (i, candidate) ∈ safe ∨ Fails (checks maxBytes world.urls i candidate) ∨
      Fails (attemptOf P maxBytes request world (i, candidate))

theorem validated {errors : List Failure}
    (h : validateAll maxBytes world.urls 0 candidates = .ok (safe, errors)) :
    Validated P maxBytes request world candidates safe := by
  obtain ⟨hentries, hall⟩ := validateAll_spec h
  refine ⟨fun entry hentry => ?_, fun entry hentry => (hentries entry hentry).1,
    validateAll_sorted h, fun i candidate hi => ?_⟩
  · obtain ⟨-, i, hposition, hi⟩ := hentries entry hentry
    rw [hposition, Nat.zero_add]
    exact hi
  · have hchecked := hall i candidate hi
    rw [Nat.zero_add] at hchecked
    exact hchecked.imp_right .inl

theorem Validated.tail {first : Nat × MediaCandidate τ}
    (h : Validated P maxBytes request world candidates (first :: safe))
    (hfirst : Fails (attemptOf P maxBytes request world first)) :
    Validated P maxBytes request world candidates safe := by
  refine ⟨fun entry hentry => h.listed entry (List.mem_cons_of_mem _ hentry),
    fun entry hentry => h.passed entry (List.mem_cons_of_mem _ hentry), h.sorted.of_cons, ?_⟩
  intro i candidate hi
  rcases h.others i candidate hi with hmem | hfailed
  · rcases List.mem_cons.mp hmem with rfl | hmem
    · exact .inr (.inr hfirst)
    · exact .inl hmem
  · exact .inr hfailed

/-- A safe candidate's turn comes when the safe ones before it have failed. -/
theorem Validated.turn {before after : List (Nat × MediaCandidate τ)}
    {entry : Nat × MediaCandidate τ}
    (h : Validated P maxBytes request world candidates (before ++ entry :: after))
    (hbefore : ∀ earlier ∈ before, Fails (attemptOf P maxBytes request world earlier)) :
    Turn P maxBytes request world candidates entry.1 entry.2 := by
  have hmem : entry ∈ before ++ entry :: after := by simp
  refine ⟨h.listed entry hmem, h.passed entry hmem, fun j hj earlier hearlier => ?_⟩
  rcases h.others j earlier hearlier with hsafe | hfailed
  · rcases List.mem_append.mp hsafe with hearly | hlate
    · exact .inr (hbefore _ hearly)
    · -- behind the entry only later positions follow
      exfalso
      have hsorted := (List.pairwise_append.mp h.sorted).2.1
      rcases List.mem_cons.mp hlate with rfl | hlate
      · exact Nat.lt_irrefl _ hj
      · exact Nat.lt_asymm hj ((List.pairwise_cons.mp hsorted).1 _ hlate)
  · exact hfailed

theorem Validated.excuse {errors : List Failure}
    (h : Validated P maxBytes request world candidates safe)
    (htry : tryAll P maxBytes request world safe errors = .error failure) :
    Excuse P maxBytes request world candidates as := by
  rcases tryAll_error htry with ⟨before, entry, after, rfl, hbefore, hended⟩ | hall
  · rcases hended with hexpired | ⟨herror, hretained⟩
    · exact .expired entry.1 entry.2 (h.turn hbefore) hexpired
    · exact .escaped entry.1 entry.2 failure (.inl (h.turn hbefore)) herror hretained
  · refine .exhausted fun i candidate hi => ?_
    rcases h.others i candidate hi with hmem | hfailed
    · exact .inr (hall _ hmem)
    · exact hfailed

section Raced

variable {first second : Nat × MediaCandidate τ} {s : Race.State}

theorem Raced.error (h : Raced P maxBytes request world first second as s) {i : Nat}
    {entry : Nat × MediaCandidate τ} {error : Race.Error} (hi : [first, second][i]? = some entry)
    (hlooked : i ∉ s.pending) (hattempt : s.attempts i = some (.error error)) :
    ∃ failure, attemptOf P maxBytes request world entry = .error failure ∧
      retained failure = Race.raceSmall.retained error := by
  have hagrees := h.attempts i entry _ hi hlooked hattempt
  cases hresult : attemptOf P maxBytes request world entry with
  | ok item => simp [hresult, Agrees] at hagrees
  | error failure =>
    rw [hresult] at hagrees
    exact ⟨failure, rfl, hagrees⟩

theorem Raced.item (h : Raced P maxBytes request world first second as s) {i : Nat}
    {entry : Nat × MediaCandidate τ} (hi : [first, second][i]? = some entry)
    (hlooked : i ∉ s.pending) (hattempt : s.attempts i = some .item) :
    ∃ item, attemptOf P maxBytes request world entry = .ok item := by
  have hagrees := h.attempts i entry _ hi hlooked hattempt
  cases hresult : attemptOf P maxBytes request world entry with
  | ok item => exact ⟨item, rfl⟩
  | error failure => simp [hresult, Agrees] at hagrees

theorem Raced.fails (h : Raced P maxBytes request world first second as s)
    (hfailed : ∀ i < 2, s.Failed Race.raceSmall i) :
    ∀ entry ∈ [first, second], Fails (attemptOf P maxBytes request world entry) := by
  intro entry hentry
  obtain ⟨i, hi⟩ := List.mem_iff_getElem?.mp hentry
  obtain ⟨hlength, -⟩ := List.getElem?_eq_some_iff.mp hi
  obtain ⟨hlooked, error, hattempt, hretained⟩ := hfailed i hlength
  obtain ⟨failure, hresult, hkept⟩ := h.error hi hlooked hattempt
  exact ⟨failure, hresult, hkept.trans hretained⟩

theorem Raced.escapes (h : Raced P maxBytes request world first second as s)
    (hescaped : s.Escaped Race.raceSmall 2) : ∃ entry ∈ [first, second], ∃ failure,
      attemptOf P maxBytes request world entry = .error failure ∧ retained failure = false := by
  obtain ⟨i, hi, hlooked, error, hattempt, hretained⟩ := hescaped
  have hlength : i < [first, second].length := hi
  obtain ⟨failure, hresult, hkept⟩ := h.error (List.getElem?_eq_getElem hlength) hlooked hattempt
  exact ⟨_, List.getElem_mem hlength, failure, hresult, hkept.trans hretained⟩

/-- What a plain race gives its caller. -/
inductive Decision (P : Gallery.Python τ) (maxBytes : Int) (request : MediaRequest)
    (world : World τ) (first second : Nat × MediaCandidate τ) : Prop where
  | item (one : Bool) (errors : List Failure) (item : MaterializedItem τ)
      (hrace : world.race = .ok (some one, errors))
      (h : attemptOf P maxBytes request world (if one then second else first) = .ok item)
  | lost (errors : List Failure) (hrace : world.race = .ok (none, errors))
      (h : ∀ entry ∈ [first, second], Fails (attemptOf P maxBytes request world entry))
  | raised (failure : Failure) (hrace : world.race = .error failure)
      (h : ∃ entry ∈ [first, second], ∃ failure,
        attemptOf P maxBytes request world entry = .error failure ∧ retained failure = false)

theorem Raced.decided (h : Raced P maxBytes request world first second as s)
    (hplain : ∀ a ∈ as, a.Plain) : Decision P maxBytes request world first second := by
  have hfair := Race.State.fair_run hplain h.run
  have hinv := Race.State.inv_run h.run
  have hanswer := h.answer
  unfold Race.State.Fair at hfair
  cases hcaller : s.caller with
  | ended result =>
    rw [hcaller] at hfair hanswer
    cases result with
    | winner w =>
      rcases hrace : world.race with error | ⟨winner, errors⟩
      · simp [hrace, Answers] at hanswer
      cases winner with
      | none => simp [hrace, Answers] at hanswer
      | some one =>
        have hphase := hinv.phase
        simp only [Race.State.Phase, hcaller] at hphase
        obtain ⟨hw, hitem⟩ := hinv.winner w hphase.2.2.1
        simp only [hrace, Answers] at hanswer
        have hentry : [first, second][w]? = some (if one then second else first) := by
          obtain rfl | rfl : w = 0 ∨ w = 1 := by omega
          · simp [hanswer]
          · simp [hanswer]
        obtain ⟨item, hresult⟩ := h.item hentry hfair hitem
        exact .item one errors item hrace hresult
    | errors errors =>
      rcases hrace : world.race with error | ⟨winner, failures⟩
      · simp [hrace, Answers] at hanswer
      cases winner with
      | none => exact .lost failures hrace (h.fails hfair)
      | some one => simp [hrace, Answers] at hanswer
    | raised error =>
      rcases hrace : world.race with failure | both
      · have hescaped := hfair.resolve_right (by simp [Race.raceSmall])
        exact .raised failure hrace (h.escapes hescaped)
      · simp [hrace, Answers] at hanswer
  | _ => simp [hcaller, Answers] at hanswer

end Raced

/-- Whatever the servers, the disk, ffmpeg, the clock and the schedule of the race do: when
`materialize` raises, it was refused at the start, or every candidate has failed by itself, or a
candidate whose turn had come has raised what is no `MaterializationError`, or the deadline had
passed at its turn, or the race was cut off from outside. One candidate's failure is no reason, and
neither is the race. -/
theorem materialize_raises {s : Race.State}
    (hraced : ∀ first second rest errors,
      validateAll maxBytes world.urls 0 candidates = .ok (first :: second :: rest, errors) →
      races request first.2 second.2 = true → Raced P maxBytes request world first second as s)
    (h : materialize P maxBytes request candidates world = .error failure) :
    Excuse P maxBytes request world candidates as := by
  unfold materialize at h
  split at h
  · next hempty => exact .exhausted (by simp [hempty])
  · cases hentry : world.entry with
    | error error => exact .refused error hentry
    | ok =>
      cases hsafe : validateAll maxBytes world.urls 0 candidates with
      | error error =>
        obtain ⟨i, candidate, hi, hreached, hchecks, hretained⟩ := validateAll_error hsafe
        rw [Nat.zero_add] at hchecks
        exact .invalid i candidate error hi hreached hchecks hretained
      | ok both =>
        obtain ⟨safe, errors⟩ := both
        have hvalid : Validated P maxBytes request world candidates safe := validated hsafe
        simp only [hentry, hsafe, bind, Except.bind] at h
        match safe, errors, hsafe, hvalid, h with
        | [], errors, _, hvalid, _ =>
          refine .exhausted fun i candidate hi => ?_
          exact (hvalid.others i candidate hi).resolve_left (by simp)
        | [only], errors, _, hvalid, h => exact hvalid.excuse h
        | first :: second :: rest, errors, hsafe, hvalid, h =>
          dsimp only at h
          split at h
          · next hraces =>
            have hrun := hraced first second rest errors hsafe hraces
            have hracing : Racing maxBytes request world candidates first second :=
              ⟨rest, errors, hsafe, hraces⟩
            by_cases hplain : ∀ a ∈ as, a.Plain
            · cases hrun.decided hplain with
              | item one errors item hrace hresult =>
                rw [hrace] at h
                cases hresult.symm.trans h
              | lost errors hrace hfails =>
                rw [hrace] at h
                exact ((hvalid.tail (hfails first (by simp))).tail (hfails second (by simp))).excuse h
              | raised error hrace hescaped =>
                obtain ⟨entry, hentry, failure, hresult, hretained⟩ := hescaped
                refine .escaped entry.1 entry.2 failure (.inr ?_) hresult hretained
                rcases List.mem_pair.mp hentry with rfl | rfl
                · exact ⟨second, .inl hracing⟩
                · exact ⟨first, .inr hracing⟩
            · push Not at hplain
              obtain ⟨a, ha, hcut⟩ := hplain
              exact .cut first second s a hracing hrun ha hcut
          · exact hvalid.excuse h

end Main

section Pictures

def smallPicture (url : String) : MediaCandidate Int :=
  { album [] [pictureSource "0" url] with filesizeBytes := some 5, refresh := none }

def twoFailures : List Failure :=
  [.downloadFailed "media URL expired or denied", .downloadFailed "media URL expired or denied"]

/-- Both downloads are denied. -/
def deniedWorld : World Int where
  entry := .ok ()
  urls _ := .ok ()
  attempts _ := ⟨failingDownload, true, .ok (), none, .error .other, true, false, twoPictures, .ok (),
    goodDownload⟩
  race := .ok (none, twoFailures)
  expired _ := false

/-- The two attempts fail one after the other. -/
def bothFail : List Race.Action :=
  [.start false, .finish 0 (.error .materialization), .wake [0] false,
    .finish 1 (.error .materialization), .wake [1] false, .gathered [0, 1], .discard, .discard,
    .discard, .joined false]

theorem materialize_raises_denied :
    Excuse asciiPython 1000 (requestOf []) deniedWorld [smallPicture "u1", smallPicture "u2"]
      bothFail := by
  have hraises : materialize asciiPython 1000 (requestOf [])
      [smallPicture "u1", smallPicture "u2"] deniedWorld =
        .error (.materializationError "MaterializationError"
          "materialization failed (DownloadFailed, DownloadFailed)") := by
    decide +kernel
  have hvalid : validateAll 1000 deniedWorld.urls 0 [smallPicture "u1", smallPicture "u2"] =
      .ok ([(0, smallPicture "u1"), (1, smallPicture "u2")], []) := by
    decide +kernel
  have hattempts : ∀ entry ∈ [(0, smallPicture "u1"), (1, smallPicture "u2")],
      attemptOf asciiPython 1000 (requestOf []) deniedWorld entry =
        .error (.downloadFailed "media URL expired or denied") := by
    decide +kernel
  obtain ⟨s, hrun, hcaller, hattempt⟩ : ∃ s,
      (Race.machine Race.raceSmall 2).run (.initial 2) bothFail = some s ∧
        s.caller = .ended (.errors [.materialization, .materialization]) ∧
        ∀ i < 2, s.attempts i = some (.error .materialization) :=
    ⟨_, rfl, rfl, by decide⟩
  refine materialize_raises (s := s) (fun first second rest errors hsafe _ => ?_) hraises
  rw [hvalid, Except.ok.injEq, Prod.mk.injEq, List.cons.injEq, List.cons.injEq] at hsafe
  obtain ⟨⟨rfl, rfl, -⟩, -⟩ := hsafe
  refine ⟨hrun, fun i entry outcome hentry _ hended => ?_, ?_⟩
  · obtain ⟨hi, -⟩ := List.getElem?_eq_some_iff.mp hentry
    rw [hattempt i hi, Option.some.injEq] at hended
    rw [hattempts entry (List.mem_of_getElem? hentry), ← hended]
    rfl
  · rw [hcaller]
    trivial

end Pictures

end YtdlBot.Materialization.Fallthrough
