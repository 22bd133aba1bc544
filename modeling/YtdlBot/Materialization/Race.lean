import Mathlib.Data.List.Count
import Mathlib.Data.List.Range
import Mathlib.Data.List.Nodup
import YtdlBot.Framework.Machine

/-!
# Races of materializations

`_race_small` and `race_materializations`: attempts run at once, the first item wins, and the items
of the others are released. Attempts are numbered, and the item of an attempt goes by its number.
A cancelled attempt may still end in any way, so a request to cancel leaves no trace in the state.
-/

namespace YtdlBot.Materialization.Race

open Framework

inductive Error where
  /-- `MaterializationError`. -/
  | materialization
  /-- `MaterializationRaceError`. -/
  | race
  /-- Another `Exception`. -/
  | other
  /-- `CancelledError`, or another `BaseException`. -/
  | cancelled
deriving DecidableEq

/-- How an attempt ends. -/
inductive Outcome where
  | item
  | error (error : Error)
deriving DecidableEq

inductive Result where
  | winner (attempt : Nat)
  /-- `_race_small` without a winner. -/
  | errors (errors : List Error)
  | raised (error : Error)
deriving DecidableEq

/-- In what the two functions differ. -/
structure Variant where
  /-- Errors of attempts that are kept while the others go on. -/
  retained : Error → Bool
  /-- There is a deadline. -/
  timed : Bool
  /-- Finished attempts are looked at in the order they were given. -/
  ordered : Bool
  /-- A race without a winner raises. -/
  raises : Bool

def raceSmall : Variant where
  retained error := decide (error = .materialization)
  timed := true
  ordered := false
  raises := false

def raceMaterializations : Variant where
  retained error := decide (error ≠ .cancelled)
  timed := false
  ordered := true
  raises := true

def Variant.lost (v : Variant) (errors : List Error) : Result :=
  if v.raises then .raised .race else .errors errors

/-- Where the calling coroutine is. -/
inductive Caller where
  | created
  /-- In `asyncio.wait(pending)`. -/
  | waiting
  /-- In `await_owned(discard_losers())`, with what the race loop ended with. -/
  | joining (outcome : Except Error Unit) (cancellation : Bool)
  /-- In `await_owned(winner.release(delete=True))`, with the exception to go on with; `ended` is
  what the release has ended with. -/
  | releasing (error : Error) (ended : Option (Except Error Unit)) (cancellation : Bool)
  | ended (result : Result)

/-- Where the task of `discard_losers` is. -/
inductive Cleanup where
  | notCreated
  /-- In `asyncio.gather(*tasks)`. -/
  | gathering
  /-- The results still to go through; `active` when the item of the first one is being released. -/
  | discarding (left : List Nat) (active : Bool) (cleanupError : Option Error)
  | ended (cleanupError : Option Error)

/-- The attempts with their outcomes, the local variables, and the history of
`release(delete=True)` calls. -/
structure State where
  attempts : Nat → Option Outcome
  pending : List Nat
  winner : Option Nat
  errors : List Error
  caller : Caller
  cleanup : Cleanup
  released : List Nat

inductive Action where
  | start (expired : Bool)
  /-- An attempt ends. -/
  | finish (attempt : Nat) (outcome : Outcome)
  /-- `asyncio.wait` returns, and its finished attempts are looked at in this order. -/
  | wake (order : List Nat) (expired : Bool)
  /-- `asyncio.wait` returns with nothing done. -/
  | timeout
  /-- The caller is cancelled while it awaits something that has not ended. -/
  | interrupt
  /-- `asyncio.gather` returns; the results come in this order. -/
  | gathered (order : List Nat)
  /-- The next round of the loop of `discard_losers`, up to its `await`. -/
  | discard
  /-- The release of a loser ends. -/
  | discarded (error : Option Error)
  /-- `await_owned(discard_losers())` ends, possibly with a cancellation at the last moment. -/
  | joined (cancelled : Bool)
  /-- The release of the winner ends. -/
  | released (ended : Except Error Unit)
  /-- `await_owned(winner.release(delete=True))` ends. -/
  | leave (cancelled : Bool)

/-- What `await_owned` returns or raises when its task has ended. -/
def awaitOwned (cancellation : Bool) (ended : Except Error Unit) : Except Error Unit :=
  if cancellation then .error .cancelled else ended

/-- The loop over finished attempts: the winner, the errors, and an exception that ends the race. -/
def scan (v : Variant) (attempts : Nat → Option Outcome) :
    List Nat → Option Nat → List Error → Option Nat × List Error × Option Error
  | [], winner, errors => (winner, errors, none)
  | i :: order, winner, errors =>
    match attempts i with
    | none => (winner, errors, none)
    | some .item => scan v attempts order (if winner = none then some i else winner) errors
    | some (.error error) =>
      if v.retained error then scan v attempts order winner (errors ++ [error])
      else (winner, errors, some error)

namespace State

def initial (count : Nat) : State :=
  ⟨fun _ => none, List.range count, none, [], .created, .notCreated, []⟩

/-- The `finally` clause up to its `await`. -/
def join (outcome : Except Error Unit) (s : State) : State :=
  { s with caller := .joining outcome false, cleanup := .gathering }

/-- The condition of the race loop. -/
def loop (v : Variant) (expired : Bool) (s : State) : State :=
  if s.pending = [] ∨ (v.timed = true ∧ expired = true) then s.join (.ok ())
  else { s with caller := .waiting }

/-- After `asyncio.wait`. -/
def look (v : Variant) (order : List Nat) (expired : Bool) (s : State) : State :=
  let pending := s.pending.filter fun i => (s.attempts i).isNone
  match scan v s.attempts order s.winner s.errors with
  | (winner, errors, some error) =>
    { s with pending := pending, winner := winner, errors := errors }.join (.error error)
  | (some winner, errors, none) =>
    { s with pending := pending, winner := some winner, errors := errors }.join (.ok ())
  | (none, errors, none) =>
    { s with pending := pending, winner := none, errors := errors }.loop v expired

/-- After `finally`: the winner is handed over, or released because of an exception. -/
def conclude (v : Variant) (outcome : Except Error Unit) (s : State) : State :=
  match outcome, s.winner with
  | .ok (), some i => { s with caller := .ended (.winner i) }
  | .ok (), none => { s with caller := .ended (v.lost s.errors) }
  | .error error, some i =>
    { s with caller := .releasing error none false, released := s.released ++ [i] }
  | .error error, none => { s with caller := .ended (.raised error) }

/-- The attempt has an item that is not the winner. -/
def lost (s : State) (i : Nat) : Bool :=
  decide (s.attempts i = some .item ∧ s.winner ≠ some i)

def step (v : Variant) (count : Nat) (s : State) : Action → Option State
  | .start expired =>
    match s.caller with
    | .created => some (s.loop v expired)
    | _ => none
  | .finish i outcome =>
    if i < count ∧ s.attempts i = none then
      some { s with attempts := Function.update s.attempts i (some outcome) }
    else none
  | .wake order expired =>
    match s.caller with
    | .waiting =>
      let done := s.pending.filter fun i => (s.attempts i).isSome
      if order ≠ [] ∧ order.Perm done ∧ (v.ordered = true → order = done) then
        some (s.look v order expired)
      else none
    | _ => none
  | .timeout =>
    match s.caller with
    | .waiting =>
      if v.timed = true ∧ ∀ i ∈ s.pending, s.attempts i = none then some (s.join (.ok ()))
      else none
    | _ => none
  | .interrupt =>
    match s.caller with
    | .waiting => some (s.join (.error .cancelled))
    | .joining outcome _ =>
      match s.cleanup with
      | .ended _ => none
      | _ => some { s with caller := .joining outcome true }
    | .releasing error none _ => some { s with caller := .releasing error none true }
    | _ => none
  | .gathered order =>
    match s.cleanup with
    | .gathering =>
      if order.Perm (List.range count) ∧ (v.ordered = true → order = List.range count) ∧
          ∀ i ∈ order, s.attempts i ≠ none then
        some { s with cleanup := .discarding order false none }
      else none
    | _ => none
  | .discard =>
    match s.cleanup with
    | .discarding [] false cleanupError => some { s with cleanup := .ended cleanupError }
    | .discarding (i :: left) false cleanupError =>
      if s.lost i then
        some { s with
          cleanup := .discarding (i :: left) true cleanupError, released := s.released ++ [i] }
      else some { s with cleanup := .discarding left false cleanupError }
    | _ => none
  | .discarded error =>
    match s.cleanup with
    | .discarding (_ :: left) true cleanupError =>
      some { s with cleanup := .discarding left false (cleanupError.or error) }
    | _ => none
  | .joined cancelled =>
    match s.caller, s.cleanup with
    | .joining outcome cancellation, .ended cleanupError =>
      let ended := match cleanupError with
        | some error => .error error
        | none => .ok ()
      match awaitOwned (cancellation || cancelled) ended with
      | .ok () => some (s.conclude v outcome)
      | .error error => some (s.conclude v (.error error))
    | _, _ => none
  | .released ended =>
    match s.caller with
    | .releasing error none cancellation =>
      some { s with caller := .releasing error (some ended) cancellation }
    | _ => none
  | .leave cancelled =>
    match s.caller with
    | .releasing error (some ended) cancellation =>
      match awaitOwned (cancellation || cancelled) ended with
      | .ok () => some { s with caller := .ended (.raised error) }
      | .error error' => some { s with caller := .ended (.raised error') }
    | _ => none

end State

/-- A race of `count` attempts. -/
def machine (v : Variant) (count : Nat) : Machine State Action := ⟨State.step v count⟩

def Result.kept : Result → Option Nat
  | .winner i => some i
  | .errors _ | .raised _ => none

namespace State

variable {v : Variant} {count : Nat} {s s' : State}

/-- Every attempt has ended, and every item but the one that is kept has been released once. -/
structure Settled (s : State) (count : Nat) (kept : Option Nat) : Prop where
  finished : ∀ i < count, s.attempts i ≠ none
  item : ∀ i, kept = some i → i < count ∧ s.attempts i = some .item
  released : ∀ i, s.released.count i =
    if i < count ∧ s.attempts i = some .item ∧ kept ≠ some i then 1 else 0

section Invariant

def Finished (s : State) (count : Nat) : Prop := ∀ i < count, s.attempts i ≠ none

/-- The items that `discard_losers` has to release. -/
def losers (s : State) (count : Nat) : List Nat := (List.range count).filter s.lost

def completed (s : State) (count : Nat) : List Nat :=
  (List.range count).filter fun i => decide (s.attempts i = some .item)

/-- What is released and what is left to go through make up the losers. -/
def Discarding (s : State) (count : Nat) : Prop :=
  match s.cleanup with
  | .notCreated => False
  | .gathering => s.released = []
  | .discarding left active _ =>
    s.Finished count ∧
      (s.released ++ (if active then left.tail else left).filter s.lost).Perm (s.losers count)
  | .ended _ => s.Finished count ∧ s.released.Perm (s.losers count)

def Phase (s : State) (count : Nat) : Prop :=
  match s.caller with
  | .created | .waiting => s.winner = none ∧ s.cleanup = .notCreated ∧ s.released = []
  | .joining _ _ => s.Discarding count
  | .releasing _ _ _ =>
    s.Finished count ∧ (∃ error, s.cleanup = .ended error) ∧
      s.released.Perm (s.completed count) ∧ ∃ i, s.winner = some i
  | .ended (.winner i) =>
    s.Finished count ∧ (∃ error, s.cleanup = .ended error) ∧ s.winner = some i ∧
      s.released.Perm (s.losers count)
  | .ended _ =>
    s.Finished count ∧ (∃ error, s.cleanup = .ended error) ∧ s.released.Perm (s.completed count)

structure Inv (count : Nat) (s : State) : Prop where
  pending : ∀ i ∈ s.pending, i < count
  winner : ∀ i, s.winner = some i → i < count ∧ s.attempts i = some .item
  phase : s.Phase count

theorem inv_initial (count : Nat) : Inv count (initial count) :=
  ⟨fun _ => List.mem_range.mp, fun _ h => (nomatch h), rfl, rfl, rfl⟩

theorem completed_perm {w : Nat} (hwinner : s.winner = some w) (hw : w < count)
    (hitem : s.attempts w = some .item) :
    (s.losers count ++ [w]).Perm (s.completed count) := by
  have hnodup : (s.losers count ++ [w]).Nodup := by
    apply List.Nodup.append (List.nodup_range.filter _) (List.nodup_singleton w)
    intro i hi hsingle
    obtain rfl := List.mem_singleton.mp hsingle
    have hlost := (List.mem_filter.mp hi).2
    exact (of_decide_eq_true hlost).2 hwinner
  refine (List.perm_ext_iff_of_nodup hnodup (List.nodup_range.filter _)).mpr fun i => ?_
  simp only [losers, lost, List.mem_append, List.mem_filter, List.mem_range,
    List.mem_singleton, decide_eq_true_eq, hwinner, Option.some.injEq, ne_eq]
  constructor
  · rintro (⟨hi, hdone, -⟩ | rfl)
    · exact ⟨hi, hdone⟩
    · exact ⟨hw, hitem⟩
  · rintro ⟨hi, hdone⟩
    by_cases h : w = i
    · exact .inr h.symm
    · exact .inl ⟨hi, hdone, h⟩

theorem losers_eq_completed (hwinner : s.winner = none) : s.losers count = s.completed count := by
  apply List.filter_congr
  intro i _
  simp [lost, hwinner]

theorem scan_winner {attempts : Nat → Option Outcome} {order : List Nat} {winner : Option Nat}
    {errors : List Error} {i : Nat} (h : (scan v attempts order winner errors).1 = some i) :
    winner = some i ∨ (i ∈ order ∧ attempts i = some .item) := by
  induction order generalizing winner errors with
  | nil => exact .inl h
  | cons j order ih =>
    unfold scan at h
    cases hj : attempts j with
    | none =>
      rw [hj] at h
      exact .inl h
    | some outcome =>
      cases outcome with
      | item =>
        rw [hj] at h
        rcases ih h with hwinner | ⟨hi, hitem⟩
        · by_cases hnone : winner = none
          · rw [if_pos hnone, Option.some.injEq] at hwinner
            subst hwinner
            exact .inr ⟨List.mem_cons_self, hj⟩
          · rw [if_neg hnone] at hwinner
            exact .inl hwinner
        · exact .inr ⟨List.mem_cons_of_mem _ hi, hitem⟩
      | error error =>
        simp only [hj] at h
        split at h
        · rcases ih h with hwinner | ⟨hi, hitem⟩
          · exact .inl hwinner
          · exact .inr ⟨List.mem_cons_of_mem _ hi, hitem⟩
        · exact .inl h

theorem inv_join {outcome : Except Error Unit} (hpending : ∀ i ∈ s.pending, i < count)
    (hwinner : ∀ i, s.winner = some i → i < count ∧ s.attempts i = some .item)
    (hreleased : s.released = []) : Inv count (s.join outcome) :=
  ⟨hpending, hwinner, hreleased⟩

theorem inv_loop {expired : Bool} (hpending : ∀ i ∈ s.pending, i < count)
    (hnone : s.winner = none) (hcleanup : s.cleanup = .notCreated) (hreleased : s.released = []) :
    Inv count (s.loop v expired) := by
  have hwinner : ∀ i, s.winner = some i → i < count ∧ s.attempts i = some .item := by
    intro i hi
    rw [hnone] at hi
    cases hi
  unfold loop
  split
  · exact inv_join hpending hwinner hreleased
  · exact ⟨hpending, hwinner, hnone, hcleanup, hreleased⟩

theorem inv_look {order : List Nat} {expired : Bool} (h : Inv count s)
    (hdone : ∀ i ∈ order, i ∈ s.pending) (hcleanup : s.cleanup = .notCreated) (hreleased : s.released = []) :
    Inv count (s.look v order expired) := by
  have hpending : ∀ i ∈ s.pending.filter fun i => (s.attempts i).isNone, i < count :=
    fun i hi => h.pending i (List.mem_filter.mp hi).1
  have hscan : ∀ i, (scan v s.attempts order s.winner s.errors).1 = some i →
      i < count ∧ s.attempts i = some .item := by
    intro i hi
    rcases scan_winner hi with hwinner | ⟨hmem, hitem⟩
    · exact h.winner i hwinner
    · exact ⟨h.pending i (hdone i hmem), hitem⟩
  unfold look
  rcases hresult : scan v s.attempts order s.winner s.errors with ⟨winner, errors, error⟩
  rw [hresult] at hscan
  cases error with
  | some error => exact inv_join hpending hscan hreleased
  | none =>
    cases winner with
    | some winner => exact inv_join hpending hscan hreleased
    | none => exact inv_loop hpending rfl hcleanup hreleased

theorem conclude_winner {i : Nat} (h : s.winner = some i) :
    s.conclude v (.ok ()) = { s with caller := .ended (.winner i) } := by
  unfold conclude
  rw [h]

theorem conclude_lost (h : s.winner = none) :
    s.conclude v (.ok ()) = { s with caller := .ended (v.lost s.errors) } := by
  unfold conclude
  rw [h]

theorem conclude_raise {error : Error} {i : Nat} (h : s.winner = some i) :
    s.conclude v (.error error) =
      { s with caller := .releasing error none false, released := s.released ++ [i] } := by
  unfold conclude
  rw [h]

theorem conclude_raised {error : Error} (h : s.winner = none) :
    s.conclude v (.error error) = { s with caller := .ended (.raised error) } := by
  unfold conclude
  rw [h]

theorem inv_conclude {outcome : Except Error Unit} {cleanupError : Option Error} (h : Inv count s)
    (hcleanup : s.cleanup = .ended cleanupError) (hfinished : s.Finished count)
    (hreleased : s.released.Perm (s.losers count)) : Inv count (s.conclude v outcome) := by
  rcases hwinner : s.winner with - | i
  · have hall : s.released.Perm (s.completed count) := losers_eq_completed hwinner ▸ hreleased
    cases outcome with
    | error error =>
      rw [conclude_raised hwinner]
      exact ⟨h.pending, h.winner, hfinished, ⟨_, hcleanup⟩, hall⟩
    | ok value =>
      rw [conclude_lost hwinner]
      refine ⟨h.pending, h.winner, ?_⟩
      cases hraises : v.raises with
      | true =>
        simp only [Phase, Variant.lost, hraises, if_true]
        exact ⟨hfinished, ⟨_, hcleanup⟩, hall⟩
      | false =>
        simp only [Phase, Variant.lost, hraises, Bool.false_eq_true, if_false]
        exact ⟨hfinished, ⟨_, hcleanup⟩, hall⟩
  · obtain ⟨hi, hitem⟩ := h.winner i hwinner
    cases outcome with
    | ok value =>
      rw [conclude_winner hwinner]
      exact ⟨h.pending, h.winner, hfinished, ⟨_, hcleanup⟩, hwinner, hreleased⟩
    | error error =>
      rw [conclude_raise hwinner]
      refine ⟨h.pending, h.winner, hfinished, ⟨_, hcleanup⟩, ?_, i, hwinner⟩
      exact (hreleased.append_right [i]).trans (completed_perm hwinner hi hitem)

theorem inv_finish {i : Nat} {outcome : Outcome} (h : Inv count s) (hi : i < count)
    (hrunning : s.attempts i = none) :
    Inv count { s with attempts := Function.update s.attempts i (some outcome) } := by
  have hbusy : ¬ s.Finished count := fun hfinished => hfinished i hi hrunning
  refine ⟨h.pending, ?_, ?_⟩
  · intro j hj
    obtain ⟨hjcount, hitem⟩ := h.winner j hj
    refine ⟨hjcount, ?_⟩
    have hne : j ≠ i := by
      rintro rfl
      rw [hrunning] at hitem
      cases hitem
    simp only [Function.update_of_ne hne]
    exact hitem
  · have hphase := h.phase
    unfold Phase at hphase ⊢
    cases hcaller : s.caller with
    | created =>
      rw [hcaller] at hphase
      exact hphase
    | waiting =>
      rw [hcaller] at hphase
      exact hphase
    | joining outcome cancellation =>
      rw [hcaller] at hphase
      simp only at hphase ⊢
      unfold Discarding at hphase ⊢
      cases hcleanup : s.cleanup with
      | notCreated =>
        rw [hcleanup] at hphase
        exact hphase
      | gathering =>
        rw [hcleanup] at hphase
        exact hphase
      | discarding left active cleanupError =>
        rw [hcleanup] at hphase
        exact absurd hphase.1 hbusy
      | ended cleanupError =>
        rw [hcleanup] at hphase
        exact absurd hphase.1 hbusy
    | releasing error ended cancellation =>
      rw [hcaller] at hphase
      exact absurd hphase.1 hbusy
    | ended result =>
      rw [hcaller] at hphase
      cases result with
      | winner j => exact absurd hphase.1 hbusy
      | errors errors => exact absurd hphase.1 hbusy
      | raised error => exact absurd hphase.1 hbusy

theorem inv_cleanup (cleanup : Cleanup) (released : List Nat) (h : Inv count s)
    (hwas : ∀ error, s.cleanup ≠ .ended error) (hcreated : s.cleanup ≠ .notCreated)
    (hnext : s.Discarding count →
      ({ s with cleanup := cleanup, released := released } : State).Discarding count) :
    Inv count { s with cleanup := cleanup, released := released } := by
  refine ⟨h.pending, h.winner, ?_⟩
  have hphase := h.phase
  unfold Phase at hphase ⊢
  cases hcaller : s.caller with
  | created =>
    rw [hcaller] at hphase
    exact absurd hphase.2.1 hcreated
  | waiting =>
    rw [hcaller] at hphase
    exact absurd hphase.2.1 hcreated
  | joining outcome cancellation =>
    rw [hcaller] at hphase
    exact hnext hphase
  | releasing error ended cancellation =>
    rw [hcaller] at hphase
    obtain ⟨error, herror⟩ := hphase.2.1
    exact absurd herror (hwas error)
  | ended result =>
    rw [hcaller] at hphase
    cases result with
    | winner j =>
      obtain ⟨error, herror⟩ := hphase.2.1
      exact absurd herror (hwas error)
    | errors errors =>
      obtain ⟨error, herror⟩ := hphase.2.1
      exact absurd herror (hwas error)
    | raised error =>
      obtain ⟨error, herror⟩ := hphase.2.1
      exact absurd herror (hwas error)

theorem inv_step_cleanup {a : Action} (h : Inv count s)
    (ha : (∃ order, a = .gathered order) ∨ a = .discard ∨ ∃ error, a = .discarded error)
    (hstep : s.step v count a = some s') : Inv count s' := by
  rcases ha with ⟨order, rfl⟩ | rfl | ⟨error, rfl⟩
  · simp only [step] at hstep
    cases hcleanup : s.cleanup with
    | gathering =>
      simp only [hcleanup] at hstep
      split at hstep
      next hgathered =>
        obtain ⟨hperm, -, hdone⟩ := hgathered
        obtain rfl := Option.some.inj hstep
        refine inv_cleanup (.discarding order false none) s.released h (by simp [hcleanup])
          (by simp [hcleanup]) fun hdiscarding => ?_
        simp only [Discarding, hcleanup] at hdiscarding
        simp only [Discarding, hdiscarding, List.nil_append]
        exact ⟨fun i hi => hdone i (hperm.mem_iff.mpr (List.mem_range.mpr hi)), hperm.filter _⟩
      · cases hstep
    | notCreated => simp [hcleanup] at hstep
    | discarding left active cleanupError => simp [hcleanup] at hstep
    | ended cleanupError => simp [hcleanup] at hstep
  · simp only [step] at hstep
    cases hcleanup : s.cleanup with
    | discarding left active cleanupError =>
      have hended : ∀ error, s.cleanup ≠ .ended error := by simp [hcleanup]
      have hcreated : s.cleanup ≠ .notCreated := by simp [hcleanup]
      cases active with
      | true => simp [hcleanup] at hstep
      | false =>
        cases left with
        | nil =>
          simp only [hcleanup, Option.some.injEq] at hstep
          subst hstep
          refine inv_cleanup (.ended cleanupError) s.released h hended hcreated fun hdiscarding => ?_
          simp only [Discarding, hcleanup, Bool.false_eq_true, if_false, List.filter_nil,
            List.append_nil] at hdiscarding
          exact hdiscarding
        | cons i left =>
          simp only [hcleanup] at hstep
          split at hstep
          next hlost =>
            obtain rfl := Option.some.inj hstep
            refine inv_cleanup (.discarding (i :: left) true cleanupError) (s.released ++ [i]) h hended
              hcreated fun hdiscarding => ?_
            simp only [Discarding, hcleanup, Bool.false_eq_true, if_false, List.filter_cons, hlost,
              if_true] at hdiscarding
            refine ⟨hdiscarding.1, ?_⟩
            simp only [if_true, List.tail_cons, List.append_assoc, List.singleton_append]
            exact hdiscarding.2
          next hkept =>
            obtain rfl := Option.some.inj hstep
            refine inv_cleanup (.discarding left false cleanupError) s.released h hended hcreated
              fun hdiscarding => ?_
            simp only [Discarding, hcleanup, Bool.false_eq_true, if_false, List.filter_cons,
              hkept] at hdiscarding
            exact hdiscarding
    | notCreated => simp [hcleanup] at hstep
    | gathering => simp [hcleanup] at hstep
    | ended cleanupError => simp [hcleanup] at hstep
  · simp only [step] at hstep
    cases hcleanup : s.cleanup with
    | discarding left active cleanupError =>
      cases active with
      | false => simp [hcleanup] at hstep
      | true =>
        cases left with
        | nil => simp [hcleanup] at hstep
        | cons i left =>
          simp only [hcleanup, Option.some.injEq] at hstep
          subst hstep
          refine inv_cleanup (.discarding left false (cleanupError.or error)) s.released h
            (by simp [hcleanup]) (by simp [hcleanup]) fun hdiscarding => ?_
          simp only [Discarding, hcleanup, if_true, List.tail_cons] at hdiscarding
          exact hdiscarding
    | notCreated => simp [hcleanup] at hstep
    | gathering => simp [hcleanup] at hstep
    | ended cleanupError => simp [hcleanup] at hstep

theorem inv_step {a : Action} (h : Inv count s) (hstep : s.step v count a = some s') :
    Inv count s' := by
  have hphase := h.phase
  cases a with
  | gathered order => exact inv_step_cleanup h (.inl ⟨order, rfl⟩) hstep
  | discard => exact inv_step_cleanup h (.inr (.inl rfl)) hstep
  | discarded error => exact inv_step_cleanup h (.inr (.inr ⟨error, rfl⟩)) hstep
  | start expired =>
    simp only [step] at hstep
    cases hcaller : s.caller with
    | created =>
      simp only [hcaller, Option.some.injEq] at hstep
      subst hstep
      simp only [Phase, hcaller] at hphase
      exact inv_loop h.pending hphase.1 hphase.2.1 hphase.2.2
    | _ => simp [hcaller] at hstep
  | finish i outcome =>
    simp only [step] at hstep
    split at hstep
    next hrunning =>
      obtain rfl := Option.some.inj hstep
      exact inv_finish h hrunning.1 hrunning.2
    · cases hstep
  | wake order expired =>
    simp only [step] at hstep
    cases hcaller : s.caller with
    | waiting =>
      simp only [hcaller] at hstep
      split at hstep
      next hwoken =>
        obtain rfl := Option.some.inj hstep
        simp only [Phase, hcaller] at hphase
        refine inv_look h (fun i hi => ?_) hphase.2.1 hphase.2.2
        exact (List.mem_filter.mp (hwoken.2.1.mem_iff.mp hi)).1
      · cases hstep
    | _ => simp [hcaller] at hstep
  | timeout =>
    simp only [step] at hstep
    cases hcaller : s.caller with
    | waiting =>
      simp only [hcaller] at hstep
      split at hstep
      · obtain rfl := Option.some.inj hstep
        simp only [Phase, hcaller] at hphase
        exact inv_join h.pending h.winner hphase.2.2
      · cases hstep
    | _ => simp [hcaller] at hstep
  | interrupt =>
    simp only [step] at hstep
    cases hcaller : s.caller with
    | waiting =>
      simp only [hcaller, Option.some.injEq] at hstep
      subst hstep
      simp only [Phase, hcaller] at hphase
      exact inv_join h.pending h.winner hphase.2.2
    | joining outcome cancellation =>
      simp only [hcaller] at hstep
      simp only [Phase, hcaller] at hphase
      split at hstep
      · cases hstep
      · obtain rfl := Option.some.inj hstep
        exact ⟨h.pending, h.winner, hphase⟩
    | releasing error ended cancellation =>
      simp only [Phase, hcaller] at hphase
      cases ended with
      | none =>
        simp only [hcaller, Option.some.injEq] at hstep
        subst hstep
        exact ⟨h.pending, h.winner, hphase⟩
      | some ended => simp [hcaller] at hstep
    | _ => simp [hcaller] at hstep
  | joined cancelled =>
    simp only [step] at hstep
    cases hcaller : s.caller with
    | joining outcome cancellation =>
      cases hcleanup : s.cleanup with
      | ended cleanupError =>
        simp only [hcaller, hcleanup] at hstep
        simp only [Phase, hcaller, Discarding, hcleanup] at hphase
        split at hstep
        · obtain rfl := Option.some.inj hstep
          exact inv_conclude h hcleanup hphase.1 hphase.2
        · obtain rfl := Option.some.inj hstep
          exact inv_conclude h hcleanup hphase.1 hphase.2
      | _ => simp [hcaller, hcleanup] at hstep
    | _ => simp [hcaller] at hstep
  | released ended =>
    simp only [step] at hstep
    cases hcaller : s.caller with
    | releasing error before cancellation =>
      simp only [Phase, hcaller] at hphase
      cases before with
      | none =>
        simp only [hcaller, Option.some.injEq] at hstep
        subst hstep
        exact ⟨h.pending, h.winner, hphase⟩
      | some before => simp [hcaller] at hstep
    | _ => simp [hcaller] at hstep
  | leave cancelled =>
    simp only [step] at hstep
    cases hcaller : s.caller with
    | releasing error ended cancellation =>
      simp only [Phase, hcaller] at hphase
      cases ended with
      | none => simp [hcaller] at hstep
      | some ended =>
        simp only [hcaller] at hstep
        split at hstep
        · obtain rfl := Option.some.inj hstep
          exact ⟨h.pending, h.winner, hphase.1, hphase.2.1, hphase.2.2.1⟩
        · obtain rfl := Option.some.inj hstep
          exact ⟨h.pending, h.winner, hphase.1, hphase.2.1, hphase.2.2.1⟩
    | _ => simp [hcaller] at hstep

theorem inv_run {as : List Action} (hrun : (machine v count).run (initial count) as = some s) :
    Inv count s :=
  (machine v count).invariant (fun _ _ _ h hstep => inv_step h hstep) (inv_initial count) hrun

end Invariant

theorem count_of_perm {p : Nat → Prop} [DecidablePred p]
    (h : s.released.Perm ((List.range count).filter fun i => decide (p i))) (i : Nat) :
    s.released.count i = if i < count ∧ p i then 1 else 0 := by
  rw [h.count_eq]
  by_cases hi : i < count ∧ p i
  · rw [if_pos hi]
    apply List.count_eq_one_of_mem (List.nodup_range.filter _)
    exact List.mem_filter.mpr ⟨List.mem_range.mpr hi.1, decide_eq_true hi.2⟩
  · rw [if_neg hi]
    apply List.count_eq_zero_of_not_mem
    intro hmem
    obtain ⟨hrange, hp⟩ := List.mem_filter.mp hmem
    exact hi ⟨List.mem_range.mp hrange, of_decide_eq_true hp⟩

/-- A caller that is through has accounted for every item. -/
theorem Inv.settled {result : Result} (h : Inv count s) (hcaller : s.caller = .ended result) :
    s.Settled count result.kept := by
  have hphase := h.phase
  simp only [Phase, hcaller] at hphase
  cases result with
  | winner w =>
    obtain ⟨hfinished, -, hwinner, hreleased⟩ := hphase
    refine ⟨hfinished, ?_, fun i => ?_⟩
    · rintro i hi
      obtain rfl := Option.some.inj hi
      exact h.winner w hwinner
    · rw [count_of_perm hreleased, hwinner]
      rfl
  | errors errors =>
    refine ⟨hphase.1, fun i hi => (nomatch hi), fun i => ?_⟩
    rw [count_of_perm hphase.2.2]
    simp [Result.kept]
  | raised error =>
    refine ⟨hphase.1, fun i hi => (nomatch hi), fun i => ?_⟩
    rw [count_of_perm hphase.2.2]
    simp [Result.kept]

end State

/-- Whatever the attempts do and whenever the caller is cancelled: when a race returns or raises,
every attempt has ended, a winner is an item that has not been released, and every other item has
been released exactly once. -/
theorem race_ownership (count : Nat) (as : List Action) (s : State) (result : Result)
    (hcaller : s.caller = .ended result) :
    ((machine raceSmall count).run (.initial count) as = some s → s.Settled count result.kept) ∧
      ((machine raceMaterializations count).run (.initial count) as = some s →
        s.Settled count result.kept) :=
  ⟨fun hrun => (State.inv_run hrun).settled hcaller, fun hrun => (State.inv_run hrun).settled hcaller⟩

/-- Two attempts finish at once, and the caller is cancelled while the loser is being released. -/
def simultaneous : List Action :=
  [.start false, .finish 0 .item, .finish 1 .item, .wake [1, 0] false, .gathered [0, 1], .discard,
    .interrupt, .discarded none, .discard, .discard, .joined false, .released (.ok ()), .leave false]

theorem race_ownership_simultaneous : ∃ s, (machine raceSmall 2).run (.initial 2) simultaneous = some s ∧
    s.released = [0, 1] ∧ s.Settled 2 none := by
  obtain ⟨s, hrun, hcaller, hreleased⟩ : ∃ s,
      (machine raceSmall 2).run (.initial 2) simultaneous = some s ∧
        s.caller = .ended (.raised .cancelled) ∧ s.released = [0, 1] := ⟨_, rfl, rfl, rfl⟩
  exact ⟨s, hrun, hreleased, (race_ownership 2 simultaneous s (.raised .cancelled) hcaller).1 hrun⟩

end YtdlBot.Materialization.Race
