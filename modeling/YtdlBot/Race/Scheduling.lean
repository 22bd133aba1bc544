import Mathlib.Data.List.Nodup
import Mathlib.Data.List.Range
import YtdlBot.Framework.Tally
import YtdlBot.Race.Candidates

/-!
# The schedule of a race

What a worker can do between two awaits, and the invariants of the heap, of the workers and of the
history that follow from it.
-/

namespace YtdlBot.Race.Candidates

open Framework

variable {κ : Type}

section Heap

variable {heap rest : List Entry} {e first : Entry}

theorem heappop_perm (h : heappop heap = some (first, rest)) : heap.Perm (first :: rest) := by
  induction heap generalizing first rest with
  | nil => cases h
  | cons e heap ih =>
    unfold heappop at h
    cases hpop : heappop heap with
    | none =>
      simp only [hpop, Option.some.injEq, Prod.mk.injEq] at h
      obtain ⟨rfl, rfl⟩ := h
      exact List.Perm.refl _
    | some popped =>
      obtain ⟨first', rest'⟩ := popped
      simp only [hpop] at h
      split at h
      · obtain ⟨rfl, rfl⟩ := Prod.mk.inj (Option.some.inj h)
        exact List.Perm.refl _
      · obtain ⟨rfl, rfl⟩ := Prod.mk.inj (Option.some.inj h)
        exact ((ih hpop).cons e).trans (List.Perm.swap _ _ _)

theorem heappop_eq_none (h : heappop heap = none) : heap = [] := by
  cases heap with
  | nil => rfl
  | cons e heap =>
    unfold heappop at h
    split at h
    · cases h
    · split at h <;> cases h

theorem readyAt_le_of_before (h : first.before e = true) : first.readyAt ≤ e.readyAt := by
  rcases of_decide_eq_true h with hlt | ⟨heq, -⟩
  · exact hlt.le
  · exact heq.le

theorem readyAt_le_of_not_before (h : ¬ e.before first = true) : first.readyAt ≤ e.readyAt := by
  have hnot := of_decide_eq_false (Bool.eq_false_of_not_eq_true h)
  exact not_lt.mp fun hlt => hnot (.inl hlt)

theorem heappop_le (h : heappop heap = some (first, rest)) :
    ∀ e ∈ rest, first.readyAt ≤ e.readyAt := by
  induction heap generalizing first rest with
  | nil => cases h
  | cons e heap ih =>
    unfold heappop at h
    cases hpop : heappop heap with
    | none =>
      simp only [hpop, Option.some.injEq, Prod.mk.injEq] at h
      obtain ⟨rfl, rfl⟩ := h
      rw [heappop_eq_none hpop]
      exact fun _ he => absurd he List.not_mem_nil
    | some popped =>
      obtain ⟨first', rest'⟩ := popped
      simp only [hpop] at h
      split at h
      next hbefore =>
        obtain ⟨rfl, rfl⟩ := Prod.mk.inj (Option.some.inj h)
        intro e' he'
        have hle := readyAt_le_of_before hbefore
        rcases List.mem_cons.mp ((heappop_perm hpop).mem_iff.mp he') with rfl | hrest
        · exact hle
        · exact hle.trans (ih hpop e' hrest)
      next hbefore =>
        obtain ⟨rfl, rfl⟩ := Prod.mk.inj (Option.some.inj h)
        intro e' he'
        rcases List.mem_cons.mp he' with rfl | hrest
        · exact readyAt_le_of_not_before hbefore
        · exact ih hpop e' hrest

theorem heappop_mem (h : heappop heap = some (first, rest)) : first ∈ heap :=
  (heappop_perm h).mem_iff.mpr List.mem_cons_self

theorem heappop_subset (h : heappop heap = some (first, rest)) : rest ⊆ heap :=
  fun _ he => (heappop_perm h).mem_iff.mpr (List.mem_cons_of_mem _ he)

theorem heappop_tail {due : Rat} (h : heappop heap = some (first, rest))
    (htail : ∀ e ∈ heap.tail, due ≤ e.readyAt) : ∀ e ∈ rest, due ≤ e.readyAt := by
  intro e he
  cases heap with
  | nil => cases h
  | cons pushed heap =>
    by_cases hfirst : first ∈ heap
    · exact (htail first hfirst).trans (heappop_le h e he)
    · have heq : first = pushed :=
        (List.mem_cons.mp (heappop_mem h)).resolve_right hfirst
      have hperm := heappop_perm h
      rw [heq] at hperm
      exact htail e (((List.perm_cons _).mp hperm).mem_iff.mpr he)

end Heap

namespace State

/-- A worker gets to a phase. -/
def enter (s : State κ) (w : Nat) (phase : Phase κ) : State κ :=
  { s with
    workers := s.workers.set w phase, running := if phase.awaiting then none else some w }

end State

/-- Who may move: a waiting worker while none runs, or the one that runs. -/
def MayMove (s : State κ) (w : Nat) (phase : Phase κ) : Prop :=
  if phase.awaiting = true then s.Idle else s.running = some w

/-- The phases of a worker between which nothing but the history of the answers changes. -/
inductive Turn (c : Settings κ) (s : State κ) (w : Nat) :
    Phase κ → Phase κ → List (Nat × List κ) → Prop where
  | start (hw : w ≠ c.heavyWorker) : Turn c s w .created .head s.answers
  | delay (hw : w = c.heavyWorker) : Turn c s w .created .delaying s.answers
  | delayed : Turn c s w .delaying .head s.answers
  | woken {e : Entry} (h : e.readyAt ≤ s.now) :
      Turn c s w (.sleeping e) (.admitting e.job) s.answers
  | resolved {job : Job} {outcome : Except ProviderError (List κ)} :
      Turn c s w (.resolving job none) (.resolving job (some outcome))
        (s.answers ++ (Phase.resolving job (some outcome)).answer.toList)
  | answered {job : Job} {candidates : List κ} :
      Turn c s w (.resolving job (some (.ok candidates))) (.answered job candidates) s.answers
  | failed {job : Job} {error : ProviderError} :
      Turn c s w (.resolving job (some (.error error))) (.failed job error) s.answers
  | sleep {e : Entry} : Turn c s w (.due e) (.sleeping e) s.answers
  | ready {e : Entry} (h : e.readyAt ≤ s.now) : Turn c s w (.due e) (.admitting e.job) s.answers
  | late {job : Job} (h : ¬ (s.finished = none ∧ s.now < c.deadline)) :
      Turn c s w (.admitting job) (.returned job none) s.answers
  | again {job : Job} (hw : w ≠ c.heavyWorker) : Turn c s w (.returned job none) .head s.answers
  | next {job : Job} {retry : Option Rat} (hw : w = c.heavyWorker) :
      Turn c s w (.returned job retry) .head s.answers

/-- Why a worker ends. -/
inductive Ends (c : Settings κ) (s : State κ) (w : Nat) : Phase κ → Prop where
  | noHeavy (hw : w = c.heavyWorker) (h : s.heavyLeft = []) : Ends c s w .head
  | noCheap (hw : w ≠ c.heavyWorker) (h : s.cheap = []) : Ends c s w .head
  | late (hw : w ≠ c.heavyWorker) (h : s.finished.isSome = true ∨ c.deadline ≤ s.now) :
      Ends c s w .head
  | decided {job : Job} {retry : Option Rat} (h : s.finished.isSome = true) :
      Ends c s w (.returned job retry)
  | cancelled {phase : Phase κ} {r : Bool} (h : s.main = .leaving r) (hidle : s.running = none) :
      Ends c s w phase

/-- Everything a step of the race can do. -/
inductive Move (c : Settings κ) (s : State κ) : State κ → Prop where
  | ticked {now : Rat} (h : s.now ≤ now) : Move c s { s with now := now }
  | turned {w : Nat} {p q : Phase κ} {answers : List (Nat × List κ)} (hw : s.workers[w]? = some p)
      (hmay : MayMove s w p) (h : Turn c s w p q answers) :
      Move c s (State.enter { s with answers := answers } w q)
  | popped {w : Nat} {e : Entry} {rest : List Entry} (hw : s.workers[w]? = some .head)
      (hmay : s.running = some w) (hcheap : w ≠ c.heavyWorker)
      (h : heappop s.cheap = some (e, rest)) (hopen : s.finished = none)
      (htime : s.now < c.deadline) :
      Move c s (State.enter { s with cheap := rest } w (.due e))
  | nextHeavy {w i : Nat} {rest : List Nat} (hw : s.workers[w]? = some .head)
      (hmay : s.running = some w) (hheavy : w = c.heavyWorker) (h : s.heavyLeft = i :: rest) :
      Move c s (State.enter { s with heavyLeft := rest } w (.admitting ⟨i, 0⟩))
  | admitted {w : Nat} {job : Job} (hw : s.workers[w]? = some (.admitting job))
      (hmay : s.running = some w) (hopen : s.finished = none) (htime : s.now < c.deadline) :
      Move c s (s.startAttempt c w job)
  | skipped {w : Nat} {job : Job} (hw : s.workers[w]? = some (.admitting job))
      (hmay : s.running = some w) :
      Move c s (State.enter { s with unavailable := s.unavailable ++ [job.route] } w
        (.returned job none))
  | failed {w : Nat} {job : Job} {error : ProviderError} {available : Bool}
      (hw : s.workers[w]? = some (.failed job error)) (hmay : s.running = some w) :
      Move c s (s.fail c w job error available)
  | settled {w : Nat} {job : Job} {candidates : List κ}
      (hw : s.workers[w]? = some (.answered job candidates)) (hmay : s.running = some w) :
      Move c s (s.settle c w job candidates)
  | pushed {w : Nat} {job : Job} {delay : Rat}
      (hw : s.workers[w]? = some (.returned job (some delay))) (hmay : s.running = some w)
      (hcheap : w ≠ c.heavyWorker) : Move c s (s.push w job delay)
  | ended {w : Nat} {p : Phase κ} (hw : s.workers[w]? = some p)
      (hmay : s.running = none ∨ s.running = some w) (h : Ends c s w p) : Move c s (s.finish w)
  | dropped {w : Nat} {r : Bool} (hw : s.workers[w]? = some .created) (hmay : s.running = none)
      (h : s.main = .leaving r) : Move c s { s with workers := s.workers.set w .ended }
  | expired (h : s.Idle) (htime : c.deadline ≤ s.now) :
      Move c s { s with finished := s.finished.or (some .nobody) }
  | resumed (h : s.Idle) (hdone : s.finished.isSome = true) :
      Move c s { s with main := .leaving false }
  | aborted (h : s.Idle) :
      Move c s { s with main := .leaving true, finished := s.finished.or (some .cancelled) }
  | left {cancelled : Bool} (h : s.main = .leaving cancelled)
      (hended : ∀ phase ∈ s.workers, phase = .ended) :
      Move c s { s with main := if cancelled then .raised else .returned }

theorem eq_ended {phase : Phase κ} (h : (phase matches .ended) = true) : phase = .ended := by
  cases phase <;> first | rfl | cases h

theorem act_move {c : Settings κ} {s s' : State κ} {w : Nat} {choice : Bool}
    (hmay : s.running = some w) (h : s.act c w choice = some s') : Move c s s' := by
  have hturn : ∀ {p : Phase κ}, p.awaiting = false → MayMove s w p := by
    intro p hp
    rw [MayMove, hp, if_neg Bool.false_ne_true]
    exact hmay
  unfold State.act at h
  split at h
  next hw =>
    split at h
    next hheavy =>
      split at h
      next hleft =>
        obtain rfl := Option.some.inj h
        exact .ended hw (.inr hmay) (.noHeavy hheavy hleft)
      next i rest hleft =>
        obtain rfl := Option.some.inj h
        exact .nextHeavy hw hmay hheavy hleft
    next hcheap =>
      split at h
      next hpop =>
        obtain rfl := Option.some.inj h
        exact .ended hw (.inr hmay) (.noCheap hcheap (heappop_eq_none hpop))
      next e rest hpop =>
        split at h
        next hover =>
          obtain rfl := Option.some.inj h
          exact .ended hw (.inr hmay) (.late hcheap hover)
        next hover =>
          obtain rfl := Option.some.inj h
          obtain ⟨hopen, htime⟩ := not_or.mp hover
          exact .popped hw hmay hcheap hpop (Option.not_isSome_iff_eq_none.mp hopen)
            (not_le.mp htime)
  next e hw =>
    split at h
    · obtain rfl := Option.some.inj h
      exact .turned hw (hturn rfl) .sleep
    next hready =>
      obtain rfl := Option.some.inj h
      exact .turned hw (hturn rfl) (.ready (not_lt.mp hready))
  next job hw =>
    split at h
    next hopen =>
      split at h
      · obtain rfl := Option.some.inj h
        exact .admitted hw hmay (Option.isNone_iff_eq_none.mp hopen.1) hopen.2
      · obtain rfl := Option.some.inj h
        exact .skipped hw hmay
    next hlate =>
      obtain rfl := Option.some.inj h
      refine .turned hw (hturn rfl) (.late ?_)
      rwa [Option.isNone_iff_eq_none] at hlate
  next job error hw =>
    obtain rfl := Option.some.inj h
    exact .failed hw hmay
  next job candidates hw =>
    obtain rfl := Option.some.inj h
    exact .settled hw hmay
  next job retry hw =>
    split at h
    next hheavy =>
      split at h
      next hdone =>
        obtain rfl := Option.some.inj h
        exact .ended hw (.inr hmay) (.decided hdone)
      · obtain rfl := Option.some.inj h
        exact .turned hw (hturn rfl) (.next hheavy)
    next hcheap =>
      split at h
      · obtain rfl := Option.some.inj h
        exact .turned hw (hturn rfl) (.again hcheap)
      · obtain rfl := Option.some.inj h
        exact .pushed hw hmay hcheap
  · cases h

/-- Every step is one of the moves. -/
theorem step_move {c : Settings κ} {s s' : State κ} {a : Action κ} (h : s.step c a = some s') :
    Move c s s' := by
  have hturn : ∀ {w : Nat} {p : Phase κ}, s.Idle → p.awaiting = true → MayMove s w p := by
    intro w p hidle hp
    rw [MayMove, if_pos hp]
    exact hidle
  cases a with
  | tick now =>
    simp only [State.step] at h
    split at h
    next hnow =>
      obtain rfl := Option.some.inj h
      exact .ticked hnow
    · cases h
  | start w =>
    simp only [State.step] at h
    split at h
    next hidle =>
      split at h
      next hw =>
        obtain rfl := Option.some.inj h
        split
        next hheavy => exact .turned hw (hturn hidle rfl) (.delay hheavy)
        next hcheap => exact .turned hw (hturn hidle rfl) (.start hcheap)
      · cases h
    · cases h
  | wake w =>
    simp only [State.step] at h
    split at h
    next hidle =>
      split at h
      next hw =>
        split at h
        · obtain rfl := Option.some.inj h
          exact .turned hw (hturn hidle rfl) .delayed
        · cases h
      next e hw =>
        split at h
        next hready =>
          obtain rfl := Option.some.inj h
          exact .turned hw (hturn hidle rfl) (.woken hready)
        · cases h
      · cases h
    · cases h
  | answer w behaviour =>
    simp only [State.step] at h
    split at h
    next hidle =>
      split at h
      next job hw =>
        obtain rfl := Option.some.inj h
        exact .turned hw (hturn hidle rfl) .resolved
      · cases h
    · cases h
  | joined w =>
    simp only [State.step] at h
    split at h
    next hidle =>
      split at h
      next job candidates hw =>
        obtain rfl := Option.some.inj h
        exact .turned hw (hturn hidle rfl) .answered
      next job error hw =>
        obtain rfl := Option.some.inj h
        exact .turned hw (hturn hidle rfl) .failed
      · cases h
    · cases h
  | act w choice =>
    simp only [State.step] at h
    split at h
    next hmay => exact act_move hmay h
    · cases h
  | expire =>
    simp only [State.step] at h
    split at h
    next hexpired =>
      obtain rfl := Option.some.inj h
      exact .expired hexpired.1 hexpired.2
    · cases h
  | resume =>
    simp only [State.step] at h
    split at h
    next hresumed =>
      obtain rfl := Option.some.inj h
      exact .resumed hresumed.1 hresumed.2
    · cases h
  | abort =>
    simp only [State.step] at h
    split at h
    next hidle =>
      obtain rfl := Option.some.inj h
      exact .aborted hidle
    · cases h
  | cancel w =>
    simp only [State.step] at h
    split at h
    next hmay =>
      split at h
      next r hmain hw =>
        obtain rfl := Option.some.inj h
        exact .dropped hw hmay hmain
      next r hmain hw =>
        obtain rfl := Option.some.inj h
        exact .ended hw (.inl hmay) (.cancelled hmain hmay)
      next r e hmain hw =>
        obtain rfl := Option.some.inj h
        exact .ended hw (.inl hmay) (.cancelled hmain hmay)
      next r job outcome hmain hw =>
        obtain rfl := Option.some.inj h
        exact .ended hw (.inl hmay) (.cancelled hmain hmay)
      · cases h
    · cases h
  | leave =>
    simp only [State.step] at h
    split at h
    next cancelled hmain =>
      split at h
      next hended =>
        obtain rfl := Option.some.inj h
        exact .left hmain fun phase hphase => eq_ended (hended phase hphase)
      · cases h
    · cases h

section Invariants

variable {c : Settings κ} {s s' : State κ}

/-- Only the running worker is not at an await. -/
def Solo (s : State κ) : Prop :=
  ∀ w p, s.workers[w]? = some p → p.awaiting = false → s.running = some w

theorem MayMove.running {w : Nat} {p : Phase κ} (h : MayMove s w p) :
    s.running = none ∨ s.running = some w := by
  unfold MayMove at h
  split at h
  · exact .inl h.1
  · exact .inr h

/-- While one worker moves, the others are at an await. -/
theorem Solo.others (h : Solo s) {w w' : Nat} {p : Phase κ}
    (hmay : s.running = none ∨ s.running = some w) (hne : w' ≠ w)
    (hw' : s.workers[w']? = some p) : p.awaiting = true := by
  by_contra hrunning
  have hself := h w' p hw' (Bool.eq_false_of_not_eq_true hrunning)
  rcases hmay with hnone | hsome
  · rw [hself] at hnone
    cases hnone
  · rw [hself] at hsome
    exact hne (Option.some.inj hsome)

theorem Solo.set (h : Solo s) {w : Nat} {p q : Phase κ} (hw : s.workers[w]? = some p)
    (hmay : s.running = none ∨ s.running = some w) (hworkers : s'.workers = s.workers.set w q)
    (hrunning : s'.running = if q.awaiting then none else some w) : Solo s' := by
  intro w' p' hp' hnot
  rw [hworkers] at hp'
  rcases replaced_cases hw hp' with ⟨rfl, rfl⟩ | ⟨hne, hold⟩
  · rw [hrunning, hnot, if_neg Bool.false_ne_true]
  · rw [h.others hmay hne hold] at hnot
    cases hnot

theorem Solo.move (h : Solo s) (hmove : Move c s s') : Solo s' := by
  cases hmove with
  | ticked hnow => exact h
  | expired hidle htime => exact h
  | resumed hidle hdone => exact h
  | aborted hidle => exact h
  | left hmain hended => exact h
  | turned hw hmay hturn => exact h.set hw hmay.running rfl rfl
  | popped hw hmay => exact h.set hw (.inr hmay) rfl rfl
  | nextHeavy hw hmay => exact h.set hw (.inr hmay) rfl rfl
  | admitted hw hmay => exact h.set hw (.inr hmay) rfl rfl
  | skipped hw hmay => exact h.set hw (.inr hmay) rfl rfl
  | failed hw hmay => exact h.set hw (.inr hmay) rfl rfl
  | settled hw hmay => exact h.set hw (.inr hmay) rfl rfl
  | pushed hw hmay => exact h.set hw (.inr hmay) rfl rfl
  | ended hw hmay => exact h.set hw hmay rfl rfl
  | dropped hw hmay => exact h.set hw (.inl hmay) rfl hmay

/-- How many attempts a route gets. -/
def Settings.quota (c : Settings κ) (i : Nat) : Nat := if c.heavy i then 1 else 3

/-- A heap entry is for a cheap route; a first attempt is due at the start, a retry later. -/
structure Entry.Sound (c : Settings κ) (e : Entry) : Prop where
  cheap : c.heavy e.route = false
  attempt : e.attemptNumber < 3
  fresh : e.attemptNumber = 0 → e.readyAt = c.started
  retry : e.attemptNumber ≠ 0 → c.started < e.readyAt

/-- A worker has a route of its kind. -/
def Fits (c : Settings κ) (w : Nat) (job : Job) : Prop :=
  c.heavy job.route = decide (w = c.heavyWorker) ∧ job.attemptNumber < c.quota job.route

def Phase.Sound (c : Settings κ) (w : Nat) : Phase κ → Prop
  | .created | .delaying | .head | .ended => True
  | .due e | .sleeping e => w ≠ c.heavyWorker ∧ e.Sound c
  | .admitting job | .resolving job _ | .failed job _ | .answered job _ | .returned job none =>
    Fits c w job
  | .returned job (some delay) =>
    Fits c w job ∧ w ≠ c.heavyWorker ∧ job.attemptNumber + 1 < 3 ∧ 0 < delay

/-- The heap and the workers have to do with the right routes. -/
structure Sound (c : Settings κ) (s : State κ) : Prop where
  now : c.started ≤ s.now
  heap : ∀ e ∈ s.cheap, e.Sound c
  heavyLeft : ∀ i ∈ s.heavyLeft, c.heavy i = true
  phase : ∀ w (p : Phase κ), s.workers[w]? = some p → p.Sound c w

theorem fits_of_sound {w : Nat} {e : Entry} (hw : w ≠ c.heavyWorker) (h : e.Sound c) :
    Fits c w e.job := by
  refine ⟨?_, ?_⟩
  · rw [decide_eq_false hw]
    exact h.cheap
  · have hquota : c.quota e.job.route = 3 := by
      rw [Settings.quota, show c.heavy e.job.route = false from h.cheap]
      rfl
    rw [hquota]
    exact h.attempt

theorem retryOf_sound {job : Job} {error : ProviderError} {finished available : Bool} {now delay : Rat}
    (h : retryOf c job error finished available now = some delay) :
    c.heavy job.route = false ∧ job.attemptNumber + 1 < 3 ∧ finished = false ∧ 0 < delay ∧
      error.retryAfter ≠ .notFinite ∧ ∀ seconds, error.retryAfter = .seconds seconds → seconds ≤ delay := by
  unfold retryOf at h
  split at h
  next hretry =>
    obtain ⟨hcheap, -, hattempt, hopen, -⟩ := hretry
    obtain ⟨hdelay, -⟩ := Option.filter_eq_some_iff.mp h
    have hattempt' : job.attemptNumber = 0 ∨ job.attemptNumber = 1 := by
      have hlength : retryDelays.length = 2 := rfl
      omega
    have hbase : ∃ base : Rat, 0 < base ∧ retryDelays[job.attemptNumber]? = some base := by
      rcases hattempt' with h0 | h1
      · exact ⟨1 / 2, by decide +kernel, by rw [h0]; rfl⟩
      · exact ⟨1, by decide, by rw [h1]; rfl⟩
    obtain ⟨base, hbase, hget⟩ := hbase
    refine ⟨hcheap, by omega, hopen, ?_⟩
    cases hafter : error.retryAfter with
    | absent =>
      rw [hafter, retryDelay, hget, Option.some.injEq] at hdelay
      subst hdelay
      exact ⟨hbase, fun h => (nomatch h), fun _ h => nomatch h⟩
    | notFinite =>
      rw [hafter, retryDelay] at hdelay
      cases hdelay
    | seconds seconds =>
      rw [hafter, retryDelay, hget] at hdelay
      split at hdelay
      · cases hdelay
      · rw [Option.map_some, Option.some.injEq] at hdelay
        subst hdelay
        refine ⟨lt_of_lt_of_le hbase (le_max_left _ _), fun h => (nomatch h), fun asked hasked => ?_⟩
        obtain rfl := RetryAfter.seconds.inj hasked
        exact le_max_right _ _
  · cases h

theorem Sound.set (h : Sound c s) {w : Nat} {p q : Phase κ} (hw : s.workers[w]? = some p)
    (hq : q.Sound c w) : ∀ w' (p' : Phase κ), (s.workers.set w q)[w']? = some p' → p'.Sound c w' := by
  intro w' p' hp'
  rcases replaced_cases hw hp' with ⟨rfl, rfl⟩ | ⟨-, hold⟩
  · exact hq
  · exact h.phase w' p' hold

theorem Sound.fits (h : Sound c s) {w : Nat} {p : Phase κ} {job : Job}
    (hw : s.workers[w]? = some p) (hjob : p.job = some job) : Fits c w job := by
  have hp := h.phase w p hw
  cases p with
  | created | delaying | head | ended => cases hjob
  | due e | sleeping e =>
    obtain rfl := Option.some.inj hjob
    exact fits_of_sound hp.1 hp.2
  | admitting held | resolving held outcome | failed held error | answered held candidates =>
    obtain rfl := Option.some.inj hjob
    exact hp
  | returned held retry =>
    obtain rfl := Option.some.inj hjob
    cases retry with
    | none => exact hp
    | some delay => exact hp.1

theorem Turn.sound {w : Nat} {p q : Phase κ} {answers : List (Nat × List κ)}
    (h : Turn c s w p q answers) (hs : Sound c s) (hw : s.workers[w]? = some p) : q.Sound c w := by
  have hfits : ∀ {job : Job}, p.job = some job → Fits c w job := hs.fits hw
  cases h with
  | start | delay | delayed | again | next => trivial
  | woken | resolved | answered | failed | ready | late => exact hfits rfl
  | sleep =>
    have hp := hs.phase w _ hw
    exact ⟨hp.1, hp.2⟩

theorem Sound.move (h : Sound c s) (hmove : Move c s s') : Sound c s' := by
  cases hmove with
  | ticked hnow => exact ⟨h.now.trans hnow, h.heap, h.heavyLeft, h.phase⟩
  | expired | resumed | aborted | left => exact ⟨h.now, h.heap, h.heavyLeft, h.phase⟩
  | turned hw hmay hturn => exact ⟨h.now, h.heap, h.heavyLeft, h.set hw (hturn.sound h hw)⟩
  | popped hw hmay hcheap hpop =>
    refine ⟨h.now, fun e he => h.heap e (heappop_subset hpop he), h.heavyLeft, h.set hw ?_⟩
    exact ⟨hcheap, h.heap _ (heappop_mem hpop)⟩
  | @nextHeavy w i rest hw hmay hheavy hleft =>
    have hi : c.heavy i = true := h.heavyLeft i (by rw [hleft]; exact List.mem_cons_self)
    refine ⟨h.now, h.heap, fun j hj => h.heavyLeft j ?_, h.set hw ⟨?_, ?_⟩⟩
    · rw [hleft]
      exact List.mem_cons_of_mem _ hj
    · exact hi.trans (decide_eq_true hheavy).symm
    · simp [Settings.quota, hi]
  | admitted hw | skipped hw =>
    exact ⟨h.now, h.heap, h.heavyLeft, h.set hw (h.fits hw rfl)⟩
  | @failed w job error available hw =>
    refine ⟨h.now, h.heap, h.heavyLeft, h.set hw ?_⟩
    cases hretry : retryOf c job error s.finished.isSome available s.now with
    | none => exact h.fits hw rfl
    | some delay =>
      obtain ⟨hcheap, hattempt, -, hdelay, -⟩ := retryOf_sound hretry
      have hfits : Fits c w job := h.fits hw rfl
      refine ⟨hfits, ?_, hattempt, hdelay⟩
      exact of_decide_eq_false (hfits.1.symm.trans hcheap)
  | settled hw => exact ⟨h.now, h.heap, h.heavyLeft, h.set hw (h.fits hw rfl)⟩
  | @pushed w job delay hw =>
    obtain ⟨hfits, hcheap, hattempt, hdelay⟩ := h.phase w _ hw
    refine ⟨h.now, fun e he => ?_, h.heavyLeft, h.set hw trivial⟩
    rcases List.mem_cons.mp he with rfl | hold
    · refine ⟨?_, hattempt, fun h0 => absurd h0 (Nat.succ_ne_zero _), fun _ => ?_⟩
      · exact hfits.1.trans (decide_eq_false hcheap)
      · exact lt_of_le_of_lt h.now (lt_add_of_pos_right _ hdelay)
    · exact h.heap e hold
  | ended hw | dropped hw => exact ⟨h.now, h.heap, h.heavyLeft, h.set hw trivial⟩

end Invariants

end YtdlBot.Race.Candidates
