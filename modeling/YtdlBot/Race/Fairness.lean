import YtdlBot.Race.Completion

/-!
# The schedule of every run

The bounds on attempts and workers, the order of the attempts, and what a race without a winner
has tried.
-/

namespace YtdlBot.Race.Candidates

open Framework

variable {κ : Type}

/-- The invariants of a race. -/
structure Good (c : Settings κ) (s : State κ) : Prop where
  solo : Solo s
  sound : Sound c s
  unique : Unique s
  credit : Credit c s
  patient : Patient s
  fresh : FreshFirst s
  ordered : Ordered c s
  concluded : Concluded c s
  accounted : Accounted c s
  workers : s.workers.length = c.cheapCount + if c.heavyRoutes = [] then 0 else 1

section Runs

variable {c : Settings κ} {s s' : State κ}

theorem Solo.initial (c : Settings κ) : Solo (State.initial c) := by
  intro w p hw hnot
  rw [List.eq_of_mem_replicate (List.mem_of_getElem? hw)] at hnot
  cases hnot

theorem Sound.initial (c : Settings κ) : Sound c (State.initial c) := by
  refine ⟨le_refl _, fun e he => ?_, fun i hi => (List.mem_filter.mp hi).2, fun w p hw => ?_⟩
  · obtain ⟨i, hi, rfl⟩ := List.mem_map.mp he
    have hcheap := (List.mem_filter.mp hi).2
    exact ⟨by simpa using hcheap, Nat.zero_lt_succ _, fun _ => rfl, fun hne => absurd rfl hne⟩
  · rw [List.eq_of_mem_replicate (List.mem_of_getElem? hw)]
    trivial

theorem Move.workers (hmove : Move c s s') : s'.workers.length = s.workers.length := by
  cases hmove with
  | ticked | expired | resumed | aborted | left => rfl
  | turned | popped | nextHeavy | admitted | skipped | failed | settled | pushed | ended | dropped =>
    exact List.length_set

theorem Good.initial (c : Settings κ) : Good c (State.initial c) where
  solo := Solo.initial c
  sound := Sound.initial c
  unique := Unique.initial c
  credit := Credit.initial c
  patient := Patient.initial c
  fresh := FreshFirst.initial c
  ordered := Ordered.initial c
  concluded := Concluded.initial c
  accounted := Accounted.initial c
  workers := List.length_replicate

theorem Good.move (h : Good c s) (hmove : Move c s s') : Good c s' where
  solo := h.solo.move hmove
  sound := h.sound.move hmove
  unique := h.unique.move h.sound hmove
  credit := h.credit.move h.sound hmove
  patient := h.patient.move h.unique hmove
  fresh := h.fresh.move h.sound hmove
  ordered := h.ordered.move h.solo hmove
  concluded := h.concluded.move hmove
  accounted := h.accounted.move h.concluded hmove
  workers := hmove.workers.trans h.workers

theorem good_of_run {as : List (Action κ)} (hrun : (machine c).run (State.initial c) as = some s) :
    Good c s :=
  (machine c).invariant (fun _ _ _ hgood hstep => hgood.move (step_move hstep)) (Good.initial c) hrun

end Runs

/-- The worker runs a resolve of a cheap, or of a heavy route. -/
def Phase.resolves (c : Settings κ) (heavy : Bool) : Phase κ → Bool
  | .resolving job _ => decide (c.heavy job.route = heavy)
  | _ => false

section Bounds

variable {c : Settings κ} {s : State κ}

theorem Good.length_le (h : Good c s) : s.workers.length ≤ c.cheapCount + 1 := by
  have hlength := h.workers
  split at hlength <;> omega

theorem Good.resolving (h : Good c s) {heavy : Bool} {w : Nat} {p : Phase κ}
    (hw : s.workers[w]? = some p) (hp : p.resolves c heavy = true) :
    heavy = decide (w = c.heavyWorker) := by
  cases p with
  | resolving job outcome =>
    have hroute : c.heavy job.route = heavy := of_decide_eq_true hp
    have hfits : Fits c w job := h.sound.fits hw rfl
    rw [← hroute]
    exact hfits.1
  | created | delaying | head | due | sleeping | admitting | failed | answered | returned | ended =>
    cases hp

theorem Good.cheap_resolving (h : Good c s) :
    (s.workers.filter (Phase.resolves c false)).length ≤ 2 := by
  have hcount : c.cheapCount ≤ 2 := Nat.min_le_left _ _
  have hle := length_filter_le_of_index (l := s.workers) (p := Phase.resolves c false) 0
    c.cheapCount fun w p hw hp => by
      have hlane : w ≠ c.heavyWorker := of_decide_eq_false (h.resolving hw hp).symm
      have hlt := (List.getElem?_eq_some_iff.mp hw).1
      have hlength := h.length_le
      unfold Settings.heavyWorker at hlane
      omega
  omega

theorem Good.heavy_resolving (h : Good c s) :
    (s.workers.filter (Phase.resolves c true)).length ≤ 1 := by
  have hle := length_filter_le_of_index (l := s.workers) (p := Phase.resolves c true)
    c.heavyWorker (c.heavyWorker + 1) fun w p hw hp => by
      have hlane : w = c.heavyWorker := of_decide_eq_true (h.resolving hw hp).symm
      omega
  omega

theorem winner_eq_none [DecidableEq κ] {x : CandidateWinner κ} (hnone : s.winner = none) :
    s.finished ≠ some (.winner x) := by
  intro heq
  rw [State.winner, heq] at hnone
  cases hnone

/-- A race that returns no winner before its deadline has tried everything. -/
theorem Good.no_winner [DecidableEq κ] (h : Good c s) (hreturned : s.main = .returned)
    (hnone : s.winner = none) (htime : s.now < c.deadline) : Exhausted c s := by
  cases hfinished : s.finished with
  | some v =>
    cases v with
    | winner x => exact absurd hfinished (winner_eq_none hnone)
    | nobody => exact h.accounted.nobody hfinished htime
    | cancelled =>
      exact absurd hfinished (h.concluded.uncancelled (by rw [hreturned]; exact fun heq => nomatch heq)
        (by rw [hreturned]; exact fun heq => nomatch heq))
  | none =>
    rcases h.concluded.returned hreturned with hdone | hempty | hlate
    · rw [hfinished] at hdone
      cases hdone
    · have hcheap : c.cheapCount = 0 := by simp [Settings.cheapCount, Settings.cheapRoutes, hempty]
      have hheavy : c.heavyRoutes = [] := by simp [Settings.heavyRoutes, hempty]
      have hworkers := h.workers
      rw [hcheap, if_pos hheavy, List.length_eq_zero_iff] at hworkers
      refine exhausted_of_ended (fun p hp => ?_) (h.accounted.drained hfinished htime)
        (h.accounted.turns hfinished htime)
      rw [hworkers] at hp
      exact absurd hp List.not_mem_nil
    · exact absurd (lt_of_lt_of_le htime hlate) (not_lt.mpr h.sound.now)

end Bounds

/-- What the schedule promises of a state: bounds on the attempts and on the workers, fresh routes
before retries, the earliest retry first until the deadline, no retry before its `retry_after`, and
no end without a winner before the deadline while something is left to try. -/
structure Scheduled [DecidableEq κ] (c : Settings κ) (s : State κ) : Prop where
  admissions : ∀ i, s.admissions i ≤ if c.heavy i then 1 else 3
  cheapResolving : (s.workers.filter (Phase.resolves c false)).length ≤ 2
  heavyResolving : (s.workers.filter (Phase.resolves c true)).length ≤ 1
  freshFirst : ∀ a ∈ s.admitted, a.job.attemptNumber ≠ 0 → ∀ e ∈ s.cheap, e.attemptNumber ≠ 0
  earliestFirst : s.running = none → s.now < c.deadline → ∀ (w : Nat) e,
    s.workers[w]? = some (.sleeping e) → ∀ e' ∈ s.cheap, e.readyAt ≤ e'.readyAt
  attempts : s.admitted.Pairwise fun a b =>
    a.job.route = b.job.route → a.job.attemptNumber < b.job.attemptNumber
  retryAfter : ∀ a ∈ s.admitted, ∀ f ∈ s.failures, f.job.route = a.job.route →
    f.job.attemptNumber < a.job.attemptNumber → f.error.retryAfter.Permits f.time a.time
  noWinner : s.main = .returned → s.winner = none → s.now < c.deadline → Exhausted c s

theorem race_scheduled [DecidableEq κ] {c : Settings κ} {as : List (Action κ)} {s : State κ}
    (hrun : (machine c).run (State.initial c) as = some s) : Scheduled c s := by
  have h := good_of_run hrun
  exact {
    admissions := h.credit.admissions_le
    cheapResolving := h.cheap_resolving
    heavyResolving := h.heavy_resolving
    freshFirst := h.fresh.admitted
    earliestFirst := fun hidle htime w e hw =>
      h.ordered.le htime (not_looking_of_idle hidle) hw rfl
    attempts := h.patient.order
    retryAfter := h.patient.admitted
    noWinner := h.no_winner }

section Runs

/-- Two cheap routes, 20 s. -/
def twoRoutes : Settings Nat where
  count := 2
  heavy := fun _ => false
  provider := fun i => if i = 0 then "cobalt" else "instagram"
  identity := id
  started := 0
  deadline := 20
  heavyDelay := 1
  validate := fun _ => true

def transient (retryAfter : RetryAfter) : Behaviour Nat :=
  .providerError ⟨.transient, "busy", retryAfter⟩

/-- Both routes are tried, the first one has to wait for 15 s, the second one fails at second 1. -/
def twoFailures : List (Action Nat) :=
  [.start 0, .act 0 true, .act 0 true, .act 0 true, .start 1, .act 1 true, .act 1 true, .act 1 true,
    .answer 0 (transient (.seconds 15)), .joined 0, .act 0 true, .act 0 true, .act 0 true,
    .act 0 true, .tick 1, .answer 1 (transient .absent), .joined 1, .act 1 true, .act 1 true]

/-- The second route is retried, and nothing helps. -/
def noHelp : List (Action Nat) :=
  twoFailures ++ [.act 1 true, .act 1 true, .tick 2, .wake 1, .act 1 true,
    .answer 1 (.returns []), .joined 1, .act 1 true, .act 1 true, .act 1 true, .tick 16, .wake 0,
    .act 0 true, .answer 0 (.raises "no media"), .joined 0, .act 0 true, .act 0 true, .act 0 true,
    .resume, .leave]

theorem race_scheduled_noHelp : ∃ s, (machine twoRoutes).run (State.initial twoRoutes) noHelp = some s ∧
    s.admitted.length = 4 ∧ s.main = .returned ∧ Scheduled twoRoutes s := by
  have hrun : ((machine twoRoutes).run (State.initial twoRoutes) noHelp).any
      (fun s => decide (s.admitted.length = 4 ∧ s.main = .returned)) = true := by
    decide +kernel
  obtain ⟨s, hs, hlast⟩ := (Option.any_eq_true _ _).mp hrun
  have hlast := of_decide_eq_true hlast
  exact ⟨s, hs, hlast.1, hlast.2, race_scheduled hs⟩

/-- The deadline passes between the push of a retry and the next look at the heap: the retry stays
queued, and the other worker sleeps longer. -/
theorem not_earliest_after_deadline : ¬ ∀ (c : Settings Nat) (as : List (Action Nat)) (s : State Nat),
    (machine c).run (State.initial c) as = some s → s.running = none → ∀ (w : Nat) e,
      s.workers[w]? = some (.sleeping e) → e.attemptNumber ≠ 0 →
        ∀ e' ∈ s.cheap, e'.attemptNumber ≠ 0 → e.readyAt ≤ e'.readyAt := by
  intro hall
  have hrun : ((machine twoRoutes).run (State.initial twoRoutes)
      (twoFailures ++ [.tick 20, .act 1 true])).any (fun s => decide (s.running = none ∧
        s.workers[0]? = some (.sleeping ⟨15, 2, 0, 1⟩) ∧ ⟨3 / 2, 3, 1, 1⟩ ∈ s.cheap)) = true := by
    decide +kernel
  obtain ⟨s, hs, hlast⟩ := (Option.any_eq_true _ _).mp hrun
  obtain ⟨hidle, hsleeping, hqueued⟩ := of_decide_eq_true hlast
  have hle := hall _ _ s hs hidle 0 _ hsleeping (by decide) _ hqueued (by decide)
  exact absurd hle (by decide +kernel)

end Runs

end YtdlBot.Race.Candidates
