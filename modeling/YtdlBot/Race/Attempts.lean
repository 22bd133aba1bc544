import YtdlBot.Race.Scheduling

/-!
# Attempts

Every eligible route is in one place: in the heap, among the heavy routes that are left, or with a
worker. A weight on routes and their attempts gives a potential that no move increases; one weight
bounds the attempts, another one keeps the place unique. With that, no attempt of a route comes
before the time that the server has asked for.
-/

namespace YtdlBot.Race.Candidates

open Framework

variable {κ : Type}

/-- The job that a worker may still bring to another attempt, and whether this one is admitted. -/
def Phase.claim : Phase κ → Option (Bool × Job)
  | .due e | .sleeping e => some (false, e.job)
  | .admitting job => some (false, job)
  | .resolving job _ | .failed job _ | .answered job _ | .returned job (some _) => some (true, job)
  | .created | .delaying | .head | .returned _ none | .ended => none

def Phase.weight (g : Bool → Job → Nat) (p : Phase κ) : Nat :=
  match p.claim with
  | some (admitted, job) => g admitted job
  | none => 0

/-- `h` weighs the admissions, `g` the places of the routes. -/
def potential (h : Job → Nat) (g : Bool → Job → Nat) (s : State κ) : Nat :=
  tally (fun a => h a.job) s.admitted + tally (fun e => g false e.job) s.cheap +
    tally (fun i => g false ⟨i, 0⟩) s.heavyLeft + tally (Phase.weight g) s.workers

section Potential

variable {c : Settings κ} {s s' : State κ} {h : Job → Nat} {g : Bool → Job → Nat}

theorem Turn.weight_le {w : Nat} {p q : Phase κ} {answers : List (Nat × List κ)}
    (hturn : Turn c s w p q answers) : q.weight g ≤ p.weight g := by
  cases hturn with
  | start | delay | delayed | late | again | next => exact Nat.zero_le _
  | woken | resolved | answered | failed | sleep | ready => exact le_refl _

/-- An admission pays with the weight of its job, and a retry costs nothing. -/
theorem potential_move (hcost : ∀ w job, Fits c w job → h job + g true job ≤ g false job)
    (hpush : ∀ job : Job, g false ⟨job.route, job.attemptNumber + 1⟩ ≤ g true job)
    (hsound : Sound c s) (hmove : Move c s s') : potential h g s' ≤ potential h g s := by
  have hset : ∀ {w : Nat} {p q : Phase κ}, s.workers[w]? = some p →
      tally (Phase.weight g) (s.workers.set w q) + p.weight g =
        tally (Phase.weight g) s.workers + q.weight g :=
    fun hw => tally_replaced hw
  cases hmove with
  | ticked | expired | resumed | aborted | left => exact le_refl _
  | @turned w p q answers hw hmay hturn =>
    have hworkers := hset (q := q) hw
    have hle : q.weight g ≤ p.weight g := hturn.weight_le
    simp only [potential, State.enter]
    omega
  | @popped w e rest hw hmay hcheap hpop =>
    have hworkers := hset (q := .due e) hw
    have hheap : tally (fun e => g false e.job) s.cheap = tally (fun e => g false e.job) (e :: rest) :=
      tally_perm (heappop_perm hpop)
    rw [tally_cons] at hheap
    simp only [Phase.weight, Phase.claim] at hworkers
    simp only [potential, State.enter]
    omega
  | @nextHeavy w i rest hw hmay hheavy hleft =>
    have hworkers := hset (q := .admitting ⟨i, 0⟩) hw
    have hroutes : tally (fun i => g false ⟨i, 0⟩) s.heavyLeft =
        g false ⟨i, 0⟩ + tally (fun i => g false ⟨i, 0⟩) rest := by
      rw [hleft, tally_cons]
    simp only [Phase.weight, Phase.claim] at hworkers
    simp only [potential, State.enter]
    omega
  | @admitted w job hw =>
    have hworkers := hset (q := .resolving job none) hw
    have hpaid := hcost w job (hsound.fits hw rfl)
    simp only [Phase.weight, Phase.claim] at hworkers
    simp only [potential, State.startAttempt, State.wait, tally_joined]
    omega
  | @skipped w job hw =>
    have hworkers := hset (q := .returned job none) hw
    simp only [Phase.weight, Phase.claim] at hworkers
    simp only [potential, State.enter]
    omega
  | @failed w job error available hw =>
    have hworkers := hset (q := .returned job
      (retryOf c job error s.finished.isSome available s.now)) hw
    have hle : Phase.weight g (.returned job
        (retryOf c job error s.finished.isSome available s.now) : Phase κ) ≤ g true job := by
      cases retryOf c job error s.finished.isSome available s.now with
      | none => exact Nat.zero_le _
      | some delay => exact le_refl _
    have hheld : Phase.weight g (.failed job error : Phase κ) = g true job := rfl
    simp only [potential, State.fail, State.go]
    omega
  | @settled w job candidates hw =>
    have hworkers := hset (q := .returned job none) hw
    simp only [Phase.weight, Phase.claim] at hworkers
    simp only [potential, State.settle, State.go]
    omega
  | @pushed w job delay hw =>
    have hworkers := hset (q := .head) hw
    have hfree := hpush job
    simp only [Phase.weight, Phase.claim] at hworkers
    simp only [potential, State.push, State.go, tally_cons, Entry.job]
    omega
  | @ended w p hw =>
    have hworkers := hset (q := .ended) hw
    have hnone : Phase.weight g (.ended : Phase κ) = 0 := rfl
    simp only [potential, State.finish]
    omega
  | @dropped w r hw =>
    have hworkers := hset (q := .ended) hw
    have hnone : Phase.weight g (.ended : Phase κ) = 0 := rfl
    simp only [potential]
    omega

theorem potential_initial (i n : Nat) (hg : ∀ j, g false ⟨j, 0⟩ = if j = i then n else 0) :
    potential h g (State.initial c) = if i < c.count then n else 0 := by
  have hcheap : tally (fun e : Entry => g false e.job) (State.initial c).cheap =
      tally (fun j => if j = i then n else 0) c.cheapRoutes := by
    simp only [State.initial, tally, List.map_map]
    congr 1
    exact List.map_congr_left fun j _ => hg j
  have hheavy : tally (fun j => g false ⟨j, 0⟩) (State.initial c).heavyLeft =
      tally (fun j => if j = i then n else 0) c.heavyRoutes :=
    tally_congr fun j _ => hg j
  have hworkers : tally (Phase.weight g) (State.initial c).workers = 0 := by
    rw [tally_eq_zero]
    intro p hp
    rw [List.eq_of_mem_replicate hp]
    rfl
  have hall : tally (fun j => if j = i then n else 0) c.heavyRoutes +
      tally (fun j => if j = i then n else 0) c.cheapRoutes =
        tally (fun j => if j = i then n else 0) (List.range c.count) := tally_filter_add _ _
  have hone := tally_indicator (x := i) (n := n) (List.nodup_range (n := c.count))
  simp only [List.mem_range] at hone
  rw [potential, hcheap, hheavy, hworkers, ← hone, ← hall]
  simp only [State.initial, tally_nil]
  omega

end Potential

section Unique

variable {c : Settings κ} {s s' : State κ}

/-- The places of a route. -/
def place (i : Nat) (_ : Bool) (job : Job) : Nat := if job.route = i then 1 else 0

/-- Every route has one place. -/
def Unique (s : State κ) : Prop := ∀ i, potential (fun _ => 0) (place i) s ≤ 1

theorem Unique.initial (c : Settings κ) : Unique (State.initial c) := by
  intro i
  rw [potential_initial i 1 (fun _ => rfl)]
  split <;> omega

theorem Unique.move (h : Unique s) (hsound : Sound c s) (hmove : Move c s s') : Unique s' := by
  intro i
  refine (potential_move ?_ ?_ hsound hmove).trans (h i)
  · exact fun _ _ _ => (Nat.zero_add _).le
  · exact fun _ => le_refl _

theorem weight_place {p : Phase κ} {b : Bool} {job : Job} {i : Nat} (hp : p.claim = some (b, job))
    (hi : job.route = i) : p.weight (place i) = 1 := by
  rw [Phase.weight, hp]
  exact if_pos hi

theorem Unique.sole (h : Unique s) {w : Nat} {p : Phase κ} {b : Bool} {job : Job}
    (hw : s.workers[w]? = some p) (hp : p.claim = some (b, job)) :
    (∀ e ∈ s.cheap, e.route ≠ job.route) ∧ (∀ i ∈ s.heavyLeft, i ≠ job.route) ∧
      ∀ w' (p' : Phase κ) b' job', w' ≠ w → s.workers[w']? = some p' →
        p'.claim = some (b', job') → job'.route ≠ job.route := by
  have hone := h job.route
  have hself := weight_place hp rfl
  have hset := tally_replaced (w := Phase.weight (place job.route)) (b := .ended) hw
  have hended : Phase.weight (place job.route) (.ended : Phase κ) = 0 := rfl
  unfold potential at hone
  refine ⟨fun e he heq => ?_, fun i hi heq => ?_, fun w' p' b' job' hne hw' hp' heq => ?_⟩
  · obtain ⟨j, hj⟩ := List.mem_iff_getElem?.mp he
    have hle := le_tally (w := fun e : Entry => place job.route false e.job) hj
    have hplace : place job.route false e.job = 1 := if_pos heq
    omega
  · obtain ⟨j, hj⟩ := List.mem_iff_getElem?.mp hi
    have hle := le_tally (w := fun i => place job.route false ⟨i, 0⟩) hj
    have hplace : place job.route false ⟨i, 0⟩ = 1 := if_pos heq
    omega
  · have hkept : (s.workers.set w .ended)[w']? = some p' := by
      rw [getElem?_replaced hw, if_neg hne]
      exact hw'
    have hle := le_tally (w := Phase.weight (place job.route)) hkept
    have hother := weight_place hp' heq
    omega

end Unique

section Credit

variable {c : Settings κ} {s s' : State κ}

/-- The attempts that are left to a route. -/
def Settings.left (c : Settings κ) (i : Nat) (admitted : Bool) (job : Job) : Nat :=
  if job.route = i then
    (if admitted then c.quota i - (job.attemptNumber + 1) else c.quota i - job.attemptNumber)
  else 0

/-- The admissions of a route, and the attempts that are left to it. -/
def Credit (c : Settings κ) (s : State κ) : Prop :=
  ∀ i, potential (place i true) (c.left i) s ≤ c.quota i

theorem Credit.initial (c : Settings κ) : Credit c (State.initial c) := by
  intro i
  rw [potential_initial i (c.quota i) (fun j => rfl)]
  split <;> omega

theorem Credit.move (h : Credit c s) (hsound : Sound c s) (hmove : Move c s s') : Credit c s' := by
  intro i
  refine (potential_move ?_ ?_ hsound hmove).trans (h i)
  · intro w job hfits
    have hattempt := hfits.2
    by_cases hroute : job.route = i
    · subst hroute
      simp only [place, Settings.left, if_true, Bool.false_eq_true, if_false]
      omega
    · simp [place, Settings.left, hroute]
  · exact fun job => le_refl _

/-- How often a route has been admitted. -/
def State.admissions (s : State κ) (i : Nat) : Nat :=
  (s.admitted.filter fun a => decide (a.job.route = i)).length

theorem Credit.admissions_le (h : Credit c s) (i : Nat) : s.admissions i ≤ c.quota i := by
  have hle := h i
  have hcount : s.admissions i = tally (fun a : Admission => place i true a.job) s.admitted := by
    rw [State.admissions, length_filter_eq_tally]
    exact tally_congr fun a _ => by simp only [place, decide_eq_true_eq]
  unfold potential at hle
  omega

end Credit

/-- A failure at `failed` with this `retry_after` lets a retry start at `start`. -/
def RetryAfter.Permits (failed start : Rat) : RetryAfter → Prop
  | .absent => True
  | .seconds asked => failed + asked ≤ start
  | .notFinite => False

instance (failed start : Rat) (after : RetryAfter) : Decidable (after.Permits failed start) := by
  cases after <;> unfold RetryAfter.Permits <;> infer_instance

theorem RetryAfter.Permits.mono {after : RetryAfter} {failed start start' : Rat}
    (h : after.Permits failed start) (hle : start ≤ start') : after.Permits failed start' := by
  cases after with
  | absent => trivial
  | seconds asked => exact le_trans h hle
  | notFinite => exact h

/-- When the job of a worker can be admitted at the earliest. -/
def Phase.earliest (now : Rat) : Phase κ → Rat
  | .due e | .sleeping e => e.readyAt
  | .returned _ (some delay) => now + delay
  | _ => now

/-- The attempt that comes next. -/
def Job.next (job : Job) (admitted : Bool) : Nat :=
  if admitted then job.attemptNumber + 1 else job.attemptNumber

/-- A route has a place, with its next attempt and the time of it. -/
inductive Holds (s : State κ) : Nat → Nat → Rat → Prop where
  | queued {e : Entry} (h : e ∈ s.cheap) : Holds s e.route e.attemptNumber e.readyAt
  | left {i : Nat} (h : i ∈ s.heavyLeft) : Holds s i 0 s.now
  | worker {w : Nat} {p : Phase κ} {b : Bool} {job : Job} (hw : s.workers[w]? = some p)
      (h : p.claim = some (b, job)) : Holds s job.route (job.next b) (p.earliest s.now)

/-- The place of a route before a step. -/
def Ancestor (s : State κ) (i next : Nat) (due : Rat) : Prop :=
  ∃ next₀ due₀, Holds s i next₀ due₀ ∧ next₀ ≤ next ∧ due₀ ≤ due

section Patience

variable {c : Settings κ} {s s' : State κ} {i next : Nat} {due : Rat}

theorem Holds.ancestor (h : Holds s i next due) : Ancestor s i next due :=
  ⟨next, due, h, le_refl _, le_refl _⟩

theorem Holds.ancestor_later {due' : Rat} (h : Holds s i next due) (hle : due ≤ due') :
    Ancestor s i next due' :=
  ⟨next, due, h, le_refl _, hle⟩

theorem Phase.earliest_mono {p : Phase κ} {now now' : Rat} (h : now ≤ now') :
    p.earliest now ≤ p.earliest now' := by
  cases p with
  | due e | sleeping e => exact le_refl _
  | created | delaying | head | admitting | resolving | failed | answered | ended => exact h
  | returned job retry =>
    cases retry with
    | none => exact h
    | some delay => exact add_le_add_left h delay

theorem Holds.of_same (h : Holds s' i next due) (hcheap : s'.cheap = s.cheap)
    (hleft : s'.heavyLeft = s.heavyLeft) (hworkers : s'.workers = s.workers)
    (hnow : s.now ≤ s'.now) : Ancestor s i next due := by
  cases h with
  | queued he =>
    rw [hcheap] at he
    exact (Holds.queued he).ancestor
  | left hi =>
    rw [hleft] at hi
    exact (Holds.left hi).ancestor_later hnow
  | worker hw hclaim =>
    rw [hworkers] at hw
    exact (Holds.worker hw hclaim).ancestor_later (Phase.earliest_mono hnow)

theorem Holds.of_set {w : Nat} {p q : Phase κ} (h : Holds s' i next due)
    (hw : s.workers[w]? = some p) (hworkers : s'.workers = s.workers.set w q)
    (hnow : s'.now = s.now) (hcheap : ∀ e ∈ s'.cheap, Ancestor s e.route e.attemptNumber e.readyAt)
    (hleft : s'.heavyLeft ⊆ s.heavyLeft)
    (hq : ∀ b job, q.claim = some (b, job) →
      Ancestor s job.route (job.next b) (q.earliest s.now)) : Ancestor s i next due := by
  cases h with
  | queued he => exact hcheap _ he
  | left hi =>
    rw [hnow]
    exact (Holds.left (hleft hi)).ancestor
  | worker hw' hclaim =>
    rw [hnow]
    rw [hworkers] at hw'
    rcases replaced_cases hw hw' with ⟨rfl, rfl⟩ | ⟨-, hold⟩
    · exact hq _ _ hclaim
    · exact (Holds.worker hold hclaim).ancestor

theorem Turn.claim_of {w : Nat} {p q : Phase κ} {answers : List (Nat × List κ)} {b : Bool}
    {job : Job} (h : Turn c s w p q answers) (hclaim : q.claim = some (b, job)) :
    p.claim = some (b, job) ∧ p.earliest s.now ≤ q.earliest s.now := by
  cases h with
  | start | delay | delayed | late | again | next => cases hclaim
  | woken hready | ready hready => exact ⟨hclaim, hready⟩
  | resolved | answered | failed | sleep => exact ⟨hclaim, le_refl _⟩

theorem Holds.move (hmove : Move c s s') (h : Holds s' i next due) : Ancestor s i next due := by
  have hqueued : ∀ e ∈ s.cheap, Ancestor s e.route e.attemptNumber e.readyAt :=
    fun e he => (Holds.queued he).ancestor
  cases hmove with
  | ticked hnow => exact h.of_same rfl rfl rfl hnow
  | expired | resumed | aborted | left => exact h.of_same rfl rfl rfl (le_refl _)
  | turned hw hmay hturn =>
    refine h.of_set hw rfl rfl hqueued (List.Subset.refl _) fun b job hclaim => ?_
    obtain ⟨hclaim', hle⟩ := hturn.claim_of hclaim
    exact (Holds.worker hw hclaim').ancestor_later hle
  | popped hw hmay hcheap hpop =>
    refine h.of_set hw rfl rfl (fun e he => hqueued e (heappop_subset hpop he))
      (List.Subset.refl _) fun b job hclaim => ?_
    obtain ⟨rfl, rfl⟩ := Prod.mk.inj (Option.some.inj hclaim)
    exact hqueued _ (heappop_mem hpop)
  | nextHeavy hw hmay hheavy hleft =>
    refine h.of_set hw rfl rfl hqueued ?_ fun b job hclaim => ?_
    · rw [hleft]
      exact List.subset_cons_self _ _
    · obtain ⟨rfl, rfl⟩ := Prod.mk.inj (Option.some.inj hclaim)
      exact (Holds.left (by rw [hleft]; exact List.mem_cons_self)).ancestor
  | @admitted w job hw =>
    refine h.of_set hw rfl rfl hqueued (List.Subset.refl _) fun b job' hclaim => ?_
    obtain ⟨rfl, rfl⟩ := Prod.mk.inj (Option.some.inj hclaim)
    exact ⟨_, _, Holds.worker hw rfl, Nat.le_succ _, le_refl _⟩
  | skipped hw | settled hw =>
    exact h.of_set hw rfl rfl hqueued (List.Subset.refl _) fun b job hclaim => nomatch hclaim
  | @failed w job error available hw =>
    refine h.of_set hw rfl rfl hqueued (List.Subset.refl _) fun b job' hclaim => ?_
    cases hretry : retryOf c job error s.finished.isSome available s.now with
    | none =>
      rw [hretry] at hclaim
      cases hclaim
    | some delay =>
      rw [hretry] at hclaim
      obtain ⟨rfl, rfl⟩ := Prod.mk.inj (Option.some.inj hclaim)
      obtain ⟨-, -, -, hdelay, -⟩ := retryOf_sound hretry
      exact (Holds.worker hw rfl).ancestor_later (le_add_of_nonneg_right hdelay.le)
  | @pushed w job delay hw =>
    refine h.of_set hw rfl rfl (fun e he => ?_) (List.Subset.refl _) fun b job' hclaim =>
      nomatch hclaim
    rcases List.mem_cons.mp he with rfl | hold
    · exact (Holds.worker hw rfl).ancestor
    · exact hqueued e hold
  | ended hw | dropped hw =>
    exact h.of_set hw rfl rfl hqueued (List.Subset.refl _) fun b job hclaim => nomatch hclaim

/-- No place of a route is ahead of a `retry_after` or behind an admission, and the attempts of a
route are admitted in their order. -/
structure Patient (s : State κ) : Prop where
  due : ∀ i next due, Holds s i next due → ∀ f ∈ s.failures, f.job.route = i →
    f.error.retryAfter.Permits f.time due
  next : ∀ i next due, Holds s i next due → ∀ a ∈ s.admitted, a.job.route = i →
    a.job.attemptNumber < next
  admitted : ∀ a ∈ s.admitted, ∀ f ∈ s.failures, f.job.route = a.job.route →
    f.job.attemptNumber < a.job.attemptNumber → f.error.retryAfter.Permits f.time a.time
  order : s.admitted.Pairwise fun a b =>
    a.job.route = b.job.route → a.job.attemptNumber < b.job.attemptNumber

theorem Patient.initial (c : Settings κ) : Patient (State.initial c) :=
  ⟨fun _ _ _ _ _ hf => (nomatch hf), fun _ _ _ _ _ ha => (nomatch ha), fun _ ha => (nomatch ha),
    List.Pairwise.nil⟩

theorem Patient.due_move (h : Patient s) (hmove : Move c s s') (hholds : Holds s' i next due)
    {f : ProviderFailure} (hf : f ∈ s.failures) (hroute : f.job.route = i) :
    f.error.retryAfter.Permits f.time due := by
  obtain ⟨next₀, due₀, hold, -, hle⟩ := hholds.move hmove
  exact (h.due i next₀ due₀ hold f hf hroute).mono hle

theorem Patient.next_move (h : Patient s) (hmove : Move c s s') (hholds : Holds s' i next due)
    {a : Admission} (ha : a ∈ s.admitted) (hroute : a.job.route = i) :
    a.job.attemptNumber < next := by
  obtain ⟨next₀, due₀, hold, hle, -⟩ := hholds.move hmove
  exact (h.next i next₀ due₀ hold a ha hroute).trans_le hle

theorem Patient.quiet (h : Patient s) (hmove : Move c s s') (hfailures : s'.failures = s.failures)
    (hadmitted : s'.admitted = s.admitted) : Patient s' := by
  refine ⟨fun i next due hholds f hf hroute => ?_, fun i next due hholds a ha hroute => ?_, ?_, ?_⟩
  · rw [hfailures] at hf
    exact h.due_move hmove hholds hf hroute
  · rw [hadmitted] at ha
    exact h.next_move hmove hholds ha hroute
  · rw [hfailures, hadmitted]
    exact h.admitted
  · rw [hadmitted]
    exact h.order

theorem Unique.own (h : Unique s) {w : Nat} {p q : Phase κ} {b : Bool} {job : Job}
    (hholds : Holds s' job.route next due) (hw : s.workers[w]? = some p)
    (hp : p.claim = some (b, job)) (hcheap : s'.cheap = s.cheap)
    (hleft : s'.heavyLeft = s.heavyLeft) (hworkers : s'.workers = s.workers.set w q) :
    ∃ b' job', q.claim = some (b', job') ∧ next = job'.next b' ∧ due = q.earliest s'.now := by
  obtain ⟨hqueued, hheavy, hothers⟩ := h.sole hw hp
  generalize hi : job.route = i at hholds
  cases hholds with
  | queued he =>
    rw [hcheap] at he
    exact absurd hi.symm (hqueued _ he)
  | left hi' =>
    rw [hleft] at hi'
    exact absurd hi.symm (hheavy _ hi')
  | @worker w' p' b' job' hw' hclaim =>
    rw [hworkers] at hw'
    rcases replaced_cases hw hw' with ⟨rfl, rfl⟩ | ⟨hne, hold⟩
    · exact ⟨b', job', hclaim, rfl, rfl⟩
    · exact absurd hi.symm (hothers w' p' b' job' hne hold hclaim)

theorem retryOf_permits {job : Job} {error : ProviderError} {finished available : Bool}
    {now delay : Rat} (h : retryOf c job error finished available now = some delay) :
    error.retryAfter.Permits now (now + delay) := by
  obtain ⟨-, -, -, -, hfinite, hasked⟩ := retryOf_sound h
  cases hafter : error.retryAfter with
  | absent => trivial
  | notFinite => exact absurd hafter hfinite
  | seconds seconds => exact add_le_add_right (hasked seconds hafter) now

theorem Patient.move (h : Patient s) (hunique : Unique s) (hmove : Move c s s') : Patient s' := by
  have hstep := hmove
  cases hmove with
  | ticked | expired | resumed | aborted | left | turned | popped | nextHeavy | skipped | settled
  | pushed | ended | dropped => exact h.quiet hstep rfl rfl
  | @admitted w job hw =>
    have hself : Holds s job.route job.attemptNumber s.now := Holds.worker hw rfl
    refine ⟨fun i next due hholds f hf hroute => h.due_move hstep hholds hf hroute,
      fun i next due hholds a ha hroute => ?_, fun a ha f hf hroute hattempt => ?_, ?_⟩
    · rcases List.mem_append.mp ha with hold | hnew
      · exact h.next_move hstep hholds hold hroute
      · obtain rfl := List.mem_singleton.mp hnew
        subst hroute
        obtain ⟨b', job', hclaim, rfl, -⟩ := hunique.own hholds hw rfl rfl rfl rfl
        obtain ⟨rfl, rfl⟩ := Prod.mk.inj (Option.some.inj hclaim)
        exact Nat.lt_succ_self _
    · rcases List.mem_append.mp ha with hold | hnew
      · exact h.admitted a hold f hf hroute hattempt
      · obtain rfl := List.mem_singleton.mp hnew
        exact h.due _ _ _ hself f hf hroute
    · refine List.pairwise_append.mpr ⟨h.order, List.pairwise_singleton _ _, fun a ha b hb => ?_⟩
      obtain rfl := List.mem_singleton.mp hb
      exact h.next _ _ _ hself a ha
  | @failed w job error available hw =>
    have hself : Holds s job.route (job.attemptNumber + 1) s.now := Holds.worker hw rfl
    refine ⟨fun i next due hholds f hf hroute => ?_,
      fun i next due hholds a ha hroute => h.next_move hstep hholds ha hroute,
      fun a ha f hf hroute hattempt => ?_, h.order⟩
    · rcases List.mem_append.mp hf with hold | hnew
      · exact h.due_move hstep hholds hold hroute
      · obtain rfl := List.mem_singleton.mp hnew
        subst hroute
        obtain ⟨b', job', hclaim, -, rfl⟩ := hunique.own hholds hw rfl rfl rfl rfl
        cases hretry : retryOf c job error s.finished.isSome available s.now with
        | none =>
          rw [hretry] at hclaim
          cases hclaim
        | some delay => exact retryOf_permits hretry
    · rcases List.mem_append.mp hf with hold | hnew
      · exact h.admitted a ha f hold hroute hattempt
      · obtain rfl := List.mem_singleton.mp hnew
        have hlt := h.next _ _ _ hself a ha hroute.symm
        exact absurd (Nat.lt_succ_iff.mp hlt) (Nat.not_le.mpr hattempt)

end Patience

end YtdlBot.Race.Candidates
