import YtdlBot.Materialization.Reserves

/-!
# Route attempts

One attempt of `_race_youtube_materialization`: a rejected artifact of a Short takes its candidate
away, and the others are offered again.
-/

namespace YtdlBot.Materialization.RouteAttempt

open Framework
open Fallback (Error Event ResolvedMedia MaterializedItem NotAgain Unrejected AllReleased OneLeft
  awaitPreservingCancellation pairwise_offered pairwise_rejected)
open Media (MediaCandidate materializationCandidates)
open MediaCache (MediaRequest)

inductive Phase (τ : Type) where
  | resolving
  | materializing
  | validating (item : MaterializedItem τ)
  | releasing (item : MaterializedItem τ) (error : Error)
  | ended (result : Except Error (MaterializedItem τ))

structure State (τ : Type) where
  phase : Phase τ
  candidates : List (MediaCandidate τ)
  history : List (Event String)
  returned : Nat
  released : List Nat

inductive Action (τ : Type) where
  | resolved (outcome : Except Error (ResolvedMedia τ))
  | materialized (outcome : Except Error (MediaCandidate τ))
  | validated (error : Option Error)
  | released (ended : Except Error Unit) (cancelled : Bool)

namespace State

variable {τ : Type} (request : MediaRequest) (s : State τ)

def initial : State τ := ⟨.resolving, [], [], 0, []⟩

def ends (result : Except Error (MaterializedItem τ)) : State τ := { s with phase := .ended result }

def ids : List String := s.candidates.map MediaCandidate.candidateId

/-- The loop from its top. -/
def loop : State τ :=
  if s.candidates = [] then
    s.ends (.error ⟨.artifactValidation, "no valid artifact on this YouTube route"⟩)
  else { s with phase := .materializing, history := s.history ++ [.offered s.ids] }

/-- The candidates that are left after a rejected artifact. -/
def without (item : MaterializedItem τ) : State τ :=
  { s with candidates := s.candidates.filter fun candidate =>
      candidate.candidateId ≠ item.candidate.candidateId }

/-- An item is rejected and released. -/
def reject (item : MaterializedItem τ) (error : Error) : State τ :=
  { s with
    phase := .releasing item error
    history := if error.kind = .artifactValidation then
      s.history ++ [.rejected item.candidate.candidateId] else s.history
    released := s.released ++ [item.number] }

def receive (candidate : MediaCandidate τ) : State τ :=
  { s with phase := .validating ⟨s.returned, candidate⟩, returned := s.returned + 1 }

def step : Action τ → Option (State τ)
  | .resolved outcome =>
    match s.phase, outcome with
    | .resolving, .ok selected =>
      match materializationCandidates selected.candidates with
      | .ok candidates => some ({ s with candidates := candidates }.loop)
      | .error error => some (s.ends (.error ⟨.mediaResolution, error.text⟩))
    | .resolving, .error error => some (s.ends (.error error))
    | _, _ => none
  | .materialized outcome =>
    match s.phase, outcome with
    | .materializing, .ok candidate =>
      if candidate.candidateId ∈ s.ids then some (s.receive candidate) else none
    | .materializing, .error error => some (s.ends (.error error))
    | _, _ => none
  | .validated error =>
    match s.phase, error with
    | .validating item, none => some (s.ends (.ok item))
    | .validating item, some error => some (s.reject item error)
    | _, _ => none
  | .released ended cancelled =>
    match s.phase, awaitPreservingCancellation ended cancelled with
    | .releasing _ _, .error error => some (s.ends (.error error))
    | .releasing item error, .ok () =>
      if error.kind = .artifactValidation ∧
          request.outputVariant = some Fallback.youtubeShortDefaultVariant then
        some (s.without item).loop
      else some (s.ends (.error error))
    | _, _ => none

end State

def machine (τ : Type) (request : MediaRequest) : Machine (State τ) (Action τ) :=
  ⟨State.step request⟩

/-- What a step can do. -/
inductive Move {τ : Type} (s : State τ) : State τ → Prop where
  | resolved (hphase : s.phase = .resolving) (candidates : List (MediaCandidate τ)) :
      Move s ({ s with candidates := candidates }.loop)
  | failed (hphase : s.phase = .resolving ∨ s.phase = .materializing ∨
      ∃ item error, s.phase = .releasing item error) (error : Error) : Move s (s.ends (.error error))
  | received {candidate : MediaCandidate τ} (hphase : s.phase = .materializing)
      (hid : candidate.candidateId ∈ s.ids) : Move s (s.receive candidate)
  | valid {item : MaterializedItem τ} (hphase : s.phase = .validating item) :
      Move s (s.ends (.ok item))
  | rejected {item : MaterializedItem τ} (hphase : s.phase = .validating item) (error : Error) :
      Move s (s.reject item error)
  | again {item : MaterializedItem τ} {error : Error} (hphase : s.phase = .releasing item error) :
      Move s (s.without item).loop

namespace State

variable {τ : Type} {request : MediaRequest} {s s' : State τ} {a : Action τ}
  {item : MaterializedItem τ}

theorem move_of_step (h : s.step request a = some s') : Move s s' := by
  cases a with
  | resolved outcome =>
    simp only [State.step] at h
    split at h
    next selected hphase =>
      split at h
      next candidates _ =>
        obtain rfl := Option.some.inj h
        exact .resolved hphase candidates
      · obtain rfl := Option.some.inj h
        exact .failed (.inl hphase) _
    next error hphase =>
      obtain rfl := Option.some.inj h
      exact .failed (.inl hphase) error
    · cases h
  | materialized outcome =>
    simp only [State.step] at h
    split at h
    next candidate hphase =>
      split_ifs at h with hid
      obtain rfl := Option.some.inj h
      exact .received hphase hid
    next error hphase =>
      obtain rfl := Option.some.inj h
      exact .failed (.inr (.inl hphase)) error
    · cases h
  | validated error =>
    simp only [State.step] at h
    split at h
    next item hphase =>
      obtain rfl := Option.some.inj h
      exact .valid hphase
    next item error hphase =>
      obtain rfl := Option.some.inj h
      exact .rejected hphase error
    · cases h
  | released ended cancelled =>
    simp only [State.step] at h
    split at h
    next item rejected error hphase hended =>
      obtain rfl := Option.some.inj h
      exact .failed (.inr (.inr ⟨item, rejected, hphase⟩)) error
    next item error hphase hended =>
      split_ifs at h
      · obtain rfl := Option.some.inj h
        exact .again hphase
      · obtain rfl := Option.some.inj h
        exact .failed (.inr (.inr ⟨item, error, hphase⟩)) error
    · cases h

/-- Every item is the result, or released once. -/
def Disposed (s : State τ) : Prop :=
  ∀ n < s.returned,
    ((∃ item, s.phase = .ended (.ok item) ∧ item.number = n) ∧ s.released.count n = 0) ∨
      ((∀ item, s.phase = .ended (.ok item) → item.number ≠ n) ∧ s.released.count n = 1)

/-- The item in hand, and what is on offer. -/
def Inv (s : State τ) : Prop :=
  s.history.Pairwise NotAgain ∧
    match s.phase with
    | .resolving => AllReleased s.returned s.released [] ∧ s.history = []
    | .materializing => AllReleased s.returned s.released [] ∧ Unrejected s.history s.ids
    | .validating item => OneLeft item.number s.returned s.released [] ∧
        item.candidate.candidateId ∈ s.ids ∧ Unrejected s.history s.ids
    | .releasing item _ => AllReleased s.returned s.released [] ∧
        item.candidate.candidateId ∈ s.ids ∧
        ∀ k ∈ s.ids, .rejected k ∈ s.history → k = item.candidate.candidateId
    | .ended _ => s.Disposed

theorem disposed_error (h : AllReleased s.returned s.released []) (error : Error) :
    (s.ends (.error error)).Disposed :=
  fun n hn => .inr ⟨fun item hitem => by simp [ends] at hitem, h.once n hn⟩

theorem disposed_ok (h : OneLeft item.number s.returned s.released []) :
    (s.ends (.ok item)).Disposed := by
  intro n hn
  by_cases hitem : n = item.number
  · subst hitem
    exact .inl ⟨⟨item, rfl, rfl⟩, h.kept⟩
  · refine .inr ⟨?_, h.once n hn hitem⟩
    intro found hfound
    obtain rfl : item = found := by simpa [ends] using hfound
    exact Ne.symm hitem

theorem inv_loop (hreleased : AllReleased s.returned s.released [])
    (hordered : s.history.Pairwise NotAgain) (hnew : Unrejected s.history s.ids) : s.loop.Inv := by
  unfold loop
  split
  · exact ⟨hordered, disposed_error hreleased _⟩
  · refine ⟨pairwise_offered hordered hnew, hreleased, ?_⟩
    intro k hk hrejected
    rcases List.mem_append.mp hrejected with hrejected | hrejected
    · exact hnew k hk hrejected
    · cases List.mem_singleton.mp hrejected

theorem inv_move (h : s.Inv) (hmove : Move s s') : s'.Inv := by
  obtain ⟨hordered, h⟩ := h
  cases hmove with
  | resolved hphase candidates =>
    rw [hphase] at h
    refine inv_loop h.1 hordered ?_
    intro k hk hrejected
    have hempty : s.history = [] := h.2
    simp [hempty] at hrejected
  | failed hphase error =>
    have hreleased : AllReleased s.returned s.released [] := by
      rcases hphase with hphase | hphase | ⟨item, rejected, hphase⟩ <;> rw [hphase] at h <;> exact h.1
    exact ⟨hordered, disposed_error hreleased error⟩
  | received hphase hid =>
    rw [hphase] at h
    obtain ⟨hreleased, hnew⟩ := h
    exact ⟨hordered, hreleased.receive, hid, hnew⟩
  | valid hphase =>
    rw [hphase] at h
    exact ⟨hordered, disposed_ok h.1⟩
  | @rejected item hphase error =>
    rw [hphase] at h
    obtain ⟨hleft, hid, hnew⟩ := h
    unfold reject
    split
    · refine ⟨pairwise_rejected hordered, hleft.release, hid, ?_⟩
      intro k hk hrejected
      rcases List.mem_append.mp hrejected with hrejected | hrejected
      · exact absurd hrejected (hnew k hk)
      · exact Event.rejected.inj (List.mem_singleton.mp hrejected)
    · exact ⟨hordered, hleft.release, hid, fun k hk hrejected => absurd hrejected (hnew k hk)⟩
  | @again item error hphase =>
    rw [hphase] at h
    obtain ⟨hreleased, hid, honly⟩ := h
    refine inv_loop hreleased hordered ?_
    intro k hk hrejected
    obtain ⟨candidate, hcandidate, rfl⟩ := List.mem_map.mp hk
    obtain ⟨hmem, hother⟩ := List.mem_filter.mp hcandidate
    have hsame := honly _ (List.mem_map_of_mem hmem) hrejected
    simp [hsame] at hother

theorem inv_initial : (initial : State τ).Inv :=
  ⟨List.Pairwise.nil, ⟨fun n hn => absurd hn (Nat.not_lt_zero n), fun _ _ => rfl, rfl⟩, rfl⟩

section Rank

def weight : Phase τ → Nat
  | .resolving => 4
  | .materializing => 3
  | .validating _ => 2
  | .releasing _ _ => 1
  | .ended _ => 0

def started (s : State τ) : Nat :=
  match s.phase with
  | .resolving => 1
  | _ => 0

/-- First candidates, then what is left of the round. -/
def rank (s : State τ) : ℕ ×ₗ ℕ ×ₗ ℕ :=
  toLex (s.started, toLex (s.candidates.length, weight s.phase))

theorem rank_lt (h : s'.started < s.started ∨ s'.started = s.started ∧
    (s'.candidates.length < s.candidates.length ∨ s'.candidates.length = s.candidates.length ∧
      weight s'.phase < weight s.phase)) : s'.rank < s.rank := by
  simpa only [rank, Prod.Lex.toLex_lt_toLex] using h

theorem loop_candidates : s.loop.candidates = s.candidates ∧ s.loop.started = 0 := by
  unfold loop
  split <;> exact ⟨rfl, rfl⟩

theorem rank_move (h : s.Inv) (hmove : Move s s') : s'.rank < s.rank := by
  obtain ⟨-, h⟩ := h
  apply rank_lt
  cases hmove with
  | resolved hphase candidates =>
    have hloop := loop_candidates (s := { s with candidates := candidates })
    left
    rw [hloop.2]
    simp [started, hphase]
  | failed hphase error =>
    rcases hphase with hphase | hphase | ⟨item, rejected, hphase⟩ <;>
      simp [started, ends, hphase, weight]
  | received hphase hid => simp [started, receive, hphase, weight]
  | valid hphase => simp [started, ends, hphase, weight]
  | rejected hphase error => simp [started, reject, hphase, weight]
  | @again item error hphase =>
    rw [hphase] at h
    obtain ⟨candidate, hcandidate, hsame⟩ := List.mem_map.mp h.2.1
    have hfewer : (s.without item).candidates.length < s.candidates.length :=
      List.length_filter_lt_length_iff_exists.mpr ⟨candidate, hcandidate, by simp [hsame]⟩
    obtain ⟨hcandidates, hstarted⟩ := loop_candidates (s := s.without item)
    right
    rw [hcandidates, hstarted]
    exact ⟨by simp [started, hphase], .inl hfewer⟩

end Rank

/-- The attempt has ended. -/
def Ended (s : State τ) : Prop := ∃ result, s.phase = .ended result

theorem progress (h : ¬ s.Ended) : ∃ a s', s.step request a = some s' := by
  cases hphase : s.phase with
  | resolving =>
    exact ⟨.resolved (.error .cancelled), s.ends (.error .cancelled), by simp [step, hphase]⟩
  | materializing =>
    exact ⟨.materialized (.error .cancelled), s.ends (.error .cancelled), by simp [step, hphase]⟩
  | validating item => exact ⟨.validated none, s.ends (.ok item), by simp [step, hphase]⟩
  | releasing item error =>
    exact ⟨.released (.ok ()) true, s.ends (.error .cancelled), by
      simp [step, hphase, awaitPreservingCancellation]⟩
  | ended result => exact absurd ⟨result, hphase⟩ h

theorem inv_run {as : List (Action τ)} (hrun : (machine τ request).run initial as = some s) :
    s.Inv :=
  (machine τ request).invariant (fun _ _ _ h hstep => inv_move h (move_of_step hstep)) inv_initial
    hrun

theorem ends_initial : (machine τ request).Ends State.Ended initial where
  finite run hstart := by
    refine Machine.finite_of_measure (machine τ request) (I := Inv) rank (wellFounded_lt)
      (fun _ _ _ h hstep => inv_move h (move_of_step hstep))
      (fun _ _ _ h hstep => rank_move h (move_of_step hstep)) run ?_
    rw [hstart]
    exact inv_initial
  progress _ _ _ hended := progress hended

end State

end YtdlBot.Materialization.RouteAttempt
