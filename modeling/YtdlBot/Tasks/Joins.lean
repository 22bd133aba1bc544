import YtdlBot.Framework.Machine

/-!
# Joins that preserve cancellation

Four functions await an operation through `asyncio.shield` until it is done, remember that their
own task was cancelled meanwhile, and raise the cancellation afterwards. They differ in how they
catch what the shield raises and in what they do after the loop.
-/

namespace YtdlBot.Tasks

open Framework

section Functions

/-- How an operation, or a future, ends. -/
inductive Outcome (ρ ε : Type) where
  | result (value : ρ)
  | failed (error : ε)
  | cancelled

/-- How a function ends; `invalidState` is what reading the result of a pending task raises. -/
inductive Ending (ρ ε : Type) where
  | returned (value : ρ)
  | raised (error : ε)
  | cancelledError
  | invalidState

/-- Where the body of the loop goes; the flag is `cancellation is not None`. -/
inductive Control (ρ ε : Type) where
  | loop (cancellation : Bool)
  | leave (cancellation : Bool)
  | ended (ending : Ending ρ ε)

/-- What comes after the loop: an end, or another await of the task itself. -/
inductive Tail (ρ ε : Type) where
  | ended (ending : Ending ρ ε)
  | join

variable {ρ ε ρ' : Type}

/-- `task.result()`, or what awaiting the finished task gives. -/
def Outcome.ending (value : ρ → ρ') : Outcome ρ ε → Ending ρ' ε
  | .result v => .returned (value v)
  | .failed e => .raised e
  | .cancelled => .cancelledError

/-- A loop `while not task.done()` around `await asyncio.shield(task)`. -/
structure Joiner (ρ ε ρ' : Type) where
  /-- The `try` statement, given what the await returns or raises. -/
  handle : Bool → Outcome ρ ε → Control ρ' ε
  after : Bool → Option (Outcome ρ ε) → Tail ρ' ε
  value : ρ → ρ'

def awaitOwned : Joiner ρ ε ρ where
  handle
    | _, .cancelled => .loop true
    | true, .failed _ => .leave true
    | false, .failed e => .ended (.raised e)
    | cancellation, .result _ => .loop cancellation
  after
    -- `task.exception()` marks the exception as retrieved
    | true, none => .ended .invalidState
    | true, some _ => .ended .cancelledError
    | false, none => .ended .invalidState
    | false, some outcome => .ended (outcome.ending id)
  value := id

def awaitPreservingCancellation : Joiner ρ ε ρ where
  handle
    | _, .cancelled => .loop true
    | _, .failed e => .ended (.raised e)
    | cancellation, .result _ => .loop cancellation
  after
    | _, none => .ended .invalidState
    | _, some (.failed e) => .ended (.raised e)
    | _, some .cancelled => .ended .cancelledError
    | true, some (.result _) => .ended .cancelledError
    | false, some (.result v) => .ended (.returned v)
  value := id

/-- The loop that the two cleanups share; it returns nothing. -/
def joinCleanup : Joiner ρ ε Unit where
  handle
    | _, .cancelled => .loop true
    | _, .failed e => .ended (.raised e)
    | cancellation, .result _ => .loop cancellation
  after
    | true, none => .ended .invalidState
    | true, some _ => .ended .cancelledError
    | false, _ => .join
  value := fun _ => ()

def awaitDownloadCleanup : Joiner ρ ε Unit := joinCleanup

/-- `_unsubscribe` returns nothing. -/
def unsubscribeUninterruptibly : Joiner Unit ε Unit := joinCleanup

end Functions

section Machine

variable {ρ ε ρ' : Type}

inductive Phase (ρ ε : Type) where
  /-- `await asyncio.shield(task)`. -/
  | awaiting
  /-- `await task`. -/
  | joining
  | finished (ending : Ending ρ ε)

/-- A call of a joining function. `outer` is the future that `shield` made; `mustCancel` is the
cancellation that its task delivers at the next step because this future was already done. -/
structure Call (ρ ε ρ' : Type) where
  operation : Option (Outcome ρ ε)
  outer : Option (Outcome ρ ε)
  mustCancel : Bool
  cancellation : Bool
  phase : Phase ρ' ε
  /-- The call cancelled the operation. -/
  disturbed : Bool
  /-- A cancellation of the caller arrived before the operation settled. -/
  early : Bool
  /-- A cancellation arrived after that, before the call went on. -/
  late : Bool
  /-- A cancellation arrived since the call last started to await. -/
  interrupted : Bool

inductive Action (ρ ε : Type) where
  /-- The task of the caller is cancelled. -/
  | cancel
  | settle (outcome : Outcome ρ ε)
  /-- The callback of the operation passes its outcome on to the outer future. -/
  | forward
  /-- The task of the caller takes its next step. -/
  | resume

namespace Call

variable (j : Joiner ρ ε ρ')

/-- Behind the loop. -/
def leave (s : Call ρ ε ρ') (cancellation : Bool) : Call ρ ε ρ' :=
  match j.after cancellation s.operation with
  | .ended ending => { s with phase := .finished ending }
  | .join =>
    -- awaiting a finished task does not suspend
    match s.operation with
    | some outcome => { s with phase := .finished (outcome.ending j.value) }
    | none => { s with phase := .joining }

/-- The head of the loop. -/
def head (s : Call ρ ε ρ') (cancellation : Bool) : Call ρ ε ρ' :=
  match s.operation with
  | some _ => s.leave j cancellation
  | none =>
    { s with outer := none, cancellation := cancellation, phase := .awaiting, interrupted := false }

def control (s : Call ρ ε ρ') : Control ρ' ε → Call ρ ε ρ'
  | .loop cancellation => s.head j cancellation
  | .leave cancellation => s.leave j cancellation
  | .ended ending => { s with phase := .finished ending }

/-- The call up to its first await; the operation may be done already. -/
def initial (operation : Option (Outcome ρ ε)) : Call ρ ε ρ' :=
  head j ⟨operation, none, false, false, .awaiting, false, false, false, false⟩ false

/-- What the history notes of a cancellation. -/
def noted (s : Call ρ ε ρ') : Call ρ ε ρ' :=
  { s with
    early := s.early || s.operation.isNone
    late := s.late || s.operation.isSome
    interrupted := true }

def step (s : Call ρ ε ρ') : Action ρ ε → Option (Call ρ ε ρ')
  | .cancel =>
    match s.phase, s.outer with
    | .awaiting, none => some { s.noted with outer := some .cancelled }
    | .awaiting, some _ => some { s.noted with mustCancel := true }
    | .joining, _ => some { s.noted with disturbed := true }
    | .finished _, _ => none
  | .settle outcome =>
    match s.operation with
    | none => some { s with operation := some outcome }
    | some _ => none
  | .forward =>
    match s.operation, s.outer with
    | some outcome, none => some { s with outer := some outcome }
    | some _, some _ => some s
    | none, _ => none
  | .resume =>
    match s.phase, s.outer with
    | .awaiting, some outcome =>
      let delivered := if s.mustCancel then .cancelled else outcome
      some (control j { s with mustCancel := false } (j.handle s.cancellation delivered))
    | .joining, _ =>
      s.operation.map fun outcome => { s with phase := .finished (outcome.ending j.value) }
    | _, _ => none

end Call

/-- The calls of a joining function. -/
def machine (j : Joiner ρ ε ρ') : Machine (Call ρ ε ρ') (Action ρ ε) := ⟨Call.step j⟩

end Machine

section Invariant

variable {ρ ε ρ' : Type}

/-- A call that awaits the shield. -/
structure Awaits (s : Call ρ ε ρ') : Prop where
  phase : s.phase = .awaiting
  outer : ∀ outcome, s.outer = some outcome →
    s.interrupted = true ∧ (s.mustCancel = true ∨ outcome = .cancelled) ∨
      s.interrupted = false ∧ s.operation = some outcome
  idle : s.outer = none → s.interrupted = false
  must : s.mustCancel = true → s.interrupted = true
  undisturbed : s.disturbed = false
  early : s.cancellation = true → s.early = true
  once : s.early = true → s.cancellation = true ∨ s.interrupted = true
  late : s.late = true → s.interrupted = true ∧ s.operation ≠ none
  noticed : s.interrupted = true → s.early = true ∨ s.late = true

/-- What the await of a settled operation gives. -/
def lastOutcome (interrupted : Bool) (outcome : Outcome ρ ε) : Outcome ρ ε :=
  if interrupted then .cancelled else outcome

/-- How the call ends: `ends arrived interrupted outcome`, where `arrived` says that the caller was
cancelled at all, and `interrupted` that it was since the last await began. -/
structure Joiner.Ends (j : Joiner ρ ε ρ') (ends : Bool → Bool → Outcome ρ ε → Ending ρ' ε) :
    Prop where
  again : ∀ cancellation, j.handle cancellation .cancelled = .loop true
  ended : ∀ (s : Call ρ ε ρ') outcome interrupted, s.operation = some outcome →
    s.control j (j.handle s.cancellation (lastOutcome interrupted outcome)) =
      { s with phase := .finished (ends (s.cancellation || interrupted) interrupted outcome) }
  started : ∀ (s : Call ρ ε ρ') outcome, s.operation = some outcome →
    s.leave j false = { s with phase := .finished (ends false false outcome) }

/-- A call that has ended. -/
structure Ended (ends : Bool → Bool → Outcome ρ ε → Ending ρ' ε) (s : Call ρ ε ρ') : Prop where
  phase : ∃ outcome, s.operation = some outcome ∧
    s.phase = .finished (ends (s.early || s.late) s.interrupted outcome)
  undisturbed : s.disturbed = false
  late : s.late = true → s.interrupted = true
  noticed : s.interrupted = true → s.early = true ∨ s.late = true

variable {j : Joiner ρ ε ρ'} {ends : Bool → Bool → Outcome ρ ε → Ending ρ' ε} {s s' : Call ρ ε ρ'}

/-- Everything that arrived is remembered or just being delivered. -/
theorem Awaits.arrived (h : Awaits s) : (s.early || s.late) = (s.cancellation || s.interrupted) := by
  apply Bool.eq_iff_iff.mpr
  rw [Bool.or_eq_true_iff, Bool.or_eq_true_iff]
  constructor
  · rintro (hearly | hlate)
    · exact h.once hearly
    · exact .inr (h.late hlate).1
  · rintro (hcancellation | hinterrupted)
    · exact .inl (h.early hcancellation)
    · exact h.noticed hinterrupted

theorem Awaits.delivered (h : Awaits s) {outcome : Outcome ρ ε} (houter : s.outer = some outcome) :
    s.interrupted = true ∧ (if s.mustCancel then .cancelled else outcome) = Outcome.cancelled ∨
      s.interrupted = false ∧ s.operation = some outcome ∧
        (if s.mustCancel then .cancelled else outcome) = outcome := by
  rcases h.outer outcome houter with ⟨hinterrupted, hmust | rfl⟩ | ⟨hquiet, hoperation⟩
  · exact .inl ⟨hinterrupted, if_pos hmust⟩
  · exact .inl ⟨hinterrupted, ite_self _⟩
  · refine .inr ⟨hquiet, hoperation, if_neg fun hmust => ?_⟩
    rw [h.must hmust] at hquiet
    cases hquiet

theorem awaits_initial : Awaits (Call.initial j none) := by
  constructor <;> intros <;> simp_all [Call.initial, Call.head]

theorem ended_initial (hj : j.Ends ends) (outcome : Outcome ρ ε) :
    Ended ends (Call.initial j (some outcome)) := by
  have hleave : Call.initial j (some outcome) = _ := hj.started
    ⟨some outcome, none, false, false, .awaiting, false, false, false, false⟩ outcome rfl
  rw [hleave]
  exact ⟨⟨outcome, rfl, rfl⟩, rfl, fun hlate => (nomatch hlate), fun hnever => (nomatch hnever)⟩

theorem awaits_noted (h : Awaits s) (outer : Option (Outcome ρ ε)) (mustCancel : Bool)
    (hsome : outer ≠ none) (hcancel : ∀ outcome, outer = some outcome →
      mustCancel = true ∨ outcome = .cancelled) :
    Awaits { s.noted with outer := outer, mustCancel := mustCancel } where
  phase := h.phase
  outer outcome houter := .inl ⟨rfl, hcancel outcome houter⟩
  idle houter := absurd houter hsome
  must _ := rfl
  undisturbed := h.undisturbed
  early hcancellation := Bool.or_eq_true_iff.mpr (.inl (h.early hcancellation))
  once _ := .inr rfl
  late hlate := by
    refine ⟨rfl, fun hnone => ?_⟩
    have hpending : s.operation = none := hnone
    rcases Bool.or_eq_true_iff.mp hlate with hold | hnew
    · exact (h.late hold).2 hpending
    · rw [hpending] at hnew
      cases hnew
  noticed _ := by
    have hnoted : s.noted.early = (s.early || s.operation.isNone) ∧
        s.noted.late = (s.late || s.operation.isSome) := ⟨rfl, rfl⟩
    cases hoperation : s.operation with
    | none => exact .inl (by simp [hnoted.1, hoperation])
    | some outcome => exact .inr (by simp [hnoted.2, hoperation])

theorem awaits_cancel (h : Awaits s) (hs : s.step j .cancel = some s') : Awaits s' := by
  have hphase := h.phase
  cases houter : s.outer with
  | none =>
    simp only [Call.step, hphase, houter] at hs
    obtain rfl := Option.some.inj hs
    refine awaits_noted h (some .cancelled) s.mustCancel (fun heq => nomatch heq) fun outcome heq => .inr (Option.some.inj heq).symm
  | some outcome =>
    simp only [Call.step, hphase, houter] at hs
    obtain rfl := Option.some.inj hs
    exact awaits_noted h s.outer true (houter ▸ fun heq => nomatch heq) fun _ _ => .inl rfl

theorem awaits_settle (h : Awaits s) (hpending : s.operation = none) (outcome : Outcome ρ ε) :
    Awaits { s with operation := some outcome } where
  phase := h.phase
  outer o houter := by
    rcases h.outer o houter with hinterrupted | ⟨-, hoperation⟩
    · exact .inl hinterrupted
    · rw [hpending] at hoperation
      cases hoperation
  idle := h.idle
  must := h.must
  undisturbed := h.undisturbed
  early := h.early
  once := h.once
  late hlate := absurd hpending (h.late hlate).2
  noticed := h.noticed

theorem awaits_forward (h : Awaits s) {outcome : Outcome ρ ε} (hsettled : s.operation = some outcome)
    (houter : s.outer = none) : Awaits { s with outer := some outcome } where
  phase := h.phase
  outer _ ho := .inr ⟨h.idle houter, hsettled.trans ho⟩
  idle hnone := nomatch hnone
  must := h.must
  undisturbed := h.undisturbed
  early := h.early
  once := h.once
  late := h.late
  noticed := h.noticed

theorem awaits_again (h : Awaits s) (hpending : s.operation = none)
    (hinterrupted : s.interrupted = true) :
    (Awaits : Call ρ ε ρ' → Prop) { s with
      mustCancel := false
      outer := none
      cancellation := true
      phase := .awaiting
      interrupted := false } where
  phase := rfl
  outer _ houter := nomatch houter
  idle _ := rfl
  must hmust := nomatch hmust
  undisturbed := h.undisturbed
  early _ := (h.noticed hinterrupted).resolve_right fun hlate => (h.late hlate).2 hpending
  once _ := .inl rfl
  late hlate := absurd hpending (h.late hlate).2
  noticed hnever := nomatch hnever

theorem step_forward {outcome : Outcome ρ ε} (hoperation : s.operation = some outcome) :
    s.step j .forward =
      some (if s.outer.isNone then { s with outer := some outcome } else s) := by
  obtain ⟨operation, outer, mustCancel, cancellation, phase, disturbed, early, late, interrupted⟩ := s
  obtain rfl : operation = some outcome := hoperation
  cases outer with
  | none => rfl
  | some o => rfl

theorem head_pending (hpending : s.operation = none) (cancellation : Bool) :
    s.head j cancellation = { s with
      outer := none
      cancellation := cancellation
      phase := .awaiting
      interrupted := false } := by
  unfold Call.head
  split
  next hsome =>
    rw [hpending] at hsome
    cases hsome
  · rfl

theorem step_resume {outcome : Outcome ρ ε} (hphase : s.phase = .awaiting)
    (houter : s.outer = some outcome) :
    s.step j .resume = some (Call.control j { s with mustCancel := false }
      (j.handle s.cancellation (if s.mustCancel then .cancelled else outcome))) := by
  obtain ⟨operation, outer, mustCancel, cancellation, phase, disturbed, early, late, interrupted⟩ := s
  obtain rfl : phase = .awaiting := hphase
  obtain rfl : outer = some outcome := houter
  rfl

theorem awaits_resume (hj : j.Ends ends) (h : Awaits s) (hs : s.step j .resume = some s') :
    s.operation = none ∧ Awaits s' ∨ Ended ends s' := by
  have hphase := h.phase
  cases houter : s.outer with
  | none =>
    simp only [Call.step, hphase, houter] at hs
    cases hs
  | some outcome =>
    rw [step_resume hphase houter] at hs
    obtain rfl := Option.some.inj hs
    have hdelivered := h.delivered houter
    rcases Option.eq_none_or_eq_some s.operation with hoperation | ⟨settled, hoperation⟩
    · rcases hdelivered with ⟨hinterrupted, hcancelled⟩ | ⟨-, hsettled, -⟩
      · rw [hcancelled, hj.again, Call.control,
          head_pending (s := { s with mustCancel := false }) hoperation]
        have hagain := awaits_again h hoperation hinterrupted
        exact .inl ⟨hoperation, hagain⟩
      · rw [hoperation] at hsettled
        cases hsettled
    · have hlast : (if s.mustCancel then .cancelled else outcome) =
          lastOutcome s.interrupted settled := by
        rcases hdelivered with ⟨hinterrupted, hcancelled⟩ | ⟨hquiet, hsettled, hsame⟩
        · rw [hcancelled, lastOutcome, if_pos hinterrupted]
        · rw [hsame, lastOutcome, hquiet]
          exact Option.some.inj (hsettled.symm.trans hoperation)
      have hended : Call.control j { s with mustCancel := false } (j.handle s.cancellation _) = _ :=
        hj.ended { s with mustCancel := false } settled s.interrupted hoperation
      rw [hlast, hended]
      refine .inr ⟨⟨settled, hoperation, ?_⟩, h.undisturbed, fun hlate => (h.late hlate).1, h.noticed⟩
      exact congrArg (fun arrived => Phase.finished (ends arrived s.interrupted settled)) h.arrived.symm

theorem ended_step (h : Ended ends s) {a : Action ρ ε} (hs : s.step j a = some s') : Ended ends s' := by
  obtain ⟨⟨outcome, hoperation, hphase⟩, hundisturbed, hlate, hnoticed⟩ := h
  cases a with
  | cancel =>
    simp only [Call.step, hphase] at hs
    cases hs
  | settle _ =>
    simp only [Call.step, hoperation] at hs
    cases hs
  | forward =>
    rw [step_forward hoperation] at hs
    obtain rfl := Option.some.inj hs
    split <;> exact ⟨⟨outcome, hoperation, hphase⟩, hundisturbed, hlate, hnoticed⟩
  | resume =>
    simp only [Call.step, hphase] at hs
    cases hs

theorem awaits_step (hj : j.Ends ends) (h : Awaits s) {a : Action ρ ε} (hs : s.step j a = some s') :
    Awaits s' ∨ Ended ends s' := by
  cases a with
  | cancel => exact .inl (awaits_cancel h hs)
  | settle outcome =>
    cases hoperation : s.operation with
    | none =>
      simp only [Call.step, hoperation] at hs
      obtain rfl := Option.some.inj hs
      exact .inl (awaits_settle h hoperation outcome)
    | some _ =>
      simp only [Call.step, hoperation] at hs
      cases hs
  | forward =>
    cases hoperation : s.operation with
    | none =>
      simp only [Call.step, hoperation] at hs
      cases hs
    | some outcome =>
      rw [step_forward hoperation] at hs
      obtain rfl := Option.some.inj hs
      split
      next houter => exact .inl (awaits_forward h hoperation (Option.isNone_iff_eq_none.mp houter))
      · exact .inl h
  | resume => exact (awaits_resume hj h hs).imp_left And.right

/-- In every run the call awaits the shield or has ended as `ends` says. -/
theorem awaits_or_ended (hj : j.Ends ends) {operation : Option (Outcome ρ ε)}
    {as : List (Action ρ ε)} (hr : (machine j).run (Call.initial j operation) as = some s) :
    Awaits s ∨ Ended ends s := by
  refine (machine j).invariant (I := fun s => Awaits s ∨ Ended ends s) (fun s a s' h hs => ?_) ?_ hr
  · rcases h with hawaits | hended
    · exact awaits_step hj hawaits hs
    · exact .inr (ended_step hended hs)
  · cases operation with
    | none => exact .inl awaits_initial
    | some outcome => exact .inr (ended_initial hj outcome)

theorem awaits_ends (hj : j.Ends ends) (h : Awaits s) (hsettled : s.operation ≠ none) :
    ∃ s' ending, (machine j).run s [.forward, .resume] = some s' ∧ s'.phase = .finished ending := by
  obtain ⟨outcome, hoperation⟩ := Option.ne_none_iff_exists'.mp hsettled
  obtain ⟨t, hforward, hawaits, houter, hstill⟩ : ∃ t, s.step j .forward = some t ∧ Awaits t ∧
      t.outer ≠ none ∧ t.operation = some outcome := by
    refine ⟨_, step_forward hoperation, ?_⟩
    split
    next hnone =>
      exact ⟨awaits_forward h hoperation (Option.isNone_iff_eq_none.mp hnone), (fun heq => nomatch heq),
        hoperation⟩
    next hsome => exact ⟨h, fun heq => hsome (Option.isNone_iff_eq_none.mpr heq), hoperation⟩
  obtain ⟨o, ho⟩ := Option.ne_none_iff_exists'.mp houter
  have hresume := step_resume (j := j) hawaits.phase ho
  rcases awaits_resume hj hawaits hresume with ⟨hnone, -⟩ | hended
  · rw [hnone] at hstill
    cases hstill
  · obtain ⟨_, -, hphase⟩ := hended.phase
    exact ⟨_, _, Machine.run_cons_eq_some _ |>.mpr ⟨t, hforward,
      Machine.run_cons_eq_some _ |>.mpr ⟨_, hresume, rfl⟩⟩, hphase⟩

end Invariant

section Results

variable {ρ ε : Type}

/-- `await_owned`: any cancellation wins. -/
def ownedEnds {ρ' : Type} (value : ρ → ρ') (arrived : Bool) (outcome : Outcome ρ ε) : Ending ρ' ε :=
  if arrived then .cancelledError else outcome.ending value

/-- `_await_preserving_cancellation`: an exception of the operation wins. -/
def preservingEnds (arrived : Bool) : Outcome ρ ε → Ending ρ ε
  | .failed e => .raised e
  | outcome => ownedEnds id arrived outcome

/-- The cleanups: an exception of the operation wins when no cancellation comes with it. -/
def cleanupEnds (arrived interrupted : Bool) : Outcome ρ ε → Ending Unit ε
  | .failed e => if interrupted then .cancelledError else .raised e
  | outcome => ownedEnds (fun _ => ()) arrived outcome

theorem awaitOwned_ends :
    (awaitOwned : Joiner ρ ε ρ).Ends fun arrived _ => ownedEnds id arrived where
  again cancellation := rfl
  ended s outcome interrupted hoperation := by
    obtain ⟨operation, outer, mustCancel, cancellation, phase, disturbed, early, late, last⟩ := s
    obtain rfl : operation = some outcome := hoperation
    cases outcome <;> cases interrupted <;> cases cancellation <;> rfl
  started s outcome hoperation := by
    obtain ⟨operation, outer, mustCancel, cancellation, phase, disturbed, early, late, last⟩ := s
    obtain rfl : operation = some outcome := hoperation
    rfl

theorem awaitPreservingCancellation_ends :
    (awaitPreservingCancellation : Joiner ρ ε ρ).Ends fun arrived _ => preservingEnds arrived where
  again cancellation := by cases cancellation <;> rfl
  ended s outcome interrupted hoperation := by
    obtain ⟨operation, outer, mustCancel, cancellation, phase, disturbed, early, late, last⟩ := s
    obtain rfl : operation = some outcome := hoperation
    cases outcome <;> cases interrupted <;> cases cancellation <;> rfl
  started s outcome hoperation := by
    obtain ⟨operation, outer, mustCancel, cancellation, phase, disturbed, early, late, last⟩ := s
    obtain rfl : operation = some outcome := hoperation
    cases outcome <;> rfl

theorem joinCleanup_ends : (joinCleanup : Joiner ρ ε Unit).Ends cleanupEnds where
  again cancellation := by cases cancellation <;> rfl
  ended s outcome interrupted hoperation := by
    obtain ⟨operation, outer, mustCancel, cancellation, phase, disturbed, early, late, last⟩ := s
    obtain rfl : operation = some outcome := hoperation
    cases outcome <;> cases interrupted <;> cases cancellation <;> rfl
  started s outcome hoperation := by
    obtain ⟨operation, outer, mustCancel, cancellation, phase, disturbed, early, late, last⟩ := s
    obtain rfl : operation = some outcome := hoperation
    cases outcome <;> rfl

/-- What a join owes its caller: the cancellation if one arrived before the operation settled,
else what the operation gave. -/
def Faithful {ρ' : Type} (value : ρ → ρ') (s : Call ρ ε ρ') (outcome : Outcome ρ ε)
    (ending : Ending ρ' ε) : Prop :=
  (s.early = true → ending = .cancelledError) ∧ (s.early = false → ending = outcome.ending value)

/-- A cancellation came only after the operation settled, and is delivered all the same. -/
def Overtaken {ρ' : Type} (s : Call ρ ε ρ') : Prop := s.late = true ∧ s.early = false

def Outcome.Fails (outcome : Outcome ρ ε) : Prop := ∃ error, outcome = .failed error

@[simp] theorem fails_failed (error : ε) : (Outcome.failed error : Outcome ρ ε).Fails := ⟨error, rfl⟩

@[simp] theorem not_fails_result (value : ρ) : ¬ (Outcome.result value : Outcome ρ ε).Fails :=
  fun ⟨_, h⟩ => nomatch h

@[simp] theorem not_fails_cancelled : ¬ (Outcome.cancelled : Outcome ρ ε).Fails :=
  fun ⟨_, h⟩ => nomatch h

/-- In every run the call ends with its operation, which it does not cancel, as soon as its caller
takes a step after that; and it is faithful exactly when `when` holds. -/
def JoinsWhen {ρ' : Type} (j : Joiner ρ ε ρ') (when : Call ρ ε ρ' → Outcome ρ ε → Prop) : Prop :=
  ∀ operation as s, (machine j).run (Call.initial j operation) as = some s →
    s.disturbed = false ∧
    (∀ ending, s.phase = .finished ending →
      ∃ outcome, s.operation = some outcome ∧ (Faithful j.value s outcome ending ↔ when s outcome)) ∧
    ((∀ ending, s.phase ≠ .finished ending) → s.operation ≠ none → ∃ s' ending,
      (machine j).run s [.forward, .resume] = some s' ∧ s'.phase = .finished ending)

theorem joinsWhen_of_ends {ρ' : Type} {j : Joiner ρ ε ρ'}
    {ends : Bool → Bool → Outcome ρ ε → Ending ρ' ε} {when : Call ρ ε ρ' → Outcome ρ ε → Prop}
    (hj : j.Ends ends)
    (h : ∀ (s : Call ρ ε ρ') outcome, (s.late = true → s.interrupted = true) →
      (s.interrupted = true → s.early = true ∨ s.late = true) →
      (Faithful j.value s outcome (ends (s.early || s.late) s.interrupted outcome) ↔ when s outcome)) :
    JoinsWhen j when := by
  intro operation as s hr
  rcases awaits_or_ended hj hr with hawaits | hended
  · refine ⟨hawaits.undisturbed, fun ending hfinished => ?_, fun _ => awaits_ends hj hawaits⟩
    rw [hawaits.phase] at hfinished
    cases hfinished
  · obtain ⟨⟨outcome, hoperation, hphase⟩, hundisturbed, hlate, hnoticed⟩ := hended
    refine ⟨hundisturbed, fun ending hfinished => ?_, fun hunfinished => absurd hphase (hunfinished _)⟩
    obtain rfl := Phase.finished.inj (hphase.symm.trans hfinished)
    exact ⟨outcome, hoperation, h s outcome hlate hnoticed⟩

theorem ownedEnds_faithful {ρ' : Type} (value : ρ → ρ') (s : Call ρ ε ρ') (outcome : Outcome ρ ε) :
    Faithful value s outcome (ownedEnds value (s.early || s.late) outcome) ↔
      ¬ (Overtaken s ∧ outcome ≠ .cancelled) := by
  unfold Faithful Overtaken ownedEnds
  cases s.early <;> cases s.late <;> cases outcome <;> simp [Outcome.ending]

theorem preservingEnds_faithful (s : Call ρ ε ρ) (outcome : Outcome ρ ε) :
    Faithful id s outcome (preservingEnds (s.early || s.late) outcome) ↔
      ¬ (s.early = true ∧ outcome.Fails) ∧
        ¬ (Overtaken s ∧ outcome ≠ .cancelled ∧ ¬ outcome.Fails) := by
  cases outcome with
  | failed error => simp [Faithful, preservingEnds, Outcome.ending]
  | result value => simpa [preservingEnds] using ownedEnds_faithful id s (.result value)
  | cancelled => simpa [preservingEnds] using ownedEnds_faithful id s .cancelled

theorem cleanupEnds_faithful (s : Call ρ ε Unit) (outcome : Outcome ρ ε)
    (hlate : s.late = true → s.interrupted = true)
    (hnoticed : s.interrupted = true → s.early = true ∨ s.late = true) :
    Faithful (fun _ => ()) s outcome (cleanupEnds (s.early || s.late) s.interrupted outcome) ↔
      ¬ (s.early = true ∧ s.interrupted = false ∧ outcome.Fails) ∧
        ¬ (Overtaken s ∧ outcome ≠ .cancelled) := by
  cases outcome with
  | failed error =>
    unfold Faithful Overtaken cleanupEnds
    cases hearly : s.early <;> cases hinterrupted : s.interrupted <;> cases hl : s.late <;>
      simp_all [Outcome.ending]
  | result value => simpa [cleanupEnds] using ownedEnds_faithful (fun _ => ()) s (.result value)
  | cancelled => simpa [cleanupEnds] using ownedEnds_faithful (fun _ => ()) s .cancelled

theorem joinCleanup_joinsWhen : JoinsWhen (joinCleanup : Joiner ρ ε Unit) fun s outcome =>
    ¬ (s.early = true ∧ s.interrupted = false ∧ outcome.Fails) ∧
      ¬ (Overtaken s ∧ outcome ≠ .cancelled) :=
  joinsWhen_of_ends joinCleanup_ends cleanupEnds_faithful

/-- All four functions end with their operation and leave it alone. `await_owned` is faithful
unless a cancellation comes between the operation's end and the next step of the caller;
`_await_preserving_cancellation` loses the cancellation of a caller whose operation then fails, and
so do the cleanups when no cancellation came during their last await. -/
theorem joins_faithful :
    JoinsWhen (awaitOwned : Joiner ρ ε ρ) (fun s outcome => ¬ (Overtaken s ∧ outcome ≠ .cancelled)) ∧
    JoinsWhen (awaitPreservingCancellation : Joiner ρ ε ρ) (fun s outcome =>
      ¬ (s.early = true ∧ outcome.Fails) ∧
        ¬ (Overtaken s ∧ outcome ≠ .cancelled ∧ ¬ outcome.Fails)) ∧
    JoinsWhen (awaitDownloadCleanup : Joiner ρ ε Unit) (fun s outcome =>
      ¬ (s.early = true ∧ s.interrupted = false ∧ outcome.Fails) ∧
        ¬ (Overtaken s ∧ outcome ≠ .cancelled)) ∧
    JoinsWhen (unsubscribeUninterruptibly : Joiner Unit ε Unit) (fun s outcome =>
      ¬ (s.early = true ∧ s.interrupted = false ∧ outcome.Fails) ∧
        ¬ (Overtaken s ∧ outcome ≠ .cancelled)) := by
  refine ⟨?_, ?_, joinCleanup_joinsWhen, joinCleanup_joinsWhen⟩
  · exact joinsWhen_of_ends awaitOwned_ends fun s outcome _ _ => ownedEnds_faithful id s outcome
  · exact joinsWhen_of_ends awaitPreservingCancellation_ends fun s outcome _ _ =>
      preservingEnds_faithful s outcome

/-- Cancelled, then the operation fails: only `await_owned` raises the cancellation. -/
theorem cancellation_lost :
    let schedule : List (Action Unit String) :=
      [.cancel, .resume, .settle (.failed "disk"), .forward, .resume]
    (∃ s, (machine awaitOwned).run (Call.initial awaitOwned none) schedule = some s ∧
      s.early = true ∧ s.phase = .finished .cancelledError) ∧
    (∃ s, (machine awaitPreservingCancellation).run (Call.initial awaitPreservingCancellation none)
      schedule = some s ∧ s.early = true ∧ s.phase = .finished (.raised "disk")) ∧
    (∃ s, (machine awaitDownloadCleanup).run (Call.initial awaitDownloadCleanup none) schedule =
      some s ∧ s.early = true ∧ s.phase = .finished (.raised "disk")) ∧
    (∃ s, (machine unsubscribeUninterruptibly).run (Call.initial unsubscribeUninterruptibly none)
      schedule = some s ∧ s.early = true ∧ s.phase = .finished (.raised "disk")) :=
  ⟨⟨_, rfl, rfl, rfl⟩, ⟨_, rfl, rfl, rfl⟩, ⟨_, rfl, rfl, rfl⟩, ⟨_, rfl, rfl, rfl⟩⟩


end Results

end YtdlBot.Tasks
