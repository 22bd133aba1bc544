import Mathlib.Logic.Function.Basic
import YtdlBot.Framework.Machine
import YtdlBot.Retry.OnRetry

/-!
# Polling processes on one job store

Any number of processes run `on_retry` on one store, one await at a time. A process may crash at
any await; a cancelled call to the store goes on in its thread.
-/

namespace YtdlBot.Retry

open Framework
open Framework.Routine (Meets)
open Framework.Program (Protocol Follows)
open Delivery (DeliveryReceipt)
open JobStore (Store DeliveryOutcome retryKey)

/-- How far an execution has come with its token. -/
inductive Phase where
  | before
  | begun
  | delivered
  | done
deriving DecidableEq

/-- The token is begun once, and only then delivered and recorded, each at most once. -/
def protocol (token : String) : Protocol Effect Effect.Response Phase where
  allows phase effect :=
    match effect with
    | .beginRetryToken t => t = token ∧ phase = .before
    | .deliver t _ => t = token ∧ phase = .begun
    | .recordDelivery t _ => t = token ∧ (phase = .begun ∨ phase = .delivered)
    | _ => True
  next phase effect response :=
    match effect, response with
    | .beginRetryToken _, .ok true => .begun
    | .beginRetryToken _, _ => .done
    | .deliver _ _, _ => .delivered
    | .recordDelivery _ _, _ => .done
    | _, _ => phase

section Discipline

variable {token : String} {I : Unit → Prop} {phase : Phase} {α : Type}

theorem meets_orRaise {result : Except Interruption α} {Q : Except RetryError α → Phase → Prop}
    (hok : ∀ value, Q (.ok value) phase) (herror : ∀ i, Q (.error (.other i)) phase) :
    Meets (protocol token) I phase (orRaise result) Q := by
  cases result with
  | ok value => exact Routine.meets_pure (hok value)
  | error i => exact Routine.meets_throw (herror i)

theorem meets_cleanUp {result : Except Interruption Unit}
    {Q : Except RetryError Unit → Phase → Prop} (hok : Q (.ok ()) phase)
    (herror : Q (.error (.other .cancelled)) phase) :
    Meets (protocol token) I phase (cleanUp result) Q := by
  rcases result with (_ | _) | _
  · exact Routine.meets_pure hok
  · exact Routine.meets_throw herror
  · exact Routine.meets_pure hok

/-- The pipeline has not raised. -/
def Plain (result : Except RetryError α) : Prop :=
  ∀ message retryable, result ≠ .error (.mediaPipeline message retryable)

theorem meets_editText (text : Text) (markup : Bool) :
    Meets (protocol token) I phase (editText text markup) fun result _ => Plain result :=
  Routine.meets_call_bind trivial fun _ => meets_orRaise (by simp [Plain]) (by simp [Plain])

theorem meets_answer (text : Text) (showAlert : Bool) :
    Meets (protocol token) I phase (answer text showAlert) fun _ _ => True :=
  Routine.meets_call_bind trivial fun _ => meets_orRaise (fun _ => trivial) fun _ => trivial

/-- A token that was begun may be recorded. -/
def Reserved (phase : Phase) : Prop := phase = .begun ∨ phase = .delivered

theorem meets_recordDelivery (hphase : Reserved phase) (outcome : DeliveryOutcome) :
    Meets (protocol token) I phase (recordDelivery token outcome) fun result _ => Plain result := by
  have hallowed : (protocol token).allows phase (.recordDelivery token outcome) := ⟨rfl, hphase⟩
  apply Routine.meets_call_bind hallowed
  intro response
  exact meets_orRaise (by simp [Plain]) (by simp [Plain])

theorem meets_finishRetry (hphase : Reserved phase) (outcome : DeliveryOutcome) :
    Meets (protocol token) I phase (finishRetry token outcome) fun result _ => Plain result := by
  apply Routine.meets_call_bind trivial
  intro _
  apply (meets_recordDelivery hphase outcome).bind
  · intro _ g' _
    apply Routine.meets_call_bind trivial
    intro response
    exact meets_cleanUp (by simp [Plain]) (by simp [Plain])
  · intro error g' h message retryable heq
    cases heq
    exact h message retryable rfl

theorem meets_recordFailure (hphase : Reserved phase) (text : Text) (retryable : Bool) :
    Meets (protocol token) I phase (recordFailure token text retryable) fun _ _ => True := by
  have hrecorded : Meets (protocol token) I phase
      (if retryable then do
        let _ ← recordDelivery token .failed
      else finishRetry token .uncertain) fun _ _ => True := by
    apply Routine.meets_ite
    · intro _
      exact (meets_recordDelivery hphase .failed).bind (fun _ _ _ => Routine.meets_pure trivial)
        fun _ _ _ => trivial
    · intro _
      exact (meets_finishRetry hphase .uncertain).mono fun _ _ _ => trivial
  exact hrecorded.bind (fun _ _ _ => (meets_editText text retryable).mono fun _ _ _ => trivial)
    fun _ _ _ => trivial

/-- What the `try` block leaves to be recorded. -/
def Attempted (result : Except RetryError (Option DeliveryReceipt)) (phase : Phase) : Prop :=
  match result with
  | .ok (some _) | .error (.mediaPipeline _ _) => Reserved phase
  | _ => True

theorem attempted_of_plain {error : RetryError} (h : Plain (.error error : Except RetryError α)) :
    Attempted (.error error) phase := by
  cases error with
  | mediaPipeline message retryable => exact absurd rfl (h message retryable)
  | other i => trivial

theorem attempted_of_reserved (error : RetryError) (h : Reserved phase) :
    Attempted (.error error) phase := by
  cases error with
  | mediaPipeline message retryable => exact h
  | other i => trivial

theorem meets_deliver {saved : RetryRequest} (hphase : phase = .begun) :
    Meets (protocol token) I phase (deliver token saved) fun _ g' => g' = .delivered := by
  have hallowed : (protocol token).allows phase (.deliver token saved) := ⟨rfl, hphase⟩
  apply Routine.meets_call_bind hallowed
  intro response
  exact Routine.meets_ofExcept rfl

theorem meets_offerSlideshow (saved : RetryRequest) :
    Meets (protocol token) I phase (offerSlideshow saved) fun _ g' => g' = phase := by
  apply Routine.meets_call_bind trivial
  intro response
  exact Routine.meets_ofExcept rfl

theorem meets_beginRetryToken (hphase : phase = .before) :
    Meets (protocol token) I phase (beginRetryToken token) fun result g' =>
      Plain result ∧ (result = .ok true → g' = .begun) := by
  have hallowed : (protocol token).allows phase (.beginRetryToken token) := ⟨rfl, hphase⟩
  apply Routine.meets_call_bind hallowed
  rintro (i | _ | _)
  · exact Routine.meets_throw (by simp [Plain])
  · exact Routine.meets_pure (by simp [Plain])
  · exact Routine.meets_pure ⟨by simp [Plain], fun _ => rfl⟩

theorem meets_attempt (saved : RetryRequest) (hphase : phase = .before) :
    Meets (protocol token) I phase (attempt token saved) Attempted := by
  apply (meets_beginRetryToken hphase).bind
  · rintro begun g' ⟨-, hbegun⟩
    apply Routine.meets_ite
    · rintro rfl
      have hg : g' = .begun := hbegun rfl
      apply (meets_offerSlideshow saved).bind
      · rintro offered g'' rfl
        apply Routine.meets_ite
        · intro _
          exact (meets_finishRetry (.inl hg) .success).bind
            (fun _ _ _ => Routine.meets_pure trivial) fun error g'' h => attempted_of_plain h
        · intro _
          exact (meets_deliver hg).bind
            (fun receipt g'' hg'' => Routine.meets_pure (.inr hg''))
            fun error g'' hg'' => attempted_of_reserved error (.inr hg'')
      · rintro error g'' rfl
        exact attempted_of_reserved error (.inl hg)
    · intro _
      exact (meets_editText .linkExpired false).bind
        (fun _ _ _ => Routine.meets_pure trivial) fun error g'' h => attempted_of_plain h
  · rintro error g' ⟨h, -⟩
    exact attempted_of_plain h

theorem meets_deliverReserved (saved : RetryRequest) (hphase : phase = .before) :
    Meets (protocol token) I phase (deliverReserved token saved) fun _ _ => True := by
  apply (meets_attempt saved hphase).capture_bind
  intro result g' h
  rcases result with (⟨message, retryable⟩ | i) | (_ | receipt)
  · exact meets_recordFailure h _ _
  · exact Routine.meets_throw trivial
  · exact Routine.meets_pure trivial
  · apply Routine.meets_ite
    · intro _
      apply (meets_finishRetry h .success).bind
      · intro _ g'' _
        apply Routine.meets_call_bind trivial
        intro response
        apply (meets_cleanUp (Q := fun _ _ => True) trivial trivial).bind
        · intro _ g₃ _
          cases saved.sourceMessageId with
          | none => exact Routine.meets_pure trivial
          | some messageId =>
            apply Routine.meets_call_bind trivial
            intro response
            exact meets_cleanUp trivial trivial
        · exact fun _ _ _ => trivial
      · exact fun _ _ _ => trivial
    · intro _
      exact meets_recordFailure h _ _

theorem Same.bind {β : Type} {x : Op α} {f : α → Op β}
    (hx : Meets (protocol token) I phase x fun _ g' => g' = phase)
    (hf : ∀ value, Meets (protocol token) I phase (f value) fun _ _ => True) :
    Meets (protocol token) I phase (x >>= f) fun _ _ => True := by
  apply Routine.Meets.bind hx
  · rintro value g' rfl
    exact hf value
  · exact fun _ _ _ => trivial

theorem same_allowUser (userId : Int) :
    Meets (protocol token) I phase (allowUser userId) fun _ g' => g' = phase :=
  Routine.meets_call_bind trivial fun _ => meets_orRaise (fun _ => rfl) fun _ => rfl

theorem same_allowChat (chatId : Int) :
    Meets (protocol token) I phase (allowChat chatId) fun _ g' => g' = phase :=
  Routine.meets_call_bind trivial fun _ => meets_orRaise (fun _ => rfl) fun _ => rfl

theorem same_deliveryOutcome (t : String) :
    Meets (protocol token) I phase (deliveryOutcome t) fun _ g' => g' = phase :=
  Routine.meets_call_bind trivial fun _ => meets_orRaise (fun _ => rfl) fun _ => rfl

theorem same_getSaved (t : String) :
    Meets (protocol token) I phase (getSaved t) fun _ g' => g' = phase :=
  Routine.meets_call_bind trivial fun _ => meets_orRaise (fun _ => rfl) fun _ => rfl

theorem same_setSaved (t : String) (saved : RetryRequest) :
    Meets (protocol token) I phase (setSaved t saved) fun _ g' => g' = phase :=
  Routine.meets_call_bind trivial fun _ => meets_orRaise (fun _ => rfl) fun _ => rfl

theorem same_answer (text : Text) (showAlert : Bool) :
    Meets (protocol token) I phase (answer text showAlert) fun _ g' => g' = phase :=
  Routine.meets_call_bind trivial fun _ => meets_orRaise (fun _ => rfl) fun _ => rfl

theorem same_editText (text : Text) (markup : Bool) :
    Meets (protocol token) I phase (editText text markup) fun _ g' => g' = phase :=
  Routine.meets_call_bind trivial fun _ => meets_orRaise (fun _ => rfl) fun _ => rfl

theorem meets_retryActive (saved : RetryRequest) (hphase : phase = .before) :
    Meets (protocol token) I phase (retryActive token saved) fun _ _ => True := by
  apply Same.bind (same_allowUser _)
  intro user
  apply Routine.meets_ite (fun _ => meets_answer _ _)
  intro _
  apply Same.bind (same_allowChat _)
  intro chat
  apply Routine.meets_ite (fun _ => meets_answer _ _)
  intro _
  apply Routine.meets_call_bind trivial
  intro pipeline
  apply Routine.meets_ite (fun _ => meets_answer _ _)
  intro _
  apply Routine.meets_call_bind trivial
  intro store
  apply Routine.meets_ite (fun _ => meets_answer _ _)
  intro _
  apply Same.bind (same_deliveryOutcome _)
  have hgo : Meets (protocol token) I phase (do
      setSaved token saved
      answer .downloadStarted false
      editText .searching false
      deliverReserved token saved) fun _ _ => True := by
    apply Same.bind (same_setSaved _ _)
    intro _
    apply Same.bind (same_answer _ _)
    intro _
    apply Same.bind (same_editText _ _)
    intro _
    exact meets_deliverReserved saved hphase
  rintro (_ | _ | _ | _)
  · exact hgo
  · exact meets_answer _ _
  · exact hgo
  · exact meets_answer _ _

theorem meets_retrySaved (q : Query) (saved : RetryRequest) (hphase : phase = .before) :
    Meets (protocol token) I phase (retrySaved q token saved) fun _ _ => True := by
  apply Routine.meets_ite (fun _ => meets_answer _ _)
  intro _
  apply Routine.meets_call_bind trivial
  intro found
  cases found with
  | finished => exact meets_answer _ _
  | active => exact meets_answer _ _
  | claimed =>
    apply (meets_retryActive saved hphase).capture_bind
    intro result g' _
    apply Routine.meets_call_bind trivial
    intro _
    exact Routine.meets_ofExcept trivial

/-- Every execution of `on_retry` begins, delivers and records its token in this order. -/
theorem meets_onRetry (q : Query) :
    Meets (protocol (q.token.getD "")) I .before (onRetry q) fun _ _ => True := by
  unfold onRetry
  apply Routine.meets_ite (fun _ => meets_answer _ _)
  intro _
  cases htoken : q.token with
  | none => exact meets_answer _ _
  | some token =>
    apply Routine.meets_call_bind trivial
    intro finished
    apply Routine.meets_ite (fun _ => meets_answer _ _)
    intro _
    apply Same.bind (same_getSaved _)
    intro saved
    cases saved with
    | none => exact meets_answer _ _
    | some saved => exact meets_retrySaved q saved rfl

end Discipline

variable {τ : Type}

/-- A running `on_retry`, or the rest of a call to the store whose caller was cancelled. -/
structure Execution where
  process : Nat
  token : String
  program : Program Empty Effect Effect.Response (Except RetryError Unit × Unit)
  phase : Phase

/-- The execution after the response to an effect. -/
def Execution.advance (e : Execution) (effect : Effect)
    (next : effect.Response → Program Empty Effect Effect.Response (Except RetryError Unit × Unit))
    (response : effect.Response) : Execution :=
  { e with
    program := next response
    phase := (protocol e.token).next e.phase effect response }

/-- `_active_retries` and `_finished_retries` of a process. -/
structure Sets where
  active : List String
  finished : List String

/-- What happened in the store and to the requests: `begun` is a committed `begin_retry_token` that
took the token, `recorded` a committed `record_delivery`, `delivered` the start of a delivery. -/
inductive Event where
  | begun (token : String)
  | recorded (token : String) (outcome : DeliveryOutcome)
  | delivered (token : String)
deriving DecidableEq

structure World (τ : Type) where
  store : Store τ
  sets : Nat → Sets
  executions : Nat → Option Execution
  log : List Event

/-- How a call to the store ends for its caller, and whether its transaction was committed. -/
inductive Fate where
  | completes
  | fails (interruption : Interruption) (committed : Bool)
deriving DecidableEq

def Fate.commits : Fate → Bool
  | .completes => true
  | .fails _ committed => committed

def Fate.reply {ρ : Type} : Fate → Except JobStore.StoreError ρ → Except Interruption ρ
  | .completes, result => result.mapError fun _ => .exception
  | .fails interruption _, _ => .error interruption

inductive Action (τ : Type) where
  /-- `on_retry` is called for `q` in process `p`. -/
  | start (i p : Nat) (q : Query)
  /-- The awaited effect of execution `i` takes place and the execution goes on. -/
  | resume (i : Nat) (now : τ) (fate : Fate) (answer : (effect : Effect) → effect.Response)
  /-- Execution `i` is cancelled while the store works for it; the call goes on as `j`. -/
  | cancel (i j : Nat)
  | crash (p : Nat)
  /-- The cache of finished tokens drops one. -/
  | evict (p : Nat) (token : String)
  /-- A call on the store from elsewhere. -/
  | store (op : JobStore.Op τ)

namespace World

def initial (s : Store τ) : World τ := ⟨s, fun _ => ⟨[], []⟩, fun _ => none, []⟩

variable [LinearOrder τ] [Add τ] [Zero τ]

def setExecution (w : World τ) (i : Nat) (e : Option Execution) : World τ :=
  { w with executions := Function.update w.executions i e }

def setSets (w : World τ) (p : Nat) (x : Sets) : World τ :=
  { w with sets := Function.update w.sets p x }

/-- One call to the store with the events it is logged as. -/
def call {ρ : Type} (w : World τ) (fate : Fate) (result : Except JobStore.StoreError ρ × Store τ)
    (events : Except JobStore.StoreError ρ → List Event) : World τ :=
  if fate.commits then { w with store := result.2, log := w.log ++ events result.1 } else w

def begun (token : String) : Except JobStore.StoreError Bool → List Event
  | .ok true => [.begun token]
  | _ => []

def recorded (token : String) (outcome : DeliveryOutcome) :
    Except JobStore.StoreError DeliveryOutcome → List Event
  | .ok _ => [.recorded token outcome]
  | .error _ => []

/-- What an effect of a process does, and its response. -/
def perform (w : World τ) (p : Nat) (now : τ) (fate : Fate)
    (answer : (effect : Effect) → effect.Response) : (effect : Effect) → effect.Response × World τ
  | .isFinished token => (decide (token ∈ (w.sets p).finished), w)
  | .claimActive token =>
    let x := w.sets p
    if token ∈ x.finished then (.finished, w)
    else if token ∈ x.active then (.active, w)
    else (.claimed, w.setSets p { x with active := token :: x.active })
  | .discardActive token =>
    let x := w.sets p
    ((), w.setSets p { x with active := x.active.filter (· ≠ token) })
  | .markFinished token =>
    let x := w.sets p
    ((), w.setSets p { x with finished := token :: x.finished })
  | .deliveryOutcome token =>
    (fate.reply (.ok (JobStore.deliveryOutcome w.store (retryKey token) "__job__")), w)
  | .beginRetryToken token =>
    let result := JobStore.beginRetryTokenSync token now w.store
    (fate.reply result.1, w.call fate result (begun token))
  | .recordDelivery token outcome =>
    let result := JobStore.recordDelivery (retryKey token) outcome "__job__" none now w.store
    (fate.reply result.1, w.call fate result (recorded token outcome))
  | .deliver token saved =>
    (answer (.deliver token saved), { w with log := w.log ++ [.delivered token] })
  | effect => (answer effect, w)

/-- The calls that only `on_retry` makes. -/
def ownCall : JobStore.Op τ → Bool
  | .beginRetryToken _ _ => true
  | .recordDelivery job _ _ _ _ => "retry:".toList.isPrefixOf job.toList
  | _ => false

def step (w : World τ) : Action τ → Option (World τ)
  | .start i p q =>
    if (w.executions i).isSome then none
    else some (w.setExecution i (some ⟨p, q.token.getD "", onRetry q (), .before⟩))
  | .resume i now fate answer =>
    (w.executions i).map fun e =>
      match e.program with
      | .perform effect next =>
        let result := w.perform e.process now fate answer effect
        result.2.setExecution i (some (e.advance effect next result.1))
      | .pure _ | .raise _ => w.setExecution i none
  | .cancel i j =>
    (w.executions i).bind fun e =>
      if (w.executions j).isSome then none
      else
        match e.program with
        | .perform (.beginRetryToken token) next =>
          let w := w.setExecution i (some (e.advance (.beginRetryToken token) next (.error .cancelled)))
          some (w.setExecution j (some { e with
            program := .perform (.beginRetryToken token) fun _ => .pure (.ok (), ()) }))
        | .perform (.recordDelivery token outcome) next =>
          let w := w.setExecution i
            (some (e.advance (.recordDelivery token outcome) next (.error .cancelled)))
          some (w.setExecution j (some { e with
            program := .perform (.recordDelivery token outcome) fun _ => .pure (.ok (), ()) }))
        | _ => none
  | .crash p =>
    some { w with
      sets := Function.update w.sets p ⟨[], []⟩
      executions := fun i => (w.executions i).filter fun e => decide (e.process ≠ p) }
  | .evict p token =>
    let x := w.sets p
    some (w.setSets p { x with finished := x.finished.filter (· ≠ token) })
  | .store op => if ownCall op then none else some { w with store := (op.run w.store).2 }

def machine : Machine (World τ) (Action τ) := ⟨step⟩

end World

end YtdlBot.Retry
