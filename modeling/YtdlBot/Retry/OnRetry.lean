import YtdlBot.Delivery.Assets
import YtdlBot.Framework.Routine
import YtdlBot.JobStore.Receipts

/-!
# The retry button in a polling process

`on_retry` without a durable job context: the saved request is claimed in the process, its token
is begun in the job store, and what comes of the delivery is recorded under the token.
-/

namespace YtdlBot.Retry

open Framework
open Framework.Routine (throw capture ofExcept)
open Delivery (MediaRequest DeliveryReceipt DeliveryStatus)
open JobStore (DeliveryOutcome)

/-- What any await may raise. -/
inductive Interruption where
  | exception
  /-- `CancelledError`. -/
  | cancelled
deriving DecidableEq

inductive RetryError where
  /-- `MediaPipelineError` with its `retryable`; only the pipeline raises it. -/
  | mediaPipeline (message : String) (retryable : Bool)
  | other (interruption : Interruption)
deriving DecidableEq

structure RetryRequest where
  request : MediaRequest
  userId : Int
  chatId : Int
  messageId : Int
  caption : String
  sourceMessageId : Option Int
deriving DecidableEq

inductive Text where
  | linkExpired
  | retryNotOwner
  | retryInProgress
  | rateLimited
  | retryUnavailable
  | downloadStarted
  | searching
  | sendError
  | message (text : String)
deriving DecidableEq

/-- The callback query; `token` is `none` when its data cannot be decoded. -/
structure Query where
  accessible : Bool
  token : Option String
  userId : Int
  chatId : Int
  messageId : Int
deriving DecidableEq

/-- What the second look at `_finished_retries` and `_active_retries` finds. -/
inductive Claimed where
  | finished
  | active
  | claimed
deriving DecidableEq

/-- The awaits of `on_retry`, and what it does with the sets of its process. -/
inductive Effect where
  | isFinished (token : String)
  /-- `link_cache.get` and `msgspec.convert`; `none` when there is no valid request. -/
  | getSaved (token : String)
  | claimActive (token : String)
  | discardActive (token : String)
  | markFinished (token : String)
  | allowUser (userId : Int)
  | allowChat (chatId : Int)
  | hasPipeline
  | hasJobStore
  | deliveryOutcome (token : String)
  | setSaved (token : String) (saved : RetryRequest)
  | answer (text : Text) (showAlert : Bool)
  | editText (text : Text) (markup : Bool)
  | beginRetryToken (token : String)
  | offerSlideshow (saved : RetryRequest)
  | deliver (token : String) (saved : RetryRequest)
  | recordDelivery (token : String) (outcome : DeliveryOutcome)
  | deleteSaved (token : String)
  | deleteStatus
  | deleteMessage (chatId messageId : Int)

abbrev Effect.Response : Effect → Type
  | .isFinished _ | .hasPipeline | .hasJobStore => Bool
  | .claimActive _ => Claimed
  | .discardActive _ | .markFinished _ => Unit
  | .offerSlideshow _ => Except RetryError Bool
  | .deliver _ _ => Except RetryError DeliveryReceipt
  | .getSaved _ => Except Interruption (Option RetryRequest)
  | .allowUser _ | .allowChat _ | .beginRetryToken _ => Except Interruption Bool
  | .deliveryOutcome _ => Except Interruption (Option DeliveryOutcome)
  | .recordDelivery _ _ => Except Interruption DeliveryOutcome
  | .setSaved _ _ | .answer _ _ | .editText _ _ | .deleteSaved _ | .deleteStatus
  | .deleteMessage _ _ => Except Interruption Unit

abbrev Op (α : Type) := Routine RetryError Unit Effect Effect.Response α

section Awaits

def orRaise {α : Type} (result : Except Interruption α) : Op α :=
  ofExcept (result.mapError .other)

def answer (text : Text) (showAlert : Bool) : Op Unit := do
  orRaise (← Routine.call (Effect.answer text showAlert))

def editText (text : Text) (markup : Bool) : Op Unit := do
  orRaise (← Routine.call (Effect.editText text markup))

def getSaved (token : String) : Op (Option RetryRequest) := do
  orRaise (← Routine.call (Effect.getSaved token))

def allowUser (userId : Int) : Op Bool := do
  orRaise (← Routine.call (Effect.allowUser userId))

def allowChat (chatId : Int) : Op Bool := do
  orRaise (← Routine.call (Effect.allowChat chatId))

def deliveryOutcome (token : String) : Op (Option DeliveryOutcome) := do
  orRaise (← Routine.call (Effect.deliveryOutcome token))

def setSaved (token : String) (saved : RetryRequest) : Op Unit := do
  orRaise (← Routine.call (Effect.setSaved token saved))

def beginRetryToken (token : String) : Op Bool := do
  orRaise (← Routine.call (Effect.beginRetryToken token))

def offerSlideshow (saved : RetryRequest) : Op Bool := do
  ofExcept (← Routine.call (Effect.offerSlideshow saved))

def deliver (token : String) (saved : RetryRequest) : Op DeliveryReceipt := do
  ofExcept (← Routine.call (Effect.deliver token saved))

def recordDelivery (token : String) (outcome : DeliveryOutcome) : Op DeliveryOutcome := do
  orRaise (← Routine.call (Effect.recordDelivery token outcome))

/-- An optional clean-up: `except Exception` around one await. -/
def cleanUp (result : Except Interruption Unit) : Op Unit :=
  match result with
  | .error .cancelled => throw (.other .cancelled)
  | _ => pure ()

end Awaits

/-- `_finish_retry` with the store of the polling process. -/
def finishRetry (token : String) (outcome : DeliveryOutcome) : Op Unit := do
  Routine.call (Effect.markFinished token)
  let _ ← recordDelivery token outcome
  cleanUp (← Routine.call (Effect.deleteSaved token))

/-- `receipt.success` -/
def success (receipt : DeliveryReceipt) : Bool :=
  receipt.status = .success || receipt.status = .delivered

/-- `can_retry_delivery` -/
def canRetryDelivery (receipt : DeliveryReceipt) : Bool :=
  receipt.status = .failed && receipt.items.all fun item => item.status = .failed

/-- A definite failure is recorded as such and its button stays; anything else ends the token. -/
def recordFailure (token : String) (text : Text) (retryable : Bool) : Op Unit := do
  (if retryable then do
    let _ ← recordDelivery token .failed
  else finishRetry token .uncertain)
  editText text retryable

/-- The `try` block of the delivery: `none` when there is nothing more to do. -/
def attempt (token : String) (saved : RetryRequest) : Op (Option DeliveryReceipt) := do
  if ← beginRetryToken token then
    if ← offerSlideshow saved then
      finishRetry token .success
      pure none
    else
      some <$> deliver token saved
  else
    editText .linkExpired false
    pure none

/-- `next((item.error …), Texts.SEND_ERROR)` -/
def errorText (receipt : DeliveryReceipt) : Text :=
  match receipt.items.filterMap fun item => item.error.filter (· ≠ "") with
  | message :: _ => .message message
  | [] => .sendError

/-- From the reservation of the token on. `can_retry_error` of a process without a job context is
the error's own `retryable`. -/
def deliverReserved (token : String) (saved : RetryRequest) : Op Unit := do
  match ← capture (attempt token saved) with
  | .error (.mediaPipeline message retryable) => recordFailure token (.message message) retryable
  | .error error => throw error
  | .ok none => pure ()
  | .ok (some receipt) =>
    if success receipt then
      finishRetry token .success
      cleanUp (← Routine.call Effect.deleteStatus)
      match saved.sourceMessageId with
      | some messageId => cleanUp (← Routine.call (Effect.deleteMessage saved.chatId messageId))
      | none => pure ()
    else
      recordFailure token (errorText receipt) (canRetryDelivery receipt)

/-- The body of the `try` that holds the token active. `prepare_current_retry` of a process
without a job context lets every retry pass. -/
def retryActive (token : String) (saved : RetryRequest) : Op Unit := do
  if !(← allowUser saved.userId) then answer .rateLimited true
  else if !(← allowChat saved.chatId) then answer .rateLimited true
  else if !(← Routine.call Effect.hasPipeline) then answer .retryUnavailable true
  else if !(← Routine.call Effect.hasJobStore) then answer .retryUnavailable true
  else
    match ← deliveryOutcome token with
    | some .success | some .uncertain => answer .linkExpired true
    | none | some .failed =>
      setSaved token saved
      answer .downloadStarted false
      editText .searching false
      deliverReserved token saved

/-- From the owner check on. -/
def retrySaved (q : Query) (token : String) (saved : RetryRequest) : Op Unit := do
  if (saved.userId, saved.chatId, saved.messageId) ≠ (q.userId, q.chatId, q.messageId) then
    answer .retryNotOwner true
  else
    match ← Routine.call (Effect.claimActive token) with
    | .finished => answer .linkExpired true
    | .active => answer .retryInProgress false
    | .claimed =>
      let result ← capture (retryActive token saved)
      Routine.call (Effect.discardActive token)
      ofExcept result

def onRetry (q : Query) : Op Unit := do
  if !q.accessible then answer .linkExpired true
  else
    match q.token with
    | none => answer .linkExpired true
    | some token =>
      if ← Routine.call (Effect.isFinished token) then answer .linkExpired true
      else
        match ← getSaved token with
        | none => answer .linkExpired true
        | some saved => retrySaved q token saved

end YtdlBot.Retry
