import Mathlib.Logic.Function.Basic
import YtdlBot.Delivery.Deliver
import YtdlBot.JobStore.Retention

/-!
# Owners, handlers and the Bot API

Any number of worker owners share one job store. A handler runs for one owner and one job and
makes delivery calls; the process may die, and a cancelled handler may leave the finalization it
was awaiting running in its thread. Every attempt to send an item is logged.
-/

namespace YtdlBot.Delivery

open Framework
open JobStore (Store Op StoreError DeliveryOutcome)

variable {τ : Type} [LinearOrder τ] [Add τ] [Zero τ]

/-- A handler of one job, or (not active) a finalization that outlives its cancelled call. The
receipt of a call goes to the handler, which may then make any further call. -/
structure Handler where
  ownerId : String
  jobId : String
  active : Bool
  program : Option (Coroutine Unit)

/-- One item in one Bot API call; `none` until its result is known to the code. -/
structure Attempt where
  call : Nat
  jobId : String
  itemKey : String
  result : Option SendResult
deriving DecidableEq

/-- The outcome of the attempt is not `FAILED`: sent, unknown, or lost in a crash. -/
def Attempt.mayHaveSent (a : Attempt) : Bool := a.result.all fun result => !result.rejected

/-- The attempts to send an item of a job whose outcome is not `FAILED`. -/
def unfailed (attempts : List Attempt) (jobId itemKey : String) : List Attempt :=
  attempts.filter fun a => a.jobId = jobId && a.itemKey = itemKey && a.mayHaveSent

/-- The attempts of call `call` get to know its result. -/
def settle (attempts : List Attempt) (call : Nat) (result : SendResult) : List Attempt :=
  attempts.map fun a =>
    if a.call = call ∧ a.result = none then { a with result := some result } else a

/-- `attempts` and `begun` are histories: what was sent, and which handler reserved what. -/
structure World (τ : Type) where
  store : Store τ
  handlers : Nat → Option Handler
  attempts : List Attempt
  calls : Nat
  begun : List (Nat × String)

def World.initial : World τ := ⟨Store.initial, fun _ => none, [], 0, []⟩

inductive Action (τ : Type) where
  /-- Any other call on the job store, also the rest of a cancelled reservation. -/
  | store (op : Op τ)
  | startHandler (i : Nat) (ownerId jobId : String)
  | deliver (i : Nat) (d : TelegramDelivery) (request : Option MediaRequest)
      (media : List DeliveryAsset) (target : DeliveryTarget) (operationKey : Option String)
      (options : SendOptions)
  | retryFailed (i : Nat) (d : TelegramDelivery) (request : Option MediaRequest)
      (receipt : DeliveryReceipt) (media : List DeliveryAsset) (target : DeliveryTarget)
      (operationKey : Option String) (options : SendOptions)
  /-- The awaited effect of handler `i` takes place and the handler goes on. `dbError` is an
  error of SQLite, `answer` what the cache, the file system and Telegram say. -/
  | resume (i : Nat) (now : τ) (sqlFails : Nat → Bool) (dbError : Bool)
      (answer : (effect : Effect) → effect.Response)
  /-- The call of handler `i` is cancelled. A finalization it awaits goes on as `j`. -/
  | cancel (i : Nat) (detach : Option Nat)
  /-- Handler `i` ends, or its process dies. -/
  | stop (i : Nat)

namespace World

def setProgram (w : World τ) (i : Nat) (h : Handler) (program : Option (Coroutine Unit)) :
    World τ :=
  { w with handlers := Function.update w.handlers i (some { h with program := program }) }

/-- One effect of handler `i`. -/
def perform (w : World τ) (i : Nat) (h : Handler) (now : τ) (sqlFails : Nat → Bool)
    (dbError : Bool) (answer : (effect : Effect) → effect.Response) :
    (effect : Effect) → (effect.Response → Coroutine Unit) → World τ
  | .deliveryOutcome key, next =>
    let reply := if dbError then .error .sqliteError
      else .ok (JobStore.deliveryOutcome w.store h.jobId key)
    w.setProgram i h (some (next reply))
  | .beginDeliveryAttempts keys, next =>
    let result := if dbError then (.error .sqliteError, w.store)
      else JobStore.beginDeliveryAttempts h.jobId keys h.ownerId now sqlFails w.store
    let begun := match result.1 with
      | .ok true => keys.map (fun key => (i, key)) ++ w.begun
      | _ => w.begun
    { w with store := result.2, begun := begun }.setProgram i h (some (next result.1))
  | .finalizeDeliveryAttempt key outcome deliveryId, next =>
    let result := if dbError then (.error .sqliteError, w.store)
      else JobStore.finalizeDeliveryAttempt h.jobId key outcome h.ownerId deliveryId now w.store
    { w with store := result.2 }.setProgram i h (some (next result.1))
  | .startSend keys _ _, next =>
    let attempts := keys.map (fun key => ⟨w.calls, h.jobId, key, none⟩) ++ w.attempts
    { w with attempts := attempts, calls := w.calls + 1 }.setProgram i h (some (next w.calls))
  | .finishSend call, next =>
    let result := answer (.finishSend call)
    { w with attempts := settle w.attempts call result }.setProgram i h (some (next result))
  | effect, next => w.setProgram i h (some (next (answer effect)))

/-- What a cancelled call leaves running. -/
def detached (h : Handler) : Option Handler :=
  match h.program with
  | some (.perform (.finalizeDeliveryAttempt key outcome deliveryId) _) =>
    some ⟨h.ownerId, h.jobId, false,
      some (.perform (.finalizeDeliveryAttempt key outcome deliveryId) fun _ => .pure ())⟩
  | _ => none

def step (sha256 : String → String) (w : World τ) : Action τ → Option (World τ)
  | .store op => some { w with store := (op.run w.store).2 }
  | .startHandler i ownerId jobId =>
    if (w.handlers i).isSome then none
    else some { w with
      handlers := Function.update w.handlers i (some ⟨ownerId, jobId, true, none⟩) }
  | .deliver i d request media target operationKey options =>
    (w.handlers i).bind fun h =>
      if h.active && h.program.isNone then
        some (w.setProgram i h (some (Delivery.deliver d request sha256 media target operationKey
          options >>= fun _ => pure ())))
      else none
  | .retryFailed i d request receipt media target operationKey options =>
    (w.handlers i).bind fun h =>
      if h.active && h.program.isNone then
        some (w.setProgram i h (some (Delivery.retryFailed d request sha256 receipt media target
          operationKey options >>= fun _ => pure ())))
      else none
  | .resume i now sqlFails dbError answer =>
    (w.handlers i).bind fun h =>
      match h.program with
      | some (.perform effect next) =>
        some (w.perform i h now sqlFails dbError answer effect next)
      | some _ => some (w.setProgram i h none)
      | none => none
  | .cancel i detach =>
    (w.handlers i).bind fun h =>
      match detach, detached h with
      | some j, some left =>
        if (w.handlers j).isSome then none
        else
          let w := w.setProgram i h none
          some { w with handlers := Function.update w.handlers j (some left) }
      | _, _ => some (w.setProgram i h none)
  | .stop i =>
    (w.handlers i).map fun h => w.setProgram i { h with active := false } none

/-- The system with a given digest function for operation keys. -/
def machine (sha256 : String → String) : Machine (World τ) (Action τ) := ⟨step sha256⟩

/-- What owners and handlers promise: an owner runs one handler at a time for a job (and so does
not claim it meanwhile), a call's assets have distinct indexes, and receipts of jobs are written
by deliveries only. -/
def Allowed (w : World τ) : Action τ → Prop
  | .store op =>
    JobStore.ReceiptsReserved w.store op ∧
    (∀ job item outcome owner deliveryId now,
      op ≠ .finalizeDeliveryAttempt job item outcome owner deliveryId now) ∧
    ∀ ownerId jobId, op.Claims ownerId jobId w.store →
      ∀ i h, w.handlers i = some h → h.active → ¬ (h.ownerId = ownerId ∧ h.jobId = jobId)
  | .startHandler _ ownerId jobId =>
    ∀ i h, w.handlers i = some h → h.active → ¬ (h.ownerId = ownerId ∧ h.jobId = jobId)
  | .deliver _ _ _ media _ _ _ =>
    ((normalizeAssets media).map DeliveryAsset.index).Nodup
  | .retryFailed _ _ _ _ media _ _ _ =>
    ((normalizeAssets media).map DeliveryAsset.index).Nodup
  | _ => True

end World

end YtdlBot.Delivery
