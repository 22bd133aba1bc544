import YtdlBot.Delivery.Assets
import YtdlBot.Framework.Program

/-!
# Telegram delivery

`TelegramDelivery.deliver` inside a delivery job context, as a program over the awaits it makes:
receipts in the job store, the optional media cache, local files and the Bot API. A Bot API call
is two effects, so that it can be in flight when the process dies.
-/

namespace YtdlBot.Delivery

open Framework
open JobStore (DeliveryOutcome StoreError)

/-- What delivery reads off the message of one item. -/
structure Message where
  messageId : Option Int
  fileId : Option String
  fileUniqueId : Option String
deriving DecidableEq, Repr

/-- How a Bot API call ends for the code that awaits it. -/
inductive SendResult where
  | sent (messages : List Message)
  | retryAfter (error : String)
  | badRequest (error : String)
  | networkError (error : String)
  | otherError (error : String)
deriving DecidableEq, Repr

/-- The results that the code records as `FAILED`. -/
def SendResult.rejected : SendResult → Bool
  | .sent _ | .networkError _ => false
  | _ => true

/-- A record of the media cache; `none` for a type that cannot be read. -/
structure CachedDelivery where
  fileId : String
  telegramType : Option String
deriving DecidableEq, Repr

structure PreparedAsset where
  asset : DeliveryAsset
  cached : Option CachedDelivery
deriving DecidableEq, Repr

/-- The parts of `options` that differ between units. -/
structure SendOptions where
  caption : String
  parseMode : Option String
  replyParameters : Option String
deriving DecidableEq, Repr

/-- The parts of `TelegramDelivery` the logic reads. -/
structure TelegramDelivery where
  mediaCache : Bool
  cacheBotId : Option String
  localMode : Bool
  maxMediaBytes : Nat
  cloudMaxBytes : Nat

/-- The awaits of a delivery. `startSend` carries the receipt names of the items it sends, for
the attempt log. -/
inductive Effect where
  | deliveryOutcome (itemKey : String)
  | beginDeliveryAttempts (itemKeys : List String)
  | finalizeDeliveryAttempt (itemKey : String) (outcome : DeliveryOutcome)
      (deliveryId : Option String)
  | getDelivery (itemIndex : Nat)
  | putDelivery (item : DeliveredItem)
  | evictDelivery (itemIndex : Nat)
  | stat (path : String)
  | openSource (asset : DeliveryAsset)
  | startSend (itemKeys : List String) (method : String) (options : SendOptions)
  | finishSend (call : Nat)

def Effect.Response : Effect → Type
  | .deliveryOutcome _ => Except StoreError (Option DeliveryOutcome)
  | .beginDeliveryAttempts _ => Except StoreError Bool
  | .finalizeDeliveryAttempt _ _ _ => Except StoreError Bool
  | .getDelivery _ => Option CachedDelivery
  | .putDelivery _ => Unit
  | .evictDelivery _ => Unit
  | .stat _ => Except String (Option Nat)
  | .openSource _ => Except String Unit
  | .startSend _ _ _ => Nat
  | .finishSend _ => SendResult

/-- A delivery coroutine; it may raise what the job store raises. -/
abbrev Coroutine (α : Type) := Program StoreError Effect Effect.Response α

def call (effect : Effect) : Coroutine effect.Response := Program.call effect

def raises {ρ : Type} (effect : Effect) (result : effect.Response → Except StoreError ρ) :
    Coroutine ρ :=
  Program.attempt effect result

def failure (asset : DeliveryAsset) (status : DeliveryStatus) (error category : String) :
    DeliveredItem where
  item := asset.item
  status := status
  telegramType := asset.item.kind
  itemIndex := asset.index
  messageId := none
  fileId := none
  fileUniqueId := none
  deliveryId := none
  error := some error
  errorCategory := some category

def success (asset : DeliveryAsset) (message : Message) : DeliveredItem where
  item := asset.item
  status := .success
  telegramType := asset.item.kind
  itemIndex := asset.index
  messageId := message.messageId
  fileId := message.fileId
  fileUniqueId := message.fileUniqueId
  deliveryId := message.messageId.map JobStore.str
  error := none
  errorCategory := none

section Prepare

variable (d : TelegramDelivery) (request : Option MediaRequest)

/-- The cache is configured, the request is known and the bot has an identity. -/
def cacheUsable : Bool :=
  d.mediaCache && request.isSome && d.cacheBotId.any fun botId => botId ≠ ""

def store (delivered : DeliveredItem) : Coroutine Unit :=
  if cacheUsable d request && delivered.fileId.any fun fileId => fileId ≠ "" then
    call (.putDelivery delivered)
  else pure ()

def evict (asset : DeliveryAsset) : Coroutine Unit :=
  if cacheUsable d request then call (.evictDelivery asset.index) else pure ()

/-- The first half of `_prepare`: a usable cache record of the right kind. -/
def prepareCached (asset : DeliveryAsset) : Coroutine (Option PreparedAsset) :=
  call (.getDelivery asset.index) >>= fun
    | none => pure none
    | some cached =>
      if cached.telegramType = some asset.item.kind.value then pure (some ⟨asset, some cached⟩)
      else evict d request asset >>= fun _ => pure none

def assetSize (asset : DeliveryAsset) : Coroutine (Except String (Option Nat)) :=
  match asset.sizeBytes, asset.source with
  | some size, _ => pure (.ok (some size))
  | none, some (.path path) => call (.stat path)
  | none, some (.bytes length) => pure (.ok (some length))
  | none, _ => pure (.ok none)

/-- The second half of `_prepare`: an upload within the size limit. -/
def prepareUpload (asset : DeliveryAsset) : Coroutine (DeliveredItem ⊕ PreparedAsset) :=
  if asset.source = none then
    pure (.inl (failure asset .failed "no upload source is available" "missing_source"))
  else
    assetSize asset >>= fun
      | .error error => pure (.inl (failure asset .failed error "missing_source"))
      | .ok size =>
        let limit := if d.localMode then d.maxMediaBytes else min d.maxMediaBytes d.cloudMaxBytes
        if size.any fun size => limit < size then
          pure (.inl (failure asset .failed
            ("media exceeds the " ++ JobStore.str limit ++ "-byte delivery limit")
            "file_too_large"))
        else pure (.inr ⟨asset, none⟩)

def prepare (forceUpload : Bool) (asset : DeliveryAsset) :
    Coroutine (DeliveredItem ⊕ PreparedAsset) :=
  if !forceUpload && cacheUsable d request then
    prepareCached d request asset >>= fun
      | some prepared => pure (.inr prepared)
      | none => prepareUpload d asset
  else prepareUpload d asset

end Prepare

section Send

def sendMethod : MediaKind → Option String
  | .video => some "send_video"
  | .audio => some "send_audio"
  | .photo => some "send_photo"
  | .animation => some "send_animation"
  | .document => some "send_document"
  | _ => none

/-- The kinds `_input_media` has a class for. -/
def inputMedia : MediaKind → Bool
  | .video | .audio | .photo | .document => true
  | _ => false

def invalidFileIdMarkers : List String :=
  ["wrong file identifier", "invalid file identifier", "invalid file_id", "file_id is invalid"]

def isInvalidFileId (error : String) : Bool :=
  invalidFileIdMarkers.any fun marker => decide (marker.toList <:+: error.toLower.toList)

/-- One Bot API call. -/
def send (itemKeys : List String) (method : String) (options : SendOptions) : Coroutine SendResult :=
  call (.startSend itemKeys method options) >>= fun id => call (.finishSend id)

/-- An unsupported kind or an unreadable source raises before anything is sent. -/
def sendSingle (itemKey : String) (prepared : PreparedAsset) (options : SendOptions) :
    Coroutine SendResult :=
  match sendMethod prepared.asset.item.kind with
  | none =>
    pure (.otherError ("unsupported Telegram media kind: " ++ prepared.asset.item.kind.value))
  | some method =>
    call (.openSource prepared.asset) >>= fun
      | .error error => pure (.otherError error)
      | .ok () => send [itemKey] method options

/-- Open the sources of an album; the error of the first that cannot be sent. -/
def openGroup : List PreparedAsset → Coroutine (Option String)
  | [] => pure none
  | prepared :: rest =>
    call (.openSource prepared.asset) >>= fun
      | .error error => pure (some error)
      | .ok () =>
        if inputMedia prepared.asset.item.kind then openGroup rest
        else
          pure (some ("unsupported Telegram album kind: " ++ prepared.asset.item.kind.value))

def sendGroup (itemKeys : List String) (prepared : List PreparedAsset) (options : SendOptions) :
    Coroutine SendResult :=
  openGroup prepared >>= fun
    | some error => pure (.otherError error)
    | none => send itemKeys "send_media_group" options

/-- What every result but a success is recorded as. -/
def sendFailure (asset : DeliveryAsset) : SendResult → DeliveredItem
  | .retryAfter error => failure asset .failed error "rate_limited"
  | .badRequest error => failure asset .failed error "telegram_rejected"
  | .networkError error => failure asset .uncertain error "unknown_outcome"
  | .otherError error => failure asset .failed error "send_failed"
  | .sent _ => failure asset .uncertain "" ""

end Send

section Deliver

variable (d : TelegramDelivery) (request : Option MediaRequest) (keyOf : DeliveryAsset → String)

def finishOne (asset : DeliveryAsset) : SendResult → Coroutine DeliveredItem
  | .sent messages =>
    let delivered := success asset (messages.head?.getD ⟨none, none, none⟩)
    store d request delivered >>= fun _ => pure delivered
  | result => pure (sendFailure asset result)

def deliverOne (asset : DeliveryAsset) (options : SendOptions) : Coroutine DeliveredItem :=
  prepare d request false asset >>= fun
    | .inl item => pure item
    | .inr prepared =>
      sendSingle (keyOf asset) prepared options >>= fun result =>
        match result with
        | .badRequest error =>
          if prepared.cached.isSome && isInvalidFileId error then
            evict d request asset >>= fun _ =>
              prepare d request true asset >>= fun
                | .inl item => pure item
                | .inr upload =>
                  sendSingle (keyOf asset) upload options >>= finishOne d request asset
          else pure (sendFailure asset result)
        | _ => finishOne d request asset result

/-- Prepare the items of an album in order: the failures by index, and the rest. -/
def prepareGroup (forceUpload : Bool) :
    List DeliveryAsset → Coroutine (List (Nat × DeliveredItem) × List PreparedAsset)
  | [] => pure ([], [])
  | asset :: assets =>
    prepare d request forceUpload asset >>= fun result =>
      prepareGroup forceUpload assets >>= fun (failures, prepared) =>
        match result with
        | .inl item => pure ((asset.index, item) :: failures, prepared)
        | .inr ready => pure (failures, ready :: prepared)

def evictGroup : List PreparedAsset → Coroutine Unit
  | [] => pure ()
  | prepared :: rest =>
    (if prepared.cached.isSome then evict d request prepared.asset else pure ()) >>= fun _ =>
      evictGroup rest

/-- The items of a sent album; an item without a message has an unknown outcome. -/
def groupResults : List DeliveryAsset → List Message → Coroutine (List DeliveredItem)
  | [], _ => pure []
  | asset :: assets, [] =>
    groupResults assets [] >>= fun items =>
      pure (failure asset .uncertain "Telegram returned an incomplete album receipt"
        "unknown_outcome" :: items)
  | asset :: assets, message :: messages =>
    store d request (success asset message) >>= fun _ =>
      groupResults assets messages >>= fun items => pure (success asset message :: items)

/-- One round of `_deliver_group`; `again` is the recursive call that uploads every item. -/
def deliverGroupRound (assets : List DeliveryAsset) (options : SendOptions) (forceUpload : Bool)
    (again : Coroutine (List DeliveredItem)) : Coroutine (List DeliveredItem) :=
  prepareGroup d request forceUpload assets >>= fun (failures, prepared) =>
    if failures ≠ [] then
      pure (assets.map fun asset => (failures.reverse.lookup asset.index).getD
        (failure asset .failed "album contains an unavailable item" "album_incomplete"))
    else
      sendGroup (assets.map keyOf) prepared options >>= fun result =>
        match result with
        | .sent messages => groupResults d request assets messages
        | .badRequest error =>
          if !forceUpload && prepared.any (fun item => item.cached.isSome) && isInvalidFileId error
          then evictGroup d request prepared >>= fun _ => again
          else pure (assets.map fun asset => sendFailure asset result)
        | _ => pure (assets.map fun asset => sendFailure asset result)

/-- With `force_upload` the call never recurses. -/
def deliverGroup (assets : List DeliveryAsset) (options : SendOptions) :
    Coroutine (List DeliveredItem) :=
  deliverGroupRound d request keyOf assets options false
    (deliverGroupRound d request keyOf assets options true (pure []))

abbrev Results := List (String × DeliveredItem)

/-- What an earlier execution left behind for each item. -/
def priorOutcomes : List DeliveryAsset → Results → Coroutine (Results × List DeliveryAsset)
  | [], results => pure (results, [])
  | asset :: assets, results =>
    raises (.deliveryOutcome (keyOf asset)) id >>= fun prior =>
      match prior with
      | some .success =>
        let item : DeliveredItem := { success asset ⟨none, none, none⟩ with status := .delivered }
        priorOutcomes assets ((keyOf asset, item) :: results)
      | some .uncertain =>
        let item := failure asset .uncertain "Telegram send outcome was uncertain before restart"
          "recovered_unknown_outcome"
        priorOutcomes assets ((keyOf asset, item) :: results)
      | _ =>
        priorOutcomes assets results >>= fun (results, pending) => pure (results, asset :: pending)

def recordCurrentDelivery (itemKey : String) (outcome : DeliveryOutcome)
    (deliveryId : Option String) : Coroutine Unit :=
  raises (.finalizeDeliveryAttempt itemKey outcome deliveryId) id >>= fun finalized =>
    if finalized then pure ()
    else .raise (.runtimeError "durable delivery attempt lost job ownership")

def beginCurrentDelivery (itemKeys : List String) : Coroutine Unit :=
  raises (.beginDeliveryAttempts itemKeys) id >>= fun started =>
    if started then pure ()
    else .raise (.runtimeError "durable delivery attempt could not claim job ownership")

def recordUnit : List (DeliveryAsset × DeliveredItem) → Results → Coroutine Results
  | [], results => pure results
  | (asset, item) :: rest, results =>
    recordCurrentDelivery (keyOf asset) (durableOutcome item.status) item.deliveryId >>= fun _ =>
      recordUnit rest ((keyOf asset, item) :: results)

def deliverUnit (unit : List DeliveryAsset) (options : SendOptions) :
    Coroutine (List DeliveredItem) :=
  match unit with
  | [asset] => deliverOne d request keyOf asset options >>= fun item => pure [item]
  | _ => deliverGroup d request keyOf unit options

/-- The unit loop: only the first unit of a fresh call carries the caption. -/
def deliverUnits (options : SendOptions) :
    Nat → List (List DeliveryAsset) → Results → Coroutine Results
  | _, [], results => pure results
  | unitIndex, unit :: units, results =>
    beginCurrentDelivery (unit.map keyOf) >>= fun _ =>
      let groupOptions := if unitIndex ≠ 0 ∨ results ≠ [] then ⟨"", none, none⟩ else options
      deliverUnit d request keyOf unit groupOptions >>= fun delivered =>
        recordUnit keyOf (unit.zip delivered) results >>= fun results =>
          deliverUnits options (unitIndex + 1) units results

def deliver (sha256 : String → String) (media : List DeliveryAsset) (target : DeliveryTarget)
    (operationKey : Option String) (options : SendOptions) : Coroutine DeliveryReceipt :=
  let assets := normalizeAssets media
  let keyOf := durableItemKey sha256 target request operationKey
  if assets = [] then pure ⟨target, [], .failed⟩
  else
    priorOutcomes keyOf assets [] >>= fun (results, pending) =>
      deliverUnits d request keyOf options 0 (deliveryUnits pending) results >>= fun results =>
        let items := assets.filterMap fun asset => results.lookup (keyOf asset)
        pure ⟨target, items, aggregateStatus items⟩

/-- Deliver again the items whose receipt proves that nothing was sent. -/
def retryFailed (sha256 : String → String) (receipt : DeliveryReceipt) (media : List DeliveryAsset)
    (target : DeliveryTarget) (operationKey : Option String) (options : SendOptions) :
    Coroutine DeliveryReceipt :=
  let failedIndexes := receipt.retryableItems.map DeliveredItem.itemIndex
  deliver d request sha256
    ((normalizeAssets media).filter fun asset => asset.index ∈ failedIndexes)
    target operationKey options

end Deliver

end YtdlBot.Delivery
