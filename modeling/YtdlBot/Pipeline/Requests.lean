import YtdlBot.Delivery.Receipts
import YtdlBot.Framework.Guarded
import YtdlBot.Framework.Urls
import YtdlBot.Materialization.Fallback
import YtdlBot.Media.Albums

/-!
# Requests to the pipeline

The three ways to deliver a request: with file ids that Telegram has given out before, and else from
media that is materialized, be it of the best candidate, of a given one, or of a slideshow that is
made into a video. Every await can be cut off.
-/

namespace YtdlBot.Pipeline

open Framework
open Framework.Guarded (attempt embed ofExcept raise tryCatch andFinally)
open Framework.Urls (Unicode)
open Delivery (DeliveryAsset DeliveryReceipt SendOptions TelegramDelivery mergeReceipts)
open JobStore (StoreError)
open Materialization.Fallback (ResolvedMedia candidateItem)
open Media
open MediaCache (MediaRequest requestCacheKey)

/-- Why a `CancelledError` is thrown into a task. -/
inductive Cut where
  | cancelled
  /-- A lease could not be renewed while media was sent. -/
  | renewal
deriving DecidableEq

inductive Error where
  | cut (cut : Cut)
  | resolution (text : String)
  | artifactValidation (text : String)
  | pipeline (text : String)
  | deliveryUncertain (text : String)
  | store (error : StoreError)
  | other (text : String)

/-- `except Exception` -/
def Error.isException : Error → Bool
  | .cut _ => false
  | _ => true

structure DeliveryTarget where
  destination : String
  authScope : String

structure MaterializedItem (τ : Type) where
  paths : List String
  sizeBytes : Nat
  candidate : MediaCandidate τ

/-- What a request awaits or asks the disk. `openMaterialized` and `closeMaterialized` enter and
leave `open_materialized`. -/
inductive Effect (τ : Type) where
  | delivery (effect : Delivery.Effect)
  /-- The item count of the metadata in the cache. -/
  | getMetadata (request : MediaRequest)
  /-- The type of the file that is in the cache. -/
  | getDelivery (request : MediaRequest) (itemIndex : Nat)
  | resolve (request : MediaRequest)
  | openMaterialized (request : MediaRequest) (resolved : Option (ResolvedMedia τ))
  | closeMaterialized (item : MaterializedItem τ)
  | isFile (path : String)
  | fileSize (path : String)
  | convert (images : List String) (audio : Option String)
  | adoptLocal (request : MediaRequest) (path : String) (candidate : MediaCandidate τ)
  | validateArtifact (request : MediaRequest) (item : MaterializedItem τ)
  | storeMetadata (request : MediaRequest) (resolved : ResolvedMedia τ)
  | unlink (path : String)
  | release (item : MaterializedItem τ)
  /-- The renewal of leases is cancelled and joined. -/
  | stopRenewal

def Effect.Result {τ : Type} : Effect τ → Type
  | .delivery effect => Except Cut effect.Response
  | .getMetadata _ => Except Error (Option Nat)
  | .getDelivery _ _ => Except Error (Option String)
  | .resolve _ => Except Error (ResolvedMedia τ)
  | .openMaterialized _ _ => Except Error (MaterializedItem τ)
  | .closeMaterialized _ => Except Error Unit
  | .isFile _ => Except Error Bool
  | .fileSize _ => Except Error Nat
  | .convert _ _ => Except Error (Option String)
  | .adoptLocal _ _ _ => Except Error (MaterializedItem τ)
  | .validateArtifact _ _ => Except Error Unit
  | .storeMetadata _ _ => Except Error Unit
  | .unlink _ => Except Error Unit
  | .release _ => Except Error Unit
  | .stopRenewal => Option Cut

/-- A request; the slideshow keeps its `derived` item aside. -/
abbrev Job (τ α : Type) := Guarded (Option (MaterializedItem τ)) Error (Effect τ) Effect.Result α

structure MediaPipeline where
  delivery : TelegramDelivery
  botId : Option String
  mediaCache : Bool
  hexdigest : String → String

structure DeliveryOptions where
  operationKey : Option String
  options : SendOptions

/-- The kind, as delivery knows it. -/
def deliveryKind : MediaCache.MediaKind → Delivery.MediaKind
  | .auto => .auto
  | .video => .video
  | .audio => .audio
  | .photo => .photo
  | .animation => .animation
  | .document => .document
  | .album => .album

/-- `MediaKind(text)` -/
def kindOfText (text : String) : Option Delivery.MediaKind :=
  [Delivery.MediaKind.auto, .video, .audio, .photo, .animation, .document, .album].find?
    fun kind => kind.value == text

def receiptSuccess (receipt : DeliveryReceipt) : Bool :=
  receipt.status = .success || receipt.status = .delivered

section Delivering

variable {τ : Type} (p : MediaPipeline) (target : DeliveryTarget) (options : DeliveryOptions)
  (request : MediaRequest)

def validateDeliveryScope : Except Error Unit :=
  if request.authScope ≠ target.authScope then
    .error (.resolution "delivery auth scope does not match request")
  else .ok ()

/-- An await of a delivery. -/
def awaitDelivery (effect : Delivery.Effect) : Job τ effect.Response :=
  attempt (.delivery effect) fun response => response.mapError .cut

def deliverMedia (assets : List DeliveryAsset) : Job τ DeliveryReceipt :=
  embed awaitDelivery .store (Delivery.deliver p.delivery
    (some ⟨requestCacheKey p.hexdigest request⟩) p.hexdigest assets ⟨target.destination⟩
    options.operationKey options.options)

def retryDelivery (receipt : DeliveryReceipt) (assets : List DeliveryAsset) :
    Job τ DeliveryReceipt :=
  embed awaitDelivery .store (Delivery.retryFailed p.delivery
    (some ⟨requestCacheKey p.hexdigest request⟩) p.hexdigest receipt assets ⟨target.destination⟩
    options.operationKey options.options)

/-- The item that goes with a file; a file among several is asked for its size. -/
def itemOf (media : MaterializedItem τ) (index : Nat) (path : String) : Job τ Delivery.MediaItem :=
  let candidate := media.candidate
  match if candidate.items.length = media.paths.length then candidate.items[index]? else none with
  | some item => pure ⟨item.mediaId, deliveryKind item.kind⟩
  | none =>
    let item : Delivery.MediaItem :=
      ⟨textOr candidate.mediaId candidate.candidateId ++
          if 1 < media.paths.length then ":" ++ toString index else "",
        deliveryKind (candidate.kind.getD .video)⟩
    if media.paths.length = 1 then pure item
    else attempt (.fileSize path) id >>= fun _ => pure item

def assetsFrom (media : MaterializedItem τ) : Nat → List String → Job τ (List DeliveryAsset)
  | _, [] => pure []
  | index, path :: paths =>
    itemOf media index path >>= fun item =>
      (if media.paths.length = 1 then pure media.sizeBytes else attempt (.fileSize path) id) >>=
        fun size =>
          assetsFrom media (index + 1) paths >>= fun assets =>
            pure (⟨item, some (.path path), some index, some size⟩ :: assets)

/-- `_from_materialized` -/
def fromMaterialized (media : MaterializedItem τ) : Job τ (List DeliveryAsset) :=
  assetsFrom media 0 media.paths

/-- The items that the cache must have files for; `none` if it cannot be told. -/
def cachedItemCount (metadata : Option Nat) : Option Nat :=
  if request.albumSelection ≠ [] then some request.albumSelection.length
  else
    match metadata with
    | some itemCount => some itemCount
    | none => if request.kind = .auto || request.kind = .album then none else some 1

/-- The assets of the items from `index` on, if all are in the cache. -/
def cachedAssets : Nat → Nat → Job τ (Option (List DeliveryAsset))
  | _, 0 => pure (some [])
  | index, count + 1 =>
    attempt (.getDelivery request index) id >>= fun cached =>
      match cached.bind kindOfText with
      | none => pure none
      | some kind =>
        cachedAssets (index + 1) count >>= fun assets =>
          pure (assets.map fun assets =>
            ⟨⟨request.mediaId ++ ":" ++ toString index, kind⟩, none, some index, none⟩ :: assets)

/-- A cache that fails has nothing. -/
def lookUp : Job τ (Option (List DeliveryAsset)) :=
  tryCatch
    (attempt (.getMetadata request) id >>= fun metadata =>
      match cachedItemCount request metadata with
      | none => pure none
      | some itemCount => cachedAssets request 0 itemCount)
    fun error => if error.isException then pure none else raise error

def deliverCached : Job τ (Option DeliveryReceipt) :=
  if p.mediaCache && p.botId.any fun botId => botId ≠ "" then
    lookUp request >>= fun assets =>
      match assets with
      | none => pure none
      | some assets =>
        deliverMedia p target options request assets >>= fun receipt => pure (some receipt)
  else pure none

/-- The rest of a request, where the cache has not settled it. -/
def throughCache (rest : Option DeliveryReceipt → Job τ DeliveryReceipt) : Job τ DeliveryReceipt :=
  deliverCached p target options request >>= fun cached =>
    match cached with
    | none => rest none
    | some receipt =>
      if receiptSuccess receipt || receipt.retryableItems.isEmpty then pure receipt
      else rest (some receipt)

/-- The items that failed are tried once more. -/
def retryAndMerge (receipt : DeliveryReceipt) (media : MaterializedItem τ) : Job τ DeliveryReceipt :=
  fromMaterialized media >>= fun assets =>
    retryDelivery p target options request receipt assets >>= fun retried =>
      pure (mergeReceipts receipt retried)

def send (cached : Option DeliveryReceipt) (media : MaterializedItem τ) : Job τ DeliveryReceipt :=
  match cached with
  | some receipt => retryAndMerge p target options request receipt media
  | none =>
    fromMaterialized media >>= fun assets =>
      deliverMedia p target options request assets >>= fun receipt =>
        if receipt.retryableItems.isEmpty then pure receipt
        else retryAndMerge p target options request receipt media

end Delivering

section Contexts

variable {τ α : Type}

/-- How the wait for an operation ends, when its renewal has been stopped. -/
def waited : Except Error α → Option Cut → Except Error α
  | .error (.cut .cancelled), _ | _, some .cancelled => .error (.cut .cancelled)
  | .error (.cut .renewal), _ | _, some .renewal =>
    .error (.deliveryUncertain "media lease renewal failed; Telegram outcome is uncertain")
  | result, none => result

/-- The operation is a task of its own, beside the renewal of the leases. -/
def withLeaseRenewals (operation : Job τ α) : Job τ α := fun s =>
  operation s >>= fun (result, s') => attempt .stopRenewal (waited result) s'

def withMaterialized (request : MediaRequest) (resolved : Option (ResolvedMedia τ))
    (body : MaterializedItem τ → Job τ α) : Job τ α :=
  attempt (.openMaterialized request resolved) id >>= fun item =>
    andFinally (body item) (attempt (.closeMaterialized item) id)

end Contexts

section Requests

variable {τ : Type} (p : MediaPipeline) (target : DeliveryTarget) (options : DeliveryOptions)
  (request : MediaRequest)

def deliverRequest : Job τ DeliveryReceipt :=
  ofExcept (validateDeliveryScope target request) >>= fun _ =>
    throughCache p target options request fun cached =>
      withMaterialized request none fun media =>
        withLeaseRenewals (send p target options request cached media)

def reasonValue : CandidateRejectionReason → String
  | .mediaIdMismatch => "media_id_mismatch"
  | .videoUnavailable => "video_unavailable"
  | .kindMismatch => "kind_mismatch"
  | .albumIncomplete => "album_incomplete"
  | .albumSelectionUnavailable => "album_selection_unavailable"
  | .watermarkPresent => "watermark_present"
  | .watermarkUnknown => "watermark_unknown"
  | .qualityTooLow => "quality_too_low"
  | .audioUnavailable => "audio_unavailable"
  | .audioFormatUnavailable => "audio_format_unavailable"
  | .audioLanguageUnavailable => "audio_language_unavailable"
  | .authScopeMismatch => "auth_scope_mismatch"

/-- The candidate with the selected items of its album. -/
def authorizedCandidate (candidate : MediaCandidate τ) : Except Error (MediaCandidate τ) :=
  match validateCandidate request candidate with
  | [] => (projectAlbumSelection request candidate).mapError fun error => .resolution error.text
  | reasons =>
    .error (.resolution ("authorized-instagram: candidate rejected (" ++
      ",".intercalate (reasons.map reasonValue) ++ ")"))

def resolvedCandidate (candidate : MediaCandidate τ) : ResolvedMedia τ where
  items := if candidate.items = [] then [candidateItem request candidate] else candidate.items
  candidates := [candidate]
  provider := candidate.provider
  attemptedProviders := (candidate.provider.filter fun provider => provider ≠ "").toList

def deliverCandidateRequest (candidate : MediaCandidate τ) : Job τ DeliveryReceipt :=
  ofExcept (validateDeliveryScope target request) >>= fun _ =>
    ofExcept (authorizedCandidate request candidate) >>= fun candidate =>
      throughCache p target options request fun cached =>
        withMaterialized request (some (resolvedCandidate request candidate)) fun media =>
          withLeaseRenewals (send p target options request cached media)

end Requests

section Slideshows

variable {τ : Type} (U : Unicode) (p : MediaPipeline) (target : DeliveryTarget)
  (options : DeliveryOptions) (request : MediaRequest)

def slideshowSourceRequest : MediaRequest :=
  { request with kind := .auto, clip := ⟨none, none⟩, albumSelection := [] }

def slideshowVideoRequest : MediaRequest :=
  { request with
    kind := .video
    albumSelection := []
    isExact := true
    outputVariant := some "slideshow-video" }

def slideshowSoundtrack (candidate : MediaCandidate τ) (request : MediaRequest) :
    Option (MediaRequest × MediaCandidate τ) :=
  (candidate.sources.find? fun source =>
    U.lower source.formatId.toList == "audio".toList ||
      ((candidate.items.all fun item => item.url != source.url) && source.audioCodec.isSome)).map
    fun source =>
      ({ request with
          kind := .audio
          audioFormat := none
          audioLanguage := none
          clip := ⟨none, none⟩
          albumSelection := []
          isExact := false },
        { candidate with
          candidateId := candidate.candidateId ++ ":audio"
          url := source.url
          width := none
          height := none
          hasVideo := false
          hasAudio := true
          audioFormats := []
          audioLanguages := []
          container := source.container
          filesizeBytes := source.filesizeBytes
          sources := [{ source with formatId := "audio", videoCodec := none, audioCodec := none }]
          items := [⟨request.mediaId ++ ":audio", .audio, source.url, none,
            candidate.durationSeconds, none, none, source.container, source.filesizeBytes⟩]
          kind := some .audio
          muxMode := none
          refresh := none })

def slideshowVideoItem (size : Nat) : MediaItem τ where
  mediaId := (slideshowVideoRequest request).mediaId
  kind := .video
  url := (slideshowVideoRequest request).canonicalUrl
  title := none
  durationSeconds := none
  width := none
  height := none
  container := some "mp4"
  filesizeBytes := some size

def slideshowVideoCandidate (candidateId : String) (provider : Option String) (hasAudio : Bool)
    (item : MediaItem τ) (size : Nat) : MediaCandidate τ where
  candidateId := candidateId ++ ":slideshow-video"
  url := (slideshowVideoRequest request).canonicalUrl
  width := none
  height := none
  hasVideo := true
  hasAudio := hasAudio
  audioFormats := []
  audioLanguages := []
  container := some "mp4"
  filesizeBytes := some size
  durationSeconds := none
  sources := []
  complete := true
  muxMode := none
  refresh := none
  provider := provider
  mediaId := some (slideshowVideoRequest request).mediaId
  kind := some .video
  items := [item]
  authScope := (slideshowVideoRequest request).authScope
  watermarkFree := none

/-- The converted video is adopted, checked and sent. -/
def adoptAndSend (cached : Option DeliveryReceipt) (candidateId : String) (provider : Option String)
    (hasAudio : Bool) (path : String) : Job τ DeliveryReceipt :=
  let videoRequest := slideshowVideoRequest request
  attempt (.isFile path) id >>= fun isFile =>
    (if isFile then attempt (.fileSize path) id else pure 0) >>= fun size =>
      if size = 0 then raise (.artifactValidation "slideshow conversion produced no output")
      else
        attempt (.fileSize path) id >>= fun itemSize =>
          attempt (.fileSize path) id >>= fun candidateSize =>
            let item := slideshowVideoItem request itemSize
            let candidate :=
              slideshowVideoCandidate request candidateId provider hasAudio item candidateSize
            attempt (.adoptLocal videoRequest path candidate) id >>= fun derived =>
              Guarded.set (some derived) >>= fun _ =>
                attempt (.validateArtifact videoRequest derived) id >>= fun _ =>
                  attempt (.storeMetadata videoRequest ⟨[item], [candidate], provider, []⟩) id >>=
                    fun _ => send p target options videoRequest cached derived

def convertValidateDeliver (cached : Option DeliveryReceipt) (candidateId : String)
    (provider : Option String) (images : List String) (audio : Option String) :
    Job τ DeliveryReceipt :=
  attempt (.convert images audio) id >>= fun output =>
    match output.filter fun path => path ≠ "" with
    | none => raise (.pipeline "slideshow video conversion failed")
    | some path =>
      andFinally (adoptAndSend p target options request cached candidateId provider audio.isSome path)
        (attempt (.unlink path) id)

def releaseDerived : Job τ Unit :=
  Guarded.get >>= fun derived =>
    match derived with
    | none => pure ()
    | some item => attempt (.release item) id

/-- The derived item is released when the heartbeat is over. -/
def deliverSlideshow (cached : Option DeliveryReceipt) (candidateId : String)
    (provider : Option String) (images : List String) (audio : Option String) :
    Job τ DeliveryReceipt :=
  andFinally
    (withLeaseRenewals
      (convertValidateDeliver p target options request cached candidateId provider images audio))
    releaseDerived

/-- The photo album that a slideshow is made of. -/
def slideshowAlbum (resolved : ResolvedMedia τ) : Except Error (MediaCandidate τ) :=
  match resolved.candidates with
  | [] => .error (.resolution "slideshow contains no materializable candidate")
  | candidate :: _ =>
    if candidate.items.length < 2 || candidate.items.any fun item => item.kind ≠ .photo then
      .error (.resolution "slideshow video requires a photo album")
    else .ok candidate

def deliverSlideshowVideoRequest : Job τ DeliveryReceipt :=
  let sourceRequest := slideshowSourceRequest request
  ofExcept (validateDeliveryScope target request) >>= fun _ =>
    throughCache p target options (slideshowVideoRequest request) fun cached =>
      attempt (.resolve sourceRequest) id >>= fun resolved =>
        ofExcept (slideshowAlbum resolved) >>= fun candidate =>
          let album := normalized candidate
          let finish := deliverSlideshow p target options request cached candidate.candidateId
            resolved.provider
          withMaterialized sourceRequest
            (some { resolved with items := album.items, candidates := [album] }) fun images =>
              match slideshowSoundtrack U candidate sourceRequest with
              | none => finish images.paths none
              | some (audioRequest, audio) =>
                withMaterialized audioRequest
                  (some ⟨audio.items, [audio], resolved.provider, resolved.attemptedProviders⟩)
                  fun soundtrack =>
                    match soundtrack.paths with
                    | [path] => finish images.paths (some path)
                    | _ =>
                      raise (.artifactValidation
                        "slideshow soundtrack materialized more than one file")

end Slideshows

end YtdlBot.Pipeline
