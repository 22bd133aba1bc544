import YtdlBot.Framework.Json

/-!
# The keys of cache records

A record's key is a hash of the request, scoped to what its value may depend on, and of what the
kind of record adds. Texts are sequences of Unicode scalar values.
-/

namespace YtdlBot.MediaCache

open Framework.Json

inductive MediaKind where
  | auto
  | video
  | audio
  | photo
  | animation
  | document
  | album
deriving DecidableEq

def MediaKind.value : MediaKind → String
  | .auto => "auto"
  | .video => "video"
  | .audio => "audio"
  | .photo => "photo"
  | .animation => "animation"
  | .document => "document"
  | .album => "album"

structure QualityPolicy where
  maxEdge : Option Int
deriving DecidableEq

structure ClipInterval where
  startSeconds : Option FiniteFloat
  endSeconds : Option FiniteFloat
deriving DecidableEq

structure MediaRequest where
  canonicalUrl : String
  platform : String
  mediaId : String
  kind : MediaKind
  quality : QualityPolicy
  audioFormat : Option String
  audioLanguage : Option String
  clip : ClipInterval
  albumSelection : List Int
  watermarkAllowed : Bool
  callerScope : String
  authScope : String
  isExact : Bool
  outputVariant : Option String
  deadline : Option FiniteFloat
deriving DecidableEq

/-- A value, or `None`. -/
def optional {α : Type} (f : α → Scalar) : Option α → Value
  | none => .scalar .null
  | some x => .scalar (f x)

def text (s : String) : Value := .scalar (.str s)

section Keys

variable (hexdigest : String → String)

def hasOriginalTrackPolicy (r : MediaRequest) : Bool :=
  r.platform == "youtube" && (r.kind == .auto || r.kind == .video || r.kind == .audio) &&
    r.audioLanguage.all fun language => language == ""

/-- The fields that affect the resolved output. -/
def payload (r : MediaRequest) : List (String × Value) :=
  [("platform", text r.platform),
    ("media_id", text r.mediaId),
    ("canonical_url", text r.canonicalUrl),
    ("kind", text r.kind.value),
    ("quality_max_edge", optional .int r.quality.maxEdge),
    ("audio_format", optional .str r.audioFormat),
    ("audio_language", optional .str r.audioLanguage),
    ("clip_start_seconds", optional .float r.clip.startSeconds),
    ("clip_end_seconds", optional .float r.clip.endSeconds),
    ("album_selection", .array (r.albumSelection.map .int)),
    ("watermark_allowed", .scalar (.bool r.watermarkAllowed)),
    ("caller_scope", text r.callerScope),
    ("auth_scope", text r.authScope),
    ("exact", .scalar (.bool r.isExact)),
    ("output_variant", optional .str r.outputVariant)] ++
  if hasOriginalTrackPolicy r then [("audio_track_policy", text "youtube-original-v1")] else []

def requestCacheKey (r : MediaRequest) : String :=
  "media:v1:" ++ hexdigest (dumps (payload r))

def cacheScopeRequest (r : MediaRequest) : MediaRequest :=
  if r.authScope = "public" then { r with callerScope := "public" } else r

/-- `_public_work_request`, by which the pipeline shares its work. -/
def publicWorkRequest (r : MediaRequest) : MediaRequest :=
  if r.authScope = "public" ∧ r.callerScope ≠ "public" then { r with callerScope := "public" } else r

inductive RecordType where
  | metadata
  | signedUrl
  | fileId
deriving DecidableEq

def RecordType.value : RecordType → String
  | .metadata => "metadata"
  | .signedUrl => "signed-url"
  | .fileId => "file-id"

inductive CacheError where
  | valueError (message : String)
deriving DecidableEq

/-- What the caches of a store may differ in; `keyPrefix` ends in no colon. -/
structure Settings where
  keyPrefix : String
  transformVersion : String
deriving DecidableEq

/-- What a key is made for; a `bot_id` of `None` is `none`. -/
structure Query where
  recordType : RecordType
  request : MediaRequest
  botId : Option String
  itemIndex : Int
  variantId : String
deriving DecidableEq

def identity (c : Settings) (q : Query) : List (String × Value) :=
  [("request", text (requestCacheKey hexdigest (cacheScopeRequest q.request))),
    ("transform", text c.transformVersion),
    ("bot", if q.recordType = .fileId then optional .str q.botId else .scalar .null),
    ("item", .scalar (if q.recordType = .fileId then .int q.itemIndex else .null)),
    ("variant", .scalar (if q.recordType = .signedUrl then .str q.variantId else .null))]

def recordKey (c : Settings) (q : Query) : Except CacheError String :=
  if q.recordType = .fileId ∧ q.botId.getD "" = "" then
    .error (.valueError "Telegram file_id cache keys require bot_id")
  else if q.itemIndex < 0 then .error (.valueError "cache item index must not be negative")
  else
    .ok (c.keyPrefix ++ ":v1:" ++ q.recordType.value ++ ":" ++ hexdigest (dumps (identity hexdigest c q)))

end Keys

section Fields

variable {α : Type} {f : α → Scalar} {fields fields' : List (String × Value)}

end Fields

/-- Equal in every field that affects the output. -/
structure SameOutput (r r' : MediaRequest) : Prop where
  platform : r.platform = r'.platform
  mediaId : r.mediaId = r'.mediaId
  canonicalUrl : r.canonicalUrl = r'.canonicalUrl
  kind : r.kind = r'.kind
  quality : r.quality = r'.quality
  audioFormat : r.audioFormat = r'.audioFormat
  audioLanguage : r.audioLanguage = r'.audioLanguage
  clip : r.clip = r'.clip
  albumSelection : r.albumSelection = r'.albumSelection
  watermarkAllowed : r.watermarkAllowed = r'.watermarkAllowed
  isExact : r.isExact = r'.isExact
  outputVariant : r.outputVariant = r'.outputVariant

section Requests

variable {hexdigest : String → String} {r r' : MediaRequest}

theorem SameOutput.symm (h : SameOutput r r') : SameOutput r' r :=
  ⟨h.platform.symm, h.mediaId.symm, h.canonicalUrl.symm, h.kind.symm, h.quality.symm,
    h.audioFormat.symm, h.audioLanguage.symm, h.clip.symm, h.albumSelection.symm,
    h.watermarkAllowed.symm, h.isExact.symm, h.outputVariant.symm⟩

theorem SameOutput.trans {r'' : MediaRequest} (h : SameOutput r r') (h' : SameOutput r' r'') :
    SameOutput r r'' :=
  ⟨h.platform.trans h'.platform, h.mediaId.trans h'.mediaId, h.canonicalUrl.trans h'.canonicalUrl,
    h.kind.trans h'.kind, h.quality.trans h'.quality, h.audioFormat.trans h'.audioFormat,
    h.audioLanguage.trans h'.audioLanguage, h.clip.trans h'.clip,
    h.albumSelection.trans h'.albumSelection, h.watermarkAllowed.trans h'.watermarkAllowed,
    h.isExact.trans h'.isExact, h.outputVariant.trans h'.outputVariant⟩

end Requests

section RecordKeys

variable {hexdigest : String → String} {c c' : Settings} {q q' : Query} {k k' : String}

end RecordKeys

end YtdlBot.MediaCache
