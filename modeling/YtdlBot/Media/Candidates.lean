import YtdlBot.MediaCache.Keys

/-!
# Media candidates

What a provider offers for a request: the items to deliver in their order and the streams to
download. Times are elements of `τ`.
-/

namespace YtdlBot.Media

open MediaCache (MediaKind)

structure MediaItem (τ : Type) where
  mediaId : String
  kind : MediaKind
  url : String
  title : Option String
  durationSeconds : Option τ
  width : Option Int
  height : Option Int
  container : Option String
  filesizeBytes : Option Int
deriving DecidableEq

structure MediaSource (τ : Type) where
  formatId : String
  url : String
  videoCodec : Option String
  audioCodec : Option String
  container : Option String
  filesizeBytes : Option Int
  expiresAt : Option τ
  httpHeaders : List (String × String)
  proxyKey : Option String
  httpChunkSize : Option Int
deriving DecidableEq

structure RefreshDescriptor where
  provider : String
  mediaId : String
  variantId : String
  maxAttempts : Int
deriving DecidableEq

structure MediaCandidate (τ : Type) where
  candidateId : String
  url : String
  width : Option Int
  height : Option Int
  hasVideo : Bool
  hasAudio : Bool
  audioFormats : List String
  audioLanguages : List String
  container : Option String
  filesizeBytes : Option Int
  durationSeconds : Option τ
  sources : List (MediaSource τ)
  complete : Bool
  muxMode : Option String
  refresh : Option RefreshDescriptor
  provider : Option String
  mediaId : Option String
  kind : Option MediaKind
  items : List (MediaItem τ)
  authScope : String
  watermarkFree : Option Bool
deriving DecidableEq

/-- `value or other` of optional texts: an empty text counts as missing. -/
def textOr (value : Option String) (other : String) : String :=
  match value with
  | none => other
  | some text => if text = "" then other else text

section

variable {τ : Type}

/-- The source that a candidate without sources is downloaded by. -/
def plainSource (formatId url : String) (container : Option String) (filesizeBytes : Option Int) :
    MediaSource τ :=
  ⟨formatId, url, none, none, container, filesizeBytes, none, [], none, none⟩

/-- `_download_sources` -/
def downloadSources (candidate : MediaCandidate τ) : List (MediaSource τ) :=
  if candidate.sources ≠ [] then candidate.sources
  else if candidate.items ≠ [] then
    candidate.items.zipIdx.map fun (item, index) =>
      plainSource (toString index) item.url item.container item.filesizeBytes
  else [plainSource candidate.candidateId candidate.url candidate.container candidate.filesizeBytes]

end

end YtdlBot.Media
