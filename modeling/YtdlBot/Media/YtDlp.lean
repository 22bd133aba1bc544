import Mathlib.Data.List.Sort
import YtdlBot.Framework.Fallible
import YtdlBot.Framework.Urls
import YtdlBot.Media.Materialize
import YtdlBot.Media.Times

/-!
# yt-dlp

`YtDlpProvider._candidates`: the formats of an extraction that come over HTTP become candidates,
alone or as a video with a sound. What `str` makes of a value that is no text is a parameter, and
so is the Unicode database.
-/

namespace YtdlBot.Media.YtDlp

open Framework Framework.Doubles Framework.Percent Framework.Urls
open Gallery (Json Fields GalleryError get)
open MediaCache (MediaKind MediaRequest)
open Materialize (shortEdge youtubeShortDefaultVariant)

abbrev Value := Json Double

abbrev Format := Fields Double

section Values

/-- What a number stands for, whatever its type. -/
def numeric : Value → Option Double
  | .bool b => some (.finite (if b then 1 else 0))
  | .int n => some (.finite n)
  | .float x => some x
  | _ => none

mutual

/-- `a == b`; the NaNs of a decoded text are one object. -/
def equal : Value → Value → Bool
  | .null, .null => true
  | .str a, .str b => a = b
  | .array as, .array bs => equalAll as bs
  | .object fields, .object others => fields.length = others.length && equalFields fields others
  | a, b => (numeric a).isSome && numeric a = numeric b

def equalAll : List Value → List Value → Bool
  | [], [] => true
  | a :: as, b :: bs => equal a b && equalAll as bs
  | _, _ => false

/-- Each field is among the others. -/
def equalFields : Format → Format → Bool
  | [], _ => true
  | (name, value) :: fields, others =>
    (match others.lookup name with
      | some other => equal value other
      | none => false) && equalFields fields others

end

def truthy : Value → Bool
  | .null => false
  | .bool b => b
  | .int n => n ≠ 0
  | .float x => x ≠ .finite 0
  | .str text => text ≠ ""
  | .array values => !values.isEmpty
  | .object fields => !fields.isEmpty

def isText (value : Value) (text : String) : Bool :=
  match value with
  | .str other => other = text
  | _ => false

variable (repr : Value → String) (U : Unicode)

/-- `str(value)` -/
def str : Value → String
  | .str text => text
  | value => repr value

/-- `value or None` of a text. -/
def given (text : Option String) : Option String := text.filter fun text => text ≠ ""

/-- `_number`; a number beyond the doubles is an `OverflowError`. -/
def number : Value → Except GalleryError (Option Double)
  | .bool b => .ok (some (.finite (if b then 1 else 0)))
  | .int n =>
    match toDouble n with
    | some r => .ok (some (.finite r))
    | none => .error .other
  | .float x => .ok (some x)
  | .str text => .ok (Times.float text.toList)
  | .null | .array _ | .object _ => .ok none

/-- `_integer` -/
def integer (value : Value) : Except GalleryError (Option Int) := do
  match ← number value with
  | none => pure none
  | some (.finite q) => pure (some (q.num.tdiv q.den))
  | some _ => .error .other

/-- `_codec` -/
def codec (fmt : Format) (key : String) : Option String :=
  let value := get fmt key
  if truthy value ∧ !isText value "none" then some (str repr value) else none

/-- `"original" in str(value or "").lower()`: a container is written with all its texts. -/
def mentionsOriginal : Value → Bool
  | .str text => (U.lower text.toList).tails.any ("original".toList.isPrefixOf ·)
  | .array values => any values
  | .object fields => anyField fields
  | _ => false
where
  any : List Value → Bool
    | [] => false
    | value :: values => mentionsOriginal value || any values
  anyField : Format → Bool
    | [] => false
    | (name, value) :: fields =>
      (U.lower name.toList).tails.any ("original".toList.isPrefixOf ·) ||
        mentionsOriginal value || anyField fields

/-- `a < b` of two numbers. -/
def less : Double → Double → Bool
  | .finite a, .finite b => a < b
  | .infinite a, .infinite b => a && !b
  | .infinite a, .finite _ => a
  | .finite _, .infinite b => !b
  | _, _ => false

end Values

section Formats

variable (repr : Value → String) (U : Unicode)

/-- The elements that a fallible test keeps. -/
def keep {α ε : Type} (test : α → Except ε Bool) : List α → Except ε (List α)
  | [] => .ok []
  | x :: xs => do
    let kept ← test x
    let rest ← keep test xs
    pure (if kept then x :: rest else rest)

/-- `fmt.get("url") and fmt.get("protocol", "https") in {"http", "https"}`; a container has no
hash. -/
def downloadable (fmt : Format) : Except GalleryError Bool :=
  if !truthy (get fmt "url") then .ok false
  else
    match fmt.lookup "protocol" with
    | none => .ok true
    | some (.str protocol) => .ok (protocol = "http" || protocol = "https")
    | some (.array _) | some (.object _) => .error .other
    | some _ => .ok false

/-- Only a dictionary has `get`. -/
def dictionary : Value → Except GalleryError Format
  | .object fields => .ok fields
  | _ => .error .other

/-- `info.get("formats", [])` as it is iterated. -/
def entries (info : Format) : Except GalleryError (List Format) :=
  match info.lookup "formats" with
  | none | some (.object []) | some (.str "") => .ok []
  | some (.array values) => values.mapM dictionary
  | some _ => .error .other

/-- The formats over HTTP; an extraction without any is a format itself. -/
def formats (info : Format) : Except GalleryError (List Format) := do
  let found ← keep downloadable (← entries info)
  if found ≠ [] then pure found
  else keep downloadable [info]

/-- `(_number(value) or 0) >= 10` -/
def atLeastTen (value : Option Double) : Bool := !less (value.getD (.finite 0)) (.finite 10) &&
  value ≠ some .nan

/-- The track is marked as the original. -/
def isOriginal (fmt : Format) : Except GalleryError Bool := do
  let preference ← number (get fmt "language_preference")
  pure (atLeastTen preference || mentionsOriginal U (get fmt "format_note"))

/-- The formats that a candidate may take its sound from. -/
def sounds (request : MediaRequest) (formats : List Format) : Except GalleryError (List Format) :=
  let audio := formats.filter fun fmt => (codec repr fmt "acodec").isSome
  match given request.audioLanguage with
  | some language => .ok (audio.filter fun fmt => isText (get fmt "language") language)
  | none =>
    if request.platform = "youtube" then do
      let original ← keep (isOriginal U) audio
      pure (if original ≠ [] then original else audio)
    else .ok audio

/-- The key by which sounds are sorted. -/
def soundKey (fmt : Format) : Except GalleryError (Bool × Double) := do
  let bitrate ← number (get fmt "abr")
  pure (isText (get fmt "vcodec") "none", bitrate.getD (.finite 0))

/-- `a < b` of two keys. -/
def soundKeyLess (a b : Bool × Double) : Bool :=
  if a.1 = b.1 then less a.2 b.2 else !a.1 && b.1

/-- `audio.sort(…, reverse=True)` -/
def sortSounds (audio : List Format) : Except GalleryError (List Format) := do
  let keyed ← audio.mapM fun fmt => (soundKey fmt).map fun key => (key, fmt)
  pure ((keyed.insertionSort fun a b => soundKeyLess a.1 b.1 = false).map Prod.snd)

/-- `d[name] = value` -/
def setField (fields : Format) (name : String) (value : Value) : Format :=
  if fields.any fun field => field.1 = name then
    fields.map fun field => if field.1 = name then (name, value) else field
  else fields ++ [(name, value)]

/-- `value or {}` where a mapping is unpacked. -/
def mapping (value : Value) : Except GalleryError Format :=
  if truthy value then dictionary value else .ok []

/-- A text, or no value. -/
def optionalText : Value → Option String
  | .null => none
  | value => some (str repr value)

def httpChunkSize (fmt : Format) : Option Int :=
  match get fmt "downloader_options" with
  | .object options =>
    match get options "http_chunk_size" with
    | .int size => if 0 < size ∧ size ≤ 10 * 1024 * 1024 then some size else none
    | _ => none
  | _ => none

/-- `_source` -/
def source (info fmt : Format) : Except GalleryError (MediaSource Double) := do
  let url := str repr (get fmt "url")
  match urlsplit U url.toList with
  | none => .error .other
  | some split =>
    let expiry : Value :=
      match (parseQsl false split.query).lookup "expire".toList with
      | none => .null
      | some text => .str (String.ofList text)
    let infoHeaders ← mapping (get info "http_headers")
    let ownHeaders ← mapping (get fmt "http_headers")
    let headers := ownHeaders.foldl (fun headers field => setField headers field.1 field.2) infoHeaders
    let size ← integer (get fmt "filesize")
    let expiresAt ← number expiry
    pure {
      formatId := if truthy (get fmt "format_id") then str repr (get fmt "format_id") else "best"
      url := url
      videoCodec := codec repr fmt "vcodec"
      audioCodec := codec repr fmt "acodec"
      container := optionalText repr (get fmt "ext")
      filesizeBytes := size
      expiresAt := expiresAt
      httpHeaders := headers.map fun field => (field.1, str repr field.2)
      proxyKey := none
      httpChunkSize := httpChunkSize fmt }

end Formats

section Candidates

variable (repr : Value → String) (U : Unicode)

def providerName : String := "ytdlp"

/-- `text.startswith(starts)` -/
def startsWith (starts : List String) (text : String) : Bool :=
  starts.any fun start => start.toList.isPrefixOf text.toList

/-- `str(fmt.get(key, ""))` -/
def codecText (fmt : Format) (key : String) : String :=
  match fmt.lookup key with
  | none => ""
  | some value => str repr value

/-- `_mp4_compatible` -/
def mp4Compatible (video audio : Format) : Bool :=
  startsWith ["avc", "h264"] (codecText repr video "vcodec") &&
    startsWith ["mp4a", "aac"] (codecText repr audio "acodec")

/-- `None if is_audio else _integer(value)` -/
def shownEdge (request : MediaRequest) (value : Value) : Except GalleryError (Option Int) :=
  if request.kind = .audio then .ok none else integer value

/-- `_candidate` -/
def candidate (request : MediaRequest) (info primary : Format) (audio : Option Format) :
    Except GalleryError (MediaCandidate Double) := do
  let sources ← (primary :: audio.toList).mapM (source repr U info)
  let variant := "+".intercalate (sources.map MediaSource.formatId)
  let sound := audio.getD primary
  let language := get sound "language"
  let isAudio : Bool := request.kind = .audio
  let isAnimation : Bool := request.kind = .animation
  let mp3 : Bool := isAudio && (request.audioFormat = none || request.audioFormat = some "mp3")
  let size := if sources.all fun source => source.filesizeBytes.isSome then
      some (sources.map fun source => source.filesizeBytes.getD 0).sum
    else none
  let container :=
    if mp3 then some "mp3"
    else if isAnimation then some "mp4"
    else
      match audio with
      | none => optionalText repr (get primary "ext")
      | some audio =>
        if mp4Compatible repr primary audio then optionalText repr (get primary "ext")
        else some "mkv"
  let width ← shownEdge request (get primary "width")
  let height ← shownEdge request (get primary "height")
  let duration ← number (get info "duration")
  let soundFormat := if truthy (get sound "ext") then get sound "ext" else get sound "acodec"
  pure {
    candidateId := variant
    url := request.canonicalUrl
    width := width
    height := height
    hasVideo := !isAudio
    hasAudio := !isAnimation
    audioFormats := if mp3 then ["mp3"] else [str repr soundFormat]
    audioLanguages := if truthy language then [str repr language] else []
    container := container
    filesizeBytes := if mp3 then none else size
    durationSeconds := duration
    sources := sources
    complete := true
    muxMode :=
      if mp3 then some "extract-mp3"
      else if isAnimation then some "mute-mp4"
      else if audio.isSome then some "copy"
      else none
    refresh := some ⟨providerName, request.mediaId, variant, 1⟩
    provider := some providerName
    mediaId := some request.mediaId
    kind := some (if isAudio then .audio else if isAnimation then .animation else .video)
    items := []
    authScope := request.authScope
    watermarkFree := none }

/-- `text.lower()` of an optional text. -/
def lowered (text : Option String) : String := String.ofList (U.lower (text.getD "").toList)

/-- `_candidate_is_mp4_compatible` -/
def isMp4Compatible (candidate : MediaCandidate Double) : Bool :=
  lowered U candidate.container = "mp4" &&
    (candidate.sources.any fun source => startsWith ["avc", "h264"] (lowered U source.videoCodec)) &&
    candidate.sources.any fun source => startsWith ["mp4a", "aac"] (lowered U source.audioCodec)

def youtubeCommandDefaultVariant : String := "youtube-command-default"

def fastCommandMaxEdge : Int := 1080

/-- `_candidate_sort_key` -/
def candidateSortKey (request : MediaRequest) (candidate : MediaCandidate Double) : List Int :=
  let edge := shortEdge candidate
  let compatible : Int := if isMp4Compatible U candidate then 1 else 0
  let ready : Int := if candidate.muxMode = none ∧ candidate.sources.length = 1 then 1 else 0
  if request.platform = "youtube" ∧ request.outputVariant = some youtubeShortDefaultVariant ∧
      request.quality.maxEdge = none then
    let preference : Int :=
      if edge = 720 then 4
      else if edge = 1080 then 3
      else if 720 < edge ∧ edge < 1080 then 2
      else if 1080 < edge then 1
      else 0
    let resolutionOrder := if edge ≤ 1080 then edge else -edge
    [preference, resolutionOrder, compatible, ready]
  else if ¬ (request.kind = .video ∧ request.outputVariant = some youtubeCommandDefaultVariant ∧
      request.quality.maxEdge = none) then [edge]
  else if 0 < edge ∧ edge ≤ fastCommandMaxEdge then [2, edge, compatible, ready]
  else if fastCommandMaxEdge < edge then [1, -edge, compatible, ready]
  else [0, 0, compatible, ready]

/-- The edge that the request insists on; zero is none. -/
def requiredEdge (request : MediaRequest) : Option Int :=
  request.quality.maxEdge.filter fun edge => edge ≠ 0

/-- The candidates of one video: alone, or with each sound. -/
def videoCandidates (request : MediaRequest) (info : Format) (audio : List Format)
    (video : Format) : Except GalleryError (List (MediaCandidate Double)) :=
  if codec repr video "vcodec" = none then .ok []
  else do
    let width ← integer (get video "width")
    let height ← integer (get video "height")
    if (requiredEdge request).any fun edge => min (width.getD 0) (height.getD 0) ≠ edge then
      pure []
    else if request.kind = .animation ∨
        audio.any fun sound => equal (.object sound) (.object video) then do
      let alone ← candidate repr U request info video none
      pure [alone]
    else if codec repr video "acodec" = none then
      (audio.filter fun sound => codec repr sound "vcodec" = none).mapM fun sound =>
        candidate repr U request info video (some sound)
    else pure []

/-- The candidates of an audio request. -/
def audioCandidates (request : MediaRequest) (info : Format) (audio : List Format) :
    Except GalleryError (List (MediaCandidate Double)) := do
  let found ← audio.mapM fun fmt => candidate repr U request info fmt none
  pure (found.filter fun candidate =>
    (given request.audioFormat).all fun format => format ∈ candidate.audioFormats)

/-- `_candidates` -/
def candidates (request : MediaRequest) (info : Format) :
    Except GalleryError (List (MediaCandidate Double)) :=
  if truthy (get info "is_live") ∨ isText (get info "live_status") "is_live" then
    .error (.provider .permanent "active live stream")
  else do
    let found ← formats info
    let audio ← sortSounds (← sounds repr U request found)
    if request.kind = .audio then audioCandidates repr U request info audio
    else do
      let built ← found.mapM (videoCandidates repr U request info audio)
      pure (built.flatten.insertionSort fun a b =>
        ¬ candidateSortKey U request a < candidateSortKey U request b)

end Candidates

end YtdlBot.Media.YtDlp
