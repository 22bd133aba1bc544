import YtdlBot.Transform.Plan

/-!
# Validation of final artifacts

The codecs and the duration that a final artifact is checked for, against what a transform writes.
The other checks, of the streams that have to be there, the picture's size, the container and the
language, are not looked at.
-/

namespace YtdlBot.Transform

open Media
open Transport (lower lowerChar strip)

/-- What `ffprobe` tells of a file: the codec names of its streams, the names of its format, stripped
and in lower case, and the duration of its format. -/
structure Probe (τ : Type) where
  video : List String
  audio : List String
  formatNames : List String
  duration : Option τ

/-- `_normalize_codec` -/
def normalizeCodec (value : String) : String :=
  let codec := String.ofList (((strip value.toList).map lowerChar).takeWhile (· != '.'))
  if codec = "av01" then "av1"
  else if codec = "avc1" then "h264"
  else if codec = "hev1" ∨ codec = "hvc1" then "hevc"
  else if codec = "mp4a" then "aac"
  else if codec = "vp09" then "vp9"
  else codec

section Checks

variable {τ : Type}

/-- `_transcoded_codecs` -/
def transcodedCodecs (candidate : MediaCandidate τ) (outputContainer : String) :
    List String × List String :=
  if ¬ candidate.hasVideo then
    let audioCodec :=
      if outputContainer = "flac" then "flac"
      else if outputContainer = "ogg" ∨ outputContainer = "opus" then "opus"
      else if outputContainer = "wav" then "pcm_s16le"
      else "aac"
    ([], [audioCodec])
  else if outputContainer = "webm" then (["vp9"], if candidate.hasAudio then ["opus"] else [])
  else if outputContainer = "gif" then (["gif"], [])
  else (["h264"], if candidate.hasAudio then ["aac"] else [])

/-- A codec that a source declares. -/
def declaredCodec (codec : Option String) : Option String :=
  codec.filter fun c => c ≠ "" ∧ c ≠ "none"

def declaredCodecs (codec : MediaSource τ → Option String) (sources : List (MediaSource τ)) :
    List String :=
  sources.filterMap fun source => (declaredCodec (codec source)).map normalizeCodec

def checkCodecs (expected actual : List String) (error : String) : Except String Unit :=
  if expected ≠ [] ∧ ¬ expected.any (fun codec => actual.contains codec) then .error error
  else .ok ()

/-- The container that the check goes by. -/
def checkedContainer (candidate : MediaCandidate τ) (item : MediaItem τ) : String :=
  String.ofList (lower (textOr item.container (textOr candidate.container "")))

/-- `_candidate_item` -/
def candidateItem [LE τ] [Zero τ] (request : MediaRequest τ) (candidate : MediaCandidate τ) :
    MediaItem τ where
  mediaId := request.mediaId
  kind :=
    match candidate.kind with
    | none | some .auto | some .album => if request.kind = .audio then .audio else .video
    | some kind => kind
  url := candidate.url
  title := none
  durationSeconds := candidate.durationSeconds
  width := candidate.width
  height := candidate.height
  container := candidate.container
  filesizeBytes := candidate.filesizeBytes

def expectedItems [LE τ] [Zero τ] (request : MediaRequest τ) (candidate : MediaCandidate τ) :
    List (MediaItem τ) :=
  if candidate.items ≠ [] then candidate.items else [candidateItem request candidate]

variable [Field τ] [LinearOrder τ]

/-- `_validate_stream_codecs` -/
def validateStreamCodecs (request : MediaRequest τ) (candidate : MediaCandidate τ) (probe : Probe τ)
    (itemIndex : Nat) (outputContainer : String) : Except String Unit :=
  if candidate.muxMode = some "extract-mp3" then .ok ()
  else do
    let expected :=
      if clipRequested request ∧ candidate.muxMode ≠ some "mute-mp4" then
        transcodedCodecs candidate outputContainer
      else
        let sources :=
          if candidate.items ≠ [] ∧ candidate.sources.length = candidate.items.length then
            (candidate.sources.drop itemIndex).take 1
          else candidate.sources
        (declaredCodecs (·.videoCodec) sources, declaredCodecs (·.audioCodec) sources)
    checkCodecs expected.1 (probe.video.map normalizeCodec) "final video codec does not match"
    checkCodecs expected.2 (probe.audio.map normalizeCodec) "final audio codec does not match"

/-- The duration that an item or its candidate declares. -/
def declaredDuration (candidate : MediaCandidate τ) (item : MediaItem τ) : Option τ :=
  item.durationSeconds <|> candidate.durationSeconds

/-- Telegram animations last at most a minute. -/
def capped (candidate : MediaCandidate τ) (duration : τ) : τ :=
  if candidate.muxMode = some "mute-mp4" then min duration 60 else duration

/-- `_expected_duration` -/
def expectedDuration (request : MediaRequest τ) (candidate : MediaCandidate τ) (item : MediaItem τ) :
    Option τ :=
  (match request.clip.endSeconds with
    | some finish => some (max 0 (finish - request.clip.start))
    | none => (declaredDuration candidate item).map fun duration =>
      max 0 (duration - request.clip.start)).map (capped candidate)

def tolerance (expected : τ) : τ := max (3 / 2) (expected / 20)

/-- `_probe_duration`: a negative duration is none. -/
def probeDuration (probe : Probe τ) : Option τ := probe.duration.filter (0 ≤ ·)

def validateDuration (request : MediaRequest τ) (candidate : MediaCandidate τ) (item : MediaItem τ)
    (probe : Probe τ) : Except String Unit :=
  match expectedDuration request candidate item with
  | none => .ok ()
  | some expected =>
    if (probeDuration probe).any fun actual => |actual - expected| ≤ tolerance expected then .ok ()
    else if clipRequested request then .error "final clip duration does not match"
    else .error "final duration does not match"

def validateAudioFormat (request : MediaRequest τ) (probe : Probe τ) : Except String Unit :=
  if (request.kind = .audio ∧ request.audioFormat = some "mp3") ∧
      ¬ (probe.formatNames.contains "mp3" ∧ (probe.audio.map normalizeCodec).contains "mp3") then
    .error "final artifact is not MP3 audio"
  else .ok ()

/-- How long an animation may be, in seconds. -/
def animationLimit : τ := 121 / 2

def validateAnimation (item : MediaItem τ) (probe : Probe τ) : Except String Unit :=
  if item.kind = .animation then
    if probe.audio ≠ [] then .error "final animation must not contain audio"
    else if (probeDuration probe).all fun duration => animationLimit < duration then
      .error "final animation exceeds the 60 second limit"
    else .ok ()
  else .ok ()

/-- The checks of codecs and durations of `validate_materialized_artifact`, of one artifact. -/
def validateTransformed (request : MediaRequest τ) (candidate : MediaCandidate τ)
    (item : MediaItem τ) (itemIndex : Nat) (probe : Probe τ) : Except String Unit := do
  validateAudioFormat request probe
  validateAnimation item probe
  validateStreamCodecs request candidate probe itemIndex (checkedContainer candidate item)
  validateDuration request candidate item probe

end Checks

section Ffmpeg

variable {τ : Type} [Field τ] [LinearOrder τ]

/-- The argument after a flag. -/
def option (name : String) : List Arg → Option Arg
  | [] => none
  | arg :: rest => if arg = .flag name then rest.head? else option name rest

def secondsOption (name : String) (command : List Arg) : Option τ :=
  (option name command).bind fun
    | .seconds numeral => some numeral.value
    | _ => none

/-- How `ffprobe` names what an encoder writes. -/
def encodedCodec : String → String
  | "libx264" => "h264"
  | "libvpx-vp9" => "vp9"
  | "libopus" => "opus"
  | encoder => encoder

/-- How long the output of a command lasts that reads a source of some length. -/
def cutDuration (command : List Arg) (sourceLength : τ) : τ :=
  let left := max 0 (sourceLength - (secondsOption "-ss" command).getD 0)
  match secondsOption "-t" command with
  | none => left
  | some duration => min duration left

/-- What a command writes by the encoder that it names. -/
def encodedStream : Option Arg → List String
  | some (.value encoder) => [encodedCodec encoder]
  | _ => []

/-- The output of a command, as `ffprobe` sees it; what it calls the format is left open. A copied
picture keeps the codec of the first source, known if that source declares it. -/
structure Produced (candidate : MediaCandidate τ) (command : List Arg) (sourceLength : τ)
    (probe : Probe τ) : Prop where
  encoded : option "-c:v" command ≠ some (.value "copy") →
    probe.video = encodedStream (option "-c:v" command)
  copied : option "-c:v" command = some (.value "copy") → ∃ codec, probe.video = [codec] ∧
    ∀ source ∈ candidate.sources.head?, ∀ declared ∈ declaredCodec source.videoCodec,
      normalizeCodec codec = normalizeCodec declared
  audio : probe.audio = encodedStream (option "-c:a" command)
  duration : probe.duration = some (cutDuration command sourceLength)

end Ffmpeg

end YtdlBot.Transform
