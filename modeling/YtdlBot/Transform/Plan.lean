import Mathlib.Algebra.Order.Floor.Ring
import Mathlib.Tactic.Linarith
import Mathlib.Tactic.NormNum
import YtdlBot.Media.Candidates
import YtdlBot.Transport.Headers

/-!
# Transform plans

A candidate that is muxed, muted, converted or clipped goes through one `ffmpeg` command. What the
command asks for is read off its options.
-/

namespace YtdlBot.Transform

open Media
open Transport (lower)

/-- A clip in seconds. -/
structure ClipInterval (τ : Type) [LE τ] [Zero τ] where
  startSeconds : Option τ
  endSeconds : Option τ
  start_nonneg : ∀ start ∈ startSeconds, 0 ≤ start
  end_nonneg : ∀ finish ∈ endSeconds, 0 ≤ finish
  ordered : ∀ start ∈ startSeconds, ∀ finish ∈ endSeconds, start ≤ finish

/-- What plan and check read of a request. -/
structure MediaRequest (τ : Type) [LE τ] [Zero τ] where
  mediaId : String
  kind : MediaCache.MediaKind
  clip : ClipInterval τ
  audioFormat : Option String

/-- A decimal number, without a fraction or with six places. -/
inductive Numeral where
  | units (n : Int)
  | millionths (n : Int)
deriving DecidableEq

/-- An argument of a command, by its role. -/
inductive Arg where
  | flag (name : String)
  | value (text : String)
  | number (n : Nat)
  | seconds (value : Numeral)
  | path (path : String)
deriving DecidableEq

section Clips

variable {τ : Type} [Field τ] [LinearOrder τ]

scoped instance two_atLeastTwo : Nat.AtLeastTwo 2 := inferInstance

scoped instance sixty_atLeastTwo : Nat.AtLeastTwo 60 := inferInstance

/-- `start or 0` -/
def ClipInterval.start (clip : ClipInterval τ) : τ := clip.startSeconds.getD 0

def clipRequested (request : MediaRequest τ) : Bool :=
  request.clip.startSeconds.isSome || request.clip.endSeconds.isSome

def Numeral.value : Numeral → τ
  | .units n => n
  | .millionths n => n / 1000000

variable [FloorRing τ]

/-- The nearest integer, of two the even one. -/
def roundHalfEven (x : τ) : Int :=
  if x - ⌊x⌋ < 1 / 2 then ⌊x⌋
  else if 1 / 2 < x - ⌊x⌋ then ⌊x⌋ + 1
  else if ⌊x⌋ % 2 = 0 then ⌊x⌋ else ⌊x⌋ + 1

/-- `_format_seconds`: a whole number as such, any other with six places. -/
def formatSeconds (value : τ) : Numeral :=
  if (⌊value⌋ : τ) = value then .units ⌊value⌋
  else .millionths (roundHalfEven (value * 1000000))

/-- The `-ss` of a request, if any. -/
def seekArguments (request : MediaRequest τ) : List Arg :=
  match request.clip.startSeconds with
  | none => []
  | some start => if 0 < start then [.flag "-ss", .seconds (formatSeconds start)] else []

def clipArguments (request : MediaRequest τ) : Except String (List Arg) :=
  match request.clip.endSeconds with
  | none => .ok (seekArguments request)
  | some finish =>
    let duration := finish - request.clip.start
    if duration ≤ 0 then .error "clip interval produced no media"
    else .ok (seekArguments request ++ [.flag "-t", .seconds (formatSeconds duration)])

/-- Telegram animations are silent MP4 files capped at sixty seconds. -/
def animationClipArguments (request : MediaRequest τ) : Except String (List Arg) :=
  let duration := match request.clip.endSeconds with
    | none => 60
    | some finish => min 60 (finish - request.clip.start)
  if duration ≤ 0 then .error "clip interval produced no media"
  else .ok (seekArguments request ++ [.flag "-t", .seconds (formatSeconds duration)])

end Clips

section Commands

variable {τ : Type} (isalnum : Char → Bool)

scoped instance lawfulBEq_names : LawfulBEq (Option String) := inferInstance

/-- The name of the container that a candidate is written to. -/
def containerName (candidate : MediaCandidate τ) : String :=
  String.ofList ((lower (textOr candidate.container "mkv")).dropWhile (· == '.'))

def candidateExtension (candidate : MediaCandidate τ) : Except String String :=
  let container := containerName candidate
  if container = "" ∨ ¬ container.toList.all isalnum ∨ 8 < container.length then
    .error "invalid output container"
  else .ok ("." ++ container)

def ffmpegFormat (extension : String) : String :=
  if extension = ".m4a" then "ipod"
  else if extension = ".mkv" then "matroska"
  else if extension = ".mov" then "mov"
  else String.ofList (extension.toList.dropWhile (· == '.'))

def reencodeArguments (candidate : MediaCandidate τ) (extension : String) : List Arg :=
  if ¬ candidate.hasVideo then
    let audioCodec :=
      if extension = ".flac" then "flac"
      else if extension = ".ogg" ∨ extension = ".opus" then "libopus"
      else if extension = ".wav" then "pcm_s16le"
      else "aac"
    [.flag "-vn", .flag "-c:a", .value audioCodec]
  else if extension = ".webm" then
    [.flag "-c:v", .value "libvpx-vp9"] ++
      if candidate.hasAudio then [.flag "-c:a", .value "libopus"] else [.flag "-an"]
  else if extension = ".gif" then [.flag "-c:v", .value "gif", .flag "-an"]
  else
    [.flag "-c:v", .value "libx264", .flag "-preset", .value "medium"] ++
      if candidate.hasAudio then [.flag "-c:a", .value "aac"] else [.flag "-an"]

variable [Field τ] [LinearOrder τ] [FloorRing τ]

/-- The streams that a command writes. -/
def streamArguments (inputs : List String) (request : MediaRequest τ) (candidate : MediaCandidate τ)
    (mode extension : String) : List Arg :=
  if mode = "extract-mp3" then
    [.flag "-vn", .flag "-c:a", .value "libmp3lame", .flag "-f", .value "mp3"]
  else if mode = "mute-mp4" then
    [.flag "-map", .value "0:v:0", .flag "-an", .flag "-c:v", .value "copy", .flag "-f", .value "mp4"]
  else
    (if inputs.length = 2 then [.flag "-map", .value "0:v:0", .flag "-map", .value "1:a:0"]
      else [.flag "-map", .value "0"]) ++
      (if clipRequested request then reencodeArguments candidate extension
        else [.flag "-c", .value "copy"]) ++
      [.flag "-f", .value (ffmpegFormat extension)]

/-- A command from all inputs to the output. -/
def framed (maxBytes : Nat) (inputs : List String) (output : String) (options : List Arg) : List Arg :=
  [.value "ffmpeg", .flag "-nostdin", .flag "-hide_banner", .flag "-loglevel", .value "error",
      .flag "-y"] ++ inputs.flatMap (fun path => [.flag "-i", .path path]) ++ options ++
    [.flag "-fs", .number maxBytes, .path output]

/-- `_build_transform_command` -/
def buildTransformCommand (maxBytes : Nat) (inputs : List String) (output : String)
    (request : MediaRequest τ) (candidate : MediaCandidate τ) (mode extension : String) :
    Except String (List Arg) := do
  let clipped ←
    (if mode = "mute-mp4" then animationClipArguments request else clipArguments request)
  return framed maxBytes inputs output
    (clipped ++ streamArguments inputs request candidate mode extension)

/-- The command of `_finalize_candidate`; `none` where the downloaded files are final. The output is
named after its extension. -/
def transformPlan (maxBytes : Nat) (inputs : List String) (outputName : String → String)
    (request : MediaRequest τ) (candidate : MediaCandidate τ) : Except String (Option (List Arg)) :=
  let mode := candidate.muxMode
  if mode = none ∧ ¬ clipRequested request then
    if 1 < inputs.length ∧ candidate.items = [] then
      .error "split media candidate omitted a mux plan"
    else .ok none
  else if candidate.items ≠ [] ∧ 1 < inputs.length then
    .error "album transforms require per-item plans"
  else if mode ∉ [none, some "copy", some "extract-mp3", some "mute-mp4"] then
    .error "unsupported media transform plan"
  else if mode = some "extract-mp3" ∧ inputs.length ≠ 1 then
    .error "MP3 extraction requires one source"
  else do
    let extension ←
      (if mode = some "extract-mp3" then .ok ".mp3"
      else if mode = some "mute-mp4" then .ok ".mp4"
      else candidateExtension isalnum candidate)
    let command ← buildTransformCommand maxBytes inputs (outputName extension) request candidate
      (mode.getD "copy") extension
    return some command

end Commands

end YtdlBot.Transform
