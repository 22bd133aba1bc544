import Mathlib.Data.Finset.Insert
import YtdlBot.Media.Materialize
import YtdlBot.Transport.Ledger

/-!
# Downloads of a candidate

`MediaTransport._download_candidate` with `_stream_source` and `_finalize_candidate`: the files of
its sources and of the transform, their leases and the reservation. What the local file system, the
leases and ffmpeg do is answered by the environment, failures and cancellations included.
-/

namespace YtdlBot.Transport

open Framework
open Media (MediaCandidate MediaSource downloadSources)
open Media.Materialize (declaredSize)

/-- The files of a source go by its number. -/
inductive Name where
  | source (number : Nat)
  | transform
deriving DecidableEq

inductive File where
  /-- `….part` -/
  | part (name : Name)
  | media (name : Name)
deriving DecidableEq

/-- How `_run_transform` ends. -/
inductive Ran where
  | exited (code : Int)
  | timeout
  | failed (error : StreamError)

/-- How `reservation.release()` ends; its task is shielded. Sidecars that another process is changing
are left. -/
inductive Released where
  | released (left : List File)
  | cancelled (left : List File)
  | raised

inductive DownloadEffect where
  /-- What requests, bodies and writes await. -/
  | stream (effect : StreamEffect)
  | reserve (sizeBytes : Int)
  /-- `self.clock() >= deadline` -/
  | late
  /-- `source.expires_at <= time.time()` -/
  | expired (number : Nat)
  | bind (file : File)
  | promote (old new : File)
  | unbind (file : File)
  | unlink (file : File)
  /-- `reservation.ensure` of the transform. -/
  | grow (sizeBytes : Nat)
  | runTransform (inputs : List File) (output : File)
  /-- The bytes of a file, if it is one. -/
  | read (file : File)
  /-- The sum of the sizes of the files. -/
  | stat (files : List File)
  | release

def DownloadEffect.Result : DownloadEffect → Type
  | .stream effect => effect.Result
  | .reserve _ | .grow _ => Reserved
  | .late | .expired _ => Bool
  | .bind _ | .promote _ _ | .unbind _ | .unlink _ => Local
  | .runTransform _ _ => Ran
  | .read _ => Except StreamError (Option (List UInt8))
  | .stat _ => Except StreamError Nat
  | .release => Released

/-- The local variables that the exception handlers read. -/
structure Work where
  hand : Option Opened
  completed : List File
  finalPaths : List File

abbrev Downloading (α : Type) :=
  Guarded Work StreamError DownloadEffect DownloadEffect.Result α

def streaming {α : Type} (x : Streaming α) : Downloading α :=
  Guarded.zoom .stream (fun _ response => response) Work.hand
    (fun hand w => { w with hand := hand }) x

section Local

variable (file : File)

def bindFile : Downloading Unit := Guarded.attempt (.bind file) localResult

def promoteFile (old new : File) : Downloading Unit := Guarded.attempt (.promote old new) localResult

def unbindFile : Downloading Unit := Guarded.attempt (.unbind file) localResult

def unlinkFile : Downloading Unit := Guarded.attempt (.unlink file) localResult

end Local

def lateResult : Bool → Except StreamError Unit
  | true => .error (transferTimeout "materialization deadline exceeded")
  | false => .ok ()

def expiredResult : Bool → Except StreamError Unit
  | true => .error (downloadFailed "media URL expired or denied")
  | false => .ok ()

def grownResult : Reserved → Except StreamError Unit
  | .granted => .ok ()
  | .insufficientDiskSpace => .error .insufficientDiskSpace
  | .timeout => .error (transferTimeout "transform reservation timed out")
  | .cancelled => .error .cancelled
  | .raised => .error .raised

def ranResult : Ran → Except StreamError Int
  | .exited code => .ok code
  | .timeout => .error (transferTimeout "media transform timed out")
  | .failed error => .error error

def releasedResult : Released → Except StreamError Unit
  | .released _ => .ok ()
  | .cancelled _ => .error .cancelled
  | .raised => .error .raised

/-- The `except` clauses around a transform. -/
def transformError : StreamError → StreamError
  | .transfer .valueError | .insufficientDiskSpace | .raised =>
    downloadFailed "media transform failed"
  | error => error

/-- What `_finalize_candidate` takes from the request and the command that is built of it. -/
structure Plan where
  clipRequested : Bool
  extension : Except StreamError Unit
  command : Except StreamError Unit

/-- `MaterializedItem` with its reservation. -/
structure Downloaded where
  paths : List File
  sizeBytes : Nat
  downloadedBytes : Nat

section Downloads

variable {τ : Type} (U : UrlLibrary) (c : Settings) (proxyUrl : String → Option String)

/-- `_stream_source` with its files; it returns the final path and how many bytes were written. -/
def streamFile (rounds number : Nat) (source : MediaSource τ) (alreadyWritten : Nat) :
    Downloading (File × Nat) := do
  let headers ← Guarded.ofExcept (requestHeaders source)
  let (response, _) ← streaming (requesting .cancelled
    (request U c.maxRedirects proxyUrl "GET" source.url headers false source.proxyKey))
  streaming (Guarded.set (some (.response response)))
  let openRange : Int × Int → Streaming Response := fun interval => do
    let (next, _) ← requesting (timedOutIn false)
      (request U c.maxRedirects proxyUrl "GET" source.url
        (openRangeHeaders headers (rangeValidator response) interval) false source.proxyKey)
    pure next
  let partialPath := File.part (.source number)
  let finalPath := File.media (.source number)
  Guarded.tryCatch
    (Guarded.andFinally (do
      bindFile partialPath
      let content ← streaming
        (readSource c openRange rounds alreadyWritten source.httpChunkSize response)
      promoteFile partialPath finalPath
      pure (finalPath, content.length)) (streaming closeOpened))
    fun error => do
      unlinkFile partialPath
      unlinkFile finalPath
      Guarded.raise error

def checkExpired (number : Nat) (source : MediaSource τ) : Downloading Unit :=
  match source.expiresAt with
  | none => pure ()
  | some _ => Guarded.attempt (.expired number) expiredResult

/-- The loop over the sources, the first of which has this number. -/
def fetchSources (rounds : Nat) : Nat → Nat → List (MediaSource τ) → Downloading Nat
  | _, total, [] => pure total
  | number, total, source :: sources => do
    Guarded.attempt .late lateResult
    checkExpired number source
    let _ ← streaming (probe U c proxyUrl rounds source.url source.httpHeaders source.proxyKey)
    let (path, written) ← streamFile U c proxyUrl rounds number source total
    let w ← Guarded.get
    Guarded.set { w with completed := w.completed ++ [path] }
    fetchSources rounds (number + 1) (total + written) sources

def removeInputs : List File → Downloading Unit
  | [] => pure ()
  | path :: paths => do
    unlinkFile path
    unbindFile path
    removeInputs paths

/-- The transform of `_finalize_candidate`, once its partial file is bound. -/
def transform (inputs : List File) : Downloading (List File) := do
  let partialPath := File.part .transform
  let finalPath := File.media .transform
  let paths ← Guarded.tryCatch (do
      let code ← Guarded.attempt (.runTransform inputs partialPath) ranResult
      if code ≠ 0 then Guarded.raise (downloadFailed "media transform failed")
      else do
        match ← Guarded.attempt (.read partialPath) id with
        | none => Guarded.raise (downloadFailed "media transform produced no output")
        | some [] => Guarded.raise (downloadFailed "media transform produced an empty output")
        | some output => do
          Guarded.ofExcept (checkActualSize c output.length)
          Guarded.ofExcept (checkSignature (output.take c.probeBytes) [])
          streaming remaining
          promoteFile partialPath finalPath
          removeInputs inputs
          pure [finalPath])
    fun error => do
      unlinkFile partialPath
      unlinkFile finalPath
      unbindFile partialPath
      unbindFile finalPath
      Guarded.raise (transformError error)
  unlinkFile partialPath
  pure paths

/-- `_finalize_candidate` -/
def finalizeFiles (plan : Plan) (candidate : MediaCandidate τ) (inputs : List File)
    (inputBytes : Nat) : Downloading (List File) :=
  let mode := candidate.muxMode
  if mode = none ∧ !plan.clipRequested then
    if 1 < inputs.length ∧ candidate.items = [] then
      Guarded.raise (downloadFailed "split media candidate omitted a mux plan")
    else pure inputs
  else if candidate.items ≠ [] ∧ 1 < inputs.length then
    Guarded.raise (downloadFailed "album transforms require per-item plans")
  else if !List.contains [none, some "copy", some "extract-mp3", some "mute-mp4"] mode then
    Guarded.raise (downloadFailed "unsupported media transform plan")
  else if mode = some "extract-mp3" ∧ inputs.length ≠ 1 then
    Guarded.raise (downloadFailed "MP3 extraction requires one source")
  else do
    Guarded.ofExcept plan.extension
    streaming remaining
    Guarded.attempt (.grow (inputBytes + c.maxBytes)) grownResult
    bindFile (.part .transform)
    Guarded.ofExcept plan.command
    transform c inputs

def unlinkAll : List File → Downloading Unit
  | [] => pure ()
  | path :: paths => do
    unlinkFile path
    unlinkAll paths

/-- `_download_candidate` -/
def downloadFiles (rounds : Nat) (plan : Plan) (candidate : MediaCandidate τ) :
    Downloading Downloaded := do
  streaming remaining
  streaming remaining
  Guarded.attempt (.reserve ((declaredSize candidate).getD c.maxBytes)) reservedResult
  Guarded.tryCatch (do
    let total ← fetchSources U c proxyUrl rounds 0 0 (downloadSources candidate)
    let w ← Guarded.get
    let paths ← finalizeFiles c plan candidate w.completed total
    let w ← Guarded.get
    Guarded.set { w with finalPaths := paths }
    let size ← Guarded.attempt (.stat paths) id
    Guarded.ofExcept (checkActualSize c size)
    streaming remaining
    pure ⟨paths, size, total⟩)
    fun error => do
      let w ← Guarded.get
      unlinkAll (w.completed ++ w.finalPaths).dedup
      Guarded.attempt .release releasedResult
      Guarded.raise error

end Downloads

end YtdlBot.Transport
