import YtdlBot.Framework.Guarded
import YtdlBot.Media.Candidates
import YtdlBot.Media.Times
import YtdlBot.Transport.Request

/-!
# Streams

`MediaTransport.probe` and `_stream_source` with all that they await or call: requests, the chunks
of bodies, disk reservations, writes and local files. What is awaited may be cancelled, a body may
raise anything, and every local call may fail. The state is the response that is closed at the end.
-/

namespace YtdlBot.Transport

open Framework
open Media (MediaSource)
open Media.Times (ascii stripAscii splitSign underscoresValid)

section Checks

/-- `int(text)`; `none` is its `ValueError`. -/
def intOf (text : List Char) : Option Int :=
  let (negative, digits) := splitSign (stripAscii (text.map ascii))
  let number := digits.filter (· ≠ '_')
  if underscoresValid '\x00' digits ∧ number ≠ [] ∧ number.all Char.isDigit then
    (intOfDigits number).map fun n => if negative then -(n : Int) else n
  else none

/-- `_content_length` -/
def contentLength (headers : Headers) : Option Nat :=
  match header headers "content-length" with
  | none | some "" => none
  | some value =>
    match intOf value.toList with
    | some (.ofNat length) => some length
    | _ => none

def bytes (s : String) : List UInt8 := s.toUTF8.toList

/-- `bytes.lower` of one byte. -/
def lowerByte (b : UInt8) : UInt8 := if 0x41 ≤ b ∧ b ≤ 0x5A then b + 0x20 else b

def isSpaceByte (b : UInt8) : Bool := b = 0x20 || (0x09 ≤ b && b ≤ 0x0D)

def magics : List (List UInt8) :=
  [[0x1A, 0x45, 0xDF, 0xA3], [0xFF, 0xD8, 0xFF], [0x89, 0x50, 0x4E, 0x47, 0x0D, 0x0A, 0x1A, 0x0A],
    bytes "GIF87a", bytes "GIF89a", bytes "OggS", bytes "fLaC", bytes "ID3", bytes "BM",
    [0x00, 0x00, 0x01, 0xBA]]

/-- `_has_media_signature` -/
def hasMediaSignature (data : List UInt8) : Bool :=
  (8 ≤ data.length && (data.drop 4).take 4 = bytes "ftyp") ||
    magics.any (fun magic => magic.isPrefixOf data) ||
    (12 ≤ data.length && (bytes "RIFF").isPrefixOf data &&
      (data.drop 8).take 4 ∈ [bytes "AVI ", bytes "WAVE", bytes "WEBP"]) ||
    (match data with
      | first :: second :: _ => first = 0xFF && second &&& 0xE0 = 0xE0
      | _ => false) ||
    data.head? = some 0x47

inductive StreamError where
  /-- A `MaterializationError`, or a `ValueError`. -/
  | transfer (error : TransferError)
  | mediaSizeExceeded (message : String)
  | insufficientDiskSpace
  | cancelled
  /-- What a body, a local file or a date has raised. -/
  | raised
  /-- The run was cut off. -/
  | cutOff
deriving DecidableEq

def downloadFailed (message : String) : StreamError := .transfer (.downloadFailed message)

def transferTimeout (message : String) : StreamError := .transfer (.transferTimeout message)

/-- `_check_signature` -/
def checkSignature (data : List UInt8) (headers : Headers) : Except StreamError Unit :=
  let contentType := lower ((header headers "content-type").getD "")
  let start := ((data.dropWhile isSpaceByte).take 32).map lowerByte
  if data = [] then .error (downloadFailed "media probe was empty")
  else if contentType.tails.any ("text/html".toList.isPrefixOf ·) ∨
      (bytes "<!doctype").isPrefixOf start ∨ (bytes "<html").isPrefixOf start then
    .error (downloadFailed "media probe returned HTML")
  else if !hasMediaSignature data then
    .error (downloadFailed "media probe returned an unknown container signature")
  else .ok ()

/-- The settings of the transport that are read. -/
structure Settings where
  maxBytes : Nat
  probeBytes : Nat
  maxRedirects : Nat

variable (c : Settings)

/-- `_check_actual_size` -/
def checkActualSize (size : Nat) : Except StreamError Unit :=
  if c.maxBytes < size then .error (.mediaSizeExceeded "streamed media exceeds configured limit")
  else .ok ()

end Checks

section Effects

/-- How an awaited step ends; `timedOut` is the timeout around a chunk that it belongs to. -/
inductive Awaited (ρ : Type) where
  | answered (response : ρ)
  | cancelled
  | timedOut

/-- How the next chunk of a body ends, its timeout included. -/
inductive Chunk where
  | data (bytes : List UInt8)
  | finished
  | timeout
  | materializationError (error : TransferError)
  | cancelled
  | raised

/-- How a reservation on disk ends, its timeout included. -/
inductive Reserved where
  | granted
  | insufficientDiskSpace
  | timeout
  | cancelled
  /-- The free space could not be asked for. -/
  | raised

inductive Written where
  | written
  | timeout
  | cancelled
  | raised

/-- How a call of the file system or of the reservation ends. -/
inductive Local where
  | done
  /-- `OSError`, or a `LeaseOwnershipError`. -/
  | raised
  /-- Raised when what the call is for was done. -/
  | torn

/-- The calls for the file of a source. -/
inductive FileCall where
  | bind
  | open
  | close
  | promote
  | unlinkPartial
  | unlinkFinal

/-- How `parsedate_to_datetime(value).timestamp() - time.time()` ends. -/
inductive DateDelay where
  | seconds (delay : ℚ)
  | typeError
  | valueError
  | overflowError
  /-- `timestamp` of a date that the C library cannot convert. -/
  | osError

/-- How the closing of joined ranges ends that have no response open. -/
inductive Closed where
  | closed
  | timeout
  | cancelled

inductive StreamEffect where
  | request (effect : RequestEffect)
  | chunk (response : Response)
  | ensure (size : Nat)
  | write (data : List UInt8)
  | file (call : FileCall)
  | retryDate (value : String)
  | closeEnded

def StreamEffect.Result : StreamEffect → Type
  | .request effect => Awaited effect.Result
  | .chunk _ => Chunk
  | .ensure _ => Reserved
  | .write _ => Written
  | .file _ => Local
  | .retryDate _ => DateDelay
  | .closeEnded => Closed

/-- The response in hand: one of the server, or joined ranges. -/
inductive Opened where
  | response (response : Response)
  | ranges (ranges : RangeResponse)
deriving DecidableEq

def Opened.statusCode : Opened → Nat
  | response r => r.statusCode
  | ranges s => s.statusCode

def Opened.headers : Opened → Headers
  | response r => r.headers
  | ranges s => s.headers

abbrev Streaming (α : Type) :=
  Guarded (Option Opened) StreamError StreamEffect StreamEffect.Result α

def answer (timedOut : StreamError) (effect : RequestEffect) : Streaming effect.Result :=
  Guarded.attempt (.request effect) fun
    | .answered response => .ok response
    | .cancelled => .error .cancelled
    | .timedOut => .error timedOut

/-- A step of a request; outside of chunks nothing but a cancellation interrupts it. -/
def requesting {α : Type} (timedOut : StreamError) (p : Requesting α) : Streaming α :=
  Guarded.embed (answer timedOut) .transfer p

def remaining : Streaming Unit := requesting .cancelled checkRemaining

def chunkResult (timedOut : StreamError) : Chunk → Except StreamError (Option (List UInt8))
  | .data bytes => .ok (some bytes)
  | .finished => .ok none
  | .timeout => .error timedOut
  | .materializationError error => .error (.transfer error)
  | .cancelled => .error .cancelled
  | .raised => .error .raised

def reservedResult : Reserved → Except StreamError Unit
  | .granted => .ok ()
  | .insufficientDiskSpace => .error .insufficientDiskSpace
  | .timeout => .error (transferTimeout "disk reservation timed out")
  | .cancelled => .error .cancelled
  | .raised => .error .raised

def writtenResult : Written → Except StreamError Unit
  | .written => .ok ()
  | .timeout => .error (transferTimeout "media write timed out")
  | .cancelled => .error .cancelled
  | .raised => .error .raised

def localResult : Local → Except StreamError Unit
  | .done => .ok ()
  | .raised | .torn => .error .raised

def fileCall (call : FileCall) : Streaming Unit := Guarded.attempt (.file call) localResult

/-- The handlers of `parse_retry_after` around a date. -/
def dateDelay : DateDelay → Except StreamError (Option ℚ)
  | .seconds delay => .ok (some (max 0 delay))
  | .typeError | .valueError | .overflowError => .ok none
  | .osError => .error .raised

/-- `parse_retry_after` -/
def parseRetryAfter (headers : Headers) : Streaming (Option ℚ) :=
  match header headers "retry-after" with
  | none | some "" => pure none
  | some value =>
    match Media.Times.float value.toList with
    | some delay => pure (delay.rational.map (max 0))
    | none => Guarded.attempt (.retryDate value) dateDelay

/-- `_check_response` -/
def checkResponse (c : Settings) (statusCode : Nat) (headers : Headers) : Streaming Unit :=
  if statusCode ∈ [401, 403, 404, 410] then
    Guarded.raise (downloadFailed "media URL expired or denied")
  else if statusCode = 429 ∨ 500 ≤ statusCode then do
    let retryAfter ← parseRetryAfter headers
    Guarded.raise (.transfer (.downloadFailed "media source temporarily unavailable" retryAfter))
  else if statusCode ≠ 200 ∧ statusCode ≠ 206 then
    Guarded.raise (downloadFailed "unexpected media response")
  else
    match contentLength headers with
    | some declared => Guarded.ofExcept (checkActualSize c declared)
    | none => pure ()

def closedResult : Closed → Except StreamError Unit
  | .closed => .ok ()
  | .timeout => .error (transferTimeout "media response cleanup timed out")
  | .cancelled => .error .cancelled

/-- `_close_response` of the response in hand. -/
def closeOpened : Streaming Unit := do
  match ← Guarded.get with
  | none => pure ()
  | some (.response response) =>
    requesting .cancelled (Program.attempt (.closeResponse response) id)
  | some (.ranges s) =>
    match s.active with
    | none => Guarded.attempt .closeEnded closedResult
    | some p => do
      Guarded.set (some (.ranges s.closeActive))
      requesting .cancelled (Program.attempt (.closeResponse p.response) id)

end Effects

section Ranges

def failureError : Failure → StreamError
  | .downloadFailed message => downloadFailed message
  | .valueError => .transfer .valueError
  | .raised => .raised

/-- The response that is read: the one of the server, or the ranges that it begins. -/
def joined (rangeSize : Option Int) (response : Response) : Except StreamError Opened :=
  match rangeSize with
  | none => .ok (.response response)
  | some size =>
    match (RangeResponse.init size response).phase with
    | .ended (.failed failure) => .error (failureError failure)
    | _ => .ok (.ranges (RangeResponse.init size response))

/-- Keep the ranges in hand; the iteration raises what they have failed with. -/
def keep (s : RangeResponse) : Streaming Unit := do
  Guarded.set (some (.ranges s))
  match s.phase with
  | .ended (.failed failure) => Guarded.raise (failureError failure)
  | _ => pure ()

/-- The first step of `iter_bytes`. -/
def begun (s : RangeResponse) : RangeResponse :=
  match s.phase, s.active with
  | .fresh, some p =>
    if s.statusCode ≠ 206 then { s with phase := .passing } else s.enter p.response 0
  | _, _ => s

/-- `iter_bytes` of joined ranges up to its next chunk; `openRange` is `open_range`. -/
def readRange (openRange : Int × Int → Streaming Response) (timedOut : StreamError) :
    Nat → RangeResponse → Streaming (Option (List UInt8))
  | 0, _ => Guarded.raise .cutOff
  | rounds + 1, s =>
    match s.active with
    | none => pure none
    | some p => do
      match ← Guarded.attempt (.chunk p.response) (chunkResult timedOut) with
      | some bytes => do
        keep (s.chunk p bytes)
        pure (some bytes)
      | none => do
        let s := s.bodyEnd p
        keep s
        match s.phase with
        | .closing offset total => do
          requesting timedOut (Program.attempt (.closeResponse p.response) id)
          if total ≤ offset then do
            Guarded.set (some (.ranges { s with phase := .ended .finished }))
            pure none
          else do
            let interval : Int × Int := (offset, min ((total : Int) - 1) (offset + s.rangeSize - 1))
            let s := { s with requests := s.requests ++ [interval], phase := .opening offset }
            Guarded.set (some (.ranges s))
            let response ← openRange interval
            let s := { s with active := some ⟨response, [], false, 0⟩ }.enter response offset
            keep s
            readRange openRange timedOut rounds s
        | _ => pure none

/-- `anext(iterator)` of the response in hand. -/
def nextChunk (openRange : Int × Int → Streaming Response) (timedOut : StreamError)
    (rounds : Nat) : Streaming (Option (List UInt8)) := do
  match ← Guarded.get with
  | none => pure none
  | some (.response response) => Guarded.attempt (.chunk response) (chunkResult timedOut)
  | some (.ranges s) => do
    keep (begun s)
    readRange openRange timedOut rounds (begun s)

end Ranges

section Transfers

variable {τ : Type} (U : UrlLibrary) (c : Settings) (proxyUrl : String → Option String)

def probeHeaders (headers : Headers) : Headers :=
  headers.foldl (fun headers field => setField headers field.1 field.2)
    [("Accept", "*/*"), ("Range", "bytes=0-" ++ toString (c.probeBytes - 1)),
      ("User-Agent", "ytdlbot/2.0")]

/-- The loop of `probe`; a run is cut off after this many rounds. -/
def probeLoop (response : Response) : Nat → List UInt8 → Streaming (List UInt8)
  | 0, _ => Guarded.raise .cutOff
  | rounds + 1, data =>
    if c.probeBytes ≤ data.length then pure data
    else do
      remaining
      match ← Guarded.attempt (.chunk response)
        (chunkResult (transferTimeout "media probe made no progress")) with
      | none => pure data
      | some bytes => probeLoop response rounds (data ++ bytes.take (c.probeBytes - data.length))

/-- `MediaTransport.probe` -/
def probe (rounds : Nat) (url : String) (headers : Headers) (proxyKey : Option String) :
    Streaming (List UInt8) := do
  remaining
  let (response, _) ← requesting .cancelled
    (request U c.maxRedirects proxyUrl "GET" url (probeHeaders c headers) false proxyKey)
  Guarded.set (some (.response response))
  Guarded.andFinally (do
    checkResponse c response.statusCode response.headers
    let data ← probeLoop c response rounds []
    Guarded.ofExcept (checkSignature data response.headers)
    pure data) closeOpened

def streamHeaders (httpHeaders : Headers) : Headers :=
  httpHeaders.foldl (fun headers field => setField headers field.1 field.2)
    [("Accept", "*/*"), ("User-Agent", "ytdlbot/2.0")]

/-- The headers of the first request, or the refusal of the range size. -/
def requestHeaders (source : MediaSource τ) : Except StreamError Headers :=
  match source.httpChunkSize with
  | none => .ok (streamHeaders source.httpHeaders)
  | some size =>
    if 0 < size ∧ size ≤ 10 * 1024 * 1024 then .ok (sourceHeaders source.httpHeaders size.toNat)
    else .error (downloadFailed "media HTTP range size is invalid")

def timedOutIn (first : Bool) : StreamError :=
  transferTimeout (if first then "media first byte timed out" else "media stream progress timed out")

/-- The loop of `_stream_source`; a run is cut off after this many rounds. -/
def streamLoop (openRange : Int × Int → Streaming Response) (alreadyWritten : Nat) :
    Nat → List UInt8 → Streaming (List UInt8)
  | 0, _ => Guarded.raise .cutOff
  | rounds + 1, content => do
    remaining
    match ← nextChunk openRange (timedOutIn (content = [])) (rounds + 1) with
    | none => pure content
    | some [] => streamLoop openRange alreadyWritten rounds content
    | some (first :: rest) => do
      let content := content ++ first :: rest
      Guarded.ofExcept (checkActualSize c (alreadyWritten + content.length))
      remaining
      Guarded.attempt (.ensure (alreadyWritten + content.length)) reservedResult
      remaining
      Guarded.attempt (.write (first :: rest)) writtenResult
      streamLoop openRange alreadyWritten rounds content

/-- The declared length counts for bodies that are sent as they are. -/
def isTruncated (opened : Opened) (length : Nat) : Bool :=
  match contentLength opened.headers, header opened.headers "content-encoding" with
  | none, _ => false
  | some declared, none => length ≠ declared
  | some declared, some encoding =>
    (strip encoding.toList).map lowerChar = "identity".toList && length ≠ declared

/-- A declared length is checked and reserved before the body is read. -/
def reserveDeclared (alreadyWritten : Nat) (opened : Opened) : Streaming Unit :=
  match contentLength opened.headers with
  | none => pure ()
  | some declared => do
    Guarded.ofExcept (checkActualSize c (alreadyWritten + declared))
    remaining
    Guarded.attempt (.ensure (alreadyWritten + declared)) reservedResult

/-- `_stream_source` behind the opening of its first response. -/
def readSource (openRange : Int × Int → Streaming Response) (rounds alreadyWritten : Nat)
    (rangeSize : Option Int) (response : Response) : Streaming (List UInt8) := do
  let opened ← Guarded.ofExcept (joined rangeSize response)
  Guarded.set (some opened)
  checkResponse c opened.statusCode opened.headers
  reserveDeclared c alreadyWritten opened
  fileCall .open
  let content ← Guarded.andFinally (streamLoop c openRange alreadyWritten rounds [])
    (fileCall .close)
  if content = [] then Guarded.raise (downloadFailed "media response was empty")
  else if isTruncated opened content.length then
    Guarded.raise (downloadFailed "media response was truncated")
  else do
    Guarded.ofExcept (checkSignature (content.take c.probeBytes) opened.headers)
    remaining
    pure content

/-- `_stream_source`; it returns what the file has been written with. -/
def streamSource (rounds : Nat) (source : MediaSource τ) (alreadyWritten : Nat) :
    Streaming (List UInt8) := do
  let headers ← Guarded.ofExcept (requestHeaders source)
  let (response, _) ← requesting .cancelled
    (request U c.maxRedirects proxyUrl "GET" source.url headers false source.proxyKey)
  Guarded.set (some (.response response))
  let openRange : Int × Int → Streaming Response := fun interval => do
    let (next, _) ← requesting (timedOutIn false)
      (request U c.maxRedirects proxyUrl "GET" source.url
        (openRangeHeaders headers (rangeValidator response) interval) false source.proxyKey)
    pure next
  Guarded.tryCatch
    (Guarded.andFinally (do
      fileCall .bind
      let content ← readSource c openRange rounds alreadyWritten source.httpChunkSize response
      fileCall .promote
      pure content) closeOpened)
    fun error => do
      fileCall .unlinkPartial
      fileCall .unlinkFinal
      Guarded.raise error

end Transfers

end YtdlBot.Transport
