import YtdlBot.Framework.Machine
import YtdlBot.Transport.Headers

/-!
# Joined ranges

`_RangeResponse` as a machine. The server decides every response, the chunks of its body and
where a body ends; the network and the consumer may interrupt every wait. The consumer iterates
once, as `_stream_source` does, and closes the stream when it iterates no more. Responses are
kept in the order they were opened, with what their bodies yielded.
-/

namespace YtdlBot.Transport

open Framework

structure Response where
  statusCode : Nat
  headers : Headers
deriving DecidableEq

/-- How an iteration fails. -/
inductive Failure where
  /-- `DownloadFailed(message)`. -/
  | downloadFailed (message : String)
  | valueError
  /-- What a body, an opening, a closing or a cancellation raised. -/
  | raised
deriving DecidableEq

/-- A response with the bytes of its body so far. -/
structure Part where
  response : Response
  body : List UInt8
  /-- The body was iterated to its end. -/
  complete : Bool
  closes : Nat
deriving DecidableEq

inductive Ending where
  | finished
  | failed (failure : Failure)
  /-- The consumer did not resume the iteration. -/
  | abandoned
deriving DecidableEq

inductive Phase where
  | fresh
  /-- The body of a response that is no range. -/
  | passing
  /-- The body of the range from `start` to `stop`. -/
  | reading (start stop total received : Nat)
  /-- `await self.close()` before the range at `offset`. -/
  | closing (offset total : Nat)
  /-- `await self._open(offset, …)`. -/
  | opening (offset : Nat)
  | ended (ending : Ending)
deriving DecidableEq

structure RangeResponse where
  rangeSize : Int
  statusCode : Nat
  headers : Headers
  total : Option Nat
  etag : Option String
  modified : Option String
  active : Option Part
  /-- The responses opened before the active one. -/
  earlier : List Part
  /-- The ranges asked for. -/
  requests : List (Int × Int)
  yielded : List UInt8
  phase : Phase
  closed : Bool
deriving DecidableEq

inductive Action where
  | start
  | chunk (bytes : List UInt8)
  | bodyEnd
  | responseClosed
  | opened (response : Response)
  /-- What is awaited raises. -/
  | fail
  /-- The consumer closes the stream. -/
  | close

/-- The `Content-Range` of a response, as its form groups it. -/
def rangeGroups (response : Response) : Option (List Char × List Char × List Char) :=
  contentRange ((header response.headers "content-range").getD "").toList

/-- The body is not sent as it is. -/
def encoded (response : Response) : Prop :=
  ∃ encoding, header response.headers "content-encoding" = some encoding ∧
    (strip encoding.toList).map lowerChar ≠ "identity".toList

instance (response : Response) : Decidable (encoded response) :=
  match h : header response.headers "content-encoding" with
  | none => isFalse fun ⟨_, h', _⟩ => by simp [h] at h'
  | some encoding =>
    decidable_of_iff ((strip encoding.toList).map lowerChar ≠ "identity".toList)
      ⟨fun h' => ⟨encoding, h, h'⟩, fun ⟨e, he, h'⟩ => by
        rw [h, Option.some.injEq] at he
        exact he ▸ h'⟩

/-- A validator of the first response is missing or different. -/
def validatorChanged (validator : Option String) (response : Response) (name : String) : Prop :=
  validator ≠ none ∧ header response.headers name ≠ validator

instance (validator : Option String) (response : Response) (name : String) :
    Decidable (validatorChanged validator response name) :=
  inferInstanceAs (Decidable (_ ∧ _))

/-- The headers `_stream_source` sends for a source that is read in ranges. -/
def sourceHeaders (httpHeaders : Headers) (chunkSize : Nat) : Headers :=
  let headers := httpHeaders.foldl (fun headers field => setField headers field.1 field.2)
    [("Accept", "*/*"), ("User-Agent", "ytdlbot/2.0")]
  let headers := without headers ["range", "accept-encoding"]
  setField (setField headers "Accept-Encoding" "identity") "Range" ("bytes=0-" ++ toString (chunkSize - 1))

/-- What later ranges are conditioned on: a strong entity tag, or the date. -/
def rangeValidator (response : Response) : Option String :=
  match header response.headers "etag" with
  | some etag =>
    if etag = "" ∨ "W/".toList.isPrefixOf etag.toList then
      header response.headers "last-modified"
    else some etag
  | none => header response.headers "last-modified"

def rangeValue (interval : Int × Int) : String :=
  "bytes=" ++ toString interval.1 ++ "-" ++ toString interval.2

/-- The headers of `open_range(start, end)`. -/
def openRangeHeaders (headers : Headers) (validator : Option String) (interval : Int × Int) :
    Headers :=
  let headers := setField headers "Range" (rangeValue interval)
  match validator with
  | some validator => if validator = "" then headers else setField headers "If-Range" validator
  | none => headers

theorem range_openRangeHeaders (httpHeaders : Headers) (chunkSize : Nat)
    (validator : Option String) (interval : Int × Int) :
    header (openRangeHeaders (sourceHeaders httpHeaders chunkSize) validator interval) "Range" =
      some (rangeValue interval) := by
  have hsole : Sole (sourceHeaders httpHeaders chunkSize) "Range" := by
    apply sole_setField _ fun _ => rfl
    apply sole_setField _ fun h => absurd h (by decide)
    intro field hfield hlower
    exact absurd hlower (absent_without "range" (by simp) field hfield)
  unfold openRangeHeaders
  have hother : lower "If-Range" ≠ lower "Range" := by decide
  have hrange := header_setField hsole (rangeValue interval)
  cases validator with
  | none => exact hrange
  | some validator =>
    dsimp only
    split
    · exact hrange
    · rw [header_setField_other hother, hrange]

namespace RangeResponse

/-- `_range`. -/
def range (s : RangeResponse) (response : Response) (expected : Nat) :
    Except Failure (Nat × Nat × Nat) :=
  if encoded response then
    .error (.downloadFailed "media range encoding must be identity")
  else if s.total ≠ none ∧
      (validatorChanged s.etag response "etag" ∨
        validatorChanged s.modified response "last-modified") then
    .error (.downloadFailed "media range validator changed")
  else
    match rangeGroups response with
    | none => .error (.downloadFailed "media range response is invalid")
    | some (first, last, size) =>
      if response.statusCode ≠ 206 then
        .error (.downloadFailed "media range response is invalid")
      else
        match intOfDigits first, intOfDigits last, intOfDigits size with
        | some start, some stop, some total =>
          if start ≠ expected ∨ ¬ (start ≤ stop ∧ stop < total) ∨
              s.rangeSize < (stop : Int) - start + 1 ∨ (s.total ≠ none ∧ s.total ≠ some total) then
            .error (.downloadFailed "media range identity changed")
          else .ok (start, stop, total)
        | _, _, _ => .error .valueError

/-- What `__init__` sets before it looks at the range. -/
def unchecked (rangeSize : Int) (response : Response) : RangeResponse where
  rangeSize := rangeSize
  statusCode := response.statusCode
  headers := response.headers
  total := none
  etag := header response.headers "etag"
  modified := header response.headers "last-modified"
  active := some ⟨response, [], false, 0⟩
  earlier := []
  requests := []
  yielded := []
  phase := .fresh
  closed := false

/-- `__init__`. Where it raises, the caller is left with the response itself and closes that. -/
def init (rangeSize : Int) (response : Response) : RangeResponse :=
  let s := unchecked rangeSize response
  if response.statusCode = 206 then
    match s.range response 0 with
    | .ok (_, _, total) =>
      { s with
        total := some total
        headers := setField (without response.headers ["content-length"]) "Content-Length"
          (toString total) }
    | .error failure => { s with phase := .ended (.failed failure) }
  else s

/-- Every response opened so far. -/
def opened (s : RangeResponse) : List Part := s.earlier ++ s.active.toList

/-- `close`, up to the end of `_close`. -/
def closeActive (s : RangeResponse) : RangeResponse :=
  match s.active with
  | none => s
  | some p =>
    { s with active := none, earlier := s.earlier ++ [{ p with closes := p.closes + 1 }] }

section CloseActive

variable (s : RangeResponse)

@[simp] theorem closeActive_statusCode : s.closeActive.statusCode = s.statusCode := by
  unfold closeActive
  split <;> rfl

@[simp] theorem closeActive_total : s.closeActive.total = s.total := by
  unfold closeActive
  split <;> rfl

@[simp] theorem closeActive_etag : s.closeActive.etag = s.etag := by
  unfold closeActive
  split <;> rfl

@[simp] theorem closeActive_modified : s.closeActive.modified = s.modified := by
  unfold closeActive
  split <;> rfl

@[simp] theorem closeActive_requests : s.closeActive.requests = s.requests := by
  unfold closeActive
  split <;> rfl

@[simp] theorem closeActive_phase : s.closeActive.phase = s.phase := by
  unfold closeActive
  split <;> rfl

@[simp] theorem closeActive_active : s.closeActive.active = none := by
  unfold closeActive
  split
  · assumption
  · rfl

end CloseActive

/-- The top of the loop, with the active response `response`. -/
def enter (s : RangeResponse) (response : Response) (offset : Nat) : RangeResponse :=
  match s.range response offset with
  | .ok (start, stop, total) => { s with phase := .reading start stop total 0 }
  | .error failure => { s with phase := .ended (.failed failure) }

/-- `iter_bytes` hands on a chunk, unless the range is exceeded. -/
def chunk (s : RangeResponse) (p : Part) (bytes : List UInt8) : RangeResponse :=
  let s := { s with active := some { p with body := p.body ++ bytes } }
  match s.phase with
  | .reading start stop total received =>
    if stop - start + 1 < received + bytes.length then
      { s with
        phase := .ended (.failed (.downloadFailed "media range exceeded declared bytes")) }
    else
      { s with
        yielded := s.yielded ++ bytes
        phase := .reading start stop total (received + bytes.length) }
  | _ => { s with yielded := s.yielded ++ bytes }

/-- The end of a body. -/
def bodyEnd (s : RangeResponse) (p : Part) : RangeResponse :=
  let s := { s with active := some { p with complete := true } }
  match s.phase with
  | .reading start stop total received =>
    if received ≠ stop - start + 1 then
      { s with phase := .ended (.failed (.downloadFailed "media range was truncated")) }
    else { s.closeActive with phase := .closing (stop + 1) total }
  | _ => { s with phase := .ended .finished }

def step (s : RangeResponse) : Action → Option RangeResponse
  | .start =>
    match s.phase, s.active with
    | .fresh, some p =>
      if s.statusCode ≠ 206 then some { s with phase := .passing }
      else some (s.enter p.response 0)
    | _, _ => none
  | .chunk bytes =>
    match s.phase, s.active with
    | .passing, some p | .reading .., some p => some (s.chunk p bytes)
    | _, _ => none
  | .bodyEnd =>
    match s.phase, s.active with
    | .passing, some p | .reading .., some p => some (s.bodyEnd p)
    | _, _ => none
  | .responseClosed =>
    match s.phase with
    | .closing offset total =>
      if total ≤ offset then some { s with phase := .ended .finished }
      else
        some { s with
          requests := s.requests ++ [((offset : Int),
            min ((total : Int) - 1) (offset + s.rangeSize - 1))]
          phase := .opening offset }
    | _ => none
  | .opened response =>
    match s.phase with
    | .opening offset =>
      some ({ s with active := some ⟨response, [], false, 0⟩ }.enter response offset)
    | _ => none
  | .fail =>
    match s.phase with
    | .fresh | .ended _ => none
    | _ => some { s with phase := .ended (.failed .raised) }
  | .close =>
    match s.phase with
    | .closing .. | .opening _ => none
    | .ended _ => some { s.closeActive with closed := true }
    | _ => some { closeActive { s with phase := .ended .abandoned } with closed := true }

def machine : Machine RangeResponse Action := ⟨step⟩

end RangeResponse

end YtdlBot.Transport
