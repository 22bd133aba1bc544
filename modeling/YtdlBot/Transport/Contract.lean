import YtdlBot.Transport.Streams
import YtdlBot.Transport.Origins

/-!
# The error contract

What `probe`, `_stream_source` and `request_response` raise, whatever the servers answer, while the
local files do what they are asked. Four things end them in an exception that no handler converts:
a redirect whose target cannot be parsed, a `Content-Range` with a number too long for `int`, a date
of `Retry-After` that the C library cannot convert, and what a body itself raises.
-/

namespace YtdlBot.Transport.Contract

open Framework
open Framework.Program
open Framework.Guarded (Triple)
open Media (MediaSource)

/-- A `MaterializationError`, `InsufficientDiskSpace`, `CancelledError`; or the run is not over. -/
def Contracted (error : StreamError) : Prop := error ≠ .raised ∧ error ≠ .transfer .valueError

section Conditions

variable (U : UrlLibrary) (ranged : Bool)

/-- Where a redirect leads to can be parsed. -/
def Followable (url : String) (response : Response) : Prop :=
  ∀ location, header response.headers "location" = some location → location ≠ "" →
    ∃ next, U.urljoin url location = some next ∧ U.urlsplit next ≠ none

/-- The numbers of the range are none that `int` refuses. -/
def Readable (response : Response) : Prop :=
  response.statusCode = 206 → ¬ encoded response →
    ∀ first last size, rangeGroups response = some (first, last, size) →
      first.length ≤ maxStrDigits ∧ last.length ≤ maxStrDigits ∧ size.length ≤ maxStrDigits

/-- Ranges are read from responses to a source with a range size only. What a redirect leads to is
asked of the last redirect too, and the numbers of a range also where its validator has changed:
neither is read there. -/
def CleanResponse (url : String) (response : Response) : Prop :=
  (response.statusCode ∈ redirects → Followable U url response) ∧
    (ranged = true → Readable response)

/-- A good answer within a request. A `ValueError` is no `MaterializationError`. -/
def CleanAnswer : ∀ effect : RequestEffect, effect.Result → Prop
  | .open _ _ url _ _, Connection.response response => CleanResponse U ranged url response
  | .open _ _ _ _ _, Connection.materializationError error => error ≠ .valueError
  | .closeResponse _, (.error error : Except TransferError Unit) => error ≠ .valueError
  | _, _ => True

/-- A good answer within a transfer. -/
def CleanStep : ∀ effect : StreamEffect, effect.Result → Prop
  | .request effect, Awaited.answered response => CleanAnswer U ranged effect response
  | .chunk _, Chunk.raised => False
  | .chunk _, Chunk.materializationError error => error ≠ .valueError
  | .retryDate _, DateDelay.osError => False
  | .ensure _, Reserved.raised => False
  | .write _, Written.raised => False
  | .file _, Local.raised => False
  | .file _, Local.torn => False
  | _, _ => True

/-- A good answer to a request of a provider. -/
def CleanSent {β : Type} (sent : Providers.Sent β) :
    Except Providers.RequestError Response → Prop
  | .ok response => response.statusCode ∈ redirects → Followable U sent.url response
  | .error error => error ≠ .valueError

end Conditions

section Requests

variable {U : UrlLibrary} {ranged : Bool}

theorem outcome_resolveTarget {url : String} :
    Outcome (fun _ => U.urlsplit url ≠ none) (· ≠ .valueError) (resolveTarget U url) := by
  unfold resolveTarget
  cases hsplit : U.urlsplit url with
  | none => simp [Outcome]
  | some split =>
    dsimp only
    split_ifs <;> simp [Outcome]

theorem outcome_approveAddresses {raw : List String} :
    Outcome (fun _ => True) (· ≠ .valueError) (approveAddresses U raw) := by
  unfold approveAddresses
  split
  · simp [Outcome]
  · split_ifs <;> simp [Outcome]

theorem outcome_resolutionResult (resolution : Resolution) :
    Outcome (fun _ => True) (· ≠ .valueError) (resolutionResult resolution) := by
  cases resolution <;> simp [resolutionResult, Outcome]

theorem outcome_remainingResult (left : Bool) :
    Outcome (fun _ => True) (· ≠ .valueError) (remainingResult left) := by
  cases left <;> simp [remainingResult, Outcome]

theorem ensures_checkRemaining :
    Ensures (CleanAnswer U ranged) checkRemaining (fun _ => True) (· ≠ .valueError) :=
  ensures_attempt fun left _ => outcome_remainingResult left

theorem ensures_resolve {url : String} :
    Ensures (CleanAnswer U ranged) (resolve U url) (fun _ => U.urlsplit url ≠ none)
      (· ≠ .valueError) := by
  apply (ensures_ofExcept outcome_resolveTarget).bind
  intro target htarget
  apply (ensures_attempt fun resolution _ => outcome_resolutionResult resolution).bind
  intro raw _
  apply (ensures_ofExcept outcome_approveAddresses).bind
  intro addresses _
  exact htarget

theorem ensures_openHop {proxy : Option String} {hop : Hop} :
    Ensures (CleanAnswer U ranged) (openHop U proxy hop)
      (fun response => U.urlsplit hop.url ≠ none ∧ CleanResponse U ranged hop.url response)
      (· ≠ .valueError) := by
  apply ensures_checkRemaining.bind
  intro _ _
  apply ensures_resolve.bind
  intro resolved hresolved
  apply ensures_checkRemaining.bind
  intro _ _
  cases resolved.addresses with
  | nil => simp [Ensures]
  | cons address _ =>
    apply ensures_attempt
    intro connection hclean
    cases connection with
    | response response => exact ⟨hresolved, hclean⟩
    | materializationError error => exact hclean
    | timeoutOrOSError => simp [connectionResult, Outcome]
    | other => simp [connectionResult, Outcome]

theorem origin_ne_none {url : String} (h : U.urlsplit url ≠ none) : U.origin url ≠ none := by
  simpa [UrlLibrary.origin] using h

theorem outcome_redirected {hop : Hop} {response : Response} (hurl : U.urlsplit hop.url ≠ none)
    (hfollow : Followable U hop.url response) :
    Outcome (fun _ => True) (· ≠ .valueError) (redirected U hop response) := by
  unfold redirected
  split
  · simp [Outcome]
  · simp [Outcome]
  · rename_i location hempty hlocation
    obtain ⟨next, hjoin, hnext⟩ := hfollow location hlocation fun h => hempty h
    rw [hjoin]
    dsimp only
    split
    · split_ifs <;> simp [Outcome]
    · rename_i hnone
      obtain ⟨current, hcurrent⟩ := Option.ne_none_iff_exists'.mp (origin_ne_none hurl)
      obtain ⟨target, htarget⟩ := Option.ne_none_iff_exists'.mp (origin_ne_none hnext)
      exact absurd htarget (hnone current target hcurrent)

theorem ensures_requestLoop {proxy : Option String} {attempts : Nat} {hop : Hop} :
    Ensures (CleanAnswer U ranged) (requestLoop U proxy attempts hop)
      (fun opened => ranged = true → Readable opened.1) (· ≠ .valueError) := by
  induction attempts generalizing hop with
  | zero => simp [requestLoop, Ensures]
  | succ attempts ih =>
    apply ensures_openHop.bind
    rintro response ⟨hurl, hclean⟩
    apply ensures_ite
    · intro _
      exact hclean.2
    · intro hredirect
      apply Ensures.bind (Q := fun _ => True)
      · apply ensures_attempt
        intro closing hclosing
        cases closing with
        | ok => trivial
        | error error => exact hclosing
      · intro _ _
        apply ensures_ite
        · intro _
          simp [Ensures]
        · intro _
          apply (ensures_ofExcept (outcome_redirected hurl (hclean.1 (not_not.mp hredirect)))).bind
          intro next _
          exact ih

theorem ensures_request {maxRedirects : Nat} {proxyUrl : String → Option String}
    {method url : String} {headers : Headers} {bodySensitive : Bool} {proxyKey : Option String} :
    Ensures (CleanAnswer U ranged)
      (request U maxRedirects proxyUrl method url headers bodySensitive proxyKey)
      (fun opened => ranged = true → Readable opened.1) (· ≠ .valueError) := by
  apply ensures_checkRemaining.bind
  intro _ _
  cases proxyKey with
  | none => exact ensures_requestLoop
  | some key =>
    dsimp only
    cases proxyUrl key with
    | none => simp [Ensures]
    | some proxy => exact ensures_requestLoop

end Requests

section Ranges

variable {U : UrlLibrary} {ranged : Bool} {s : RangeResponse} {response : Response}

theorem intOfDigits_ne_none {digits : List Char} (h : digits.length ≤ maxStrDigits) :
    intOfDigits digits ≠ none := by
  simp [intOfDigits, h]

theorem range_downloadFailed {expected : Nat} {failure : Failure} (hreadable : Readable response)
    (h : s.range response expected = .error failure) :
    ∃ message, failure = .downloadFailed message := by
  unfold RangeResponse.range at h
  split at h
  · cases h
    exact ⟨_, rfl⟩
  rename_i hplain
  split at h
  · cases h
    exact ⟨_, rfl⟩
  split at h
  · cases h
    exact ⟨_, rfl⟩
  rename_i first last size hgroups
  split at h
  · cases h
    exact ⟨_, rfl⟩
  rename_i hstatus
  obtain ⟨hfirst, hlast, hsize⟩ := hreadable (not_not.mp hstatus) hplain first last size hgroups
  split at h
  · split_ifs at h
    cases h
    exact ⟨_, rfl⟩
  · rename_i hnone
    obtain ⟨start, hstart⟩ := Option.ne_none_iff_exists'.mp (intOfDigits_ne_none hfirst)
    obtain ⟨stop, hstop⟩ := Option.ne_none_iff_exists'.mp (intOfDigits_ne_none hlast)
    obtain ⟨total, htotal⟩ := Option.ne_none_iff_exists'.mp (intOfDigits_ne_none hsize)
    exact absurd htotal (hnone start stop total hstart hstop)

/-- Joined ranges that have at most failed with a `DownloadFailed`, from a readable response. -/
structure Sound (s : RangeResponse) : Prop where
  active : ∀ p, s.active = some p → Readable p.response
  failure : ∀ failure, s.phase = .ended (.failed failure) →
    ∃ message, failure = .downloadFailed message

theorem Sound.moved (hs : Sound s) {phase : Phase}
    (hphase : ∀ failure, phase = .ended (.failed failure) →
      ∃ message, failure = .downloadFailed message) : Sound { s with phase := phase } :=
  ⟨hs.active, hphase⟩

theorem sound_init {size : Int} (hreadable : Readable response) :
    Sound (RangeResponse.init size response) := by
  have hactive : ∀ p, some (⟨response, [], false, 0⟩ : Part) = some p → Readable p.response := by
    intro p hp
    cases hp
    exact hreadable
  unfold RangeResponse.init
  dsimp only
  split_ifs
  · split
    · exact ⟨hactive, by simp [RangeResponse.unchecked]⟩
    · rename_i failure hrange
      refine ⟨hactive, ?_⟩
      intro failure' hfailure
      cases hfailure
      exact range_downloadFailed hreadable hrange
  · exact ⟨hactive, by simp [RangeResponse.unchecked]⟩

theorem Sound.enter {offset : Nat} (hs : Sound s) (hreadable : Readable response) :
    Sound (s.enter response offset) := by
  unfold RangeResponse.enter
  split
  · exact hs.moved (by simp)
  · rename_i failure hrange
    apply hs.moved
    intro failure' hfailure
    cases hfailure
    exact range_downloadFailed hreadable hrange

theorem Sound.opened (hs : Sound s) (hreadable : Readable response) :
    Sound { s with active := some ⟨response, [], false, 0⟩ } := by
  refine ⟨?_, hs.failure⟩
  intro p hp
  cases hp
  exact hreadable

theorem Sound.begun (hs : Sound s) : Sound (begun s) := by
  unfold Transport.begun
  split
  · rename_i p _ hactive
    split_ifs
    · exact hs.moved (by simp)
    · exact hs.enter (hs.active p hactive)
  · exact hs

theorem Sound.chunk {p : Part} {bytes : List UInt8} (hs : Sound s) (hp : Readable p.response) :
    Sound (s.chunk p bytes) := by
  have hactive : ∀ q, some { p with body := p.body ++ bytes } = some q → Readable q.response := by
    intro q hq
    cases hq
    exact hp
  unfold RangeResponse.chunk
  dsimp only
  split
  · split_ifs
    · refine ⟨hactive, ?_⟩
      intro failure hfailure
      cases hfailure
      exact ⟨_, rfl⟩
    · exact ⟨hactive, by simp⟩
  · exact ⟨hactive, hs.failure⟩

theorem Sound.bodyEnd {p : Part} (hp : Readable p.response) :
    Sound (s.bodyEnd p) := by
  have hactive : ∀ q, some { p with complete := true } = some q → Readable q.response := by
    intro q hq
    cases hq
    exact hp
  unfold RangeResponse.bodyEnd
  dsimp only
  split
  · split_ifs
    · refine ⟨hactive, ?_⟩
      intro failure hfailure
      cases hfailure
      exact ⟨_, rfl⟩
    · exact ⟨by simp, by simp⟩
  · exact ⟨hactive, by simp⟩

theorem Sound.closeActive (hs : Sound s) : Sound s.closeActive :=
  ⟨by simp, by simpa using hs.failure⟩

/-- Ranges in hand are sound, and only a source with a range size has any. -/
def Held (ranged : Bool) : Option Opened → Prop
  | some (.ranges s) => ranged = true ∧ Sound s
  | _ => True

theorem held_none : Held ranged none := trivial

end Ranges

section Streams

variable {U : UrlLibrary} {ranged : Bool} {timedOut : StreamError}

theorem triple_answer (htimedOut : Contracted timedOut) (effect : RequestEffect) :
    Triple (CleanStep U ranged) (Held ranged) (answer timedOut effect) (CleanAnswer U ranged effect)
      Contracted := by
  apply Guarded.triple_attempt
  intro response hclean
  cases response with
  | answered response => exact hclean
  | cancelled => simp [Outcome, Contracted]
  | timedOut => exact htimedOut

theorem triple_requesting {α : Type} {p : Requesting α} {Q : α → Prop}
    (htimedOut : Contracted timedOut)
    (h : Ensures (CleanAnswer U ranged) p Q (· ≠ .valueError)) :
    Triple (CleanStep U ranged) (Held ranged) (requesting timedOut p) Q Contracted := by
  apply Guarded.triple_embed h (triple_answer htimedOut)
  intro error herror
  simpa [Contracted] using herror

theorem contracted_cancelled : Contracted .cancelled := by simp [Contracted]

theorem contracted_downloadFailed (message : String) : Contracted (downloadFailed message) := by
  simp [Contracted, downloadFailed]

theorem contracted_transferTimeout (message : String) : Contracted (transferTimeout message) := by
  simp [Contracted, transferTimeout]

theorem triple_remaining :
    Triple (CleanStep U ranged) (Held ranged) remaining (fun _ => True) Contracted :=
  triple_requesting contracted_cancelled ensures_checkRemaining

theorem triple_closeResponse (htimedOut : Contracted timedOut) (response : Response) :
    Triple (CleanStep U ranged) (Held ranged)
      (requesting timedOut (Program.attempt (.closeResponse response) id)) (fun _ => True)
      Contracted := by
  apply triple_requesting htimedOut
  apply ensures_attempt
  intro closing hclosing
  cases closing with
  | ok => trivial
  | error error => exact hclosing

theorem triple_hold {s : RangeResponse} (hranged : ranged = true) (hs : Sound s) :
    Triple (CleanStep U ranged) (Held ranged) (Guarded.set (some (.ranges s))) (fun _ => True)
      Contracted :=
  Guarded.triple_set ⟨hranged, hs⟩

theorem triple_closeOpened :
    Triple (CleanStep U ranged) (Held ranged) closeOpened (fun _ => True) Contracted := by
  apply Guarded.triple_get.bind
  intro opened hopened
  cases opened with
  | none => exact Guarded.triple_pure trivial
  | some opened =>
    cases opened with
    | response response => exact triple_closeResponse contracted_cancelled response
    | ranges s =>
      dsimp only
      cases s.active with
      | none =>
        apply Guarded.triple_attempt
        intro closing _
        cases closing with
        | closed => trivial
        | timeout => exact contracted_transferTimeout _
        | cancelled => exact contracted_cancelled
      | some p =>
        dsimp only
        apply (triple_hold hopened.1 hopened.2.closeActive).bind
        intro _ _
        exact triple_closeResponse contracted_cancelled p.response

theorem triple_chunk (htimedOut : Contracted timedOut) (response : Response) :
    Triple (CleanStep U ranged) (Held ranged)
      (Guarded.attempt (.chunk response) (chunkResult timedOut)) (fun _ => True) Contracted := by
  apply Guarded.triple_attempt
  intro chunk hclean
  cases chunk with
  | data bytes => trivial
  | finished => trivial
  | timeout => exact htimedOut
  | materializationError error => simpa [chunkResult, Outcome, Contracted, CleanStep] using hclean
  | cancelled => exact contracted_cancelled
  | raised => exact hclean.elim

theorem contracted_failureError {failure : Failure}
    (h : ∃ message, failure = .downloadFailed message) : Contracted (failureError failure) := by
  obtain ⟨message, rfl⟩ := h
  exact contracted_downloadFailed message

theorem triple_keep {s : RangeResponse} (hranged : ranged = true) (hs : Sound s) :
    Triple (CleanStep U ranged) (Held ranged) (keep s) (fun _ => True) Contracted := by
  apply (triple_hold hranged hs).bind
  intro _ _
  split
  · rename_i failure hphase
    exact Guarded.triple_raise (contracted_failureError (hs.failure failure hphase))
  · exact Guarded.triple_pure trivial

variable {openRange : Int × Int → Streaming Response}

theorem triple_readRange (hranged : ranged = true) (htimedOut : Contracted timedOut)
    (hopen : ∀ interval, Triple (CleanStep U ranged) (Held ranged) (openRange interval)
      (fun response => ranged = true → Readable response) Contracted)
    {rounds : Nat} {s : RangeResponse} (hs : Sound s) :
    Triple (CleanStep U ranged) (Held ranged) (readRange openRange timedOut rounds s) (fun _ => True)
      Contracted := by
  induction rounds generalizing s with
  | zero => exact Guarded.triple_raise (by simp [Contracted])
  | succ rounds ih =>
    unfold readRange
    split
    · exact Guarded.triple_pure trivial
    rename_i p hactive
    have hp : Readable p.response := hs.active p hactive
    apply (triple_chunk htimedOut p.response).bind
    intro chunk _
    cases chunk with
    | some bytes =>
      apply (triple_keep hranged (hs.chunk hp)).bind
      intro _ _
      exact Guarded.triple_pure trivial
    | none =>
      have hend : Sound (s.bodyEnd p) := Sound.bodyEnd hp
      apply (triple_keep hranged hend).bind
      intro _ _
      split
      · apply (triple_closeResponse htimedOut p.response).bind
        intro _ _
        apply Guarded.triple_ite
        · intro _
          apply (triple_hold hranged (hend.moved (by simp))).bind
          intro _ _
          exact Guarded.triple_pure trivial
        · intro _
          have hasked : ∀ requests offset,
              Sound { s.bodyEnd p with requests := requests, phase := .opening offset } :=
            fun _ _ => ⟨hend.active, by simp⟩
          dsimp only
          apply (triple_hold hranged (hasked _ _)).bind
          intro _ _
          apply (hopen _).bind
          intro response hresponse
          have hreadable := hresponse hranged
          apply (triple_keep hranged (((hasked _ _).opened hreadable).enter hreadable)).bind
          intro _ _
          exact ih (((hasked _ _).opened hreadable).enter hreadable)
      · exact Guarded.triple_pure trivial

theorem triple_nextChunk (htimedOut : Contracted timedOut)
    (hopen : ∀ interval, Triple (CleanStep U ranged) (Held ranged) (openRange interval)
      (fun response => ranged = true → Readable response) Contracted)
    {rounds : Nat} :
    Triple (CleanStep U ranged) (Held ranged) (nextChunk openRange timedOut rounds) (fun _ => True)
      Contracted := by
  apply Guarded.triple_get.bind
  intro opened hopened
  cases opened with
  | none => exact Guarded.triple_pure trivial
  | some opened =>
    cases opened with
    | response response => exact triple_chunk htimedOut response
    | ranges s =>
      apply (triple_keep hopened.1 hopened.2.begun).bind
      intro _ _
      exact triple_readRange hopened.1 htimedOut hopen hopened.2.begun

end Streams

section Transfers

variable {U : UrlLibrary} {ranged : Bool} {c : Settings} {proxyUrl : String → Option String}

theorem outcome_checkActualSize (size : Nat) :
    Outcome (fun _ => True) Contracted (checkActualSize c size) := by
  unfold checkActualSize
  split_ifs <;> simp [Outcome, Contracted]

theorem triple_parseRetryAfter (headers : Headers) :
    Triple (CleanStep U ranged) (Held ranged) (parseRetryAfter headers) (fun _ => True)
      Contracted := by
  unfold parseRetryAfter
  split
  · exact Guarded.triple_pure trivial
  · exact Guarded.triple_pure trivial
  · split
    · exact Guarded.triple_pure trivial
    · apply Guarded.triple_attempt
      intro delay hclean
      cases delay with
      | osError => exact hclean.elim
      | _ => trivial

theorem triple_checkResponse (statusCode : Nat) (headers : Headers) :
    Triple (CleanStep U ranged) (Held ranged) (checkResponse c statusCode headers) (fun _ => True)
      Contracted := by
  unfold checkResponse
  apply Guarded.triple_ite
  · intro _
    exact Guarded.triple_raise (contracted_downloadFailed _)
  intro _
  apply Guarded.triple_ite
  · intro _
    apply (triple_parseRetryAfter headers).bind
    intro retryAfter _
    exact Guarded.triple_raise (by simp [Contracted])
  intro _
  apply Guarded.triple_ite
  · intro _
    exact Guarded.triple_raise (contracted_downloadFailed _)
  intro _
  split
  · exact Guarded.triple_ofExcept (outcome_checkActualSize _)
  · exact Guarded.triple_pure trivial

theorem outcome_checkSignature (data : List UInt8) (headers : Headers) :
    Outcome (fun _ => True) Contracted (checkSignature data headers) := by
  unfold checkSignature
  dsimp only
  split_ifs
  · exact contracted_downloadFailed _
  · exact contracted_downloadFailed _
  · exact contracted_downloadFailed _
  · trivial

theorem triple_ensure (size : Nat) :
    Triple (CleanStep U ranged) (Held ranged) (Guarded.attempt (.ensure size) reservedResult)
      (fun _ => True) Contracted := by
  apply Guarded.triple_attempt
  intro reserved hclean
  cases reserved with
  | granted => trivial
  | insufficientDiskSpace => simp [reservedResult, Outcome, Contracted]
  | timeout => exact contracted_transferTimeout _
  | cancelled => exact contracted_cancelled
  | raised => exact hclean.elim

theorem triple_write (data : List UInt8) :
    Triple (CleanStep U ranged) (Held ranged) (Guarded.attempt (.write data) writtenResult)
      (fun _ => True) Contracted := by
  apply Guarded.triple_attempt
  intro ending hclean
  cases ending with
  | written => trivial
  | timeout => exact contracted_transferTimeout _
  | cancelled => exact contracted_cancelled
  | raised => exact hclean.elim

theorem triple_fileCall (call : FileCall) :
    Triple (CleanStep U ranged) (Held ranged) (fileCall call) (fun _ => True) Contracted := by
  apply Guarded.triple_attempt
  intro ending hclean
  cases ending with
  | done => trivial
  | raised => exact hclean.elim
  | torn => exact hclean.elim

theorem triple_probeLoop {response : Response} {rounds : Nat} {data : List UInt8} :
    Triple (CleanStep U ranged) (Held ranged) (probeLoop c response rounds data) (fun _ => True)
      Contracted := by
  induction rounds generalizing data with
  | zero => exact Guarded.triple_raise (by simp [Contracted])
  | succ rounds ih =>
    apply Guarded.triple_ite
    · intro _
      exact Guarded.triple_pure trivial
    · intro _
      apply triple_remaining.bind
      intro _ _
      apply (triple_chunk (contracted_transferTimeout _) response).bind
      intro chunk _
      cases chunk with
      | none => exact Guarded.triple_pure trivial
      | some bytes => exact ih

theorem triple_probe {rounds : Nat} {url : String} {headers : Headers} {proxyKey : Option String} :
    Triple (CleanStep U false) (Held false) (probe U c proxyUrl rounds url headers proxyKey)
      (fun _ => True) Contracted := by
  apply triple_remaining.bind
  intro _ _
  apply (triple_requesting contracted_cancelled ensures_request).bind
  rintro ⟨response, _⟩ _
  apply Guarded.Triple.bind (Guarded.triple_set trivial)
  intro _ _
  apply Guarded.Triple.andFinally _ triple_closeOpened
  apply (triple_checkResponse _ _).bind
  intro _ _
  apply triple_probeLoop.bind
  intro data _
  apply (Guarded.triple_ofExcept (outcome_checkSignature _ _)).bind
  intro _ _
  exact Guarded.triple_pure trivial

theorem contracted_timedOutIn (first : Bool) : Contracted (timedOutIn first) :=
  contracted_transferTimeout _

theorem triple_streamLoop {openRange : Int × Int → Streaming Response}
    (hopen : ∀ interval, Triple (CleanStep U ranged) (Held ranged) (openRange interval)
      (fun response => ranged = true → Readable response) Contracted)
    {alreadyWritten rounds : Nat} {content : List UInt8} :
    Triple (CleanStep U ranged) (Held ranged) (streamLoop c openRange alreadyWritten rounds content)
      (fun _ => True) Contracted := by
  induction rounds generalizing content with
  | zero => exact Guarded.triple_raise (by simp [Contracted])
  | succ rounds ih =>
    apply triple_remaining.bind
    intro _ _
    apply (triple_nextChunk (contracted_timedOutIn _) hopen).bind
    intro chunk _
    match chunk with
    | none => exact Guarded.triple_pure trivial
    | some [] => exact ih
    | some (first :: rest) =>
      apply (Guarded.triple_ofExcept (outcome_checkActualSize _)).bind
      intro _ _
      apply triple_remaining.bind
      intro _ _
      apply (triple_ensure _).bind
      intro _ _
      apply triple_remaining.bind
      intro _ _
      apply (triple_write _).bind
      intro _ _
      exact ih

theorem outcome_joined {rangeSize : Option Int} {response : Response}
    (hreadable : rangeSize.isSome → Readable response) :
    Outcome (fun opened => Held rangeSize.isSome (some opened)) Contracted
      (joined rangeSize response) := by
  unfold joined
  cases rangeSize with
  | none => trivial
  | some size =>
    have hsound : Sound (RangeResponse.init size response) := sound_init (hreadable rfl)
    dsimp only
    split
    · rename_i failure hphase
      exact contracted_failureError (hsound.failure failure hphase)
    · exact ⟨rfl, hsound⟩

theorem triple_reserveDeclared {alreadyWritten : Nat} {opened : Opened} :
    Triple (CleanStep U ranged) (Held ranged) (reserveDeclared c alreadyWritten opened) (fun _ => True)
      Contracted := by
  unfold reserveDeclared
  cases contentLength opened.headers with
  | none => exact Guarded.triple_pure trivial
  | some declared =>
    apply (Guarded.triple_ofExcept (outcome_checkActualSize _)).bind
    intro _ _
    apply triple_remaining.bind
    intro _ _
    exact triple_ensure _

theorem outcome_requestHeaders {τ : Type} (source : MediaSource τ) :
    Outcome (fun _ => True) Contracted (requestHeaders source) := by
  unfold requestHeaders
  split
  · trivial
  · split_ifs
    · trivial
    · exact contracted_downloadFailed _

theorem triple_readSource {openRange : Int × Int → Streaming Response} {rangeSize : Option Int}
    (hopen : ∀ interval, Triple (CleanStep U rangeSize.isSome) (Held rangeSize.isSome)
      (openRange interval) (fun response => rangeSize.isSome → Readable response) Contracted)
    {rounds alreadyWritten : Nat} {response : Response}
    (hreadable : rangeSize.isSome → Readable response) :
    Triple (CleanStep U rangeSize.isSome) (Held rangeSize.isSome)
      (readSource c openRange rounds alreadyWritten rangeSize response) (fun _ => True)
      Contracted := by
  apply (Guarded.triple_ofExcept (outcome_joined hreadable)).bind
  intro opened hopened
  apply Guarded.Triple.bind (Guarded.triple_set hopened)
  intro _ _
  apply (triple_checkResponse _ _).bind
  intro _ _
  apply triple_reserveDeclared.bind
  intro _ _
  apply (triple_fileCall .open).bind
  intro _ _
  apply ((triple_streamLoop hopen).andFinally (triple_fileCall .close)).bind
  intro content _
  apply Guarded.triple_ite
  · intro _
    exact Guarded.triple_raise (contracted_downloadFailed _)
  · intro _
    apply Guarded.triple_ite
    · intro _
      exact Guarded.triple_raise (contracted_downloadFailed _)
    · intro _
      apply (Guarded.triple_ofExcept (outcome_checkSignature _ _)).bind
      intro _ _
      apply triple_remaining.bind
      intro _ _
      exact Guarded.triple_pure trivial

theorem triple_streamSource {τ : Type} {source : MediaSource τ} {rounds alreadyWritten : Nat} :
    Triple (CleanStep U source.httpChunkSize.isSome) (Held source.httpChunkSize.isSome)
      (streamSource U c proxyUrl rounds source alreadyWritten) (fun _ => True) Contracted := by
  apply (Guarded.triple_ofExcept (outcome_requestHeaders source)).bind
  intro headers _
  apply (triple_requesting contracted_cancelled ensures_request).bind
  rintro ⟨response, _⟩ hreadable
  apply Guarded.Triple.bind (Guarded.triple_set trivial)
  intro _ _
  refine Guarded.Triple.tryCatch (X := Contracted) (Guarded.Triple.andFinally ?_ triple_closeOpened)
    ?_
  · apply (triple_fileCall .bind).bind
    intro _ _
    refine (triple_readSource (fun interval => ?_) hreadable).bind ?_
    · apply (triple_requesting (contracted_timedOutIn false) ensures_request).bind
      rintro ⟨next, _⟩ hnext
      exact Guarded.triple_pure hnext
    · intro content _
      apply (triple_fileCall .promote).bind
      intro _ _
      exact Guarded.triple_pure trivial
  · intro error herror
    apply (triple_fileCall .unlinkPartial).bind
    intro _ _
    apply (triple_fileCall .unlinkFinal).bind
    intro _ _
    exact Guarded.triple_raise herror

end Transfers

section ProviderRequests

variable {U : UrlLibrary} {β : Type}

theorem providersOrigin_ne_none {url : String} (h : U.urlsplit url ≠ none) :
    Providers.origin U url ≠ none := by
  simpa [Providers.origin] using h

theorem outcome_providersRedirected {sent : Providers.Sent β} {response : Response}
    (hurl : U.urlsplit sent.url ≠ none) (hfollow : Followable U sent.url response) :
    Outcome (fun next : Providers.Sent β => U.urlsplit next.url ≠ none) (· ≠ .valueError)
      (Providers.redirected U sent response) := by
  unfold Providers.redirected
  split
  · simp [Outcome]
  · simp [Outcome]
  · rename_i location hempty hlocation
    obtain ⟨next, hjoin, hnext⟩ := hfollow location hlocation fun h => hempty h
    rw [hjoin]
    dsimp only
    split
    · split_ifs <;> simp [Outcome, hnext]
    · rename_i hnone
      obtain ⟨current, hcurrent⟩ := Option.ne_none_iff_exists'.mp (providersOrigin_ne_none hurl)
      obtain ⟨target, htarget⟩ := Option.ne_none_iff_exists'.mp (providersOrigin_ne_none hnext)
      exact absurd hcurrent (hnone target current htarget)

theorem ensures_responseLoop {attempts : Nat} {sent : Providers.Sent β}
    (hurl : U.urlsplit sent.url ≠ none) :
    Ensures (CleanSent U) (Providers.responseLoop U attempts sent)
      (fun response => response.statusCode ∉ redirects) (· ≠ .valueError) := by
  induction attempts generalizing sent with
  | zero => simp [Providers.responseLoop, Ensures]
  | succ attempts ih =>
    apply Ensures.bind (Q := fun response => response.statusCode ∈ redirects →
      Followable U sent.url response)
    · apply ensures_attempt
      intro answer hclean
      cases answer with
      | ok response => exact hclean
      | error error => exact hclean
    · intro response hfollow
      apply ensures_ite
      · intro hstatus
        exact hstatus
      · intro hstatus
        apply ensures_ite
        · intro _
          simp [Ensures]
        · intro _
          have hfollowed := hfollow (not_not.mp hstatus)
          apply (ensures_ofExcept (outcome_providersRedirected hurl hfollowed)).bind
          intro next hnext
          exact ih hnext

end ProviderRequests

/-- Along clean answers nothing but the contract is raised, and a provider's request returns no
redirect. -/
theorem errors_contracted (U : UrlLibrary) (c : Settings) (proxyUrl : String → Option String)
    (rounds : Nat) :
    (∀ url headers proxyKey trace result s,
      Ends (probe U c proxyUrl rounds url headers proxyKey none) trace (.ok (result, s)) →
      (∀ event ∈ trace, CleanStep U false event.1 event.2) →
      Outcome (fun _ => True) Contracted result) ∧
    (∀ (τ : Type) (source : MediaSource τ) alreadyWritten trace result s,
      Ends (streamSource U c proxyUrl rounds source alreadyWritten none) trace (.ok (result, s)) →
      (∀ event ∈ trace, CleanStep U source.httpChunkSize.isSome event.1 event.2) →
      Outcome (fun _ => True) Contracted result) ∧
    (∀ (β : Type) maxRedirects (sent : Providers.Sent β) trace outcome,
      (∃ target, resolveTarget U sent.url = .ok target) →
      Ends (Providers.requestResponse U maxRedirects sent) trace outcome →
      (∀ event ∈ trace, CleanSent U event.1 event.2) →
      Outcome (fun response => response.statusCode ∉ redirects) (· ≠ .valueError) outcome) := by
  refine ⟨?_, ?_, ?_⟩
  · intro url headers proxyKey trace result s hends hclean
    exact triple_probe.outcome held_none hends hclean
  · intro τ source alreadyWritten trace result s hends hclean
    exact triple_streamSource.outcome held_none hends hclean
  · intro β maxRedirects sent trace outcome haccepted hends hclean
    obtain ⟨target, htarget⟩ := haccepted
    have hurl : Outcome (fun _ => U.urlsplit sent.url ≠ none) (· ≠ .valueError)
        (resolveTarget U sent.url) := outcome_resolveTarget
    rw [htarget] at hurl
    exact (ensures_responseLoop hurl).outcome hends hclean

section Runs

/-- What is raised as a `MaterializationError` is no `ValueError`, and local files do what they are
asked. -/
def Typed : ∀ effect : StreamEffect, effect.Result → Prop
  | .request (.open _ _ _ _ _), Awaited.answered (.materializationError error) =>
    error ≠ .valueError
  | .request (.closeResponse _), Awaited.answered (.error error) => error ≠ .valueError
  | .chunk _, Chunk.materializationError error => error ≠ .valueError
  | .ensure _, Reserved.raised => False
  | .write _, Written.raised => False
  | .file _, Local.raised => False
  | .file _, Local.torn => False
  | _, _ => True

/-- A server that answers every request, with a body that goes on like this. -/
def serving (chunk : Chunk) (response : Response) : ∀ effect : StreamEffect, effect.Result
  | .request .remaining => (.answered true : Awaited Bool)
  | .request (.resolver _ _) => (.answered (.addresses ["93.184.216.34"]) : Awaited Resolution)
  | .request (.open _ _ _ _ _) => (.answered (.response response) : Awaited Connection)
  | .request (.closeResponse _) => (.answered (.ok ()) : Awaited (Except TransferError Unit))
  | .chunk _ => chunk
  | .ensure _ => Reserved.granted
  | .write _ => Written.written
  | .file _ => Local.done
  | .retryDate _ => DateDelay.valueError
  | .closeEnded => Closed.closed

def smallProbe : Settings := ⟨100, 3, 3⟩

def playable : Response := ⟨200, [("Content-Type", "audio/mpeg")]⟩

def redirectNowhere : Response := ⟨302, [("Location", "http://[")]⟩

/-- A source that is read in ranges of a kilobyte. -/
def inRanges : MediaSource String :=
  ⟨"18", "https://cdn.example/v", none, none, none, none, none, [], none, some 1024⟩

def firstKilobyte : Response :=
  ⟨206, [("Content-Range", "bytes 0-2/3")]⟩

def askCdn : Providers.Sent String := ⟨"GET", "https://cdn.example/v", [], none, none⟩

theorem cleanStep_serving {ranged : Bool} {chunk : Chunk} {response : Response}
    (hchunk : ∀ opened, CleanStep twoHosts ranged (.chunk opened) chunk)
    (hresponse : ∀ url, CleanResponse twoHosts ranged url response) (effect : StreamEffect) :
    CleanStep twoHosts ranged effect (serving chunk response effect) := by
  cases effect with
  | request effect =>
    cases effect with
    | «open» proxy method url headers address => exact hresponse url
    | remaining => trivial
    | resolver host port => trivial
    | closeResponse response => trivial
  | chunk opened => exact hchunk opened
  | ensure size => trivial
  | write data => trivial
  | file call => trivial
  | retryDate value => trivial
  | closeEnded => trivial

theorem errors_contracted_twoHosts :
    Outcome (fun _ => True) Contracted (.ok (bytes "ID3")) ∧
    Outcome (fun _ : List UInt8 => True) Contracted (.error (timedOutIn true)) ∧
    Outcome (fun response => response.statusCode ∉ redirects) (· ≠ .valueError)
      (.ok playable : Except Providers.RequestError Response) := by
  have hplayable : ∀ url, CleanResponse twoHosts false url playable :=
    fun _ => ⟨by simp [playable, redirects], by simp⟩
  have hkilobyte : ∀ url, CleanResponse twoHosts true url firstKilobyte := by
    intro url
    refine ⟨by simp [firstKilobyte, redirects], fun _ _ _ first last size hgroups => ?_⟩
    have hvalue : rangeGroups firstKilobyte = some (['0'], ['2'], ['3']) := by decide
    cases hvalue.symm.trans hgroups
    decide
  have hprobe : (play (serving (.data (bytes "ID3")) playable) (probe twoHosts smallProbe
      (fun _ => none) 2 "https://cdn.example/v" [] none none)).2 =
      .ok (.ok (bytes "ID3"), some (.response playable)) := by
    decide +kernel
  have hdata : ∀ opened, CleanStep twoHosts false (.chunk opened) (Chunk.data (bytes "ID3")) :=
    fun _ => trivial
  have htimeout : ∀ opened, CleanStep twoHosts true (.chunk opened) Chunk.timeout :=
    fun _ => trivial
  refine ⟨?_, ?_, ?_⟩
  · refine (errors_contracted twoHosts smallProbe (fun _ => none) 2).1 _ _ _ _ _ _
      (ends_play _ _ hprobe) ?_
    intro event hevent
    rw [mem_play hevent]
    exact cleanStep_serving hdata hplayable _
  · refine (errors_contracted twoHosts smallProbe (fun _ => none) 2).2.1 String inRanges 0 _ _ _
      (ends_play (serving .timeout firstKilobyte) _ rfl) ?_
    intro event hevent
    rw [mem_play hevent]
    exact cleanStep_serving htimeout hkilobyte _
  · refine (errors_contracted twoHosts smallProbe (fun _ => none) 2).2.2 String 3 askCdn _ _
      ⟨_, rfl⟩ (ends_play (fun _ => .ok playable) _ rfl) ?_
    intro event hevent
    rw [mem_play hevent]
    simp [CleanSent, playable, redirects]

theorem typed_serving {chunk : Chunk} {response : Response}
    (hchunk : ∀ opened, Typed (.chunk opened) chunk) (effect : StreamEffect) :
    Typed effect (serving chunk response effect) := by
  cases effect with
  | request effect => cases effect <;> trivial
  | chunk opened => exact hchunk opened
  | ensure size => trivial
  | write data => trivial
  | file call => trivial
  | retryDate value => trivial
  | closeEnded => trivial

/-- A body that raises, and redirects to what is no URL. -/
theorem contract_broken :
    (¬ ∀ U c proxyUrl rounds url headers proxyKey trace result s,
      Ends (probe U c proxyUrl rounds url headers proxyKey none) trace (.ok (result, s)) →
      (∀ event ∈ trace, Typed event.1 event.2) → Outcome (fun _ => True) Contracted result) ∧
    (¬ ∀ U c proxyUrl rounds (source : MediaSource String) alreadyWritten trace result s,
      Ends (streamSource U c proxyUrl rounds source alreadyWritten none) trace (.ok (result, s)) →
      (∀ event ∈ trace, Typed event.1 event.2) → Outcome (fun _ => True) Contracted result) ∧
    ¬ ∀ U maxRedirects (sent : Providers.Sent String) trace outcome,
      (∃ target, resolveTarget U sent.url = .ok target) →
      Ends (Providers.requestResponse U maxRedirects sent) trace outcome →
      (∀ event ∈ trace, ∀ error, event.2 = .error error → error ≠ .valueError) →
      Outcome (fun response => response.statusCode ∉ redirects) (· ≠ .valueError) outcome := by
  have hraised : ∀ opened, Typed (.chunk opened) Chunk.raised := fun _ => trivial
  refine ⟨?_, ?_, ?_⟩
  · intro h
    have hcontracted := h twoHosts smallProbe (fun _ => none) 1 "https://cdn.example/v" [] none _
      (.error .raised) _ (ends_play (serving .raised playable) _ rfl)
      fun event hevent => mem_play hevent ▸ typed_serving hraised _
    exact hcontracted.1 rfl
  · intro h
    have hcontracted := h twoHosts smallProbe (fun _ => none) 1 inRanges 0 _
      (.error (.transfer .valueError)) _ (ends_play (serving .raised redirectNowhere) _ rfl)
      fun event hevent => mem_play hevent ▸ typed_serving hraised _
    exact hcontracted.2 rfl
  · intro h
    have hcontracted := h twoHosts 3 askCdn _ (.error .valueError) ⟨_, rfl⟩
      (ends_play (fun _ => .ok redirectNowhere) _ rfl) (by
        intro event hevent error herror
        rw [mem_play hevent] at herror
        cases herror)
    exact hcontracted rfl

end Runs

end YtdlBot.Transport.Contract
