import YtdlBot.Framework.Phases
import YtdlBot.Transport.Streams

/-!
# What a transfer holds

A ledger of what `probe` and `_stream_source` have in their hands: the response that is open, the
bytes that were received and written, and the disk space that was granted. It is a protocol of
their effects, so it is kept through every redirect, range, failure and cancellation.
-/

namespace YtdlBot.Transport

open Framework
open Framework.Guarded (Keeps Unmoved unmoved keeps_check keeps_unmoved)

structure Ledger where
  /-- The response that is open. -/
  held : Option Response
  received : List UInt8
  written : List UInt8
  /-- The largest reservation. -/
  granted : Nat

namespace Ledger

def start : Ledger := ⟨none, [], [], 0⟩

variable (c : Settings) (room : Option Nat)

/-- Connections are opened one after another, and only the open response is read and closed. All
that was received is written, behind what is already written, into space that was reserved and
within the limit; where there is no room, nothing is written or reserved. A file is promoted when
all is written. -/
def allows (l : Ledger) : StreamEffect → Prop
  | .request effect =>
    match effect with
    | .open .. => l.held = none
    | .closeResponse response => l.held = some response
    | _ => True
  | .chunk response => l.held = some response
  | .ensure size => room ≠ none ∧ size ≤ c.maxBytes
  | .write data =>
    l.received = l.written ++ data ∧ ∃ alreadyWritten, room = some alreadyWritten ∧
      alreadyWritten + l.received.length ≤ l.granted ∧
      alreadyWritten + l.received.length ≤ c.maxBytes
  | .file .promote => l.received = l.written
  | .file _ | .retryDate _ => True
  | .closeEnded => l.held = none

def requested (l : Ledger) : (effect : RequestEffect) → Awaited effect.Result → Ledger
  | .open .., .answered (.response response) => { l with held := some response }
  | .closeResponse _, _ => { l with held := none }
  | _, _ => l

def next (l : Ledger) : (effect : StreamEffect) → effect.Result → Ledger
  | .request effect, result => l.requested effect result
  | .chunk _, .data bytes => { l with received := l.received ++ bytes }
  | .ensure size, .granted => { l with granted := max l.granted size }
  | .write data, .written => { l with written := l.written ++ data }
  | _, _ => l

/-- The rules of the ledger. -/
def rules : Program.Protocol StreamEffect StreamEffect.Result Ledger :=
  ⟨fun l => l.allows c room, next⟩

end Ledger

open Ledger (rules)

variable {c : Settings} {room : Option Nat} {timedOut : StreamError} {U : UrlLibrary}
  {hand : Option Opened} {l : Ledger}

section Requests

theorem keeps_effect {ρ : Type} (effect : RequestEffect)
    (result : effect.Result → Except TransferError ρ) {Q : ρ → Option Opened → Ledger → Prop}
    {X : Option Opened → Ledger → Prop} (h : l.allows c room (.request effect))
    (hok : ∀ response value, result response = .ok value →
      Q value hand (l.requested effect (.answered response)))
    (herror : ∀ response error, result response = .error error →
      X hand (l.requested effect (.answered response)))
    (hcancelled : X hand (l.requested effect .cancelled))
    (htimedOut : X hand (l.requested effect .timedOut)) :
    Keeps (rules c room) hand l (requesting timedOut (Program.attempt effect result))
      Q X := by
  rw [requesting, Guarded.embed_attempt]
  have hanswer : Keeps (rules c room) hand l (answer timedOut effect)
      (fun response hand' l' => hand' = hand ∧ l' = l.requested effect (.answered response)) X := by
    apply Guarded.keeps_attempt h
    · intro awaited value hvalue
      cases awaited with
      | answered response => exact ⟨rfl, by rw [← Except.ok.inj hvalue]; rfl⟩
      | cancelled => cases hvalue
      | timedOut => cases hvalue
    · intro awaited error hraised
      cases awaited with
      | answered response => cases hraised
      | cancelled => exact hcancelled
      | timedOut => exact htimedOut
  apply hanswer.bind
  rintro response hand' l' ⟨rfl, rfl⟩
  cases hresult : result response with
  | ok value => exact Guarded.keeps_pure (hok response value hresult)
  | error error => exact Guarded.keeps_raise (herror response error hresult)

theorem keeps_unnoticed {ρ : Type} (effect : StreamEffect)
    (result : effect.Result → Except StreamError ρ) (h : l.allows c room effect)
    (hsame : ∀ response, l.next effect response = l) :
    Keeps (rules c room) hand l (Guarded.attempt effect result) (fun _ => Unmoved hand l)
      (Unmoved hand l) :=
  Guarded.keeps_attempt h (fun response _ _ => ⟨rfl, hsame response⟩)
    fun response _ _ => ⟨rfl, hsame response⟩

theorem keeps_idle {ρ : Type} (effect : RequestEffect)
    (result : effect.Result → Except TransferError ρ)
    (h : l.allows c room (.request effect))
    (hidle : ∀ awaited, l.requested effect awaited = l) :
    Keeps (rules c room) hand l (requesting timedOut (Program.attempt effect result))
      (fun _ => Unmoved hand l) (Unmoved hand l) :=
  keeps_effect effect result h (fun _ _ _ => ⟨rfl, hidle _⟩) (fun _ _ _ => ⟨rfl, hidle _⟩)
    ⟨rfl, hidle _⟩ ⟨rfl, hidle _⟩

theorem keeps_checkRemaining :
    Keeps (rules c room) hand l (requesting timedOut checkRemaining)
      (fun _ => Unmoved hand l) (Unmoved hand l) :=
  keeps_idle .remaining remainingResult trivial fun _ => rfl

theorem keeps_resolve {url : String} :
    Keeps (rules c room) hand l (requesting timedOut (resolve U url))
      (fun _ => Unmoved hand l) (Unmoved hand l) := by
  simp only [resolve, requesting, Guarded.embed_bind, Guarded.embed_ofExcept]
  apply (keeps_check _).bind
  rintro target hand' l' ⟨-, rfl, rfl⟩
  apply Keeps.bind (keeps_idle (.resolver target.1 target.2) resolutionResult trivial fun _ => rfl)
  rintro raw hand' l' ⟨rfl, rfl⟩
  apply (keeps_check _).bind
  rintro addresses hand' l' ⟨-, rfl, rfl⟩
  exact Guarded.keeps_pure unmoved

theorem keeps_openHop {proxy : Option String} {hop : Hop} (hheld : l.held = none) :
    Keeps (rules c room) hand l (requesting timedOut (openHop U proxy hop))
      (fun response hand' l' => hand' = hand ∧ l' = { l with held := some response })
      (Unmoved hand l) := by
  simp only [openHop, requesting, Guarded.embed_bind]
  apply Keeps.bind keeps_checkRemaining
  rintro _ hand' l' ⟨rfl, rfl⟩
  apply Keeps.bind keeps_resolve
  rintro resolved hand' l' ⟨rfl, rfl⟩
  apply Keeps.bind keeps_checkRemaining
  rintro _ hand' l' ⟨rfl, rfl⟩
  cases resolved.addresses with
  | nil => exact Guarded.keeps_raise unmoved
  | cons address rest =>
    apply keeps_effect (.open proxy hop.method hop.url hop.headers address) connectionResult hheld
    · intro connection response hresponse
      cases connection with
      | response opened =>
        obtain rfl := Except.ok.inj hresponse
        exact ⟨rfl, rfl⟩
      | materializationError error => cases hresponse
      | timeoutOrOSError => cases hresponse
      | other => cases hresponse
    · intro connection error herror
      cases connection with
      | response opened => cases herror
      | materializationError error => exact unmoved
      | timeoutOrOSError => exact unmoved
      | other => exact unmoved
    · exact unmoved
    · exact unmoved

theorem keeps_close {response : Response} (hheld : l.held = some response) :
    Keeps (rules c room) hand l
      (requesting timedOut (Program.attempt (.closeResponse response) id))
      (fun _ => Unmoved hand { l with held := none }) (Unmoved hand { l with held := none }) :=
  keeps_effect (.closeResponse response) id hheld (fun _ _ _ => unmoved) (fun _ _ _ => unmoved)
    unmoved unmoved

theorem keeps_requestLoop {proxy : Option String} (attempts : Nat) (hop : Hop)
    (hheld : l.held = none) :
    Keeps (rules c room) hand l (requesting timedOut (requestLoop U proxy attempts hop))
      (fun result hand' l' => hand' = hand ∧ l' = { l with held := some result.1 })
      (Unmoved hand l) := by
  have hfree : { l with held := none } = l := by rw [← hheld]
  induction attempts generalizing hop with
  | zero => exact Guarded.keeps_raise unmoved
  | succ attempts ih =>
    simp only [requestLoop, requesting, Guarded.embed_bind]
    apply Keeps.bind (keeps_openHop hheld)
    rintro response hand' l' ⟨rfl, rfl⟩
    split
    · exact Guarded.keeps_pure ⟨rfl, rfl⟩
    · -- a redirect is closed before its target is opened
      rw [Guarded.embed_bind]
      refine ((keeps_close rfl).mono (fun _ _ _ hl => hl) fun hand'' l'' hl => ?_).bind ?_
      · exact ⟨hl.1, hl.2.trans hfree⟩
      · rintro _ hand'' l'' ⟨rfl, rfl⟩
        rw [hfree]
        split
        · exact Guarded.keeps_raise unmoved
        · rw [Guarded.embed_bind, Guarded.embed_ofExcept]
          apply (keeps_check _).bind
          rintro next hand' l' ⟨-, rfl, rfl⟩
          exact ih next

theorem keeps_request {maxRedirects : Nat} {proxyUrl : String → Option String}
    {method url : String} {headers : Headers} {bodySensitive : Bool} {proxyKey : Option String}
    (hheld : l.held = none) :
    Keeps (rules c room) hand l
      (requesting timedOut
        (request U maxRedirects proxyUrl method url headers bodySensitive proxyKey))
      (fun result hand' l' => hand' = hand ∧ l' = { l with held := some result.1 })
      (Unmoved hand l) := by
  simp only [request, requesting, Guarded.embed_bind]
  apply Keeps.bind keeps_checkRemaining
  rintro _ hand' l' ⟨rfl, rfl⟩
  cases proxyKey with
  | none => exact keeps_requestLoop _ _ hheld
  | some key =>
    dsimp only
    cases proxyUrl key with
    | none => exact Guarded.keeps_raise unmoved
    | some proxy => exact keeps_requestLoop _ _ hheld

end Requests

section Ranges

namespace RangeResponse

variable (s : RangeResponse) (p : Part)

@[simp] theorem enter_active (response : Response) (offset : Nat) :
    (s.enter response offset).active = s.active := by
  unfold enter
  split <;> rfl

@[simp] theorem begun_active : (begun s).active = s.active := by
  unfold begun
  split
  · split_ifs
    · rfl
    · exact enter_active _ _ _
  · rfl

@[simp] theorem chunk_active (bytes : List UInt8) :
    (s.chunk p bytes).active = some { p with body := p.body ++ bytes } := by
  unfold chunk
  dsimp only
  split
  · split_ifs <;> rfl
  · rfl

theorem bodyEnd_cases :
    ((∃ offset total, (s.bodyEnd p).phase = .closing offset total) ∧
      (s.bodyEnd p).active = none) ∨
    ((∀ offset total, (s.bodyEnd p).phase ≠ .closing offset total) ∧
      (s.bodyEnd p).active = some { p with complete := true }) := by
  unfold bodyEnd
  dsimp only
  split
  · split_ifs
    · exact .inr ⟨by simp, rfl⟩
    · exact .inl ⟨⟨_, _, rfl⟩, by simp⟩
  · exact .inr ⟨by simp, rfl⟩

end RangeResponse

/-- The response that `_close_response` would close. -/
def Opened.open : Opened → Option Response
  | response r => some r
  | ranges s => s.active.map Part.response

/-- What is held is in hand. -/
def Balanced (hand : Option Opened) (l : Ledger) : Prop := l.held = hand.bind Opened.open

/-- Received, in hand, and not written yet. -/
def Received (l : Ledger) (chunk : Option (List UInt8)) (hand' : Option Opened) (l' : Ledger) :
    Prop :=
  Balanced hand' l' ∧ l' = { l with held := l'.held, received := l.received ++ chunk.getD [] }

theorem keeps_keep {s : RangeResponse} {X : Option Opened → Ledger → Prop}
    (hX : ∀ failure, s.phase = .ended (.failed failure) → X (some (.ranges s)) l) :
    Keeps (rules c room) hand l (keep s)
      (fun _ => Unmoved (some (.ranges s)) l) X := by
  unfold keep
  apply Guarded.keeps_set_bind
  split
  · rename_i failure hphase
    exact Guarded.keeps_raise (hX failure hphase)
  · exact Guarded.keeps_pure unmoved

theorem keeps_chunk {response : Response} (hheld : l.held = some response)
    (hhand : Balanced hand l) :
    Keeps (rules c room) hand l
      (Guarded.attempt (.chunk response) (chunkResult timedOut))
      (fun chunk hand' l' => hand' = hand ∧
        l' = { l with received := l.received ++ chunk.getD [] }) Balanced := by
  apply Guarded.keeps_attempt hheld
  · intro chunk value hvalue
    cases chunk with
    | data bytes =>
      obtain rfl := Except.ok.inj hvalue
      exact ⟨rfl, rfl⟩
    | finished =>
      obtain rfl := Except.ok.inj hvalue
      exact ⟨rfl, by simp [rules, Ledger.next]⟩
    | _ => cases hvalue
  · intro chunk error herror
    cases chunk with
    | data bytes => cases herror
    | finished => cases herror
    | _ => exact hhand

/-- What the ledger asks of `open_range`. -/
def Opens (c : Settings) (room : Option Nat) (openRange : Int × Int → Streaming Response) :
    Prop :=
  ∀ interval hand (l : Ledger), l.held = none →
    Keeps (rules c room) hand l (openRange interval)
      (fun response hand' l' => hand' = hand ∧ l' = { l with held := some response })
      (Unmoved hand l)

variable {openRange : Int × Int → Streaming Response}

theorem keeps_readRange (hopen : Opens c room openRange) (rounds : Nat)
    (s : RangeResponse) (hhand : Balanced (some (.ranges s)) l) :
    Keeps (rules c room) (some (.ranges s)) l (readRange openRange timedOut rounds s)
      (Received l) Balanced := by
  induction rounds generalizing s l with
  | zero => exact Guarded.keeps_raise hhand
  | succ rounds ih =>
    unfold readRange
    split
    · exact Guarded.keeps_pure ⟨hhand, by simp⟩
    rename_i p hactive
    have hheld : l.held = some p.response := by
      simpa [Balanced, Opened.open, hactive] using hhand
    apply (keeps_chunk hheld hhand).bind
    rintro chunk hand' l' ⟨rfl, rfl⟩
    cases chunk with
    | some bytes =>
      apply (keeps_keep fun _ _ => ?_).bind
      · rintro _ hand' l' ⟨rfl, rfl⟩
        exact Guarded.keeps_pure ⟨by simpa [Balanced, Opened.open] using hheld, rfl⟩
      · simpa [Balanced, Opened.open] using hheld
    | none =>
      simp only [Option.getD_none, List.append_nil]
      obtain ⟨⟨offset, total, hphase⟩, hend⟩ | ⟨hphase, hend⟩ := s.bodyEnd_cases p
      · -- the range is complete: its response is closed, and only then the next one opened
        apply (keeps_keep fun failure hfailed => ?_).bind
        · rintro _ hand' l' ⟨rfl, rfl⟩
          rw [hphase]
          dsimp only
          apply ((keeps_close hheld).mono (fun _ _ _ hl => hl) fun hand' l' hl => ?_).bind
          · rintro _ hand' l' ⟨rfl, rfl⟩
            apply Guarded.keeps_ite
            · intro _
              apply Guarded.keeps_set_bind
              exact Guarded.keeps_pure ⟨by simp [Balanced, Opened.open, hend], by simp⟩
            · intro _
              apply Guarded.keeps_set_bind
              apply (keeps_unmoved (hopen _ _ _ rfl) (by simp [Balanced, Opened.open, hend])).bind
              rintro response hand' l' ⟨rfl, rfl⟩
              apply (keeps_keep fun _ _ => ?_).bind
              · rintro _ hand' l' ⟨rfl, rfl⟩
                exact (ih _ (by simp [Balanced, Opened.open])).mono (fun _ _ _ hl => hl)
                  fun _ _ hl => hl
              · simp [Balanced, Opened.open]
          · rw [hl.1, hl.2]
            simp [Balanced, Opened.open, hend]
        · rw [hphase] at hfailed
          cases hfailed
      · have hhand' : Balanced (some (.ranges (s.bodyEnd p))) l := by
          simpa [Balanced, Opened.open, hend] using hheld
        apply (keeps_keep fun _ _ => hhand').bind
        rintro _ hand' l' ⟨rfl, rfl⟩
        split
        · rename_i offset total hclosing
          exact absurd hclosing (hphase offset total)
        · exact Guarded.keeps_pure ⟨hhand', by simp⟩

theorem keeps_nextChunk (hopen : Opens c room openRange) (rounds : Nat)
    (hhand : Balanced hand l) :
    Keeps (rules c room) hand l (nextChunk openRange timedOut rounds)
      (Received l) Balanced := by
  unfold nextChunk
  apply Guarded.keeps_get_bind
  cases hand with
  | none => exact Guarded.keeps_pure ⟨hhand, by simp⟩
  | some opened =>
    cases opened with
    | response response =>
      refine (keeps_chunk hhand hhand).mono ?_ fun _ _ hl => hl
      rintro chunk hand' l' ⟨rfl, rfl⟩
      exact ⟨hhand, rfl⟩
    | ranges s =>
      have hbegun : Balanced (some (.ranges (begun s))) l := by
        simpa [Balanced, Opened.open] using hhand
      apply (keeps_keep fun _ _ => hbegun).bind
      rintro _ hand' l' ⟨rfl, rfl⟩
      exact keeps_readRange hopen rounds _ hbegun

theorem keeps_closeOpened (hhand : Balanced hand l) :
    Keeps (rules c room) hand l closeOpened
      (fun _ _ l' => l' = { l with held := none }) fun _ l' => l' = { l with held := none } := by
  unfold closeOpened
  apply Guarded.keeps_get_bind
  have hclose : ∀ hand response, l.held = some response →
      Keeps (rules c room) hand l
        (requesting .cancelled (Program.attempt (.closeResponse response) id))
        (fun _ _ l' => l' = { l with held := none }) fun _ l' => l' = { l with held := none } :=
    fun hand response hheld =>
      (keeps_close hheld).mono (fun _ _ _ hl => hl.2) fun _ _ hl => hl.2
  cases hand with
  | none => exact Guarded.keeps_pure (by rw [← show l.held = none from hhand])
  | some opened =>
    cases opened with
    | response response => exact hclose _ response hhand
    | ranges s =>
      dsimp only
      cases hactive : s.active with
      | none =>
        have hheld : l.held = none := by simpa [Balanced, Opened.open, hactive] using hhand
        have hfree : l = { l with held := none } := by rw [← hheld]
        exact (keeps_unnoticed .closeEnded closedResult hheld fun _ => rfl).mono
          (fun _ _ _ hl => hl.2.trans hfree) fun _ _ hl => hl.2.trans hfree
      | some p =>
        apply Guarded.keeps_set_bind
        exact hclose _ p.response (by simpa [Balanced, Opened.open, hactive] using hhand)

end Ranges

section Transfers

variable {proxyUrl : String → Option String} {alreadyWritten : Nat}
  {openRange : Int × Int → Streaming Response}

theorem keeps_remaining :
    Keeps (rules c room) hand l remaining (fun _ => Unmoved hand l) (Unmoved hand l) :=
  keeps_checkRemaining

theorem keeps_fileCall (call : FileCall) (h : l.allows c room (.file call)) :
    Keeps (rules c room) hand l (fileCall call) (fun _ => Unmoved hand l) (Unmoved hand l) :=
  keeps_unnoticed (.file call) localResult h fun _ => rfl

theorem keeps_checkResponse {statusCode : Nat} {headers : Headers} :
    Keeps (rules c room) hand l (checkResponse c statusCode headers) (fun _ => Unmoved hand l)
      (Unmoved hand l) := by
  have hparsed : Keeps (rules c room) hand l (parseRetryAfter headers) (fun _ => Unmoved hand l)
      (Unmoved hand l) := by
    unfold parseRetryAfter
    split
    · exact Guarded.keeps_pure unmoved
    · exact Guarded.keeps_pure unmoved
    · split
      · exact Guarded.keeps_pure unmoved
      · exact keeps_unnoticed (.retryDate _) dateDelay trivial fun _ => rfl
  unfold checkResponse
  refine Guarded.keeps_ite (fun _ => Guarded.keeps_raise unmoved) fun _ => ?_
  refine Guarded.keeps_ite (fun _ => ?_) fun _ => ?_
  · apply hparsed.bind
    rintro retryAfter hand' l' ⟨rfl, rfl⟩
    exact Guarded.keeps_raise unmoved
  refine Guarded.keeps_ite (fun _ => Guarded.keeps_raise unmoved) fun _ => ?_
  split
  · exact (keeps_check _).mono (fun _ _ _ hl => hl.2) fun _ _ hl => hl
  · exact Guarded.keeps_pure unmoved

theorem keeps_ensure {size : Nat} (hroom : room ≠ none) (hsize : size ≤ c.maxBytes) :
    Keeps (rules c room) hand l (Guarded.attempt (.ensure size) reservedResult)
      (fun _ hand' l' => hand' = hand ∧ l' = { l with granted := max l.granted size })
      (Unmoved hand l) := by
  have hallows : l.allows c room (.ensure size) := ⟨hroom, hsize⟩
  apply Guarded.keeps_attempt hallows
  · intro reserved value hvalue
    cases reserved with
    | granted => exact ⟨rfl, rfl⟩
    | _ => cases hvalue
  · intro reserved error herror
    cases reserved with
    | granted => cases herror
    | _ => exact unmoved

theorem keeps_write {data : List UInt8} (hreceived : l.received = l.written ++ data)
    (hgranted : alreadyWritten + l.received.length ≤ l.granted)
    (hlimit : alreadyWritten + l.received.length ≤ c.maxBytes) :
    Keeps (rules c (some alreadyWritten)) hand l
      (Guarded.attempt (.write data) writtenResult)
      (fun _ hand' l' => hand' = hand ∧ l' = { l with written := l.received })
      (Unmoved hand l) := by
  have hallows : l.allows c (some alreadyWritten) (.write data) :=
    ⟨hreceived, alreadyWritten, rfl, hgranted, hlimit⟩
  apply Guarded.keeps_attempt hallows
  · intro result value hvalue
    cases result with
    | written => exact ⟨rfl, by simp [rules, Ledger.next, hreceived]⟩
    | _ => cases hvalue
  · intro result error herror
    cases result with
    | written => cases herror
    | _ => exact unmoved

theorem checkActualSize_le {size : Nat} (h : checkActualSize c size = .ok ()) :
    size ≤ c.maxBytes := by
  unfold checkActualSize at h
  split_ifs at h with hlarge
  exact Nat.not_lt.mp hlarge

/-- The file holds what was received, within what was granted and the limit. -/
structure Accounted (c : Settings) (alreadyWritten : Nat) (content : List UInt8) (l : Ledger) :
    Prop where
  received : l.received = content
  written : l.written = content
  granted : content ≠ [] → alreadyWritten + content.length ≤ l.granted
  limited : content ≠ [] → alreadyWritten + content.length ≤ c.maxBytes

theorem Accounted.read {content : List UInt8} (hl : Accounted c alreadyWritten content l)
    {chunk : Option (List UInt8)} {hand' : Option Opened} {l' : Ledger} (hchunk : chunk.getD [] = [])
    (h : Received l chunk hand' l') : Accounted c alreadyWritten content l' := by
  rw [h.2, hchunk, List.append_nil]
  exact ⟨hl.received, hl.written, hl.granted, hl.limited⟩

theorem keeps_streamLoop (hopen : Opens c (some alreadyWritten) openRange) (rounds : Nat)
    {content : List UInt8} (hhand : Balanced hand l) (hl : Accounted c alreadyWritten content l) :
    Keeps (rules c (some alreadyWritten)) hand l
      (streamLoop c openRange alreadyWritten rounds content)
      (fun content hand' l' => Balanced hand' l' ∧ l.granted ≤ l'.granted ∧
        Accounted c alreadyWritten content l')
      Balanced := by
  induction rounds generalizing hand l content with
  | zero => exact Guarded.keeps_raise hhand
  | succ rounds ih =>
    unfold streamLoop
    apply (keeps_unmoved keeps_remaining hhand).bind
    rintro _ hand' l' ⟨rfl, rfl⟩
    apply (keeps_nextChunk hopen (rounds + 1) hhand).bind
    rintro chunk hand' l'' hreceived
    have hhand' := hreceived.1
    have hgrown : l''.granted = l'.granted := by rw [hreceived.2]
    match chunk with
    | none => exact Guarded.keeps_pure ⟨hhand', hgrown.ge, hl.read rfl hreceived⟩
    | some [] =>
      rw [← hgrown]
      exact ih hhand' (hl.read rfl hreceived)
    | some (first :: rest) =>
      have hcontent : l''.received = content ++ first :: rest := by
        rw [hreceived.2, hl.received]
        rfl
      have hwhole : l''.received = l''.written ++ first :: rest := by
        rw [hcontent, hreceived.2, hl.written]
      have hroom : ∀ granted, alreadyWritten + l''.received.length ≤
          max granted (alreadyWritten + (content ++ first :: rest).length) := by
        intro granted
        rw [hcontent]
        exact le_max_right _ _
      apply (keeps_unmoved (keeps_check _) hhand').bind
      rintro _ hand'' l' ⟨hsize, rfl, rfl⟩
      have hsize := checkActualSize_le hsize
      apply (keeps_unmoved keeps_remaining hhand').bind
      rintro _ hand' l ⟨rfl, rfl⟩
      apply (keeps_unmoved (keeps_ensure (by simp) hsize) hhand').bind
      rintro _ hand'' l' ⟨rfl, rfl⟩
      refine Keeps.bind (keeps_unmoved keeps_remaining hhand') ?_
      rintro _ hand' l' ⟨rfl, rfl⟩
      refine Keeps.bind (keeps_unmoved (keeps_write hwhole (hroom _) (by rwa [hcontent])) hhand') ?_
      rintro _ hand'' l' ⟨rfl, rfl⟩
      refine Keeps.mono (ih hhand' ⟨hcontent, hcontent, fun _ => le_max_right _ _, fun _ => hsize⟩)
        ?_ fun _ _ hl => hl
      rintro content hand' l' ⟨hbalanced, hmore, hl⟩
      exact ⟨hbalanced, (hgrown.ge.trans (le_max_left _ _)).trans hmore, hl⟩

theorem keeps_reserveDeclared {opened : Opened} (hhand : Balanced hand l)
    (hl : Accounted c alreadyWritten [] l) :
    Keeps (rules c (some alreadyWritten)) hand l (reserveDeclared c alreadyWritten opened)
      (fun _ hand' l' => Balanced hand' l' ∧ l.granted ≤ l'.granted ∧
        Accounted c alreadyWritten [] l')
      Balanced := by
  unfold reserveDeclared
  cases contentLength opened.headers with
  | none => exact Guarded.keeps_pure ⟨hhand, le_rfl, hl⟩
  | some declared =>
    apply (keeps_unmoved (keeps_check _) hhand).bind
    rintro _ hand' l' ⟨hsize, rfl, rfl⟩
    have hsize := checkActualSize_le hsize
    apply (keeps_unmoved keeps_remaining hhand).bind
    rintro _ hand' l' ⟨rfl, rfl⟩
    refine (keeps_unmoved (keeps_ensure (by simp) hsize) hhand).mono ?_ fun _ _ hl => hl
    rintro _ hand'' l'' ⟨rfl, rfl⟩
    exact ⟨hhand, le_max_left _ _, hl.received, hl.written, by simp, by simp⟩

theorem joined_open {rangeSize : Option Int} {response : Response} {opened : Opened}
    (h : joined rangeSize response = .ok opened) : opened.open = some response := by
  have hinit : ∀ size, (RangeResponse.init size response).active =
      some ⟨response, [], false, 0⟩ := by
    intro size
    unfold RangeResponse.init
    dsimp only
    split_ifs
    · split <;> rfl
    · rfl
  unfold joined at h
  split at h
  · rw [← Except.ok.inj h]
    rfl
  · split at h
    · cases h
    · rw [← Except.ok.inj h]
      simp [Opened.open, hinit]

theorem keeps_readSource (hopen : Opens c (some alreadyWritten) openRange) {rounds : Nat}
    {rangeSize : Option Int} {response : Response} (hhand : hand = some (.response response))
    (hheld : l.held = some response) (hl : Accounted c alreadyWritten [] l) :
    Keeps (rules c (some alreadyWritten)) hand l
      (readSource c openRange rounds alreadyWritten rangeSize response)
      (fun content hand' l' => content ≠ [] ∧ Balanced hand' l' ∧ l.granted ≤ l'.granted ∧
        Accounted c alreadyWritten content l') Balanced := by
  have hbalanced : Balanced hand l := by rw [Balanced, hheld, hhand]; rfl
  unfold readSource
  apply (keeps_unmoved (keeps_check _) hbalanced).bind
  rintro opened hand' l' ⟨hopened, rfl, rfl⟩
  apply Guarded.keeps_set_bind
  have hbalanced : Balanced (some opened) l' := hheld.trans (joined_open hopened).symm
  apply (keeps_unmoved keeps_checkResponse hbalanced).bind
  rintro _ hand' l ⟨rfl, rfl⟩
  apply (keeps_reserveDeclared hbalanced hl).bind
  rintro _ hand' l' ⟨hbalanced, hdeclared, hl⟩
  apply (keeps_unmoved (keeps_fileCall .open trivial) hbalanced).bind
  rintro _ hand l'' ⟨rfl, rfl⟩
  apply ((keeps_streamLoop hopen rounds hbalanced hl).andFinally_unmoved
    (fun _ _ => keeps_fileCall .close trivial) fun _ _ _ hread => hread.1).bind
  rintro content hand'' l' ⟨hbalanced, hread, hl⟩
  apply Guarded.keeps_ite
  · intro _
    exact Guarded.keeps_raise hbalanced
  · intro hcontent
    apply Guarded.keeps_ite
    · intro _
      exact Guarded.keeps_raise hbalanced
    · intro _
      apply (keeps_unmoved (keeps_check _) hbalanced).bind
      rintro _ hand' l' ⟨-, rfl, rfl⟩
      apply (keeps_unmoved keeps_remaining hbalanced).bind
      rintro _ hand'' l ⟨rfl, rfl⟩
      exact Guarded.keeps_pure ⟨hcontent, hbalanced, hdeclared.trans hread, hl⟩

theorem opens_openRange {url : String} {headers : Headers} {proxyKey : Option String}
    {response : Response} :
    Opens c room (fun interval => do
      let (next, _) ← requesting (timedOutIn false)
        (request U c.maxRedirects proxyUrl "GET" url
          (openRangeHeaders headers (rangeValidator response) interval) false proxyKey)
      pure next) := by
  intro interval hand l hheld
  apply (keeps_request hheld).bind
  rintro ⟨next, url⟩ hand' l' ⟨rfl, rfl⟩
  exact Guarded.keeps_pure ⟨rfl, rfl⟩

/-- A transfer opens one connection at a time and leaves none open, writes what it receives into
space reserved within the limit, and returns exactly what it has received and written. -/
theorem streamSource_balanced {τ : Type} (U : UrlLibrary) (c : Settings)
    (proxyUrl : String → Option String) (rounds : Nat) (source : Media.MediaSource τ)
    (alreadyWritten : Nat) (hand : Option Opened) :
    Keeps (rules c (some alreadyWritten)) hand .start
      (streamSource U c proxyUrl rounds source alreadyWritten)
      (fun content _ l => l.held = none ∧ content ≠ [] ∧ l.received = content ∧
        l.written = content ∧ alreadyWritten + content.length ≤ l.granted ∧
        alreadyWritten + content.length ≤ c.maxBytes)
      fun _ l => l.held = none := by
  unfold streamSource
  refine Keeps.bind (keeps_unmoved (keeps_check _) rfl) ?_
  rintro headers hand' l ⟨-, rfl, rfl⟩
  refine Keeps.bind (keeps_unmoved (keeps_request rfl) rfl) ?_
  rintro ⟨response, url⟩ hand' l ⟨rfl, rfl⟩
  apply Guarded.keeps_set_bind
  refine Keeps.tryCatch (X := fun _ l => l.held = none) (Keeps.andFinally
    (Q := fun content hand l => content ≠ [] ∧ Balanced hand l ∧
      Accounted c alreadyWritten content l) (X := Balanced) ?_ ?_ ?_) ?_
  · refine Keeps.bind (keeps_unmoved (keeps_fileCall .bind trivial) rfl) ?_
    rintro _ hand' l ⟨rfl, rfl⟩
    apply (keeps_readSource opens_openRange rfl rfl ⟨rfl, rfl, by simp, by simp⟩).bind
    rintro content hand' l ⟨hcontent, hbalanced, -, hl⟩
    have hwhole : l.received = l.written := hl.received.trans hl.written.symm
    apply (keeps_unmoved (keeps_fileCall .promote hwhole) hbalanced).bind
    rintro _ hand l' ⟨rfl, rfl⟩
    exact Guarded.keeps_pure ⟨hcontent, hbalanced, hl⟩
  · rintro content hand' l ⟨hcontent, hbalanced, hl⟩
    refine (keeps_closeOpened hbalanced).mono ?_ ?_
    · rintro _ _ l' rfl
      exact ⟨rfl, hcontent, hl.received, hl.written, hl.granted hcontent, hl.limited hcontent⟩
    · rintro _ l' rfl
      rfl
  · rintro hand' l hbalanced
    exact (keeps_closeOpened hbalanced).mono (fun _ _ _ hl => by rw [hl]) fun _ _ hl => by rw [hl]
  · rintro error hand' l hheld
    refine Keeps.bind (keeps_unmoved (keeps_fileCall .unlinkPartial trivial) hheld) ?_
    rintro _ hand l' ⟨rfl, rfl⟩
    refine Keeps.bind (keeps_unmoved (keeps_fileCall .unlinkFinal trivial) hheld) ?_
    rintro _ hand' l ⟨rfl, rfl⟩
    exact Guarded.keeps_raise hheld

theorem keeps_probeLoop {response : Response} (rounds : Nat) {data : List UInt8}
    (hheld : l.held = some response) (hhand : Balanced hand l)
    (hdata : data = l.received.take c.probeBytes) :
    Keeps (rules c none) hand l (probeLoop c response rounds data)
      (fun data hand' l' => Balanced hand' l' ∧ data = l'.received.take c.probeBytes ∧
        l'.written = l.written ∧ l'.granted = l.granted) Balanced := by
  induction rounds generalizing l data with
  | zero => exact Guarded.keeps_raise hhand
  | succ rounds ih =>
    unfold probeLoop
    apply Guarded.keeps_ite
    · intro _
      exact Guarded.keeps_pure ⟨hhand, hdata, rfl, rfl⟩
    · intro hshort
      have hall : l.received.length < c.probeBytes := by
        rw [hdata, List.length_take] at hshort
        omega
      have hreceived : data = l.received := by
        rw [hdata, List.take_of_length_le hall.le]
      apply (keeps_unmoved keeps_remaining hhand).bind
      rintro _ hand' l' ⟨rfl, rfl⟩
      apply (keeps_chunk hheld hhand).bind
      rintro chunk hand'' l' ⟨rfl, rfl⟩
      cases chunk with
      | none => exact Guarded.keeps_pure ⟨hhand, by simpa using hdata, rfl, rfl⟩
      | some bytes =>
        refine ih hheld hhand ?_
        rw [hreceived, Option.getD_some, List.take_append, List.take_of_length_le hall.le]

/-- A probe opens one connection at a time and leaves none open, never writes or reserves, and
returns the first bytes that it has received. -/
theorem probe_balanced {rounds : Nat} {url : String} {headers : Headers}
    {proxyKey : Option String} (hheld : l.held = none) (hreceived : l.received = []) :
    Keeps (rules c none) hand l (probe U c proxyUrl rounds url headers proxyKey)
      (fun data _ l' => l'.held = none ∧ data = l'.received.take c.probeBytes ∧
        l'.written = l.written ∧ l'.granted = l.granted)
      fun _ l' => l'.held = none := by
  unfold probe
  apply (keeps_unmoved keeps_remaining hheld).bind
  rintro _ hand' l ⟨rfl, rfl⟩
  apply (keeps_unmoved (keeps_request hheld) hheld).bind
  rintro ⟨response, url⟩ hand' l' ⟨rfl, rfl⟩
  apply Guarded.keeps_set_bind
  refine Keeps.andFinally (Q := fun data hand' l' => Balanced hand' l' ∧
    data = l'.received.take c.probeBytes ∧ l'.written = l.written ∧ l'.granted = l.granted)
    (X := Balanced) ?_ ?_ ?_
  · refine Keeps.bind (keeps_unmoved keeps_checkResponse rfl) ?_
    rintro _ hand' l' ⟨rfl, rfl⟩
    refine Keeps.bind (keeps_probeLoop rounds rfl rfl (by simp [hreceived])) ?_
    rintro data hand' l' hdata
    apply (keeps_unmoved (keeps_check _) hdata.1).bind
    rintro _ hand'' l'' ⟨-, rfl, rfl⟩
    exact Guarded.keeps_pure hdata
  · rintro data hand' l' ⟨hbalanced, hdata⟩
    refine (keeps_closeOpened hbalanced).mono ?_ ?_
    · rintro _ _ l'' rfl
      exact ⟨rfl, hdata⟩
    · rintro _ l'' rfl
      rfl
  · rintro hand' l' hbalanced
    exact (keeps_closeOpened hbalanced).mono (fun _ _ _ hl => by rw [hl]) fun _ _ hl => by rw [hl]

end Transfers

end YtdlBot.Transport
