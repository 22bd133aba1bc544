import YtdlBot.Transport.Downloads

/-!
# What a download leaves

An account of what `_download_candidate` has: its reservation, the files that may be on disk, the
leases on them, and the ledger of the transfer at hand. A download that fails leaves nothing of
these, unless a deletion fails too, but the sidecars that its reservation cannot take; one that
succeeds leaves its files with their leases.
-/

namespace YtdlBot.Transport

open Framework
open Framework.Guarded (Keeps Unmoved unmoved keeps_check keeps_unmoved)
open Framework.Program (Protocol)
open Media (MediaCandidate MediaSource downloadSources)

/-- The reservation of a download. -/
inductive Allocation where
  | unreserved
  | reserved
  | released
deriving DecidableEq

structure Account where
  ledger : Ledger
  /-- The bytes of the promoted files of sources. -/
  total : Nat
  /-- The files that may be there. -/
  files : Finset File
  leased : Finset File
  /-- The sidecars that the reservation does not know, or has met locked when it was released. -/
  left : Finset File
  /-- The partial file that is written. -/
  writing : Option File
  allocation : Allocation
  /-- A file or a lease could not be removed. -/
  fault : Bool

namespace Account

def start : Account := ⟨.start, 0, ∅, ∅, ∅, none, .unreserved, false⟩

/-- Only a leased file is written, behind the files that are complete. -/
def room (a : Account) : Option Nat :=
  match a.writing with
  | none => none
  | some file => if file ∈ a.leased then some a.total else none

variable (c : Settings)

/-- Files are leased before they are written, and promoted when all that was received is in them.
A transform runs when its inputs are there and leased, with space for them and its output. -/
def allows (a : Account) : DownloadEffect → Prop
  | .stream effect => a.ledger.allows c a.room effect
  | .reserve _ => a.allocation = .unreserved
  | .bind _ => a.allocation = .reserved
  | .promote old _ =>
    a.allocation = .reserved ∧ old ∈ a.leased ∧ a.ledger.received = a.ledger.written
  | .grow size => a.allocation = .reserved ∧ size = a.total + c.maxBytes
  | .runTransform inputs output =>
    output ∈ a.leased ∧ (∀ file ∈ inputs, file ∈ a.files ∧ file ∈ a.leased) ∧
      a.total + c.maxBytes ≤ a.ledger.granted
  | .release => a.allocation = .reserved
  | _ => True

/-- The next transfer starts with nothing received. -/
def turn (a : Account) (writing : Option File) : Account :=
  { a with ledger := { a.ledger with received := [], written := [] }, writing := writing }

def lease (a : Account) (file : File) : Account :=
  { a.turn (some file) with leased := insert file a.leased }

def appear (a : Account) (file : File) : Account := { a with files := insert file a.files }

/-- A source opens its file behind the binding, that of the transform is made by ffmpeg. -/
def bound (a : Account) (file : File) : Account :=
  if file = .part .transform then a.lease file else (a.lease file).appear file

def promoted (a : Account) (old new : File) : Account :=
  { a with
    total := a.total + a.ledger.written.length
    files := insert new (a.files.erase old)
    leased := insert new (a.leased.erase old)
    writing := none }

/-- A promotion that has failed may have been done or not. -/
def torn (a : Account) (new : File) : Account :=
  { a with files := insert new a.files, leased := insert new a.leased }

/-- A call that has failed behind the sidecar it has written. -/
def stray (a : Account) (file : File) : Account :=
  { a with leased := insert file a.leased, left := insert file a.left }

/-- The reservation takes the sidecars that it knows. -/
def unleased (a : Account) (file : File) : Account :=
  { a with leased := if file ∈ a.left then a.leased else a.leased.erase file }

def released (a : Account) (left : List File) : Account :=
  { a with
    allocation := .released
    leased := a.leased ∩ (a.left ∪ left.toFinset)
    left := a.left ∪ left.toFinset }

def grant (a : Account) (size : Nat) : Account :=
  { a with ledger := { a.ledger with granted := max a.ledger.granted size } }

def next (a : Account) : (effect : DownloadEffect) → effect.Result → Account
  | .stream effect, response => { a with ledger := a.ledger.next effect response }
  | .reserve size, .granted => { a.grant size.toNat with allocation := .reserved }
  | .late, _ => a.turn none
  | .bind file, .done => a.bound file
  | .bind file, .torn => a.stray file
  | .promote old new, .done => a.promoted old new
  | .promote _ new, .raised => a.torn new
  | .promote _ new, .torn => (a.torn new).stray new
  | .unbind file, .done => a.unleased file
  | .unbind _, _ => { a with fault := true }
  | .unlink file, .done => { a with files := a.files.erase file }
  | .unlink _, _ => { a with fault := true }
  | .grow size, .granted => a.grant size
  | .runTransform _ output, _ => a.appear output
  | .release, .raised => { a with allocation := .released, fault := true }
  | .release, .released left | .release, .cancelled left => a.released left
  | _, _ => a

def rules : Protocol DownloadEffect DownloadEffect.Result Account := ⟨allows c, next⟩

theorem bound_source (a : Account) (number : Nat) :
    a.bound (.part (.source number)) =
      (a.lease (.part (.source number))).appear (.part (.source number)) := by
  simp [bound]

theorem bound_transform (a : Account) :
    a.bound (.part .transform) = a.lease (.part .transform) := by
  simp [bound]

theorem unleased_of_none {a : Account} (h : a.left = ∅) (file : File) :
    a.unleased file = { a with leased := a.leased.erase file } := by
  simp [unleased, h]

end Account

variable {c : Settings} {w : Work} {a : Account}

section Parts

/-- While a transfer goes on, only its ledger changes. -/
def During (a a' : Account) : Prop := a' = { a with ledger := a'.ledger }

theorem During.room {a' : Account} (h : During a a') : a'.room = a.room := by
  rw [h]
  rfl

theorem extends_ledger {room : Option Nat} (hroom : a.room = room) :
    Program.Extends (Ledger.rules c room) (Account.rules c) DownloadEffect.stream
      (fun _ response => response) Account.ledger (During a) where
  allows := by
    intro a' effect hduring hallows
    show a'.ledger.allows c a'.room effect
    rw [hduring.room, hroom]
    exact hallows
  next := fun _ _ _ _ => rfl
  keeps := by
    intro a' effect response hduring
    show ({ a' with ledger := _ } : Account) = _
    rw [show a' = { a with ledger := a'.ledger } from hduring]
    rfl

theorem keeps_streaming {α : Type} {x : Streaming α} {room : Option Nat}
    {Q : α → Option Opened → Ledger → Prop} {X : Option Opened → Ledger → Prop}
    (hroom : a.room = room) (h : Keeps (Ledger.rules c room) w.hand a.ledger x Q X) :
    Keeps (Account.rules c) w a (streaming x)
      (fun value w' a' => During a a' ∧ ∃ hand, w' = { w with hand := hand } ∧
        Q value hand a'.ledger)
      fun w' a' => During a a' ∧ ∃ hand, w' = { w with hand := hand } ∧ X hand a'.ledger :=
  Keeps.zoom (extends_ledger hroom) rfl h

theorem keeps_deadline :
    Keeps (Account.rules c) w a (streaming remaining) (fun _ => Unmoved w a) (Unmoved w a) := by
  refine (keeps_streaming rfl keeps_remaining).mono ?_ ?_
  · rintro _ w' a' ⟨hduring, hand, rfl, rfl, hledger⟩
    exact ⟨rfl, by rw [hduring, hledger]⟩
  · rintro w' a' ⟨hduring, hand, rfl, rfl, hledger⟩
    exact ⟨rfl, by rw [hduring, hledger]⟩

end Parts

section Files

variable {file old new : File}

theorem keeps_bindFile {X : Work → Account → Prop} (h : a.allocation = .reserved) (hX : X w a)
    (hstray : X w (a.stray file)) :
    Keeps (Account.rules c) w a (bindFile file) (fun _ => Unmoved w (a.bound file)) X := by
  apply Guarded.keeps_attempt h
  · intro ending value hvalue
    cases ending with
    | done => exact unmoved
    | raised => cases hvalue
    | torn => cases hvalue
  · intro ending error herror
    cases ending with
    | done => cases herror
    | raised => exact hX
    | torn => exact hstray

theorem keeps_promoteFile {X : Work → Account → Prop} (h : a.allocation = .reserved)
    (hold : old ∈ a.leased) (hwhole : a.ledger.received = a.ledger.written) (hX : X w (a.torn new))
    (hstray : X w ((a.torn new).stray new)) :
    Keeps (Account.rules c) w a (promoteFile old new) (fun _ => Unmoved w (a.promoted old new))
      X := by
  have hallows : a.allows c (.promote old new) := ⟨h, hold, hwhole⟩
  apply Guarded.keeps_attempt hallows
  · intro ending value hvalue
    cases ending with
    | done => exact unmoved
    | raised => cases hvalue
    | torn => cases hvalue
  · intro ending error herror
    cases ending with
    | done => cases herror
    | raised => exact hX
    | torn => exact hstray

theorem keeps_unlinkFile :
    Keeps (Account.rules c) w a (unlinkFile file)
      (fun _ => Unmoved w { a with files := a.files.erase file })
      (Unmoved w { a with fault := true }) := by
  apply Guarded.keeps_attempt trivial
  · intro ending value hvalue
    cases ending with
    | done => exact unmoved
    | raised => cases hvalue
    | torn => cases hvalue
  · intro ending error herror
    cases ending with
    | done => cases herror
    | raised => exact unmoved
    | torn => exact unmoved

theorem keeps_unbindFile :
    Keeps (Account.rules c) w a (unbindFile file)
      (fun _ => Unmoved w (a.unleased file)) (Unmoved w { a with fault := true }) := by
  apply Guarded.keeps_attempt trivial
  · intro ending value hvalue
    cases ending with
    | done => exact unmoved
    | raised => cases hvalue
    | torn => cases hvalue
  · intro ending error herror
    cases ending with
    | done => cases herror
    | raised => exact unmoved
    | torn => exact unmoved

end Files

/-- A download that is going to fail: its reservation is still there, and every file that may be
there is one of these. -/
structure Failing (paths : List File) (a : Account) : Prop where
  allocation : a.allocation = .reserved
  files : a.fault = false → ∀ file ∈ a.files, file ∈ paths

/-- Between two transfers: the completed files are there, leased and counted. -/
structure Settled (c : Settings) (completed : List File) (a : Account) : Prop where
  allocation : a.allocation = .reserved
  fault : a.fault = false
  left : a.left = ∅
  files : ∀ file, file ∈ a.files ↔ file ∈ completed
  leased : ∀ file, file ∈ a.leased ↔ file ∈ completed
  promoted : ∀ file ∈ completed, ∃ number, file = .media (.source number)
  granted : a.total ≤ a.ledger.granted
  limited : a.total ≤ c.maxBytes

variable {completed : List File}

theorem Settled.failing (h : Settled c completed a) : Failing completed a :=
  ⟨h.allocation, fun _ file hfile => (h.files file).mp hfile⟩

theorem Settled.not_part (h : Settled c completed a) (name : Name) : .part name ∉ completed := by
  intro hpart
  obtain ⟨number, hfile⟩ := h.promoted _ hpart
  cases hfile

section Sources

variable {τ : Type} {U : UrlLibrary} {proxyUrl : String → Option String} {number : Nat}

/-- Files that are being made: besides the completed files only these two may be there. -/
structure Making (completed : List File) (name : Name) (a : Account) : Prop where
  allocation : a.allocation = .reserved
  files : a.fault = false → ∀ file ∈ a.files,
    file ∈ completed ∨ file = .part name ∨ file = .media name

theorem Settled.making (h : Settled c completed a) (name : Name) : Making completed name a :=
  ⟨h.allocation, fun _ file hfile => .inl ((h.files file).mp hfile)⟩

/-- A source whose response does not close counts as not fetched. -/
theorem Settled.unfetched (h : Settled c (completed ++ [.media (.source number)]) a) :
    Making completed (.source number) a := by
  refine ⟨h.allocation, fun _ file hfile => ?_⟩
  rcases List.mem_append.mp ((h.files file).mp hfile) with hfile | hfile
  · exact .inl hfile
  · exact .inr (.inr (List.mem_singleton.mp hfile))

section Making

variable {name : Name}

theorem Making.during {a' : Account} (h : Making completed name a) (hduring : During a a') :
    Making completed name a' := by
  rw [hduring]
  exact ⟨h.allocation, h.files⟩

theorem Making.appear (h : Making completed name a) :
    Making completed name (a.appear (.part name)) := by
  refine ⟨h.allocation, fun hfault file hfile => ?_⟩
  rcases Finset.mem_insert.mp hfile with rfl | hfile
  · exact .inr (.inl rfl)
  · exact h.files hfault file hfile

theorem Making.appear_lease (h : Making completed name a) :
    Making completed name ((a.lease (.part name)).appear (.part name)) :=
  Making.appear ⟨h.allocation, h.files⟩

theorem Making.stray (h : Making completed name a) (file : File) :
    Making completed name (a.stray file) :=
  ⟨h.allocation, h.files⟩

theorem Making.torn (h : Making completed name a) :
    Making completed name (a.torn (.media name)) := by
  refine ⟨h.allocation, fun hfault file hfile => ?_⟩
  rcases Finset.mem_insert.mp hfile with rfl | hfile
  · exact .inr (.inr rfl)
  · exact h.files hfault file hfile

theorem failing_of_fault {paths : List File} (h : a.allocation = .reserved)
    (hfault : a.fault = true) : Failing paths a := by
  refine ⟨h, fun hnone => ?_⟩
  rw [hfault] at hnone
  cases hnone

theorem keeps_discard {α : Type} {rest : Downloading α} {Q : α → Work → Account → Prop}
    {X : Work → Account → Prop} (h : Making completed name a) (hheld : a.ledger.held = none)
    (hX : ∀ a' : Account, a'.ledger.held = none → Failing completed a' → X w a')
    (hrest : ∀ a' : Account, a'.ledger.held = none → Failing completed a' →
      Keeps (Account.rules c) w a' rest Q X) :
    Keeps (Account.rules c) w a
      (do
        unlinkFile (.part name)
        unlinkFile (.media name)
        rest)
      Q X := by
  refine Keeps.bind (keeps_unmoved keeps_unlinkFile
    (hX _ hheld (failing_of_fault h.allocation rfl))) ?_
  rintro _ w a' ⟨rfl, rfl⟩
  refine Keeps.bind (keeps_unmoved keeps_unlinkFile
    (hX _ hheld (failing_of_fault h.allocation rfl))) ?_
  rintro _ w' a' ⟨rfl, rfl⟩
  refine hrest _ hheld ⟨h.allocation, fun hfault file hfile => ?_⟩
  simp only [Finset.mem_erase] at hfile
  rcases h.files hfault file hfile.2.2 with hcompleted | hown
  · exact hcompleted
  · exact absurd hown (by simp [hfile.1, hfile.2.1])

end Making

theorem Settled.promoted_source (h : Settled c completed a) {a' : Account}
    {content : List UInt8} (hduring : During ((a.lease (.part (.source number))).appear
      (.part (.source number))) a')
    (hl : Accounted c a.total content a'.ledger) (hcontent : content ≠ []) :
    Settled c (completed ++ [.media (.source number)])
      (a'.promoted (.part (.source number)) (.media (.source number))) := by
  have hpart := h.not_part (.source number)
  have htotal : (a'.promoted (.part (.source number)) (.media (.source number))).total =
      a.total + content.length := by
    rw [hduring]
    exact congrArg (a.total + ·) (congrArg List.length hl.written)
  refine ⟨?_, ?_, ?_, fun file => ?_, fun file => ?_, fun file hfile => ?_, ?_, ?_⟩
  · rw [hduring]
    exact h.allocation
  · rw [hduring]
    exact h.fault
  · rw [hduring]
    exact h.left
  · rw [hduring]
    simp only [Account.promoted, Account.appear, Account.lease, Account.turn,
      Finset.erase_insert_eq_erase, Finset.mem_insert,
      Finset.mem_erase, h.files, List.mem_append, List.mem_singleton]
    constructor
    · rintro (hfile | ⟨-, hfile⟩)
      · exact .inr hfile
      · exact .inl hfile
    · rintro (hfile | hfile)
      · exact .inr ⟨fun heq => hpart (heq ▸ hfile), hfile⟩
      · exact .inl hfile
  · rw [hduring]
    simp only [Account.promoted, Account.appear, Account.lease, Account.turn,
      Finset.erase_insert_eq_erase, Finset.mem_insert,
      Finset.mem_erase, h.leased, List.mem_append, List.mem_singleton]
    constructor
    · rintro (hfile | ⟨-, hfile⟩)
      · exact .inr hfile
      · exact .inl hfile
    · rintro (hfile | hfile)
      · exact .inr ⟨fun heq => hpart (heq ▸ hfile), hfile⟩
      · exact .inl hfile
  · rcases List.mem_append.mp hfile with hfile | hfile
    · exact h.promoted file hfile
    · exact ⟨number, List.mem_singleton.mp hfile⟩
  · rw [htotal]
    exact hl.granted hcontent
  · rw [htotal]
    exact hl.limited hcontent

theorem room_lease (file : File) : ((a.lease file).appear file).room = some a.total := by
  simp [Account.room, Account.appear, Account.lease, Account.turn]

theorem During.held {held : Option Response} :
    During a { a with ledger := { a.ledger with held := held } } := rfl

/-- Only the response in hand has changed. -/
def Handed (w w' : Work) : Prop := ∃ hand, w' = { w with hand := hand }

theorem keeps_readFile {rounds : Nat} {rangeSize : Option Int} {response : Response}
    {openRange : Int × Int → Streaming Response} (hopen : Opens c (some a.total) openRange)
    (h : Settled c completed a) (hhand : w.hand = some (.response response))
    (hheld : a.ledger.held = some response) :
    Keeps (Account.rules c) w a
      (do
        bindFile (.part (.source number))
        let content ← streaming (readSource c openRange rounds a.total rangeSize response)
        promoteFile (.part (.source number)) (.media (.source number))
        pure (File.media (.source number), content.length))
      (fun result w' a' => Handed w w' ∧ Balanced w'.hand a'.ledger ∧
        result.1 = .media (.source number) ∧ a'.total = a.total + result.2 ∧
        Settled c (completed ++ [result.1]) a')
      fun w' a' => Handed w w' ∧ Balanced w'.hand a'.ledger ∧ Making completed (.source number) a' := by
  have hbalanced : Balanced w.hand a.ledger := by
    rw [hhand]
    exact hheld
  have hmaking : Making completed (.source number) a := h.making (.source number)
  apply (keeps_bindFile h.allocation ⟨⟨_, rfl⟩, hbalanced, hmaking⟩
    ⟨⟨_, rfl⟩, hbalanced, hmaking.stray _⟩).bind
  rintro _ w a' ⟨rfl, rfl⟩
  rw [Account.bound_source]
  refine Keeps.bind (Keeps.mono (keeps_streaming (room_lease _)
    (keeps_readSource hopen hhand hheld ⟨rfl, rfl, by simp, by simp⟩)) (fun _ _ _ hQ => hQ) ?_) ?_
  · rintro w' a' ⟨hduring, hand, rfl, hbalanced⟩
    exact ⟨⟨hand, rfl⟩, hbalanced, (hmaking.appear_lease).during hduring⟩
  · rintro content w' a' ⟨hduring, hand, rfl, hcontent, hbalanced, -, hl⟩
    have hallocation : a'.allocation = .reserved := by
      rw [hduring]
      exact h.allocation
    have hleased : File.part (.source number) ∈ a'.leased := by
      rw [hduring]
      exact Finset.mem_insert_self _ _
    have hwhole : a'.ledger.received = a'.ledger.written := hl.received.trans hl.written.symm
    have htorn := ((hmaking.appear_lease).during hduring).torn
    refine (keeps_promoteFile hallocation hleased hwhole ⟨⟨hand, rfl⟩, hbalanced, htorn⟩
      ⟨⟨hand, rfl⟩, hbalanced, htorn.stray _⟩).bind ?_
    · rintro _ w'' a'' ⟨rfl, rfl⟩
      refine Guarded.keeps_pure ⟨⟨hand, rfl⟩, hbalanced, rfl, ?_,
        h.promoted_source hduring hl hcontent⟩
      rw [← hl.written, hduring]
      rfl

theorem keeps_requested {timedOut : StreamError} {maxRedirects : Nat} {method url : String}
    {headers : Headers} {bodySensitive : Bool} {proxyKey : Option String}
    (hheld : a.ledger.held = none) :
    Keeps (Account.rules c) w a
      (streaming (requesting timedOut
        (request U maxRedirects proxyUrl method url headers bodySensitive proxyKey)))
      (fun result => Unmoved w { a with ledger := { a.ledger with held := some result.1 } })
      (Unmoved w a) := by
  refine Keeps.mono (keeps_streaming rfl (keeps_request hheld)) ?_ ?_
  · rintro result w' a' ⟨hduring, hand, rfl, rfl, hledger⟩
    exact ⟨rfl, by rw [hduring, hledger]⟩
  · rintro w' a' ⟨hduring, hand, rfl, rfl, hledger⟩
    exact ⟨rfl, by rw [hduring, hledger]⟩

theorem keeps_hand {hand : Option Opened} {X : Work → Account → Prop} :
    Keeps (Account.rules c) w a (streaming (Guarded.set hand))
      (fun _ => Unmoved { w with hand := hand } a) X :=
  unmoved

theorem keeps_closing (hbalanced : Balanced w.hand a.ledger) :
    Keeps (Account.rules c) w a (streaming closeOpened)
      (fun _ w' a' => Handed w w' ∧ a' = { a with ledger := { a.ledger with held := none } })
      fun w' a' => Handed w w' ∧ a' = { a with ledger := { a.ledger with held := none } } := by
  refine (keeps_streaming rfl (keeps_closeOpened hbalanced)).mono ?_ ?_
  · rintro _ w' a' ⟨hduring, hand, rfl, hledger⟩
    exact ⟨⟨hand, rfl⟩, by rw [hduring, hledger]⟩
  · rintro w' a' ⟨hduring, hand, rfl, hledger⟩
    exact ⟨⟨hand, rfl⟩, by rw [hduring, hledger]⟩

theorem Handed.trans {w' w'' : Work} (h : Handed w w') (h' : Handed w' w'') : Handed w w'' := by
  obtain ⟨hand, rfl⟩ := h
  obtain ⟨hand', rfl⟩ := h'
  exact ⟨hand', rfl⟩

theorem Settled.hold (h : Settled c completed a) (held : Option Response) :
    Settled c completed { a with ledger := { a.ledger with held := held } } :=
  ⟨h.allocation, h.fault, h.left, h.files, h.leased, h.promoted, h.granted, h.limited⟩

theorem keeps_streamFile {rounds : Nat} {source : MediaSource τ} (h : Settled c completed a)
    (hheld : a.ledger.held = none) :
    Keeps (Account.rules c) w a (streamFile U c proxyUrl rounds number source a.total)
      (fun result w' a' => Handed w w' ∧ a'.ledger.held = none ∧
        a'.total = a.total + result.2 ∧ Settled c (completed ++ [result.1]) a')
      fun w' a' => Handed w w' ∧ a'.ledger.held = none ∧ Failing completed a' := by
  have hfailing := h.failing
  unfold streamFile
  apply (keeps_unmoved (keeps_check _) ⟨⟨_, rfl⟩, hheld, hfailing⟩).bind
  rintro headers w a' ⟨-, rfl, rfl⟩
  apply (keeps_unmoved (keeps_requested hheld) ⟨⟨_, rfl⟩, hheld, hfailing⟩).bind
  rintro ⟨response, url⟩ w' a ⟨rfl, rfl⟩
  apply keeps_hand.bind
  rintro _ w a ⟨rfl, rfl⟩
  refine Keeps.tryCatch (X := fun w'' a'' => Handed w' w'' ∧ a''.ledger.held = none ∧
    Making completed (.source number) a'') ?_ ?_
  · apply (keeps_readFile opens_openRange (h.hold _) rfl rfl).andFinally
    · rintro ⟨path, written⟩ w'' a ⟨hhanded, hbalanced, rfl, htotal, hsettled⟩
      refine (keeps_closing hbalanced).mono ?_ ?_
      · rintro _ w'' a'' ⟨hclosed, rfl⟩
        exact ⟨hhanded.trans hclosed, rfl, htotal, hsettled.hold none⟩
      · rintro w'' a'' ⟨hclosed, rfl⟩
        exact ⟨hhanded.trans hclosed, rfl, (hsettled.hold none).unfetched⟩
    · rintro w' a ⟨hhanded, hbalanced, hmaking⟩
      refine (keeps_closing hbalanced).mono ?_ ?_
      · rintro _ w'' a'' ⟨hclosed, rfl⟩
        exact ⟨hhanded.trans hclosed, rfl, hmaking.during During.held⟩
      · rintro w'' a'' ⟨hclosed, rfl⟩
        exact ⟨hhanded.trans hclosed, rfl, hmaking.during During.held⟩
  · rintro error w' a ⟨hhanded, hheld, hmaking⟩
    apply keeps_discard hmaking hheld
    · exact fun a' hheld hfailing => ⟨hhanded, hheld, hfailing⟩
    · exact fun a' hheld hfailing => Guarded.keeps_raise ⟨hhanded, hheld, hfailing⟩

theorem Settled.turn (h : Settled c completed a) (writing : Option File) :
    Settled c completed (a.turn writing) :=
  ⟨h.allocation, h.fault, h.left, h.files, h.leased, h.promoted, h.granted, h.limited⟩

theorem Failing.during {paths : List File} {a' : Account} (h : Failing paths a)
    (hduring : During a a') : Failing paths a' := by
  rw [hduring]
  exact ⟨h.allocation, h.files⟩

theorem Failing.append {paths : List File} (h : Failing paths a) (more : List File) :
    Failing (paths ++ more) a :=
  ⟨h.allocation, fun hfault file hfile => List.mem_append_left _ (h.files hfault file hfile)⟩

theorem keeps_late :
    Keeps (Account.rules c) w a (Guarded.attempt .late lateResult)
      (fun _ => Unmoved w (a.turn none)) (Unmoved w (a.turn none)) :=
  Guarded.keeps_attempt trivial (fun _ _ _ => unmoved) fun _ _ _ => unmoved

theorem keeps_checkExpired {source : MediaSource τ} :
    Keeps (Account.rules c) w a (checkExpired number source) (fun _ => Unmoved w a)
      (Unmoved w a) := by
  unfold checkExpired
  split
  · exact Guarded.keeps_pure unmoved
  · exact Guarded.keeps_attempt trivial (fun _ _ _ => unmoved) fun _ _ _ => unmoved

/-- The handler of a download deletes what these paths name. -/
def Lost (w : Work) (a : Account) : Prop :=
  a.ledger.held = none ∧ Failing (w.completed ++ w.finalPaths) a

theorem keeps_fetchSources {rounds : Nat} (sources : List (MediaSource τ)) (number : Nat)
    (h : Settled c w.completed a) (hheld : a.ledger.held = none) (hpaths : w.finalPaths = []) :
    Keeps (Account.rules c) w a (fetchSources U c proxyUrl rounds number a.total sources)
      (fun total w' a' => w'.finalPaths = [] ∧ a'.ledger.held = none ∧ a'.total = total ∧
        Settled c w'.completed a')
      Lost := by
  induction sources generalizing w a number with
  | nil => exact Guarded.keeps_pure ⟨hpaths, hheld, rfl, h⟩
  | cons source sources ih =>
    unfold fetchSources
    have hlost : Lost w (a.turn none) := ⟨hheld, (h.turn none).failing.append _⟩
    apply (keeps_unmoved keeps_late hlost).bind
    rintro _ w a' ⟨rfl, rfl⟩
    apply (keeps_unmoved keeps_checkExpired hlost).bind
    rintro _ w' a' ⟨rfl, rfl⟩
    refine Keeps.bind (Keeps.mono (keeps_streaming rfl (probe_balanced hheld rfl))
      (fun _ _ _ hQ => hQ) ?_) ?_
    · rintro w a' ⟨hduring, hand, rfl, hheld⟩
      exact ⟨hheld, hlost.2.during hduring⟩
    rintro data w a' ⟨hduring, hand, rfl, hheld, -, -, hgranted⟩
    have hsettled : Settled c w'.completed a' := by
      have hturned := h.turn none
      rw [hduring]
      exact ⟨hturned.allocation, hturned.fault, hturned.left, hturned.files, hturned.leased, hturned.promoted,
        hturned.granted.trans hgranted.ge, hturned.limited⟩
    have htotal : a'.total = a.total := by
      rw [hduring]
      rfl
    rw [← htotal]
    refine Keeps.bind (Keeps.mono (keeps_streamFile hsettled hheld) (fun _ _ _ hQ => hQ) ?_) ?_
    · rintro w a'' ⟨⟨hand', rfl⟩, hheld, hfailing⟩
      exact ⟨hheld, hfailing.append _⟩
    rintro ⟨path, written⟩ w a'' ⟨⟨hand', rfl⟩, hheld, htotal, hsettled⟩
    apply Guarded.keeps_get_bind
    apply Guarded.keeps_set_bind
    dsimp only at htotal
    rw [← htotal]
    exact ih (number + 1) hsettled hheld hpaths

end Sources

section Transforms

/-- The files of a download that ends well: they are there and leased, and nothing else is. -/
structure Kept (paths : List File) (a : Account) : Prop where
  held : a.ledger.held = none
  allocation : a.allocation = .reserved
  fault : a.fault = false
  files : ∀ file, file ∈ a.files ↔ file ∈ paths
  leased : ∀ file, file ∈ a.leased ↔ file ∈ paths

theorem Kept.failing {paths : List File} (h : Kept paths a) : Failing paths a :=
  ⟨h.allocation, fun _ file hfile => (h.files file).mp hfile⟩

theorem Settled.kept (h : Settled c completed a) (hheld : a.ledger.held = none) :
    Kept completed a :=
  ⟨hheld, h.allocation, h.fault, h.files, h.leased⟩

/-- The output is complete, and these inputs are still to be removed. -/
structure Removing (inputs : List File) (output : File) (a : Account) : Prop where
  held : a.ledger.held = none
  allocation : a.allocation = .reserved
  fault : a.fault = false
  left : a.left = ∅
  files : ∀ file ∈ a.files, file ∈ inputs ∨ file = output
  leased : ∀ file ∈ a.leased, file ∈ inputs ∨ file = output
  made : output ∈ a.files
  madeLeased : output ∈ a.leased

theorem keeps_removeInputs {paths inputs : List File} {name : Name}
    (hsub : ∀ file ∈ paths, file ∈ inputs) (hfresh : .media name ∉ paths)
    (h : Removing paths (.media name) a) :
    Keeps (Account.rules c) w a (removeInputs paths)
      (fun _ w' a' => w' = w ∧ Kept [.media name] a')
      fun w' a' => w' = w ∧ a'.ledger.held = none ∧ Making inputs name a' := by
  induction paths generalizing a with
  | nil =>
    refine Guarded.keeps_pure ⟨rfl, h.held, h.allocation, h.fault, fun file => ?_, fun file => ?_⟩
    · rw [List.mem_singleton]
      exact ⟨fun hfile => by simpa using h.files file hfile, fun hfile => hfile ▸ h.made⟩
    · rw [List.mem_singleton]
      exact ⟨fun hfile => by simpa using h.leased file hfile, fun hfile => hfile ▸ h.madeLeased⟩
  | cons path paths ih =>
    have hother : File.media name ≠ path := fun heq => hfresh (heq ▸ List.mem_cons_self)
    unfold removeInputs
    refine Keeps.bind (keeps_unmoved keeps_unlinkFile
      ⟨rfl, h.held, h.allocation, fun hfault => by cases hfault⟩) ?_
    rintro _ w a' ⟨rfl, rfl⟩
    refine Keeps.bind (keeps_unmoved keeps_unbindFile
      ⟨rfl, h.held, h.allocation, fun hfault => by cases hfault⟩) ?_
    rintro _ w' a' ⟨rfl, rfl⟩
    apply ih (fun file hfile => hsub file (List.mem_cons_of_mem _ hfile))
      fun hmem => hfresh (List.mem_cons_of_mem _ hmem)
    have hleft : ({ a with files := a.files.erase path } : Account).left = ∅ := h.left
    rw [Account.unleased_of_none hleft]
    refine ⟨h.held, h.allocation, h.fault, h.left, fun file hfile => ?_, fun file hfile => ?_, ?_,
      ?_⟩
    · obtain ⟨hne, hfile⟩ := Finset.mem_erase.mp hfile
      simpa [hne] using h.files file hfile
    · obtain ⟨hne, hfile⟩ := Finset.mem_erase.mp hfile
      simpa [hne] using h.leased file hfile
    · exact Finset.mem_erase.mpr ⟨hother, h.made⟩
    · exact Finset.mem_erase.mpr ⟨hother, h.madeLeased⟩

/-- The inputs are there and leased, the partial output is leased, and there is space for both. -/
structure Ready (c : Settings) (inputs : List File) (a : Account) : Prop where
  held : a.ledger.held = none
  allocation : a.allocation = .reserved
  fault : a.fault = false
  left : a.left = ∅
  files : ∀ file, file ∈ a.files ↔ file ∈ inputs
  leased : ∀ file, file ∈ a.leased ↔ file ∈ inputs ∨ file = .part .transform
  whole : a.ledger.received = a.ledger.written
  sources : ∀ file ∈ inputs, ∃ number, file = .media (.source number)
  space : a.total + c.maxBytes ≤ a.ledger.granted

theorem Ready.making {inputs : List File} (h : Ready c inputs a) :
    Making inputs .transform (a.appear (.part .transform)) :=
  Making.appear ⟨h.allocation, fun _ file hfile => .inl ((h.files file).mp hfile)⟩

theorem Ready.removing {inputs : List File} (h : Ready c inputs a) :
    Removing inputs (.media .transform)
      ((a.appear (.part .transform)).promoted (.part .transform) (.media .transform)) := by
  refine ⟨h.held, h.allocation, h.fault, h.left, fun file hfile => ?_, fun file hfile => ?_,
    Finset.mem_insert_self _ _, Finset.mem_insert_self _ _⟩
  · simp only [Account.promoted, Account.appear, Finset.mem_insert, Finset.mem_erase,
      h.files] at hfile
    rcases hfile with rfl | ⟨hne, hfile | hfile⟩
    · exact .inr rfl
    · exact absurd hfile hne
    · exact .inl hfile
  · simp only [Account.promoted, Account.appear, Finset.mem_insert, Finset.mem_erase,
      h.leased] at hfile
    rcases hfile with rfl | ⟨hne, hfile | hfile⟩
    · exact .inr rfl
    · exact .inl hfile
    · exact absurd hfile hne

theorem keeps_runTransform {inputs : List File} (h : Ready c inputs a) :
    Keeps (Account.rules c) w a
      (Guarded.attempt (.runTransform inputs (.part .transform)) ranResult)
      (fun _ => Unmoved w (a.appear (.part .transform)))
      (Unmoved w (a.appear (.part .transform))) := by
  have hallows : a.allows c (.runTransform inputs (.part .transform)) :=
    ⟨(h.leased _).mpr (.inr rfl),
      fun file hfile => ⟨(h.files file).mpr hfile, (h.leased file).mpr (.inl hfile)⟩, h.space⟩
  exact Guarded.keeps_attempt hallows (fun _ _ _ => unmoved) fun _ _ _ => unmoved

theorem keeps_read {file : File} :
    Keeps (Account.rules c) w a (Guarded.attempt (.read file) id) (fun _ => Unmoved w a)
      (Unmoved w a) :=
  Guarded.keeps_attempt trivial (fun _ _ _ => unmoved) fun _ _ _ => unmoved

/-- A transform replaces its inputs by its output, or takes its own files away. -/
theorem keeps_transform {inputs : List File} (h : Ready c inputs a) :
    Keeps (Account.rules c) w a (transform c inputs)
      (fun paths w' a' => w' = w ∧ Kept paths a')
      fun w' a' => w' = w ∧ a'.ledger.held = none ∧ Failing inputs a' := by
  have hexit : w = w ∧ (a.appear (.part .transform)).ledger.held = none ∧
      Making inputs .transform (a.appear (.part .transform)) :=
    ⟨rfl, h.held, h.making⟩
  have hfresh : File.media .transform ∉ inputs := by
    intro hmem
    obtain ⟨number, hfile⟩ := h.sources _ hmem
    cases hfile
  unfold transform
  refine Keeps.bind (Keeps.tryCatch (Q := fun paths w' a' => w' = w ∧ Kept paths a' ∧
    paths = [.media .transform])
    (X := fun w' a' => w' = w ∧ a'.ledger.held = none ∧ Making inputs .transform a') ?_ ?_) ?_
  · apply (keeps_unmoved (keeps_runTransform h) hexit).bind
    rintro code w' a' ⟨rfl, rfl⟩
    apply Guarded.keeps_ite
    · exact fun _ => Guarded.keeps_raise hexit
    intro _
    refine Keeps.bind (keeps_unmoved keeps_read hexit) ?_
    rintro output w a' ⟨rfl, rfl⟩
    match output with
    | none => exact Guarded.keeps_raise hexit
    | some [] => exact Guarded.keeps_raise hexit
    | some (first :: rest) =>
      refine Keeps.bind (keeps_unmoved (keeps_check _) hexit) ?_
      rintro _ w' a' ⟨-, rfl, rfl⟩
      refine Keeps.bind (keeps_unmoved (keeps_check _) hexit) ?_
      rintro _ w a' ⟨-, rfl, rfl⟩
      refine Keeps.bind (keeps_unmoved keeps_deadline hexit) ?_
      rintro _ w' a' ⟨rfl, rfl⟩
      refine Keeps.bind (keeps_promoteFile h.allocation ((h.leased _).mpr (.inr rfl)) h.whole
        ⟨rfl, h.held, h.making.torn⟩ ⟨rfl, h.held, h.making.torn.stray _⟩) ?_
      rintro _ w a' ⟨rfl, rfl⟩
      refine Keeps.bind (keeps_removeInputs (fun _ hfile => hfile) hfresh h.removing) ?_
      rintro _ w' a' ⟨rfl, hkept⟩
      exact Guarded.keeps_pure ⟨rfl, hkept, rfl⟩
  · rintro error w' a' ⟨rfl, hheld, hmaking⟩
    apply keeps_discard hmaking hheld
    · exact fun a' hheld hfailing => ⟨rfl, hheld, hfailing⟩
    intro a' hheld hfailing
    refine Keeps.bind (keeps_unmoved keeps_unbindFile
      ⟨rfl, hheld, failing_of_fault hfailing.allocation rfl⟩) ?_
    rintro _ w a'' ⟨rfl, rfl⟩
    refine Keeps.bind (keeps_unmoved keeps_unbindFile
      ⟨rfl, hheld, failing_of_fault hfailing.allocation rfl⟩) ?_
    rintro _ w' a'' ⟨rfl, rfl⟩
    exact Guarded.keeps_raise ⟨rfl, hheld, hfailing.allocation, hfailing.files⟩
  · rintro paths w' a' ⟨rfl, hkept, rfl⟩
    refine Keeps.bind (keeps_unmoved keeps_unlinkFile
      ⟨rfl, hkept.held, failing_of_fault hkept.allocation rfl⟩) ?_
    rintro _ w a'' ⟨rfl, rfl⟩
    refine Guarded.keeps_pure ⟨rfl, hkept.held, hkept.allocation, hkept.fault, fun file => ?_,
      hkept.leased⟩
    rw [Finset.mem_erase, hkept.files]
    constructor
    · exact fun hfile => hfile.2
    · intro hfile
      refine ⟨fun heq => ?_, hfile⟩
      rw [heq] at hfile
      simp at hfile

variable {τ : Type}

theorem keeps_grow (h : a.allocation = .reserved) {inputBytes : Nat} (hbytes : inputBytes = a.total) :
    Keeps (Account.rules c) w a (Guarded.attempt (.grow (inputBytes + c.maxBytes)) grownResult)
      (fun _ => Unmoved w (a.grant (inputBytes + c.maxBytes))) (Unmoved w a) := by
  have hallows : a.allows c (.grow (inputBytes + c.maxBytes)) := ⟨h, by rw [hbytes]⟩
  apply Guarded.keeps_attempt hallows
  · intro reserved value hvalue
    cases reserved with
    | granted => exact unmoved
    | _ => cases hvalue
  · intro reserved error herror
    cases reserved with
    | granted => cases herror
    | _ => exact unmoved

theorem Settled.ready (h : Settled c completed a) (hheld : a.ledger.held = none) :
    Ready c completed ((a.grant (a.total + c.maxBytes)).lease (.part .transform)) := by
  refine ⟨hheld, h.allocation, h.fault, h.left, fun file => ?_, fun file => ?_, rfl, h.promoted,
    le_max_right _ _⟩
  · exact h.files file
  · simp [Account.lease, Account.turn, Account.grant, h.leased, or_comm]

theorem keeps_finalizeFiles {plan : Plan} {candidate : MediaCandidate τ} {inputBytes : Nat}
    (h : Settled c completed a) (hheld : a.ledger.held = none) (hbytes : inputBytes = a.total) :
    Keeps (Account.rules c) w a (finalizeFiles c plan candidate completed inputBytes)
      (fun paths w' a' => w' = w ∧ Kept paths a')
      fun w' a' => w' = w ∧ a'.ledger.held = none ∧ Failing completed a' := by
  have hexit : w = w ∧ a.ledger.held = none ∧ Failing completed a := ⟨rfl, hheld, h.failing⟩
  unfold finalizeFiles
  apply Guarded.keeps_ite
  · intro _
    apply Guarded.keeps_ite
    · exact fun _ => Guarded.keeps_raise hexit
    · exact fun _ => Guarded.keeps_pure ⟨rfl, h.kept hheld⟩
  intro _
  refine Guarded.keeps_ite (fun _ => Guarded.keeps_raise hexit) ?_
  intro _
  refine Guarded.keeps_ite (fun _ => Guarded.keeps_raise hexit) ?_
  intro _
  refine Guarded.keeps_ite (fun _ => Guarded.keeps_raise hexit) ?_
  intro _
  refine Keeps.bind (keeps_unmoved (keeps_check _) hexit) ?_
  rintro _ w' a' ⟨-, rfl, rfl⟩
  refine Keeps.bind (keeps_unmoved keeps_deadline hexit) ?_
  rintro _ w a ⟨rfl, rfl⟩
  refine Keeps.bind (keeps_unmoved (keeps_grow h.allocation hbytes) hexit) ?_
  rintro _ w' a' ⟨rfl, rfl⟩
  have hready := h.ready hheld
  rw [← hbytes] at hready
  refine Keeps.bind (keeps_bindFile h.allocation ⟨rfl, hheld, h.allocation, h.failing.files⟩
    ⟨rfl, hheld, h.allocation, h.failing.files⟩) ?_
  rintro _ w a' ⟨rfl, rfl⟩
  rw [Account.bound_transform]
  refine Keeps.bind (keeps_unmoved (keeps_check _)
    ⟨rfl, hheld, h.allocation, h.failing.files⟩) ?_
  rintro _ w' a' ⟨-, rfl, rfl⟩
  exact keeps_transform hready

end Transforms

section Downloads

variable {τ : Type} {U : UrlLibrary} {proxyUrl : String → Option String}

/-- Nothing is left but sidecars that the reservation could not take, unless something could not be
removed. -/
def Clean (a : Account) : Prop :=
  a.ledger.held = none ∧
    (a.fault = false → a.files = ∅ ∧ a.leased ⊆ a.left ∧ a.allocation ≠ .reserved)

theorem clean_of_fault (hheld : a.ledger.held = none) (hfault : a.fault = true) : Clean a := by
  refine ⟨hheld, fun hnone => ?_⟩
  rw [hfault] at hnone
  cases hnone

theorem keeps_unlinkAll (paths : List File) (hheld : a.ledger.held = none)
    (h : Failing paths a) :
    Keeps (Account.rules c) w a (unlinkAll paths)
      (fun _ w' a' => w' = w ∧ a'.ledger.held = none ∧ Failing [] a')
      fun _ a' => Clean a' := by
  induction paths generalizing a with
  | nil => exact Guarded.keeps_pure ⟨rfl, hheld, h⟩
  | cons path paths ih =>
    unfold unlinkAll
    refine Keeps.bind (keeps_unmoved keeps_unlinkFile (clean_of_fault hheld rfl)) ?_
    rintro _ w a' ⟨rfl, rfl⟩
    refine ih hheld ⟨h.allocation, fun hfault file hfile => ?_⟩
    obtain ⟨hne, hfile⟩ := Finset.mem_erase.mp hfile
    simpa [hne] using h.files hfault file hfile

theorem keeps_release (hheld : a.ledger.held = none) (h : Failing [] a) :
    Keeps (Account.rules c) w a (Guarded.attempt .release releasedResult)
      (fun _ _ a' => Clean a') fun _ a' => Clean a' := by
  have hreleased : ∀ left, Clean (a.released left) := by
    intro left
    refine ⟨hheld, fun hfault => ⟨?_, Finset.inter_subset_right, by simp [Account.released]⟩⟩
    exact Finset.eq_empty_of_forall_notMem fun file hfile => by
      simpa using h.files hfault file hfile
  apply Guarded.keeps_attempt h.allocation
  · intro ending value hvalue
    cases ending with
    | released left => exact hreleased left
    | _ => cases hvalue
  · intro ending error herror
    cases ending with
    | released left => cases herror
    | cancelled left => exact hreleased left
    | raised => exact clean_of_fault hheld rfl

theorem keeps_reserve {sizeBytes : Int} (h : a.allocation = .unreserved) :
    Keeps (Account.rules c) w a (Guarded.attempt (.reserve sizeBytes) reservedResult)
      (fun _ => Unmoved w { a.grant sizeBytes.toNat with allocation := .reserved })
      (Unmoved w a) := by
  apply Guarded.keeps_attempt h
  · intro reserved value hvalue
    cases reserved with
    | granted => exact unmoved
    | _ => cases hvalue
  · intro reserved error herror
    cases reserved with
    | granted => cases herror
    | _ => exact unmoved

theorem keeps_stat {paths : List File} :
    Keeps (Account.rules c) w a (Guarded.attempt (.stat paths) id) (fun _ => Unmoved w a)
      (Unmoved w a) :=
  Guarded.keeps_attempt trivial (fun _ _ _ => unmoved) fun _ _ _ => unmoved

/-- A download keeps the rules of its account at every step. It ends with its files, which are
there, leased and within the limit, or with an exception and none of them. -/
theorem downloadFiles_accounted (U : UrlLibrary) (c : Settings)
    (proxyUrl : String → Option String) (rounds : Nat) (plan : Plan)
    (candidate : MediaCandidate τ) :
    Keeps (Account.rules c) ⟨none, [], []⟩ .start
      (downloadFiles U c proxyUrl rounds plan candidate)
      (fun item _ a => Kept item.paths a ∧ item.sizeBytes ≤ c.maxBytes ∧
        item.downloadedBytes ≤ c.maxBytes)
      fun _ a => Clean a := by
  have hclean : Clean .start :=
    ⟨rfl, fun _ => ⟨rfl, Finset.Subset.refl _, by simp [Account.start]⟩⟩
  unfold downloadFiles
  refine Keeps.bind (keeps_unmoved keeps_deadline hclean) ?_
  rintro _ w a ⟨rfl, rfl⟩
  refine Keeps.bind (keeps_unmoved keeps_deadline hclean) ?_
  rintro _ w a ⟨rfl, rfl⟩
  refine Keeps.bind (keeps_unmoved (keeps_reserve rfl) hclean) ?_
  rintro _ w a ⟨rfl, rfl⟩
  have hsettled : Settled c [] { Account.start.grant
      ((Media.Materialize.declaredSize candidate).getD c.maxBytes).toNat with
        allocation := .reserved } :=
    ⟨rfl, rfl, rfl, by simp [Account.start, Account.grant], by simp [Account.start, Account.grant],
      by simp, Nat.zero_le _, Nat.zero_le _⟩
  refine Keeps.tryCatch (X := Lost) ?_ ?_
  · refine Keeps.bind (keeps_fetchSources (downloadSources candidate) 0 hsettled rfl rfl) ?_
    rintro total w a ⟨hpaths, hheld, htotal, hsettled⟩
    apply Guarded.keeps_get_bind
    refine Keeps.bind (Keeps.mono (keeps_finalizeFiles hsettled hheld htotal.symm)
      (fun _ _ _ hQ => hQ) ?_) ?_
    · rintro w' a' ⟨rfl, hheld, hfailing⟩
      exact ⟨hheld, hfailing.append _⟩
    rintro paths w' a' ⟨rfl, hkept⟩
    apply Guarded.keeps_get_bind
    apply Guarded.keeps_set_bind
    have hlost : Lost { w' with finalPaths := paths } a' :=
      ⟨hkept.held, hkept.allocation, fun hfault file hfile =>
        List.mem_append_right _ (hkept.failing.files hfault file hfile)⟩
    refine Keeps.bind (keeps_unmoved keeps_stat hlost) ?_
    rintro size w a' ⟨rfl, rfl⟩
    refine Keeps.bind (keeps_unmoved (keeps_check _) hlost) ?_
    rintro _ w a' ⟨hsize, rfl, rfl⟩
    refine Keeps.bind (keeps_unmoved keeps_deadline hlost) ?_
    rintro _ w a' ⟨rfl, rfl⟩
    exact Guarded.keeps_pure ⟨hkept, checkActualSize_le hsize, htotal ▸ hsettled.limited⟩
  · rintro error w a ⟨hheld, hfailing⟩
    apply Guarded.keeps_get_bind
    refine Keeps.bind (keeps_unlinkAll _ hheld ⟨hfailing.allocation, fun hfault file hfile =>
      List.mem_dedup.mpr (hfailing.files hfault file hfile)⟩) ?_
    rintro _ w' a' ⟨rfl, hheld, hfailing⟩
    refine Keeps.bind (keeps_release hheld hfailing) ?_
    intro _ w a hclean
    exact Guarded.keeps_raise hclean

end Downloads

end YtdlBot.Transport
