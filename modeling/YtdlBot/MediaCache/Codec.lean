import YtdlBot.Framework.Fallible
import YtdlBot.Framework.JsonReader
import YtdlBot.Framework.Urls
import YtdlBot.MediaCache.Records

/-!
# The texts of cache records

Records are kept as JSON, and a record is read by building it anew from what was decoded. A record
that a constructor has accepted is read back as it was.
-/

namespace YtdlBot.MediaCache

open Framework (bind_eq_ok check_eq_ok ok_bind)
open Framework.Json
open Framework.Urls (Unicode urlsplit)

/-- A float. -/
inductive Number where
  | finite (x : FiniteFloat)
  | nan
  | infinity (isNegative : Bool)
deriving DecidableEq

inductive DecodeError where
  /-- `JSONDecodeError` -/
  | json
  | key (name : String)
  | type (message : String)
  | value (message : String)
  /-- The `ValueError` of `MediaKind`. -/
  | kind (value : String)
  /-- The `ValueError` of `urlsplit`. -/
  | url
  /-- The `TypeError` or `ValueError` of a loop over what cannot be looped over or unpacked. -/
  | iteration
  /-- Any other exception. -/
  | other
deriving DecidableEq

/-- `except (KeyError, TypeError, ValueError)` -/
def DecodeError.caught : DecodeError → Bool
  | .other => false
  | _ => true

/-- `float` of literals, and what conversions make of values of other types. -/
structure Python where
  read : List Char → Number
  str : Document Number → String
  int : Document Number → Except DecodeError Int
  float : Document Number → Except DecodeError Number

/-- The clock counts in floats. -/
structure ClockText (τ : Type) where
  repr : τ → FiniteFloat
  time : FiniteFloat → τ

def Number.text : Number → List Char
  | .finite x => x.repr.toList
  | .nan => "NaN".toList
  | .infinity false => "Infinity".toList
  | .infinity true => "-Infinity".toList

def Python.floats (P : Python) : FloatText Number := ⟨Number.text, P.read⟩

section Constructors

/-- `x < 0`; the sign of a zero does not count. -/
def isNegative (x : FiniteFloat) : Bool :=
  x.repr.toList.head? = some '-' &&
    (x.repr.toList.takeWhile fun c => c ≠ 'e').any fun c => c.isDigit && c ≠ '0'

/-- A duration is a float that is not below zero. -/
def checkDuration : Option Number → Except DecodeError (Option FiniteFloat)
  | none => .ok none
  | some (.finite x) =>
    if isNegative x then .error (.value "metadata duration must be finite and non-negative")
    else .ok (some x)
  | some _ => .error (.value "metadata duration must be finite and non-negative")

def StableMediaMetadata.create (platform mediaId : String) (kind : MediaKind)
    (title : Option String) (durationSeconds : Option Number) (width height : Option Int)
    (itemCount : Int) (albumOrder : List Int) (provider : Option String) :
    Except DecodeError StableMediaMetadata := do
  if platform = "" ∨ mediaId = "" then
    throw (.value "stable metadata requires platform and media identity")
  let duration ← checkDuration durationSeconds
  if width.any fun width => width ≤ 0 then throw (.value "metadata width must be positive")
  if height.any fun height => height ≤ 0 then throw (.value "metadata height must be positive")
  if itemCount < 1 then throw (.value "metadata item count must be positive")
  return ⟨platform, mediaId, kind, title, duration, width, height, itemCount, albumOrder, provider⟩

/-- `str.isspace` -/
def isWhitespace (c : Char) : Bool :=
  let n := c.toNat
  (9 ≤ n && n ≤ 13) || (28 ≤ n && n ≤ 32) || n = 0x85 || n = 0xa0 || n = 0x1680 ||
    (0x2000 ≤ n && n ≤ 0x200a) || n = 0x2028 || n = 0x2029 || n = 0x202f || n = 0x205f || n = 0x3000

/-- `str.strip` -/
def strip (text : List Char) : List Char :=
  ((text.dropWhile isWhitespace).reverse.dropWhile isWhitespace).reverse

def cacheableMediaHeaders : List (List Char) :=
  ["accept".toList, "accept-encoding".toList, "accept-language".toList, "origin".toList,
    "range".toList, "referer".toList, "user-agent".toList]

def hasNewline (text : String) : Bool := text.toList.any fun c => c = '\r' || c = '\n'

/-- The loop over the headers, after those with these names. -/
def canonicalHeaders (U : Unicode) (seen : List (List Char)) :
    List (String × String) → Except DecodeError (List (String × String))
  | [] => pure []
  | (rawName, rawValue) :: headers => do
    if hasNewline rawName || hasNewline rawValue then
      throw (.value "cached media headers must not contain newlines")
    let name := U.lower (strip rawName.toList)
    let value := strip rawValue.toList
    if name ∉ cacheableMediaHeaders then throw (.value "media header is not safe to cache")
    if name ∈ seen then throw (.value "duplicate media header is not safe to cache")
    let rest ← canonicalHeaders U (name :: seen) headers
    return (String.ofList name, String.ofList value) :: rest

def CachedSignedURL.create {τ : Type} (U : Unicode) (T : ClockText τ) (url provider : String)
    (expiresAt : Number) (variantId : String) (headers : List (String × String)) :
    Except DecodeError (CachedSignedURL τ) :=
  match urlsplit U url.toList with
  | none => .error .url
  | some parsed => do
    if U.lower parsed.scheme ∉ ["http".toList, "https".toList] ∨ parsed.hostname U = none then
      throw (.value "cached media URL must use HTTP(S)")
    if parsed.hasCredentials then throw (.value "cached media URL must not contain credentials")
    if provider = "" ∨ variantId = "" then
      throw (.value "signed URL requires provider and variant identity")
    match expiresAt with
    | .finite x => do
      let headers ← canonicalHeaders U [] headers
      return ⟨url, provider, T.time x, variantId, headers⟩
    | _ => throw (.value "signed URL expiry must be finite")

def CachedDelivery.create (fileId telegramType : String) (itemIndex : Int)
    (fileUniqueId : Option String) : Except DecodeError CachedDelivery := do
  if fileId = "" then throw (.value "cached delivery requires a Telegram file_id")
  if telegramType = "" then throw (.value "cached delivery requires a Telegram media type")
  if itemIndex < 0 then throw (.value "cached delivery item index must not be negative")
  return ⟨fileId, telegramType, itemIndex, fileUniqueId⟩

end Constructors

section Encoding

variable {τ : Type} (P : Python) (T : ClockText τ)

def optionalDocument {α : Type} (f : α → Document Number) : Option α → Document Number
  | none => .null
  | some x => f x

def metadataFields (m : StableMediaMetadata) : List (String × Document Number) :=
  [("platform", .str m.platform),
    ("media_id", .str m.mediaId),
    ("kind", .str m.kind.value),
    ("title", optionalDocument .str m.title),
    ("duration_seconds", optionalDocument (fun x => .float (.finite x)) m.durationSeconds),
    ("width", optionalDocument .int m.width),
    ("height", optionalDocument .int m.height),
    ("item_count", .int m.itemCount),
    ("album_order", .array (m.albumOrder.map .int)),
    ("provider", optionalDocument .str m.provider)]

def headerDocument (header : String × String) : Document Number :=
  .array [.str header.1, .str header.2]

def signedUrlFields (u : CachedSignedURL τ) : List (String × Document Number) :=
  [("url", .str u.url),
    ("provider", .str u.provider),
    ("expires_at", .float (.finite (T.repr u.expiresAt))),
    ("variant_id", .str u.variantId),
    ("headers", .array (u.headers.map headerDocument))]

def deliveryFields (d : CachedDelivery) : List (String × Document Number) :=
  [("file_id", .str d.fileId),
    ("telegram_type", .str d.telegramType),
    ("item_index", .int d.itemIndex),
    ("file_unique_id", optionalDocument .str d.fileUniqueId)]

/-- `_json_bytes` -/
def jsonBytes (fields : List (String × Document Number)) : List Char := writeObject P.floats fields

/-- What is stored of a record. -/
def encode : Payload τ → List Char
  | .metadata m => jsonBytes P (metadataFields m)
  | .signedUrl u => jsonBytes P (signedUrlFields T u)
  | .delivery d => jsonBytes P (deliveryFields d)

end Encoding

section Decoding

variable {τ : Type} (P : Python)

/-- `_json_object` -/
def jsonObject (payload : List Char) : Except DecodeError (List (String × Document Number)) :=
  match loads P.floats payload with
  | none => .error .json
  | some (.object fields) => .ok fields
  | some _ => .error (.type "cache record is not an object")

def field (data : List (String × Document Number)) (name : String) : Except DecodeError (Document Number) :=
  match get data name with
  | none => .error (.key name)
  | some x => .ok x

/-- `data.get(name)` -/
def getField (data : List (String × Document Number)) (name : String) : Document Number :=
  (get data name).getD .null

def strOf : Document Number → String
  | .str text => text
  | x => P.str x

def intOf : Document Number → Except DecodeError Int
  | .int n => .ok n
  | x => P.int x

def floatOf : Document Number → Except DecodeError Number
  | .float x => .ok x
  | x => P.float x

def optionalString : Document Number → Option String
  | .null => none
  | x => some (strOf P x)

def optionalInt : Document Number → Except DecodeError (Option Int)
  | .null => .ok none
  | x => (intOf P x).map some

def optionalFloat : Document Number → Except DecodeError (Option Number)
  | .null => .ok none
  | x => (floatOf P x).map some

/-- What a `for` loop gets. -/
def iterate : Document Number → Except DecodeError (List (Document Number))
  | .array xs => .ok xs
  | .str text => .ok (text.toList.map fun c => .str (String.ofList [c]))
  | .object fields => .ok ((fields.map Prod.fst).eraseDups.map .str)
  | _ => .error .iteration

def kindOf (value : String) : Except DecodeError MediaKind :=
  match [MediaKind.auto, .video, .audio, .photo, .animation, .document, .album].find?
      fun kind => kind.value == value with
  | some kind => .ok kind
  | none => .error (.kind value)

/-- `name, value = pair` -/
def unpackHeader (pair : Document Number) : Except DecodeError (String × String) := do
  match ← iterate pair with
  | [name, value] => return (strOf P name, strOf P value)
  | _ => throw .iteration

/-- What `get_metadata` makes of a payload. -/
def decodeMetadata (payload : List Char) : Except DecodeError StableMediaMetadata := do
  let data ← jsonObject P payload
  let platform ← field data "platform"
  let mediaId ← field data "media_id"
  let rawKind ← field data "kind"
  let kind ← kindOf (strOf P rawKind)
  let durationSeconds ← optionalFloat P (getField data "duration_seconds")
  let width ← optionalInt P (getField data "width")
  let height ← optionalInt P (getField data "height")
  let rawCount ← field data "item_count"
  let itemCount ← intOf P rawCount
  let rawOrder ← field data "album_order"
  let values ← iterate rawOrder
  let albumOrder ← values.mapM (intOf P)
  StableMediaMetadata.create (strOf P platform) (strOf P mediaId) kind
    (optionalString P (getField data "title")) durationSeconds width height itemCount albumOrder
    (optionalString P (getField data "provider"))

/-- What `get_signed_url` makes of a payload. -/
def decodeSignedUrl (U : Unicode) (T : ClockText τ) (payload : List Char) :
    Except DecodeError (CachedSignedURL τ) := do
  let data ← jsonObject P payload
  let url ← field data "url"
  let provider ← field data "provider"
  let rawExpiry ← field data "expires_at"
  let expiresAt ← floatOf P rawExpiry
  let variantId ← field data "variant_id"
  let rawHeaders ← field data "headers"
  let pairs ← iterate rawHeaders
  let headers ← pairs.mapM (unpackHeader P)
  CachedSignedURL.create U T (strOf P url) (strOf P provider) expiresAt (strOf P variantId) headers

/-- What `get_delivery` makes of a payload. -/
def decodeDelivery (payload : List Char) : Except DecodeError CachedDelivery := do
  let data ← jsonObject P payload
  let telegramType ← field data "telegram_type"
  let fileId ← field data "file_id"
  let rawIndex ← field data "item_index"
  let itemIndex ← intOf P rawIndex
  CachedDelivery.create (strOf P fileId) (strOf P telegramType) itemIndex
    (optionalString P (getField data "file_unique_id"))

end Decoding

section Reading

variable {τ : Type} {P : Python} {T : ClockText τ} {U : Unicode}
  {fields : List (String × Document Number)}

theorem jsonObject_jsonBytes (h : ∀ p ∈ fields, p.2.Readable P.floats) :
    jsonObject P (jsonBytes P fields) = .ok (sortFields fields) := by
  rw [jsonObject, jsonBytes, loads_writeObject h]

theorem field_sortFields {name : String} {x : Document Number}
    (hnames : (fields.map Prod.fst).Nodup) (hmem : (name, x) ∈ fields) :
    field (sortFields fields) name = .ok x := by
  rw [field, get_sortFields hnames, get_of_mem hnames hmem]

theorem getField_sortFields {name : String} {x : Document Number}
    (hnames : (fields.map Prod.fst).Nodup) (hmem : (name, x) ∈ fields) :
    getField (sortFields fields) name = x := by
  rw [getField, get_sortFields hnames, get_of_mem hnames hmem, Option.getD_some]

theorem field_missing {name : String} (hnames : (fields.map Prod.fst).Nodup)
    (hname : name ∉ fields.map Prod.fst) : field (sortFields fields) name = .error (.key name) := by
  rw [field, get_sortFields hnames, get_of_notMem hname]

theorem kindOf_value (kind : MediaKind) : kindOf kind.value = .ok kind := by
  cases kind <;> decide

theorem optionalString_document (title : Option String) :
    optionalString P (optionalDocument .str title) = title := by
  cases title <;> rfl

theorem optionalInt_document (width : Option Int) :
    optionalInt P (optionalDocument .int width) = .ok width := by
  cases width <;> rfl

theorem optionalFloat_document (duration : Option FiniteFloat) :
    optionalFloat P (optionalDocument (fun x => .float (.finite x)) duration) =
      .ok (duration.map .finite) := by
  cases duration <;> rfl

theorem mapM_intOf (values : List Int) :
    (values.map Document.int).mapM (intOf P) = .ok values := by
  induction values with
  | nil => rfl
  | cons n values ih => simp [List.mapM_cons, ih, intOf, bind, Except.bind, pure, Except.pure]

theorem mapM_unpackHeader (headers : List (String × String)) :
    (headers.map headerDocument).mapM (unpackHeader P) = .ok headers := by
  induction headers with
  | nil => rfl
  | cons header headers ih =>
    simp [List.mapM_cons, ih, unpackHeader, headerDocument, iterate, strOf, bind, Except.bind, pure,
      Except.pure]

/-- The numbers of the record can be written and read. -/
structure StableMediaMetadata.Writable (P : Python) (m : StableMediaMetadata) : Prop where
  duration : ∀ x ∈ m.durationSeconds, P.floats.Reads (.finite x)
  width : ∀ n ∈ m.width, Convertible n
  height : ∀ n ∈ m.height, Convertible n
  itemCount : Convertible m.itemCount
  albumOrder : ∀ n ∈ m.albumOrder, Convertible n

structure CachedSignedURL.Writable (P : Python) (T : ClockText τ) (u : CachedSignedURL τ) :
    Prop where
  expiry : P.floats.Reads (.finite (T.repr u.expiresAt))
  time : T.time (T.repr u.expiresAt) = u.expiresAt

def CachedDelivery.Writable (d : CachedDelivery) : Prop := Convertible d.itemIndex

theorem readable_optional {α : Type} {f : α → Document Number} {value : Option α}
    (h : ∀ x ∈ value, (f x).Readable P.floats) : (optionalDocument f value).Readable P.floats := by
  cases value with
  | none => trivial
  | some x => exact h x rfl

theorem names_metadataFields (m : StableMediaMetadata) :
    ((metadataFields m).map Prod.fst).Nodup := by
  simp [metadataFields]

theorem names_signedUrlFields (u : CachedSignedURL τ) :
    ((signedUrlFields T u).map Prod.fst).Nodup := by
  simp [signedUrlFields]

theorem names_deliveryFields (d : CachedDelivery) : ((deliveryFields d).map Prod.fst).Nodup := by
  simp [deliveryFields]

theorem readable_metadata {m : StableMediaMetadata} (h : m.Writable P) :
    ∀ p ∈ metadataFields m, p.2.Readable P.floats := by
  have horder : (Document.array (m.albumOrder.map .int)).Readable P.floats := by
    refine itemsReadable_iff.mpr fun x hx => ?_
    obtain ⟨n, hn, rfl⟩ := List.mem_map.mp hx
    exact h.albumOrder n hn
  have hstring (value : Option String) : (optionalDocument .str value).Readable P.floats :=
    readable_optional fun _ _ => trivial
  simp only [metadataFields, List.forall_mem_cons]
  exact ⟨trivial, trivial, trivial, hstring _, readable_optional h.duration,
    readable_optional h.width, readable_optional h.height, h.itemCount, horder, hstring _, by simp⟩

theorem readable_signedUrl {u : CachedSignedURL τ} (h : u.Writable P T) :
    ∀ p ∈ signedUrlFields T u, p.2.Readable P.floats := by
  have hheaders : (Document.array (u.headers.map headerDocument)).Readable P.floats := by
    refine itemsReadable_iff.mpr fun x hx => ?_
    obtain ⟨header, -, rfl⟩ := List.mem_map.mp hx
    exact ⟨trivial, trivial, trivial⟩
  simp only [signedUrlFields, List.forall_mem_cons]
  exact ⟨trivial, trivial, h.expiry, trivial, hheaders, by simp⟩

theorem readable_delivery {d : CachedDelivery} (h : d.Writable) :
    ∀ p ∈ deliveryFields d, p.2.Readable P.floats := by
  simp only [deliveryFields, List.forall_mem_cons]
  exact ⟨trivial, trivial, h, readable_optional fun _ _ => trivial, by simp⟩

theorem decodeMetadata_encode {m : StableMediaMetadata} (h : m.Writable P) :
    decodeMetadata P (encode P T (.metadata m)) =
      StableMediaMetadata.create m.platform m.mediaId m.kind m.title
        (m.durationSeconds.map .finite) m.width m.height m.itemCount m.albumOrder m.provider := by
  have hfield {name : String} {x : Document Number} (hmem : (name, x) ∈ metadataFields m) :=
    field_sortFields (names_metadataFields m) hmem
  have hget {name : String} {x : Document Number} (hmem : (name, x) ∈ metadataFields m) :=
    getField_sortFields (names_metadataFields m) hmem
  have hplatform : field (sortFields (metadataFields m)) "platform" = .ok (.str m.platform) :=
    hfield (by simp [metadataFields])
  have hmediaId : field (sortFields (metadataFields m)) "media_id" = .ok (.str m.mediaId) :=
    hfield (by simp [metadataFields])
  have hkind : field (sortFields (metadataFields m)) "kind" = .ok (.str m.kind.value) :=
    hfield (by simp [metadataFields])
  have hcount : field (sortFields (metadataFields m)) "item_count" = .ok (.int m.itemCount) :=
    hfield (by simp [metadataFields])
  have horder : field (sortFields (metadataFields m)) "album_order" =
      .ok (.array (m.albumOrder.map .int)) := hfield (by simp [metadataFields])
  have htitle : getField (sortFields (metadataFields m)) "title" = optionalDocument .str m.title :=
    hget (by simp [metadataFields])
  have hduration : getField (sortFields (metadataFields m)) "duration_seconds" =
      optionalDocument (fun x => .float (.finite x)) m.durationSeconds :=
    hget (by simp [metadataFields])
  have hwidth : getField (sortFields (metadataFields m)) "width" = optionalDocument .int m.width :=
    hget (by simp [metadataFields])
  have hheight : getField (sortFields (metadataFields m)) "height" = optionalDocument .int m.height :=
    hget (by simp [metadataFields])
  have hprovider : getField (sortFields (metadataFields m)) "provider" =
      optionalDocument .str m.provider := hget (by simp [metadataFields])
  simp only [decodeMetadata, encode, jsonObject_jsonBytes (readable_metadata h), hplatform, hmediaId,
    hkind, hcount, horder, htitle, hduration, hwidth, hheight, hprovider, strOf, kindOf_value,
    optionalFloat_document, optionalInt_document, optionalString_document, intOf, iterate,
    mapM_intOf, ok_bind]

theorem decodeSignedUrl_encode {u : CachedSignedURL τ} (h : u.Writable P T) :
    decodeSignedUrl P U T (encode P T (.signedUrl u)) =
      CachedSignedURL.create U T u.url u.provider (.finite (T.repr u.expiresAt)) u.variantId
        u.headers := by
  have hfield {name : String} {x : Document Number} (hmem : (name, x) ∈ signedUrlFields T u) :=
    field_sortFields (names_signedUrlFields u) hmem
  have hurl : field (sortFields (signedUrlFields T u)) "url" = .ok (.str u.url) :=
    hfield (by simp [signedUrlFields])
  have hprovider : field (sortFields (signedUrlFields T u)) "provider" = .ok (.str u.provider) :=
    hfield (by simp [signedUrlFields])
  have hexpiry : field (sortFields (signedUrlFields T u)) "expires_at" =
      .ok (.float (.finite (T.repr u.expiresAt))) := hfield (by simp [signedUrlFields])
  have hvariant : field (sortFields (signedUrlFields T u)) "variant_id" = .ok (.str u.variantId) :=
    hfield (by simp [signedUrlFields])
  have hheaders : field (sortFields (signedUrlFields T u)) "headers" =
      .ok (.array (u.headers.map headerDocument)) := hfield (by simp [signedUrlFields])
  simp only [decodeSignedUrl, encode, jsonObject_jsonBytes (readable_signedUrl h), hurl, hprovider,
    hexpiry, hvariant, hheaders, strOf, floatOf, iterate, mapM_unpackHeader, ok_bind]

theorem decodeDelivery_encode {d : CachedDelivery} (h : d.Writable) :
    decodeDelivery P (encode P T (.delivery d)) =
      CachedDelivery.create d.fileId d.telegramType d.itemIndex d.fileUniqueId := by
  have hfield {name : String} {x : Document Number} (hmem : (name, x) ∈ deliveryFields d) :=
    field_sortFields (names_deliveryFields d) hmem
  have htype : field (sortFields (deliveryFields d)) "telegram_type" = .ok (.str d.telegramType) :=
    hfield (by simp [deliveryFields])
  have hfile : field (sortFields (deliveryFields d)) "file_id" = .ok (.str d.fileId) :=
    hfield (by simp [deliveryFields])
  have hindex : field (sortFields (deliveryFields d)) "item_index" = .ok (.int d.itemIndex) :=
    hfield (by simp [deliveryFields])
  have hunique : getField (sortFields (deliveryFields d)) "file_unique_id" =
      optionalDocument .str d.fileUniqueId :=
    getField_sortFields (names_deliveryFields d) (by simp [deliveryFields])
  simp only [decodeDelivery, encode, jsonObject_jsonBytes (readable_delivery h), htype, hfile,
    hindex, hunique, strOf, intOf, optionalString_document, ok_bind]

end Reading

section Constructed

variable {τ : Type} {T : ClockText τ} {U : Unicode}

theorem strip_eq (text : List Char) :
    strip text = (text.dropWhile isWhitespace).rdropWhile isWhitespace := rfl

theorem mem_strip {text : List Char} {c : Char} (h : c ∈ strip text) : c ∈ text := by
  rw [strip_eq] at h
  exact (List.dropWhile_suffix isWhitespace).subset
    ((List.rdropWhile_prefix isWhitespace _).subset h)

theorem strip_strip (text : List Char) : strip (strip text) = strip text := by
  simp only [strip_eq]
  generalize hfront : text.dropWhile isWhitespace = front
  have hdrop : (front.rdropWhile isWhitespace).dropWhile isWhitespace =
      front.rdropWhile isWhitespace := by
    obtain ⟨tail, htail⟩ := List.rdropWhile_prefix isWhitespace front
    cases hstripped : front.rdropWhile isWhitespace with
    | nil => rfl
    | cons c rest =>
      rw [hstripped, List.cons_append] at htail
      have hhead : isWhitespace c = false := by
        have hnot := List.head_dropWhile_not isWhitespace (l := text) (by simp [hfront, ← htail])
        simpa [hfront, ← htail] using hnot
      simp [hhead]
  rw [hdrop, List.rdropWhile_idempotent]

theorem cacheable_canonical : ∀ name ∈ cacheableMediaHeaders, strip name = name ∧
    (∀ c ∈ name, c.toNat < 0x80) ∧ name.map Char.toLower = name ∧
      name.any (fun c => c = '\r' || c = '\n') = false := by
  simp only [cacheableMediaHeaders, List.forall_mem_cons]
  refine ⟨?_, ?_, ?_, ?_, ?_, ?_, ?_, by simp⟩ <;> exact ⟨rfl, by simp, rfl, rfl⟩

theorem hasNewline_strip {text : String} (h : hasNewline text = false) :
    hasNewline (String.ofList (strip text.toList)) = false := by
  rw [hasNewline, List.any_eq_false] at h ⊢
  intro c hc
  rw [String.toList_ofList] at hc
  exact h c (mem_strip hc)

theorem canonicalHeaders_cons {rawName rawValue : String} {headers result : List (String × String)}
    {seen : List (List Char)} :
    canonicalHeaders U seen ((rawName, rawValue) :: headers) = .ok result ↔
      hasNewline rawName = false ∧ hasNewline rawValue = false ∧
        U.lower (strip rawName.toList) ∈ cacheableMediaHeaders ∧
        U.lower (strip rawName.toList) ∉ seen ∧ ∃ rest,
          canonicalHeaders U (U.lower (strip rawName.toList) :: seen) headers = .ok rest ∧
          result = (String.ofList (U.lower (strip rawName.toList)),
            String.ofList (strip rawValue.toList)) :: rest := by
  simp only [canonicalHeaders, check_eq_ok, Bool.or_eq_true, not_or, Bool.not_eq_true, not_not,
    and_assoc]
  refine and_congr_right fun _ => and_congr_right fun _ => and_congr_right fun _ =>
    and_congr_right fun _ => ?_
  cases canonicalHeaders U (U.lower (strip rawName.toList) :: seen) headers with
  | error error => simp [bind, Except.bind]
  | ok rest => simp [bind, Except.bind, pure, Except.pure, eq_comm]

theorem canonicalHeaders_again {headers result : List (String × String)} {seen : List (List Char)}
    (h : canonicalHeaders U seen headers = .ok result) :
    canonicalHeaders U seen result = .ok result := by
  induction headers generalizing seen result with
  | nil =>
    obtain rfl := Except.ok.inj h
    rfl
  | cons header headers ih =>
    obtain ⟨-, hvalue, hallowed, hseen, rest, hrest, rfl⟩ := canonicalHeaders_cons.mp h
    obtain ⟨hstrip, hascii, hlower, hnewline⟩ := cacheable_canonical _ hallowed
    have hname : U.lower (strip (U.lower (strip header.1.toList))) =
        U.lower (strip header.1.toList) := by
      rw [hstrip, U.lower_ascii _ hascii, hlower]
    have hnewline' : hasNewline (String.ofList (U.lower (strip header.1.toList))) = false := by
      rw [hasNewline, String.toList_ofList, hnewline]
    refine canonicalHeaders_cons.mpr ⟨hnewline', hasNewline_strip hvalue, ?_, ?_, rest, ?_, ?_⟩
    · rwa [String.toList_ofList, hname]
    · rwa [String.toList_ofList, hname]
    · rw [String.toList_ofList, hname]
      exact ih hrest
    · simp only [String.toList_ofList, hname, strip_strip]

theorem checkDuration_again {durationSeconds : Option Number} {duration : Option FiniteFloat}
    (h : checkDuration durationSeconds = .ok duration) :
    checkDuration (duration.map .finite) = .ok duration := by
  unfold checkDuration at h
  split at h
  · obtain rfl := Except.ok.inj h
    rfl
  · split at h
    · cases h
    · next hnegative =>
      obtain rfl := Except.ok.inj h
      simp [checkDuration, hnegative]
  · cases h

theorem metadata_again {platform mediaId : String} {kind : MediaKind} {title : Option String}
    {durationSeconds : Option Number} {width height : Option Int} {itemCount : Int}
    {albumOrder : List Int} {provider : Option String} {m : StableMediaMetadata}
    (h : StableMediaMetadata.create platform mediaId kind title durationSeconds width height
      itemCount albumOrder provider = .ok m) :
    StableMediaMetadata.create m.platform m.mediaId m.kind m.title (m.durationSeconds.map .finite)
      m.width m.height m.itemCount m.albumOrder m.provider = .ok m := by
  unfold StableMediaMetadata.create at h ⊢
  simp only [check_eq_ok] at h ⊢
  obtain ⟨hidentity, h⟩ := h
  obtain ⟨duration, hduration, h⟩ := bind_eq_ok h
  simp only [check_eq_ok] at h
  obtain ⟨hwidth, hheight, hcount, h⟩ := h
  obtain rfl := Except.ok.inj h
  refine ⟨hidentity, ?_⟩
  simp only [checkDuration_again hduration, ok_bind, check_eq_ok]
  exact ⟨hwidth, hheight, hcount, rfl⟩

theorem signedUrl_again {url provider variantId : String} {expiresAt : Number}
    {headers : List (String × String)} {u : CachedSignedURL τ}
    (h : CachedSignedURL.create U T url provider expiresAt variantId headers = .ok u)
    (htime : T.time (T.repr u.expiresAt) = u.expiresAt) :
    CachedSignedURL.create U T u.url u.provider (.finite (T.repr u.expiresAt)) u.variantId
      u.headers = .ok u := by
  unfold CachedSignedURL.create at h ⊢
  cases hparsed : urlsplit U url.toList with
  | none => simp [hparsed] at h
  | some parsed =>
    simp only [hparsed, check_eq_ok] at h
    obtain ⟨hscheme, hcredentials, hidentity, h⟩ := h
    cases expiresAt with
    | finite x =>
      obtain ⟨canonical, hcanonical, h⟩ := bind_eq_ok h
      obtain rfl := Except.ok.inj h
      simp only [hparsed, check_eq_ok]
      refine ⟨hscheme, hcredentials, hidentity, ?_⟩
      simp only [canonicalHeaders_again hcanonical, htime]
      rfl
    | nan => cases h
    | infinity isNegative => cases h

theorem delivery_again {fileId telegramType : String} {itemIndex : Int}
    {fileUniqueId : Option String} {d : CachedDelivery}
    (h : CachedDelivery.create fileId telegramType itemIndex fileUniqueId = .ok d) :
    CachedDelivery.create d.fileId d.telegramType d.itemIndex d.fileUniqueId = .ok d := by
  have hcreate := h
  unfold CachedDelivery.create at h
  simp only [check_eq_ok] at h
  obtain ⟨-, -, -, h⟩ := h
  obtain rfl := Except.ok.inj h
  exact hcreate

end Constructed

section Records

variable {τ : Type} (P : Python) (U : Unicode) (T : ClockText τ)

/-- A constructor has accepted the record, and its numbers can be written and read. -/
inductive Payload.Storable : Payload τ → Prop where
  | metadata {platform mediaId : String} {kind : MediaKind} {title : Option String}
      {durationSeconds : Option Number} {width height : Option Int} {itemCount : Int}
      {albumOrder : List Int} {provider : Option String} {m : StableMediaMetadata}
      (hcreate : StableMediaMetadata.create platform mediaId kind title durationSeconds width height
        itemCount albumOrder provider = .ok m) (hwritable : m.Writable P) : Storable (.metadata m)
  | signedUrl {url provider variantId : String} {expiresAt : Number}
      {headers : List (String × String)} {u : CachedSignedURL τ}
      (hcreate : CachedSignedURL.create U T url provider expiresAt variantId headers = .ok u)
      (hwritable : u.Writable P T) : Storable (.signedUrl u)
  | delivery {fileId telegramType : String} {itemIndex : Int} {fileUniqueId : Option String}
      {d : CachedDelivery}
      (hcreate : CachedDelivery.create fileId telegramType itemIndex fileUniqueId = .ok d)
      (hwritable : d.Writable) : Storable (.delivery d)

/-- The record is read back by its own reader, and the other readers miss a field. -/
def Payload.ReadBack : Payload τ → Prop
  | .metadata m => decodeMetadata P (encode P T (.metadata m)) = .ok m ∧
      decodeSignedUrl P U T (encode P T (.metadata m)) = .error (.key "url") ∧
      decodeDelivery P (encode P T (.metadata m)) = .error (.key "telegram_type")
  | .signedUrl u => decodeSignedUrl P U T (encode P T (.signedUrl u)) = .ok u ∧
      decodeMetadata P (encode P T (.signedUrl u)) = .error (.key "platform") ∧
      decodeDelivery P (encode P T (.signedUrl u)) = .error (.key "telegram_type")
  | .delivery d => decodeDelivery P (encode P T (.delivery d)) = .ok d ∧
      decodeMetadata P (encode P T (.delivery d)) = .error (.key "platform") ∧
      decodeSignedUrl P U T (encode P T (.delivery d)) = .error (.key "url")

variable {P U T} {fields : List (String × Document Number)}

section Missing

variable (hreadable : ∀ p ∈ fields, p.2.Readable P.floats) (hnames : (fields.map Prod.fst).Nodup)
include hreadable hnames

theorem decodeMetadata_missing (hname : "platform" ∉ fields.map Prod.fst) :
    decodeMetadata P (jsonBytes P fields) = .error (.key "platform") := by
  simp only [decodeMetadata, jsonObject_jsonBytes hreadable, field_missing hnames hname, ok_bind]
  rfl

theorem decodeSignedUrl_missing (hname : "url" ∉ fields.map Prod.fst) :
    decodeSignedUrl P U T (jsonBytes P fields) = .error (.key "url") := by
  simp only [decodeSignedUrl, jsonObject_jsonBytes hreadable, field_missing hnames hname, ok_bind]
  rfl

theorem decodeDelivery_missing (hname : "telegram_type" ∉ fields.map Prod.fst) :
    decodeDelivery P (jsonBytes P fields) = .error (.key "telegram_type") := by
  simp only [decodeDelivery, jsonObject_jsonBytes hreadable, field_missing hnames hname, ok_bind]
  rfl

end Missing

/-- A record that was constructed is read back from its text, and only as what it is. -/
theorem records_read_back {payload : Payload τ} (h : payload.Storable P U T) :
    payload.ReadBack P U T := by
  cases h with
  | metadata hcreate hwritable =>
    have hreadable := readable_metadata hwritable
    have hnames := names_metadataFields
    refine ⟨(decodeMetadata_encode hwritable).trans (metadata_again hcreate), ?_, ?_⟩
    · exact decodeSignedUrl_missing hreadable (hnames _) (by simp [metadataFields])
    · exact decodeDelivery_missing hreadable (hnames _) (by simp [metadataFields])
  | signedUrl hcreate hwritable =>
    have hreadable := readable_signedUrl hwritable
    have hagain := signedUrl_again hcreate hwritable.time
    refine ⟨(decodeSignedUrl_encode hwritable).trans hagain, ?_, ?_⟩
    · exact decodeMetadata_missing hreadable (names_signedUrlFields _) (by simp [signedUrlFields])
    · exact decodeDelivery_missing hreadable (names_signedUrlFields _) (by simp [signedUrlFields])
  | delivery hcreate hwritable =>
    have hreadable := readable_delivery (P := P) hwritable
    refine ⟨(decodeDelivery_encode hwritable).trans (delivery_again hcreate), ?_, ?_⟩
    · exact decodeMetadata_missing hreadable (names_deliveryFields _) (by simp [deliveryFields])
    · exact decodeSignedUrl_missing hreadable (names_deliveryFields _) (by simp [deliveryFields])

/-- The float 300. -/
def threeHundred : FiniteFloat := ⟨"300.0", by decide +kernel, by decide +kernel⟩

/-- As far as the literal of `threeHundred` goes. -/
def Python.threeHundred : Python where
  read literal := if literal == "300.0".toList then .finite MediaCache.threeHundred else .nan
  str _ := ""
  int _ := .error (.type "int() argument")
  float _ := .error (.type "float() argument")

/-- A clock that stands at 300. -/
def ClockText.threeHundred : ClockText Rat :=
  ⟨fun _ => MediaCache.threeHundred, fun _ => Rat.ofInt 300⟩

def signedUrlAt300 : CachedSignedURL Rat :=
  ⟨"https://cdn.example/v.mp4?sig=é", "yt-dlp", Rat.ofInt 300, "default",
    [("referer", "https://example/")]⟩

theorem signedUrlAt300_storable : (Payload.signedUrl signedUrlAt300).Storable
    Python.threeHundred Unicode.ascii ClockText.threeHundred := by
  have hcreate : CachedSignedURL.create Unicode.ascii ClockText.threeHundred
      "https://cdn.example/v.mp4?sig=é" "yt-dlp" (.finite threeHundred) "default"
      [("Referer ", " https://example/")] = .ok signedUrlAt300 := by decide +kernel
  have hexpiry : Python.threeHundred.floats.Reads (.finite threeHundred) := by
    constructor <;> decide +kernel
  exact .signedUrl hcreate ⟨hexpiry, rfl⟩

theorem records_read_back_signedUrl : (Payload.signedUrl signedUrlAt300).ReadBack
    Python.threeHundred Unicode.ascii ClockText.threeHundred :=
  records_read_back signedUrlAt300_storable

end Records

end YtdlBot.MediaCache
