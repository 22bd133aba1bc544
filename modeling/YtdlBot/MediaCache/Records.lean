import Mathlib.Algebra.Order.Floor.Defs
import Mathlib.Algebra.Order.Floor.Ring
import YtdlBot.Framework.Machine
import YtdlBot.MediaCache.Memory

/-!
# The records of a media cache

The caches of one store, a process's own dictionary or a Redis database, put and get records under
the keys of their queries. A Redis record may also vanish by itself.
-/

namespace YtdlBot.MediaCache

open Framework
open Framework.Json (FiniteFloat)

variable {τ : Type}

structure StableMediaMetadata where
  platform : String
  mediaId : String
  kind : MediaKind
  title : Option String
  durationSeconds : Option FiniteFloat
  width : Option Int
  height : Option Int
  itemCount : Int
  albumOrder : List Int
  provider : Option String
deriving DecidableEq

structure CachedSignedURL (τ : Type) where
  url : String
  provider : String
  expiresAt : τ
  variantId : String
  headers : List (String × String)
deriving DecidableEq

structure CachedDelivery where
  fileId : String
  telegramType : String
  itemIndex : Int
  fileUniqueId : Option String
deriving DecidableEq

/-- What the payload of a record decodes to. -/
inductive Payload (τ : Type) where
  | metadata (metadata : StableMediaMetadata)
  | signedUrl (signedUrl : CachedSignedURL τ)
  | delivery (delivery : CachedDelivery)
deriving DecidableEq

/-- A record with its decoded payload. -/
abbrev Entry (τ : Type) := Record (Payload τ) τ

abbrev Store (τ : Type) := Memory (Payload τ) τ

/-- The lifetimes of a cache. -/
structure Ttls (τ : Type) where
  metadata : τ
  signedUrl : τ
  delivery : τ

/-- A `MediaCache`: its names, its lifetimes and the hash it uses. -/
structure Cache (τ : Type) where
  settings : Settings
  ttls : Ttls τ

section Operations

variable [LinearOrder τ] [Field τ] [FloorRing τ]

variable (hexdigest : String → String) (c : Cache τ) (request : MediaRequest) (now later : τ)

def metadataQuery : Query := ⟨.metadata, request, none, 0, "default"⟩

def signedUrlQuery (variantId : String) : Query := ⟨.signedUrl, request, none, 0, variantId⟩

def deliveryQuery (botId : String) (itemIndex : Int) : Query :=
  ⟨.fileId, request, some botId, itemIndex, "default"⟩

abbrev Op (τ α : Type) := Store τ → Except CacheError α × Store τ

/-- An operation at the key of a query. -/
def atKey {α : Type} (q : Query) (f : String → Store τ → Except CacheError α × Store τ) : Op τ α :=
  fun s =>
    match recordKey hexdigest c.settings q with
    | .error error => (.error error, s)
    | .ok key => f key s

/-- A record is read, and dropped if it does not decode. -/
def getRecord {α : Type} (q : Query) (touchTtl : Option τ) (decode : Payload τ → Option α) :
    Op τ (Option α) :=
  atKey hexdigest c q fun key s =>
    match s.get key touchTtl now later with
    | (none, s) => (.ok none, s)
    | (some payload, s) =>
      match decode payload with
      | none => (.ok none, s.delete key)
      | some value => (.ok (some value), s)

def putRecord (q : Query) (payload : Payload τ) (ttl : τ) : Op τ Unit :=
  atKey hexdigest c q fun key s =>
    (.ok (), s.set key ⟨payload, later, c.settings, q⟩ ttl now later)

def getMetadata : Op τ (Option StableMediaMetadata) :=
  getRecord hexdigest c now now (metadataQuery request) none fun
    | .metadata m => some m
    | _ => none

def putMetadata (m : StableMediaMetadata) : Op τ Unit := fun s =>
  if m.platform ≠ request.platform ∨ m.mediaId ≠ request.mediaId then
    (.error (.valueError "metadata identity does not match the media request"), s)
  else putRecord hexdigest c now later (metadataQuery request) (.metadata m) c.ttls.metadata s

/-- The clock is read at `now` for the record's lifetime in the cache, and `later` for its own. -/
def getSignedUrl (variantId : String) : Op τ (Option (CachedSignedURL τ)) :=
  getRecord hexdigest c now now (signedUrlQuery request variantId) none fun
    | .signedUrl u => if u.expiresAt ≤ later then none else some u
    | _ => none

def putSignedUrl (u : CachedSignedURL τ) (latest : τ) : Op τ Unit := fun s =>
  let remaining := u.expiresAt - now
  if remaining ≤ 0 then
    atKey hexdigest c (signedUrlQuery request u.variantId) (fun key s => (.ok (), s.delete key)) s
  else
    putRecord hexdigest c later latest (signedUrlQuery request u.variantId) (.signedUrl u)
      (max 1 (min c.ttls.signedUrl (Int.ceil remaining : τ))) s

def getDelivery (botId : String) (itemIndex : Int) : Op τ (Option CachedDelivery) :=
  getRecord hexdigest c now later (deliveryQuery request botId itemIndex) (some c.ttls.delivery) fun
    | .delivery d => some d
    | _ => none

def putDelivery (botId : String) (d : CachedDelivery) : Op τ Unit :=
  putRecord hexdigest c now later (deliveryQuery request botId d.itemIndex) (.delivery d) c.ttls.delivery

def evictDelivery (botId : String) (itemIndex : Int) : Op τ Unit :=
  atKey hexdigest c (deliveryQuery request botId itemIndex) fun key s => (.ok (), s.delete key)

end Operations

/-- Operations with the readings of the clock that they take in this order. -/
inductive Action (τ : Type) where
  | getMetadata (c : Cache τ) (request : MediaRequest) (now : τ)
  | putMetadata (c : Cache τ) (request : MediaRequest) (now later : τ) (m : StableMediaMetadata)
  | getSignedUrl (c : Cache τ) (request : MediaRequest) (now later : τ) (variantId : String)
  | putSignedUrl (c : Cache τ) (request : MediaRequest) (now later : τ) (u : CachedSignedURL τ)
      (latest : τ)
  | getDelivery (c : Cache τ) (request : MediaRequest) (now later : τ) (botId : String)
      (itemIndex : Int)
  | putDelivery (c : Cache τ) (request : MediaRequest) (now later : τ) (botId : String)
      (d : CachedDelivery)
  | evictDelivery (c : Cache τ) (request : MediaRequest) (botId : String) (itemIndex : Int)
  /-- Redis drops a key. -/
  | vanish (key : String)

namespace Store

variable [LinearOrder τ] [Field τ] [FloorRing τ]

def step (hexdigest : String → String) (s : Store τ) : Action τ → Option (Store τ)
  | .getMetadata c request now => some (getMetadata hexdigest c request now s).2
  | .putMetadata c request now later m => some (putMetadata hexdigest c request now later m s).2
  | .getSignedUrl c request now later variantId =>
    some (getSignedUrl hexdigest c request now later variantId s).2
  | .putSignedUrl c request now later u latest =>
    some (putSignedUrl hexdigest c request now later u latest s).2
  | .getDelivery c request now later botId itemIndex =>
    some (getDelivery hexdigest c request now later botId itemIndex s).2
  | .putDelivery c request now later botId d =>
    some (putDelivery hexdigest c request now later botId d s).2
  | .evictDelivery c request botId itemIndex =>
    some (evictDelivery hexdigest c request botId itemIndex s).2
  | .vanish key => some (s.delete key)

def machine (hexdigest : String → String) : Machine (Store τ) (Action τ) := ⟨step hexdigest⟩

def empty (limit : Option Nat) : Store τ := ⟨[], limit⟩

end Store

end YtdlBot.MediaCache
