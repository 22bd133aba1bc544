import YtdlBot.MediaCache.Codec
import YtdlBot.MediaCache.Isolation

/-!
# A cache of texts

The cache as it is: its dictionary, or its Redis database, holds texts, which every reader decodes.
In any run it answers as the cache of records does that is given the same records.
-/

namespace YtdlBot.MediaCache

open Framework
open Framework.Urls (Unicode)

variable {τ : Type}

abbrev TextStore (τ : Type) := Memory (List Char) τ

inductive TextError where
  | cache (error : CacheError)
  | decode (error : DecodeError)

section Operations

variable [LinearOrder τ] [Field τ] [FloorRing τ]

variable (hexdigest : String → String) (P : Python) (U : Unicode) (T : ClockText τ) (c : Cache τ)
  (request : MediaRequest) (now later : τ)

abbrev TextOp (τ α : Type) := TextStore τ → Except TextError α × TextStore τ

def atTextKey {α : Type} (q : Query) (f : String → TextOp τ α) : TextOp τ α := fun s =>
  match recordKey hexdigest c.settings q with
  | .error error => (.error (.cache error), s)
  | .ok key => f key s

/-- A text that does not decode is dropped, and so is a record that is not good any more. -/
def getText {α : Type} (q : Query) (touchTtl : Option τ) (decode : List Char → Except DecodeError α)
    (good : α → Bool) : TextOp τ (Option α) :=
  atTextKey hexdigest c q fun key s =>
    match s.get key touchTtl now later with
    | (none, s) => (.ok none, s)
    | (some payload, s) =>
      match decode payload with
      | .ok value => if good value then (.ok (some value), s) else (.ok none, s.delete key)
      | .error error =>
        if error.caught then (.ok none, s.delete key) else (.error (.decode error), s)

def putText (q : Query) (payload : List Char) (ttl : τ) : TextOp τ Unit :=
  atTextKey hexdigest c q fun key s =>
    (.ok (), s.set key ⟨payload, later, c.settings, q⟩ ttl now later)

def getMetadataText : TextOp τ (Option StableMediaMetadata) :=
  getText hexdigest c now now (metadataQuery request) none (decodeMetadata P) fun _ => true

def putMetadataText (m : StableMediaMetadata) : TextOp τ Unit := fun s =>
  if m.platform ≠ request.platform ∨ m.mediaId ≠ request.mediaId then
    (.error (.cache (.valueError "metadata identity does not match the media request")), s)
  else
    putText hexdigest c now later (metadataQuery request) (encode P T (.metadata m))
      c.ttls.metadata s

def getSignedUrlText (variantId : String) : TextOp τ (Option (CachedSignedURL τ)) :=
  getText hexdigest c now now (signedUrlQuery request variantId) none (decodeSignedUrl P U T)
    fun u => !decide (u.expiresAt ≤ later)

def putSignedUrlText (u : CachedSignedURL τ) (latest : τ) : TextOp τ Unit := fun s =>
  let remaining := u.expiresAt - now
  if remaining ≤ 0 then
    atTextKey hexdigest c (signedUrlQuery request u.variantId)
      (fun key s => (.ok (), s.delete key)) s
  else
    putText hexdigest c later latest (signedUrlQuery request u.variantId)
      (encode P T (.signedUrl u)) (max 1 (min c.ttls.signedUrl (Int.ceil remaining : τ))) s

def getDeliveryText (botId : String) (itemIndex : Int) : TextOp τ (Option CachedDelivery) :=
  getText hexdigest c now later (deliveryQuery request botId itemIndex) (some c.ttls.delivery)
    (decodeDelivery P) fun _ => true

def putDeliveryText (botId : String) (d : CachedDelivery) : TextOp τ Unit :=
  putText hexdigest c now later (deliveryQuery request botId d.itemIndex)
    (encode P T (.delivery d)) c.ttls.delivery

def evictDeliveryText (botId : String) (itemIndex : Int) : TextOp τ Unit :=
  atTextKey hexdigest c (deliveryQuery request botId itemIndex) fun key s =>
    (.ok (), s.delete key)

end Operations

namespace TextStore

variable [LinearOrder τ] [Field τ] [FloorRing τ] (hexdigest : String → String) (P : Python)
  (U : Unicode) (T : ClockText τ)

def step (s : TextStore τ) : Action τ → Option (TextStore τ)
  | .getMetadata c request now => some (getMetadataText hexdigest P c request now s).2
  | .putMetadata c request now later m =>
    some (putMetadataText hexdigest P T c request now later m s).2
  | .getSignedUrl c request now later variantId =>
    some (getSignedUrlText hexdigest P U T c request now later variantId s).2
  | .putSignedUrl c request now later u latest =>
    some (putSignedUrlText hexdigest P T c request now later u latest s).2
  | .getDelivery c request now later botId itemIndex =>
    some (getDeliveryText hexdigest P c request now later botId itemIndex s).2
  | .putDelivery c request now later botId d =>
    some (putDeliveryText hexdigest P T c request now later botId d s).2
  | .evictDelivery c request botId itemIndex =>
    some (evictDeliveryText hexdigest c request botId itemIndex s).2
  | .vanish key => some (s.delete key)

def machine : Machine (TextStore τ) (Action τ) := ⟨step hexdigest P U T⟩

def empty (limit : Option Nat) : TextStore τ := ⟨[], limit⟩

end TextStore

section Refinement

variable (P : Python) (U : Unicode) (T : ClockText τ)

/-- The texts of the records. -/
def Store.texts (s : Store τ) : TextStore τ := s.map (encode P T)

/-- Every record can be read back. -/
def Store.Storable (s : Store τ) : Prop := s.All fun _ e => e.payload.Storable P U T

variable {P U T} {s : Store τ}

theorem lasting_storable :
    Memory.Lasting fun _ (e : Entry τ) => e.payload.Storable P U T :=
  fun _ _ _ h => h

variable [LinearOrder τ]

theorem Store.Storable.payload_of_get [Add τ] (hs : s.Storable P U T) {key : String}
    {touchTtl : Option τ} {now later : τ} {payload : Payload τ}
    (h : (s.get key touchTtl now later).1 = some payload) : payload.Storable P U T := by
  obtain ⟨e, hfind, rfl⟩ := Memory.find_of_get h
  exact hs _ (Memory.mem_of_find hfind)

section Simulation

variable {hexdigest : String → String} {c : Cache τ} {q : Query}
  {request : MediaRequest} {now later latest : τ} {botId variantId : String} {itemIndex : Int}

/-- On the texts of records the operation answers as the other does on the records. -/
def Simulates (P : Python) (U : Unicode) (T : ClockText τ) {α : Type} (textOp : TextOp τ α)
    (op : Op τ α) : Prop :=
  ∀ s : Store τ, s.Storable P U T →
    textOp (s.texts P T) = ((op s).1.mapError .cache, (op s).2.texts P T) ∧
      (op s).2.Storable P U T

omit [LinearOrder τ] in
theorem simulates_atKey {α : Type} {f : String → TextOp τ α} {g : String → Op τ α}
    (h : ∀ key, Simulates P U T (f key) (g key)) :
    Simulates P U T (atTextKey hexdigest c q f) (atKey hexdigest c q g) := by
  intro s hs
  unfold atTextKey atKey
  cases recordKey hexdigest c.settings q with
  | error error => exact ⟨rfl, hs⟩
  | ok key => exact h key s hs

omit [LinearOrder τ] in
theorem simulates_delete (key : String) :
    Simulates P U T (fun s => (.ok (), s.delete key)) fun s => (.ok (), s.delete key) :=
  fun _ hs => ⟨Prod.ext rfl Memory.delete_map, hs.delete key⟩

omit [LinearOrder τ] in
theorem simulates_evictDelivery :
    Simulates P U T (evictDeliveryText hexdigest c request botId itemIndex)
      (evictDelivery hexdigest c request botId itemIndex) :=
  simulates_atKey simulates_delete

/-- The reader of texts and the reader of records make the same of a record. -/
def SameReading (P : Python) (U : Unicode) (T : ClockText τ) {α : Type}
    (decode : List Char → Except DecodeError α) (good : α → Bool)
    (read : Payload τ → Option α) : Prop :=
  ∀ payload : Payload τ, payload.Storable P U T →
    match decode (encode P T payload) with
    | .ok value => read payload = if good value then some value else none
    | .error error => error.caught = true ∧ read payload = none

variable [Field τ]

theorem simulates_getText {α : Type} {decode : List Char → Except DecodeError α} {good : α → Bool}
    {read : Payload τ → Option α} (touchTtl : Option τ) (now later : τ)
    (h : SameReading P U T decode good read) :
    Simulates P U T (getText hexdigest c now later q touchTtl decode good)
      (getRecord hexdigest c now later q touchTtl read) := by
  refine simulates_atKey fun key s hs => ?_
  have hstorable := hs.get lasting_storable key touchTtl now later
  have hpayload : ∀ payload, (s.get key touchTtl now later).1 = some payload →
      payload.Storable P U T := fun _ h => hs.payload_of_get h
  rw [Store.texts, Memory.get_map]
  rcases hget : s.get key touchTtl now later with ⟨found, s'⟩
  rw [hget] at hstorable hpayload
  cases found with
  | none => exact ⟨rfl, hstorable⟩
  | some payload =>
    have hread := h payload (hpayload payload rfl)
    simp only [Option.map_some]
    cases hdecode : decode (encode P T payload) with
    | ok value =>
      simp only [hdecode] at hread
      cases hgood : good value with
      | true =>
        simp only [hread, hgood, if_true]
        exact ⟨rfl, hstorable⟩
      | false =>
        simp only [hread, hgood, Bool.false_eq_true, if_false, Memory.delete_map]
        exact ⟨rfl, hstorable.delete key⟩
    | error error =>
      simp only [hdecode] at hread
      simp only [hread.1, hread.2, if_true, Memory.delete_map]
      exact ⟨rfl, hstorable.delete key⟩

theorem simulates_putText {payload : Payload τ} (ttl now later : τ)
    (h : payload.Storable P U T) :
    Simulates P U T (putText hexdigest c now later q (encode P T payload) ttl)
      (putRecord hexdigest c now later q payload ttl) := by
  refine simulates_atKey fun key s hs => ?_
  refine ⟨Prod.ext rfl ?_, hs.set lasting_storable h ttl now later⟩
  exact Memory.set_map (f := encode P T) (e := ⟨payload, later, c.settings, q⟩) ttl now later

/-- The readers agree, as each text is read by its own reader alone. -/
theorem simulates_getMetadata :
    Simulates P U T (getMetadataText hexdigest P c request now)
      (getMetadata hexdigest c request now) := by
  refine simulates_getText none now now fun payload hpayload => ?_
  have hread := records_read_back hpayload
  cases payload with
  | metadata m => simp [hread.1]
  | signedUrl u => simp [hread.2.1, DecodeError.caught]
  | delivery d => simp [hread.2.1, DecodeError.caught]

theorem simulates_getSignedUrl :
    Simulates P U T (getSignedUrlText hexdigest P U T c request now later variantId)
      (getSignedUrl hexdigest c request now later variantId) := by
  refine simulates_getText none now now fun payload hpayload => ?_
  have hread := records_read_back hpayload
  cases payload with
  | metadata m => simp [hread.2.1, DecodeError.caught]
  | signedUrl u =>
    simp only [hread.1]
    by_cases hexpired : u.expiresAt ≤ later <;> simp [hexpired]
  | delivery d => simp [hread.2.2, DecodeError.caught]

theorem simulates_getDelivery :
    Simulates P U T (getDeliveryText hexdigest P c request now later botId itemIndex)
      (getDelivery hexdigest c request now later botId itemIndex) := by
  refine simulates_getText (some c.ttls.delivery) now later fun payload hpayload => ?_
  have hread := records_read_back hpayload
  cases payload with
  | metadata m => simp [hread.2.2, DecodeError.caught]
  | signedUrl u => simp [hread.2.2, DecodeError.caught]
  | delivery d => simp [hread.1]

theorem simulates_putMetadata {m : StableMediaMetadata}
    (h : (Payload.metadata m : Payload τ).Storable P U T) :
    Simulates P U T (putMetadataText hexdigest P T c request now later m)
      (putMetadata hexdigest c request now later m) := by
  intro s hs
  unfold putMetadataText putMetadata
  split
  · exact ⟨rfl, hs⟩
  · exact simulates_putText c.ttls.metadata now later h s hs

theorem simulates_putDelivery {d : CachedDelivery}
    (h : (Payload.delivery d : Payload τ).Storable P U T) :
    Simulates P U T (putDeliveryText hexdigest P T c request now later botId d)
      (putDelivery hexdigest c request now later botId d) :=
  simulates_putText c.ttls.delivery now later h

variable [FloorRing τ]

theorem simulates_putSignedUrl {u : CachedSignedURL τ} (h : (Payload.signedUrl u).Storable P U T) :
    Simulates P U T (putSignedUrlText hexdigest P T c request now later u latest)
      (putSignedUrl hexdigest c request now later u latest) := by
  intro s hs
  unfold putSignedUrlText putSignedUrl
  dsimp only
  split
  · exact simulates_atKey simulates_delete s hs
  · exact simulates_putText _ later latest h s hs

/-- What is put was constructed. -/
def Action.Storable (P : Python) (U : Unicode) (T : ClockText τ) : Action τ → Prop
  | .putMetadata _ _ _ _ m => (Payload.metadata m : Payload τ).Storable P U T
  | .putSignedUrl _ _ _ _ u _ => (Payload.signedUrl u).Storable P U T
  | .putDelivery _ _ _ _ _ d => (Payload.delivery d : Payload τ).Storable P U T
  | _ => True

theorem step_texts {a : Action τ} (hs : s.Storable P U T) (ha : a.Storable P U T) :
    TextStore.step hexdigest P U T (s.texts P T) a = (s.step hexdigest a).map (·.texts P T) ∧
      ∀ s', s.step hexdigest a = some s' → s'.Storable P U T := by
  have hdone {α : Type} {textOp : TextOp τ α} {op : Op τ α} (h : Simulates P U T textOp op) :
      some (textOp (s.texts P T)).2 = (some (op s).2).map (·.texts P T) ∧
        ∀ s', some (op s).2 = some s' → s'.Storable P U T := by
    obtain ⟨hanswer, hstorable⟩ := h s hs
    refine ⟨by rw [hanswer]; rfl, fun s' hs' => ?_⟩
    rwa [← Option.some.inj hs']
  cases a with
  | getMetadata c request now => exact hdone simulates_getMetadata
  | putMetadata c request now later m => exact hdone (simulates_putMetadata ha)
  | getSignedUrl c request now later variantId => exact hdone simulates_getSignedUrl
  | putSignedUrl c request now later u latest => exact hdone (simulates_putSignedUrl ha)
  | getDelivery c request now later botId itemIndex => exact hdone simulates_getDelivery
  | putDelivery c request now later botId d => exact hdone (simulates_putDelivery ha)
  | evictDelivery c request botId itemIndex => exact hdone simulates_evictDelivery
  | vanish key => exact hdone (simulates_delete key)

/-- Any run of the cache of texts is a run of the cache of records, which gives the same answers. -/
theorem texts_refine_records {limit : Option Nat} {as : List (Action τ)} {t : TextStore τ}
    (has : ∀ a ∈ as, a.Storable P U T)
    (hr : (TextStore.machine hexdigest P U T).run (TextStore.empty limit) as = some t) :
    ∃ s : Store τ, (Store.machine hexdigest).run (Store.empty limit) as = some s ∧
      t = s.texts P T ∧
      (∀ c request now, (getMetadataText hexdigest P c request now t).1 =
        (getMetadata hexdigest c request now s).1.mapError .cache) ∧
      (∀ c request now later variantId,
        (getSignedUrlText hexdigest P U T c request now later variantId t).1 =
          (getSignedUrl hexdigest c request now later variantId s).1.mapError .cache) ∧
      ∀ c request now later botId itemIndex,
        (getDeliveryText hexdigest P c request now later botId itemIndex t).1 =
          (getDelivery hexdigest c request now later botId itemIndex s).1.mapError .cache := by
  have hempty : (Store.empty limit : Store τ).Storable P U T := by
    exact fun _ hp => absurd hp List.not_mem_nil
  obtain ⟨hmap, hinv⟩ := Machine.run_map (N := TextStore.machine hexdigest P U T)
    (I := Store.Storable P U T) (Store.machine hexdigest) (Store.texts P T)
    (fun s a hs ha => step_texts hs ha) hempty has
  have htexts : (Store.empty limit : Store τ).texts P T = TextStore.empty limit := rfl
  rw [← htexts, hmap, Option.map_eq_some_iff] at hr
  obtain ⟨s, hs, rfl⟩ := hr
  have hstorable := hinv s hs
  refine ⟨s, hs, rfl, ?_, ?_, ?_⟩
  · intro c request now
    rw [(simulates_getMetadata s hstorable).1]
  · intro c request now later variantId
    rw [(simulates_getSignedUrl s hstorable).1]
  · intro c request now later botId itemIndex
    rw [(simulates_getDelivery s hstorable).1]

end Simulation

/-- Texts are put, touched and evicted. -/
def exchanges : List (Action ℚ) :=
  let c : Cache ℚ := ⟨⟨"media-cache", "pipeline-v1"⟩, ⟨86400, 300, 2592000⟩⟩
  let request := seen "private"
  [.putSignedUrl c request 0 0 signedUrlAt300 0, .getSignedUrl c request 1 2 "default",
    .putDelivery c request 2 2 "bot" ⟨"file", "video", 0, none⟩,
    .getDelivery c request 3 4 "bot" 0, .evictDelivery c request "bot" 0, .vanish "key"]

theorem texts_refine_records_exchanges : ∃ t, (TextStore.machine digestOf Python.threeHundred
    Unicode.ascii ClockText.threeHundred).run (TextStore.empty (some 2)) exchanges = some t ∧
    ∃ s : Store ℚ, (Store.machine digestOf).run (Store.empty (some 2)) exchanges = some s ∧
      t = s.texts Python.threeHundred ClockText.threeHundred := by
  have hdelivery : (Payload.delivery ⟨"file", "video", 0, none⟩ : Payload ℚ).Storable
      Python.threeHundred Unicode.ascii ClockText.threeHundred := by
    have hcreate : CachedDelivery.create "file" "video" 0 none = .ok ⟨"file", "video", 0, none⟩ := by
      decide +kernel
    exact .delivery hcreate (show (Nat.toDigits 10 0).length ≤ Json.maxStrDigits by decide)
  have hstorable : ∀ a ∈ exchanges, a.Storable Python.threeHundred Unicode.ascii
      ClockText.threeHundred := by
    simp only [exchanges, List.forall_mem_cons]
    exact ⟨signedUrlAt300_storable, trivial, hdelivery, trivial, trivial, trivial, by simp⟩
  have hrun : ∃ t, (TextStore.machine digestOf Python.threeHundred Unicode.ascii
    ClockText.threeHundred).run (TextStore.empty (some 2)) exchanges = some t := ⟨_, rfl⟩
  obtain ⟨t, hrun⟩ := hrun
  obtain ⟨s, hs, ht, -⟩ := texts_refine_records hstorable hrun
  exact ⟨t, hrun, s, hs, ht⟩

end Refinement

end YtdlBot.MediaCache
