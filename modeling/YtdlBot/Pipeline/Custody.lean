import YtdlBot.Delivery.Records
import YtdlBot.Pipeline.Requests

/-!
# Custody

What a request, run inside a delivery job context, has in hand: materialized items, a converted
video, and what it has recorded. It reads files only while it has them, gives everything back on
every exit, tries no item again that may have been sent, and returns the receipt that is in the
store.
-/

namespace YtdlBot.Pipeline

open Framework
open Framework.Guarded
open Framework.Program (Protocol Follows)
open Framework.Urls (Unicode)
open Delivery (DeliveryAsset DeliveryReceipt Records Delivered mergeReceipts normalizeAssets
  aggregateStatus durableOutcome durableItemKey)
open Materialization.Fallback (ResolvedMedia)
open Media (MediaCandidate)
open MediaCache (MediaRequest requestCacheKey)

structure Custody (τ : Type) where
  records : Records
  /-- The last one opened comes first. -/
  opened : List (MaterializedItem τ)
  openings : Nat
  /-- The file of a conversion. -/
  video : Option String
  derived : Option (MaterializedItem τ)

namespace Custody

variable {τ : Type}

def empty : Custody τ := ⟨.initial, [], 0, none, none⟩

def Holds (c : Custody τ) (path : String) : Prop :=
  (∃ item ∈ c.opened, path ∈ item.paths) ∨ (∃ item ∈ c.derived, path ∈ item.paths) ∨
    c.video = some path

/-- There is no video in hand, converted or adopted. -/
def Plain (c : Custody τ) : Prop := c.video = none ∧ c.derived = none

/-- Nothing is in hand. -/
def Vacant (c : Custody τ) : Prop := c.opened = [] ∧ c.Plain

/-- An item is tried twice at most, and at most so many items are opened. -/
def allows (limit : Nat) (c : Custody τ) : Effect τ → Prop
  | .delivery effect => Records.allows c.Holds 2 c.records effect
  | .openMaterialized _ _ => c.openings < limit ∧ c.Plain
  | .closeMaterialized item => c.opened.head? = some item ∧ c.Plain
  | .isFile path | .fileSize path => c.Holds path
  | .convert images audio => c.Plain ∧ ∀ path ∈ images ++ audio.toList, c.Holds path
  | .adoptLocal _ path _ => c.video = some path ∧ c.derived = none
  | .validateArtifact _ item => c.derived = some item
  | .unlink path => c.video = some path
  | .release item => c.derived = some item ∧ c.video = none
  | _ => True

def receive (c : Custody τ) (item : MaterializedItem τ) : Custody τ :=
  { c with opened := item :: c.opened, openings := c.openings + 1 }

def next (c : Custody τ) : (effect : Effect τ) → effect.Result → Custody τ
  | .delivery effect, response =>
    match response with
    | .ok response => { c with records := c.records.next effect response }
    | .error _ => c
  | .openMaterialized _ _, response =>
    match response with
    | .ok item => c.receive item
    | .error _ => c
  | .closeMaterialized _, _ => { c with opened := c.opened.tail }
  | .convert _ _, response =>
    match response with
    | .ok output => { c with video := output.filter fun path => path ≠ "" }
    | .error _ => c
  | .adoptLocal _ _ _, response =>
    match response with
    | .ok item => { c with derived := some item }
    | .error _ => c
  | .unlink _, _ => { c with video := none }
  | .release _, _ => { c with derived := none }
  | _, _ => c

def rules (τ : Type) (limit : Nat) : Protocol (Effect τ) Effect.Result (Custody τ) :=
  ⟨allows limit, next⟩

/-- Only records have been added. -/
def During (c c' : Custody τ) : Prop := c' = { c with records := c'.records }

theorem During.refl (c : Custody τ) : c.During c := rfl

theorem During.trans {c c' c'' : Custody τ} (h : c.During c') (h' : c'.During c'') :
    c.During c'' := by
  rw [During, h', h]

theorem During.record {c c' : Custody τ} (h : c.During c') (r : Records) :
    c.During { c' with records := r } := by
  rw [h]
  rfl

theorem During.openings {c c' : Custody τ} (h : c.During c') : c'.openings = c.openings := by
  rw [h]

theorem During.holds {c c' : Custody τ} (h : c.During c') : c'.Holds = c.Holds := by
  rw [h]
  rfl

end Custody

section Receipts

/-- The receipt name of an item of the request. -/
def nameOf (p : MediaPipeline) (target : DeliveryTarget) (request : MediaRequest) (index : Nat) :
    String :=
  target.destination ++ ":request:" ++ requestCacheKey p.hexdigest request ++ ":" ++
    JobStore.str index

/-- The receipt tells what is recorded, one outcome for each item in order. -/
structure Told (name : Nat → String) (receipt : DeliveryReceipt) (r : Records) : Prop where
  complete : ∃ count, receipt.items.map Delivery.DeliveredItem.itemIndex = List.range count
  status : receipt.status = aggregateStatus receipt.items
  recorded : ∀ item ∈ receipt.items,
    r.recorded (name item.itemIndex) = some (durableOutcome item.status)

/-- Each item was tried so often at most. -/
def Tried (count : Nat) (r : Records) : Prop := ∀ name, r.attempts name ≤ count

variable {name : Nat → String} {keyOf : DeliveryAsset → String} {assets : List DeliveryAsset}
  {r r' : Records} {receipt retried : DeliveryReceipt} {count : Nat}

theorem Tried.passed {keys : List String} (h : Tried count r) (hpassed : r.Passed keys r') :
    Tried (count + 1) r' := by
  intro key
  have hbefore := h key
  have hbound := hpassed.attempts key
  split at hbound <;> omega

theorem Tried.lt (h : Tried count r) (key : String) : r.attempts key < count + 1 :=
  Nat.lt_succ_of_le (h key)

theorem told_delivered (hname : ∀ asset, keyOf asset = name asset.index)
    (hassets : assets.map DeliveryAsset.index = List.range count)
    (h : Delivered keyOf assets r receipt r') : Told name receipt r' := by
  refine ⟨⟨count, h.reports.trans hassets⟩, h.status, fun item hitem => ?_⟩
  obtain ⟨asset, -, hindex, hrecorded⟩ := h.recorded item hitem
  rw [hindex, ← hname]
  exact hrecorded

/-- A retry changes what is recorded of the failed items alone, and their outcomes with it. -/
theorem told_merged (hname : ∀ asset, keyOf asset = name asset.index)
    (hinjective : Function.Injective name) (h : Told name receipt r)
    (hretryable : receipt.retryableItems ≠ [])
    (hretried : Delivered keyOf assets r retried r') :
    Told name (mergeReceipts receipt retried) r' := by
  have hitems : receipt.items ≠ [] := by
    intro hnil
    simp [DeliveryReceipt.retryableItems, hnil] at hretryable
  obtain ⟨count, hcomplete⟩ := h.complete
  refine ⟨⟨count, ?_⟩, Delivery.mergeReceipts_status (by simpa [mergeReceipts] using hitems), ?_⟩
  · rw [← hcomplete, mergeReceipts, List.map_map]
    exact List.map_congr_left fun item _ => Delivery.replacement_index retried item
  · intro merged hmerged
    obtain ⟨item, hitem, rfl⟩ := List.mem_map.mp hmerged
    rw [Delivery.replacement_index]
    by_cases hindex : item.itemIndex ∈ retried.items.map Delivery.DeliveredItem.itemIndex
    · obtain ⟨before, after, hsplit, houtcome, -⟩ := Delivery.replacement_last hindex
      have hmem : Delivery.replacement retried item ∈ retried.items := by simp [hsplit]
      obtain ⟨asset, -, hasset, hrecorded⟩ := hretried.recorded _ hmem
      rwa [hname, ← hasset, houtcome] at hrecorded
    · rw [Delivery.replacement_kept hindex, hretried.passed.recorded, h.recorded item hitem]
      intro hmem
      obtain ⟨asset, hasset, hkey⟩ := List.mem_map.mp hmem
      rw [hname] at hkey
      rw [hretried.reports] at hindex
      exact hindex (hinjective hkey ▸ List.mem_map_of_mem hasset)

end Receipts

section Assets

/-- The assets are numbered from here on, and come from these files. -/
structure Sendable (files : String → Prop) (start : Nat) (assets : List DeliveryAsset) : Prop where
  numbered : assets.map DeliveryAsset.itemIndex = (List.range' start assets.length).map some
  sources : ∀ asset ∈ assets, asset.From files

variable {files : String → Prop} {start : Nat} {asset : DeliveryAsset} {assets : List DeliveryAsset}

theorem sendable_nil : Sendable files start [] := ⟨rfl, by simp⟩

theorem Sendable.cons (h : Sendable files (start + 1) assets)
    (hindex : asset.itemIndex = some start) (hasset : asset.From files) :
    Sendable files start (asset :: assets) := by
  refine ⟨?_, List.forall_mem_cons.mpr ⟨hasset, h.sources⟩⟩
  simp [List.range'_succ, hindex, h.numbered]

theorem Sendable.normalized (h : Sendable files start assets) :
    normalizeAssets assets = assets := by
  refine Delivery.normalizeFrom_eq_self fun asset hasset hnone => ?_
  have hmem : asset.itemIndex ∈ assets.map DeliveryAsset.itemIndex := List.mem_map_of_mem hasset
  rw [h.numbered, hnone] at hmem
  simp at hmem

theorem Sendable.indexes (h : Sendable files 0 assets) :
    assets.map DeliveryAsset.index = List.range assets.length := by
  calc assets.map DeliveryAsset.index
      = (assets.map DeliveryAsset.itemIndex).map fun index => index.getD 0 := by
        rw [List.map_map]
        rfl
    _ = (List.range' 0 assets.length).map id := by
        rw [h.numbered, List.map_map]
        rfl
    _ = List.range assets.length := by rw [List.map_id, List.range_eq_range']

theorem Sendable.distinct (h : Sendable files 0 assets) : Delivery.DistinctIndexes assets := by
  rw [Delivery.DistinctIndexes, h.normalized, h.indexes]
  exact List.nodup_range

end Assets

section Sending

variable {τ α : Type} {limit : Nat} {s : Option (MaterializedItem τ)} {c : Custody τ}

theorem keeps_asking {effect : Effect τ} {result : effect.Result → Except Error α}
    (hallows : c.allows limit effect) (hnext : ∀ response, c.next effect response = c) :
    Keeps (Custody.rules τ limit) s c (attempt effect result) (fun _ => Unmoved s c)
      (Unmoved s c) :=
  keeps_attempt hallows (fun response _ _ => ⟨rfl, hnext response⟩)
    fun response _ _ => ⟨rfl, hnext response⟩

/-- Deliveries move nothing else. -/
def Steady (s : Option (MaterializedItem τ)) (c : Custody τ) (s' : Option (MaterializedItem τ))
    (c' : Custody τ) : Prop :=
  s' = s ∧ c.During c'

theorem Steady.refl : Steady s c s c := ⟨rfl, Custody.During.refl c⟩

theorem keeps_awaitDelivery {c₀ : Custody τ} (h : c₀.During c) {effect : Delivery.Effect}
    (hallows : Records.allows c₀.Holds 2 c.records effect) :
    Keeps (Custody.rules τ limit) s c (awaitDelivery effect)
      (fun response s' c' => s' = s ∧ c₀.During c' ∧ c'.records = c.records.next effect response)
      (Steady s c₀) := by
  rw [← h.holds] at hallows
  refine keeps_attempt hallows ?_ ?_
  · intro response value hvalue
    cases response with
    | error cut => cases hvalue
    | ok response =>
      obtain rfl : response = value := Except.ok.inj hvalue
      exact ⟨rfl, h.record _, rfl⟩
  · intro response error herror
    cases response with
    | error cut => exact ⟨rfl, h⟩
    | ok response => cases herror

theorem keeps_delivering {coroutine : Delivery.Coroutine α} {Q : α → Records → Prop}
    (h : Follows (Records.rules c.Holds 2) c.records coroutine Q) :
    Keeps (Custody.rules τ limit) s c (embed awaitDelivery .store coroutine)
      (fun value s' c' => s' = s ∧ c.During c' ∧ Q value c'.records) (Steady s c) := by
  refine Keeps.embed h (Custody.During.refl c) ?_ ?_
  · exact fun c' effect hduring hallows => keeps_awaitDelivery hduring hallows
  · exact fun c' hduring => ⟨rfl, hduring⟩

variable {p : MediaPipeline} {target : DeliveryTarget} {options : DeliveryOptions}
  {request : MediaRequest} {assets : List DeliveryAsset} {media : MaterializedItem τ}
  {receipt : DeliveryReceipt}

theorem keeps_deliverMedia (hassets : Sendable c.Holds 0 assets) (h : Tried 0 c.records) :
    Keeps (Custody.rules τ limit) s c (deliverMedia p target options request assets)
      (fun receipt s' c' => s' = s ∧ c.During c' ∧
        Told (nameOf p target request) receipt c'.records ∧ Tried 1 c'.records)
      (Steady s c) := by
  have hdeliver : Follows (Records.rules c.Holds 2) c.records
      (Delivery.deliver p.delivery (some ⟨requestCacheKey p.hexdigest request⟩) p.hexdigest assets
        ⟨target.destination⟩ options.operationKey options.options)
      fun receipt r => Told (nameOf p target request) receipt r ∧ Tried 1 r := by
    refine (Delivery.records_deliver _ _ _ hassets.distinct ?_ ?_ _).mono ?_
    · rw [hassets.normalized]
      exact hassets.sources
    · exact fun key => Nat.lt_of_le_of_lt (h key) Nat.two_pos
    · intro receipt r' hdelivered
      rw [hassets.normalized] at hdelivered
      exact ⟨told_delivered (fun _ => rfl) hassets.indexes hdelivered, h.passed hdelivered.passed⟩
  exact keeps_delivering hdeliver

theorem keeps_itemOf {path : String} (hpath : c.Holds path) (index : Nat) :
    Keeps (Custody.rules τ limit) s c (itemOf media index path) (fun _ => Unmoved s c)
      (Unmoved s c) := by
  have hask : Keeps (Custody.rules τ limit) s c (attempt (.fileSize path) id)
      (fun _ => Unmoved s c) (Unmoved s c) := keeps_asking hpath fun _ => rfl
  dsimp only [itemOf]
  generalize (if media.candidate.items.length = media.paths.length then
    media.candidate.items[index]? else none) = found
  cases found with
  | some item => exact keeps_pure unmoved
  | none =>
    refine keeps_ite (fun _ => keeps_pure unmoved) fun _ => ?_
    exact hask.bind_unmoved fun _ => keeps_pure unmoved

theorem keeps_assetsFrom {paths : List String} (hpaths : ∀ path ∈ paths, c.Holds path)
    (index : Nat) :
    Keeps (Custody.rules τ limit) s c (assetsFrom media index paths)
      (fun assets s' c' => Sendable c.Holds index assets ∧ Unmoved s c s' c') (Unmoved s c) := by
  induction paths generalizing index with
  | nil => exact keeps_pure ⟨sendable_nil, unmoved⟩
  | cons path paths ih =>
    rw [List.forall_mem_cons] at hpaths
    have hsize : Keeps (Custody.rules τ limit) s c
        (if media.paths.length = 1 then pure media.sizeBytes else attempt (.fileSize path) id)
        (fun _ => Unmoved s c) (Unmoved s c) :=
      keeps_ite (fun _ => keeps_pure unmoved) fun _ => keeps_asking hpaths.1 fun _ => rfl
    refine (keeps_itemOf hpaths.1 index).bind_unmoved fun item => hsize.bind_unmoved fun size => ?_
    refine (ih hpaths.2 (index + 1)).bind ?_
    rintro assets s' c' ⟨hassets, rfl, rfl⟩
    refine keeps_pure ⟨hassets.cons rfl fun file hfile => ?_, unmoved⟩
    cases hfile
    exact hpaths.1

theorem keeps_fromMaterialized (hmedia : ∀ path ∈ media.paths, c.Holds path) :
    Keeps (Custody.rules τ limit) s c (fromMaterialized media)
      (fun assets s' c' => Sendable c.Holds 0 assets ∧ Unmoved s c s' c') (Steady s c) :=
  keeps_unmoved (keeps_assetsFrom hmedia 0) .refl

theorem nameOf_injective : Function.Injective (nameOf p target request) := by
  intro a b h
  have hkey : ∀ index, nameOf p target request index =
      durableItemKey p.hexdigest ⟨target.destination⟩ (some ⟨requestCacheKey p.hexdigest request⟩)
        none ⟨⟨"", .video⟩, none, some index, none⟩ := fun _ => rfl
  rw [hkey, hkey] at h
  exact Delivery.durableItemKey_injective p.hexdigest h

/-- What has been done when fresh media is sent: nothing, or items have failed. -/
def Begun (name : Nat → String) (r : Records) (cached : Option DeliveryReceipt) : Prop :=
  (cached = none → Tried 0 r) ∧ ∀ receipt ∈ cached,
    Told name receipt r ∧ Tried 1 r ∧ receipt.retryableItems ≠ []

/-- The receipt of a request is in the store. -/
def Reported (name : Nat → String) (receipt : DeliveryReceipt) (r : Records) : Prop :=
  Told name receipt r ∧ Tried 2 r

theorem keeps_retryAndMerge (hmedia : ∀ path ∈ media.paths, c.Holds path)
    (htold : Told (nameOf p target request) receipt c.records) (htried : Tried 1 c.records)
    (hretryable : receipt.retryableItems ≠ []) :
    Keeps (Custody.rules τ limit) s c (retryAndMerge p target options request receipt media)
      (fun merged s' c' => Steady s c s' c' ∧ Reported (nameOf p target request) merged c'.records)
      (Steady s c) := by
  refine (keeps_fromMaterialized hmedia).bind ?_
  rintro assets s' c' ⟨hassets, rfl, rfl⟩
  have hretry : Keeps (Custody.rules τ limit) s' c'
      (retryDelivery p target options request receipt assets)
      (fun retried s c => s = s' ∧ c'.During c ∧
        Reported (nameOf p target request) (mergeReceipts receipt retried) c.records)
      (Steady s' c') := by
    refine keeps_delivering
      ((Delivery.records_retryFailed _ _ _ hassets.distinct ?_ htried.lt receipt _).mono ?_)
    · rw [hassets.normalized]
      exact hassets.sources
    · intro retried r' hretried
      exact ⟨told_merged (fun _ => rfl) nameOf_injective htold hretryable hretried,
        htried.passed hretried.passed⟩
  refine hretry.bind ?_
  rintro retried s c ⟨rfl, hduring, hreported⟩
  exact keeps_pure ⟨⟨rfl, hduring⟩, hreported⟩

theorem keeps_send (hmedia : ∀ path ∈ media.paths, c.Holds path) {cached : Option DeliveryReceipt}
    (h : Begun (nameOf p target request) c.records cached) :
    Keeps (Custody.rules τ limit) s c (send p target options request cached media)
      (fun receipt s' c' => Steady s c s' c' ∧
        Reported (nameOf p target request) receipt c'.records)
      (Steady s c) := by
  cases cached with
  | some receipt =>
    obtain ⟨htold, htried, hretryable⟩ := h.2 receipt rfl
    exact keeps_retryAndMerge hmedia htold htried hretryable
  | none =>
    refine (keeps_fromMaterialized hmedia).bind ?_
    rintro assets s' c' ⟨hassets, rfl, rfl⟩
    refine (keeps_deliverMedia hassets (h.1 rfl)).bind ?_
    rintro receipt s c ⟨rfl, hduring, htold, htried⟩
    by_cases hretryable : receipt.retryableItems = []
    · simp only [hretryable, List.isEmpty_nil, if_true]
      exact keeps_pure ⟨⟨rfl, hduring⟩, htold, fun key => (htried key).trans one_le_two⟩
    · simp only [List.isEmpty_iff, hretryable, if_false]
      rw [← hduring.holds] at hmedia
      refine (keeps_retryAndMerge hmedia htold htried hretryable).mono ?_ ?_
      · exact fun _ _ _ hQ => ⟨⟨hQ.1.1, hduring.trans hQ.1.2⟩, hQ.2⟩
      · exact fun _ _ hX => ⟨hX.1, hduring.trans hX.2⟩

end Sending

section Caching

variable {τ : Type} {limit : Nat} {s : Option (MaterializedItem τ)} {c : Custody τ}
  {p : MediaPipeline} {target : DeliveryTarget} {options : DeliveryOptions} {request : MediaRequest}

theorem keeps_cachedAssets (index count : Nat) :
    Keeps (Custody.rules τ limit) s c (cachedAssets request index count)
      (fun found s' c' => (∀ assets ∈ found, Sendable c.Holds index assets) ∧ Unmoved s c s' c')
      (Unmoved s c) := by
  induction count generalizing index with
  | zero => exact keeps_pure ⟨by simpa using sendable_nil, unmoved⟩
  | succ count ih =>
    refine Keeps.bind_unmoved (keeps_asking trivial fun _ => rfl) fun cached => ?_
    split
    · exact keeps_pure ⟨by simp, unmoved⟩
    · refine (ih (index + 1)).bind ?_
      rintro found s' c' ⟨hfound, rfl, rfl⟩
      refine keeps_pure ⟨fun assets hassets => ?_, unmoved⟩
      obtain ⟨rest, hrest, rfl⟩ := Option.map_eq_some_iff.mp hassets
      exact (hfound rest hrest).cons rfl fun _ hfile => nomatch hfile

theorem keeps_lookUp :
    Keeps (Custody.rules τ limit) s c (lookUp request)
      (fun found s' c' => (∀ assets ∈ found, Sendable c.Holds 0 assets) ∧ Unmoved s c s' c')
      (Unmoved s c) := by
  have hcount : Keeps (Custody.rules τ limit) s c (attempt (.getMetadata request) id)
      (fun _ => Unmoved s c) (Unmoved s c) := keeps_asking trivial fun _ => rfl
  refine Keeps.tryCatch (X := Unmoved s c) (hcount.bind_unmoved fun metadata => ?_) ?_
  · split
    · exact keeps_pure ⟨by simp, unmoved⟩
    · exact keeps_cachedAssets 0 _
  · rintro error s' c' ⟨rfl, rfl⟩
    exact keeps_ite (fun _ => keeps_pure ⟨by simp, unmoved⟩) fun _ => keeps_raise unmoved

theorem keeps_deliverCached (h : Tried 0 c.records) :
    Keeps (Custody.rules τ limit) s c (deliverCached p target options request)
      (fun cached s' c' => Steady s c s' c' ∧ (cached = none → Tried 0 c'.records) ∧
        ∀ receipt ∈ cached, Told (nameOf p target request) receipt c'.records ∧ Tried 1 c'.records)
      (Steady s c) := by
  have hsteady : Steady s c s c := .refl
  refine keeps_ite (fun _ => ?_) fun _ => keeps_pure ⟨hsteady, fun _ => h, by simp⟩
  refine (keeps_unmoved keeps_lookUp hsteady).bind ?_
  rintro found s' c' ⟨hfound, rfl, rfl⟩
  cases found with
  | none => exact keeps_pure ⟨hsteady, fun _ => h, by simp⟩
  | some assets =>
    refine (keeps_deliverMedia (hfound assets rfl) h).bind ?_
    rintro receipt s c ⟨rfl, hduring, hreceipt⟩
    exact keeps_pure ⟨⟨rfl, hduring⟩, by simp, by simpa using hreceipt⟩

theorem keeps_throughCache {rest : Option DeliveryReceipt → Job τ DeliveryReceipt}
    {Q : DeliveryReceipt → Option (MaterializedItem τ) → Custody τ → Prop}
    {X : Option (MaterializedItem τ) → Custody τ → Prop} (h : Tried 0 c.records)
    (hrest : ∀ cached c', c.During c' → Begun (nameOf p target request) c'.records cached →
      Keeps (Custody.rules τ limit) s c' (rest cached) Q X)
    (hreported : ∀ receipt c', c.During c' →
      Reported (nameOf p target request) receipt c'.records → Q receipt s c')
    (hfailed : ∀ c', c.During c' → X s c') :
    Keeps (Custody.rules τ limit) s c (throughCache p target options request rest) Q X := by
  have hcached : Keeps (Custody.rules τ limit) s c (deliverCached p target options request)
      (fun cached s' c' => Steady s c s' c' ∧ (cached = none → Tried 0 c'.records) ∧
        ∀ receipt ∈ cached, Told (nameOf p target request) receipt c'.records ∧ Tried 1 c'.records)
      X := by
    refine (keeps_deliverCached h).mono (fun _ _ _ hQ => hQ) ?_
    rintro s' c' ⟨rfl, hduring⟩
    exact hfailed c' hduring
  refine hcached.bind ?_
  rintro cached s' c' ⟨⟨rfl, hduring⟩, hnone, hsome⟩
  cases cached with
  | none => exact hrest none c' hduring ⟨hnone, by simp⟩
  | some receipt =>
    obtain ⟨htold, htried⟩ := hsome receipt rfl
    refine keeps_ite (fun _ => ?_) fun hleft => ?_
    · exact keeps_pure
        (hreported receipt c' hduring ⟨htold, fun key => (htried key).trans one_le_two⟩)
    · have hretryable : receipt.retryableItems ≠ [] := fun hnil => hleft (by simp [hnil])
      exact hrest (some receipt) c' hduring ⟨by simp, by simp [htold, htried, hretryable]⟩

end Caching

section Contexts

variable {τ α : Type} {limit : Nat} {s : Option (MaterializedItem τ)} {c : Custody τ}

/-- What was opened since is closed again, and there is no video. -/
def Custody.Returned (c c' : Custody τ) : Prop := c'.opened = c.opened ∧ c'.Plain

theorem waited_ok {result : Except Error α} {response : Option Cut} {value : α}
    (h : waited result response = .ok value) : result = .ok value := by
  unfold waited at h
  split at h
  all_goals first
    | exact h
    | cases h

/-- A stopped renewal changes what is raised, never what is returned. -/
theorem keeps_withLeaseRenewals {operation : Job τ α}
    {Q : α → Option (MaterializedItem τ) → Custody τ → Prop}
    {X : Option (MaterializedItem τ) → Custody τ → Prop}
    (h : Keeps (Custody.rules τ limit) s c operation Q X)
    (hX : ∀ value s' c', Q value s' c' → X s' c') :
    Keeps (Custody.rules τ limit) s c (withLeaseRenewals operation) Q X := by
  refine Follows.bind h fun r c' hr => ?_
  obtain ⟨result, s'⟩ := r
  cases result with
  | ok value =>
    refine keeps_attempt trivial (fun response value' hvalue => ?_) fun _ _ _ => hX value s' c' hr
    obtain rfl : value = value' := Except.ok.inj (waited_ok hvalue)
    exact hr
  | error error =>
    exact keeps_attempt trivial (fun response value hvalue => nomatch waited_ok hvalue)
      fun _ _ _ => hr

/-- A clean-up brings every exit from `B` to `A` and adds no records. -/
theorem keeps_cleaned {x : Job τ α} {cleanup : Job τ Unit}
    {A B : Option (MaterializedItem τ) → Custody τ → Prop} {F : α → Records → Prop}
    (h : Keeps (Custody.rules τ limit) s c x (fun value s' c' => B s' c' ∧ F value c'.records) B)
    (hcleanup : ∀ s' c', B s' c' → Keeps (Custody.rules τ limit) s' c' cleanup
      (fun _ s'' c'' => A s'' c'' ∧ c''.records = c'.records) A) :
    Keeps (Custody.rules τ limit) s c (andFinally x cleanup)
      (fun value s' c' => A s' c' ∧ F value c'.records) A := by
  refine h.andFinally (fun value s' c' hQ => ?_) fun s' c' hX => ?_
  · refine (hcleanup s' c' hQ.1).mono (fun _ _ c'' hc => ⟨hc.1, ?_⟩) fun _ _ hc => hc
    rw [hc.2]
    exact hQ.2
  · exact (hcleanup s' c' hX).mono (fun _ _ _ hc => hc.1) fun _ _ hc => hc

theorem keeps_withMaterialized {request : MediaRequest} {resolved : Option (ResolvedMedia τ)}
    {body : MaterializedItem τ → Job τ α} {F : α → Records → Prop} (hopenings : c.openings < limit)
    (hplain : c.Plain)
    (hbody : ∀ item, Keeps (Custody.rules τ limit) s (c.receive item) (body item)
      (fun value _ c' => (c.receive item).Returned c' ∧ F value c'.records)
      fun _ c' => (c.receive item).Returned c') :
    Keeps (Custody.rules τ limit) s c (withMaterialized request resolved body)
      (fun value _ c' => c.Returned c' ∧ F value c'.records) fun _ c' => c.Returned c' := by
  have hopen : Keeps (Custody.rules τ limit) s c (attempt (.openMaterialized request resolved) id)
      (fun item s' c' => s' = s ∧ c' = c.receive item) fun _ c' => c.Returned c' := by
    refine keeps_attempt ⟨hopenings, hplain⟩ ?_ ?_
    · intro response item hitem
      subst hitem
      exact ⟨rfl, rfl⟩
    · intro response error herror
      subst herror
      exact ⟨rfl, hplain⟩
  refine hopen.bind ?_
  rintro item s' c' ⟨rfl, rfl⟩
  refine keeps_cleaned (hbody item) fun s c' hreturned => ?_
  have hclosed : c.Returned { c' with opened := c'.opened.tail } :=
    ⟨congrArg List.tail hreturned.1, hreturned.2⟩
  exact keeps_attempt ⟨congrArg List.head? hreturned.1, hreturned.2⟩
    (fun _ _ _ => ⟨hclosed, rfl⟩) fun _ _ _ => hclosed

end Contexts

section Slideshows

variable {τ : Type} {limit : Nat} {s : Option (MaterializedItem τ)} {c : Custody τ}
  {p : MediaPipeline} {target : DeliveryTarget} {options : DeliveryOptions} {request : MediaRequest}
  {cached : Option DeliveryReceipt} {candidateId : String} {provider : Option String}
  {opened : List (MaterializedItem τ)} {video : Option String}

/-- A conversion has left this video; what was adopted is known to the request. -/
structure Converting (opened : List (MaterializedItem τ)) (video : Option String)
    (s : Option (MaterializedItem τ)) (c : Custody τ) : Prop where
  opened : c.opened = opened
  video : c.video = video
  derived : c.derived = s

theorem Converting.steady {s' : Option (MaterializedItem τ)} {c' : Custody τ}
    (h : Converting opened video s c) (hsteady : Steady s c s' c') :
    Converting opened video s' c' := by
  obtain ⟨rfl, hduring⟩ := hsteady
  rw [hduring]
  exact ⟨h.opened, h.video, h.derived⟩

theorem keeps_adoptAndSend {path : String} {hasAudio : Bool}
    (h : Converting opened (some path) none c)
    (hbegun : Begun (nameOf p target (slideshowVideoRequest request)) c.records cached) :
    Keeps (Custody.rules τ limit) none c
      (adoptAndSend p target options request cached candidateId provider hasAudio path)
      (fun receipt s' c' => Converting opened (some path) s' c' ∧
        Reported (nameOf p target (slideshowVideoRequest request)) receipt c'.records)
      (Converting opened (some path)) := by
  have hheld : c.Holds path := .inr (.inr h.video)
  have hstat : Keeps (Custody.rules τ limit) none c (attempt (.fileSize path) id)
      (fun _ => Unmoved none c) (Converting opened (some path)) :=
    keeps_unmoved (keeps_asking hheld fun _ => rfl) h
  have hisFile : Keeps (Custody.rules τ limit) none c (attempt (.isFile path) id)
      (fun _ => Unmoved none c) (Converting opened (some path)) :=
    keeps_unmoved (keeps_asking hheld fun _ => rfl) h
  refine hisFile.bind_unmoved fun isFile => ?_
  refine Keeps.bind_unmoved (keeps_ite (fun _ => hstat) fun _ => keeps_pure unmoved) fun size => ?_
  refine keeps_ite (fun _ => keeps_raise h) fun _ => ?_
  refine hstat.bind_unmoved fun itemSize => hstat.bind_unmoved fun candidateSize => ?_
  have hadopt : ∀ candidate, Keeps (Custody.rules τ limit) none c
      (attempt (.adoptLocal (slideshowVideoRequest request) path candidate) id)
      (fun item s' c' => s' = none ∧ c' = { c with derived := some item })
      (Converting opened (some path)) := by
    intro candidate
    refine keeps_attempt ⟨h.video, h.derived⟩ ?_ ?_
    · intro response item hitem
      subst hitem
      exact ⟨rfl, rfl⟩
    · intro response error herror
      subst herror
      exact h
  refine (hadopt _).bind ?_
  rintro derived s' c' ⟨rfl, rfl⟩
  have hderived : Converting opened (some path) (some derived) { c with derived := some derived } :=
    ⟨h.opened, h.video, rfl⟩
  refine keeps_set_bind (Keeps.bind_unmoved (keeps_unmoved (keeps_asking rfl fun _ => rfl) hderived)
    fun _ => ?_)
  refine Keeps.bind_unmoved (keeps_unmoved (keeps_asking trivial fun _ => rfl) hderived) fun _ => ?_
  have hmedia : ∀ file ∈ derived.paths, { c with derived := some derived }.Holds file :=
    fun file hfile => .inr (.inl ⟨derived, rfl, hfile⟩)
  exact (keeps_send hmedia hbegun).mono (fun _ _ _ hQ => ⟨hderived.steady hQ.1, hQ.2⟩)
    fun _ _ hX => hderived.steady hX

theorem keeps_convertValidateDeliver {images : List String} {audio : Option String}
    (hplain : c.Plain) (hfiles : ∀ path ∈ images ++ audio.toList, c.Holds path)
    (hbegun : Begun (nameOf p target (slideshowVideoRequest request)) c.records cached) :
    Keeps (Custody.rules τ limit) none c
      (convertValidateDeliver p target options request cached candidateId provider images audio)
      (fun receipt s' c' => Converting c.opened none s' c' ∧
        Reported (nameOf p target (slideshowVideoRequest request)) receipt c'.records)
      (Converting c.opened none) := by
  have hconvert : Keeps (Custody.rules τ limit) none c (attempt (.convert images audio) id)
      (fun output s' c' => s' = none ∧ c' = { c with video := output.filter fun path => path ≠ "" })
      (Converting c.opened none) := by
    refine keeps_attempt ⟨hplain, hfiles⟩ ?_ ?_
    · intro response output houtput
      subst houtput
      exact ⟨rfl, rfl⟩
    · intro response error herror
      subst herror
      exact ⟨rfl, hplain.1, hplain.2⟩
  refine hconvert.bind ?_
  rintro output s' c' ⟨rfl, rfl⟩
  cases output.filter fun path => path ≠ "" with
  | none => exact keeps_raise ⟨rfl, rfl, hplain.2⟩
  | some path =>
    have hsend : Keeps (Custody.rules τ limit) none { c with video := some path }
        (adoptAndSend p target options request cached candidateId provider audio.isSome path)
        (fun receipt s' c' => Converting c.opened (some path) s' c' ∧
          Reported (nameOf p target (slideshowVideoRequest request)) receipt c'.records)
        (Converting c.opened (some path)) :=
      keeps_adoptAndSend ⟨rfl, rfl, hplain.2⟩ hbegun
    refine keeps_cleaned hsend fun s c' h => ?_
    have hunlinked : Converting c.opened none s { c' with video := none } :=
      ⟨h.opened, rfl, h.derived⟩
    exact keeps_attempt h.video (fun _ _ _ => ⟨hunlinked, rfl⟩) fun _ _ _ => hunlinked

theorem keeps_releaseDerived {c' : Custody τ} (h : Converting c.opened none s c') :
    Keeps (Custody.rules τ limit) s c' releaseDerived
      (fun _ _ c'' => c.Returned c'' ∧ c''.records = c'.records) fun _ c'' => c.Returned c'' := by
  refine keeps_get_bind ?_
  cases s with
  | none => exact keeps_pure ⟨⟨h.opened, h.video, h.derived⟩, rfl⟩
  | some item =>
    have hreleased : c.Returned { c' with derived := none } := ⟨h.opened, h.video, rfl⟩
    exact keeps_attempt ⟨h.derived, h.video⟩ (fun _ _ _ => ⟨hreleased, rfl⟩)
      fun _ _ _ => hreleased

theorem keeps_deliverSlideshow {images : List String} {audio : Option String} (hplain : c.Plain)
    (hfiles : ∀ path ∈ images ++ audio.toList, c.Holds path)
    (hbegun : Begun (nameOf p target (slideshowVideoRequest request)) c.records cached) :
    Keeps (Custody.rules τ limit) none c
      (deliverSlideshow p target options request cached candidateId provider images audio)
      (fun receipt _ c' => c.Returned c' ∧
        Reported (nameOf p target (slideshowVideoRequest request)) receipt c'.records)
      fun _ c' => c.Returned c' := by
  have hconvert : Keeps (Custody.rules τ limit) none c
      (withLeaseRenewals
        (convertValidateDeliver p target options request cached candidateId provider images audio))
      (fun receipt s' c' => Converting c.opened none s' c' ∧
        Reported (nameOf p target (slideshowVideoRequest request)) receipt c'.records)
      (Converting c.opened none) :=
    keeps_withLeaseRenewals (keeps_convertValidateDeliver hplain hfiles hbegun) fun _ _ _ hQ => hQ.1
  exact keeps_cleaned hconvert fun s c' h => keeps_releaseDerived h

end Slideshows

section Requests

variable {τ : Type} {limit : Nat} {s : Option (MaterializedItem τ)} {c : Custody τ}

/-- A request has ended: its receipt is in the store, and nothing is in hand. -/
def Finished (name : Nat → String) (receipt : DeliveryReceipt) (_ : Option (MaterializedItem τ))
    (c : Custody τ) : Prop :=
  c.Vacant ∧ Reported name receipt c.records

namespace Custody

variable {c' : Custody τ}

theorem vacant_empty : (empty : Custody τ).Vacant := ⟨rfl, rfl, rfl⟩

theorem tried_empty : Tried 0 (empty : Custody τ).records := fun _ => le_rfl

theorem Returned.vacant (h : c.Returned c') (hvacant : c.Vacant) : c'.Vacant :=
  ⟨h.1.trans hvacant.1, h.2⟩

theorem During.vacant (h : c.During c') (hvacant : c.Vacant) : c'.Vacant := by
  rw [h]
  exact hvacant

theorem During.returned (h : c.During c') (hplain : c.Plain) : c.Returned c' := by
  rw [h]
  exact ⟨rfl, hplain⟩

end Custody

open Custody (vacant_empty tried_empty)

variable (p : MediaPipeline) (target : DeliveryTarget) (options : DeliveryOptions)
  (request : MediaRequest)

theorem keeps_delivery (resolved : Option (ResolvedMedia τ)) :
    Keeps (Custody.rules τ 1) none .empty
      (throughCache p target options request fun cached =>
        withMaterialized request resolved fun media =>
          withLeaseRenewals (send p target options request cached media))
      (Finished (nameOf p target request)) fun _ c => c.Vacant := by
  refine keeps_throughCache tried_empty (fun cached c hduring hbegun => ?_)
    (fun receipt c hduring hreported => ⟨hduring.vacant vacant_empty, hreported⟩)
    fun c hduring => hduring.vacant vacant_empty
  have hvacant := hduring.vacant vacant_empty
  have hopenings : c.openings = 0 := hduring.openings
  have hfresh : Keeps (Custody.rules τ 1) none c
      (withMaterialized request resolved fun media =>
        withLeaseRenewals (send p target options request cached media))
      (fun receipt _ c' => c.Returned c' ∧ Reported (nameOf p target request) receipt c'.records)
      fun _ c' => c.Returned c' := by
    refine keeps_withMaterialized (hopenings ▸ Nat.one_pos) hvacant.2 fun item => ?_
    have hmedia : ∀ path ∈ item.paths, (c.receive item).Holds path :=
      fun path hpath => .inl ⟨item, List.mem_cons_self, hpath⟩
    refine (keeps_withLeaseRenewals (keeps_send hmedia hbegun) fun _ _ _ hQ => hQ.1).mono ?_ ?_
    · exact fun _ _ _ hQ => ⟨hQ.1.2.returned hvacant.2, hQ.2⟩
    · exact fun _ _ hX => hX.2.returned hvacant.2
  exact hfresh.mono (fun _ _ _ hQ => ⟨hQ.1.vacant hvacant, hQ.2⟩) fun _ _ hX => hX.vacant hvacant

theorem keeps_deliverRequest :
    Keeps (Custody.rules τ 1) none .empty (deliverRequest p target options request)
      (Finished (nameOf p target request)) fun _ c => c.Vacant :=
  Keeps.bind_unmoved (keeps_ofExcept (fun _ _ => unmoved) fun _ _ => vacant_empty) fun _ =>
    keeps_delivery p target options request none

theorem keeps_deliverCandidateRequest (candidate : MediaCandidate τ) :
    Keeps (Custody.rules τ 1) none .empty
      (deliverCandidateRequest p target options request candidate)
      (Finished (nameOf p target request)) fun _ c => c.Vacant :=
  Keeps.bind_unmoved (keeps_ofExcept (fun _ _ => unmoved) fun _ _ => vacant_empty) fun _ =>
    Keeps.bind_unmoved (keeps_ofExcept (fun _ _ => unmoved) fun _ _ => vacant_empty) fun _ =>
      keeps_delivery p target options request _

/-- The photos stay open while the soundtrack is opened, and both while the video is sent. -/
theorem keeps_deliverSlideshowVideoRequest (U : Unicode) :
    Keeps (Custody.rules τ 2) none .empty
      (deliverSlideshowVideoRequest U p target options request)
      (Finished (nameOf p target (slideshowVideoRequest request))) fun _ c => c.Vacant := by
  refine Keeps.bind_unmoved (keeps_ofExcept (fun _ _ => unmoved) fun _ _ => vacant_empty)
    fun _ => ?_
  refine keeps_throughCache tried_empty (fun cached c hduring hbegun => ?_)
    (fun receipt c hduring hreported => ⟨hduring.vacant vacant_empty, hreported⟩)
    fun c hduring => hduring.vacant vacant_empty
  have hvacant := hduring.vacant vacant_empty
  have hopenings : c.openings = 0 := hduring.openings
  refine Keeps.bind_unmoved (keeps_unmoved (keeps_asking trivial fun _ => rfl) hvacant)
    fun resolved => ?_
  refine Keeps.bind_unmoved (keeps_ofExcept (fun _ _ => unmoved) fun _ _ => hvacant)
    fun candidate => ?_
  refine (keeps_withMaterialized (F := Reported (nameOf p target (slideshowVideoRequest request)))
    (hopenings ▸ Nat.two_pos) hvacant.2 fun images => ?_).mono
    (fun _ _ _ hQ => ⟨hQ.1.vacant hvacant, hQ.2⟩) fun _ _ hX => hX.vacant hvacant
  have himages : ∀ path ∈ images.paths, (c.receive images).Holds path :=
    fun path hpath => .inl ⟨images, List.mem_cons_self, hpath⟩
  split
  · exact keeps_deliverSlideshow hvacant.2 (by simpa using himages) hbegun
  · have htwice : (c.receive images).openings < 2 := by
      show c.openings + 1 < 2
      omega
    refine keeps_withMaterialized htwice hvacant.2 fun soundtrack => ?_
    split
    next path hpaths =>
      refine keeps_deliverSlideshow hvacant.2 (fun file hfile => ?_) hbegun
      rcases List.mem_append.mp hfile with himage | hsound
      · exact .inl ⟨images, List.mem_cons_of_mem _ List.mem_cons_self, himage⟩
      · exact .inl ⟨soundtrack, List.mem_cons_self, hpaths ▸ hsound⟩
    next => exact keeps_raise ⟨rfl, hvacant.2⟩

/-- Inside a delivery job context every request keeps custody: it reads only what it has in hand,
gives back all of it on every exit, tries no item that may have been sent, and returns the receipt
that is in the store. -/
theorem requests_keep_custody (U : Unicode) (candidate : MediaCandidate τ) :
    Keeps (Custody.rules τ 1) none .empty (deliverRequest p target options request)
        (Finished (nameOf p target request)) (fun _ c => c.Vacant) ∧
      Keeps (Custody.rules τ 1) none .empty
        (deliverCandidateRequest p target options request candidate)
        (Finished (nameOf p target request)) (fun _ c => c.Vacant) ∧
      Keeps (Custody.rules τ 2) none .empty
        (deliverSlideshowVideoRequest U p target options request)
        (Finished (nameOf p target (slideshowVideoRequest request))) fun _ c => c.Vacant :=
  ⟨keeps_deliverRequest p target options request,
    keeps_deliverCandidateRequest p target options request candidate,
    keeps_deliverSlideshowVideoRequest p target options request U⟩

end Requests

end YtdlBot.Pipeline
