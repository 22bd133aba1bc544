import Mathlib.Data.List.Nodup
import YtdlBot.Delivery.Local

/-!
# Receipts of a delivery

A delivery returns one outcome for each asset, in the order of the assets. `_merge_receipts` puts
the outcomes of a retry in the places of the failed items.
-/

namespace YtdlBot.Delivery

open Framework
open Framework.Program
open JobStore (DeliveryOutcome StoreError)

section Items

variable (d : TelegramDelivery) (request : Option MediaRequest) (keyOf : DeliveryAsset → String)

theorem returns_send (itemKeys : List String) (method : String) (options : SendOptions) :
    Returns (send itemKeys method options) fun _ => True :=
  (within_call trivial).bind fun _ _ => within_call trivial

theorem returns_sendSingle (itemKey : String) (prepared : PreparedAsset) (options : SendOptions) :
    Returns (sendSingle itemKey prepared options) fun _ => True := by
  unfold sendSingle
  cases sendMethod prepared.asset.item.kind with
  | none => exact within_pure trivial
  | some method =>
    have hopen : Returns (call (.openSource prepared.asset)) fun _ => True := within_call trivial
    refine hopen.bind fun opened _ => ?_
    cases opened with
    | error error => exact within_pure trivial
    | ok u => exact returns_send _ _ _

theorem returns_deliverOne (asset : DeliveryAsset) (options : SendOptions) :
    Returns (deliverOne d request keyOf asset options) (Reports asset) := by
  refine (within_prepare d request false asset).returns.bind fun prepared hprepared => ?_
  cases prepared with
  | inl item => exact within_pure (hprepared item rfl).1
  | inr prepared =>
    refine (returns_sendSingle _ _ _).bind fun result _ => ?_
    have hfinish : ∀ result, Returns (finishOne d request asset result) (Reports asset) :=
      fun result => (within_finishOne d request asset result).returns.mono fun _ h => h.1
    cases result with
    | badRequest error =>
      refine within_ite (fun _ => ?_) fun _ => within_pure rfl
      refine (within_evict d request asset).returns.bind fun _ _ => ?_
      refine (within_prepare d request true asset).returns.bind fun upload hupload => ?_
      cases upload with
      | inl item => exact within_pure (hupload item rfl).1
      | inr upload => exact (returns_sendSingle _ _ _).bind fun result _ => hfinish result
    | sent messages => exact hfinish (.sent messages)
    | retryAfter error => exact hfinish (.retryAfter error)
    | networkError error => exact hfinish (.networkError error)
    | otherError error => exact hfinish (.otherError error)

theorem reportsAll_map {assets : List DeliveryAsset} {outcome : DeliveryAsset → DeliveredItem}
    (h : ∀ asset, Reports asset (outcome asset)) : ReportsAll assets (assets.map outcome) := by
  rw [ReportsAll, List.map_map]
  exact List.map_congr_left fun asset _ => h asset

theorem returns_sendGroup (itemKeys : List String) (prepared : List PreparedAsset)
    (options : SendOptions) : Returns (sendGroup itemKeys prepared options) fun _ => True := by
  refine (within_openGroup prepared).returns.bind fun opened _ => ?_
  cases opened with
  | some error => exact within_pure trivial
  | none => exact returns_send _ _ _

theorem returns_deliverGroupRound (assets : List DeliveryAsset) (options : SendOptions)
    (forceUpload : Bool) {again : Coroutine (List DeliveredItem)}
    (hagain : forceUpload = false → Returns again (ReportsAll assets)) :
    Returns (deliverGroupRound d request keyOf assets options forceUpload again)
      (ReportsAll assets) := by
  refine (within_prepareGroup d request forceUpload assets).returns.bind fun ready hready => ?_
  refine within_ite (fun _ => within_pure ?_) fun _ => ?_
  · refine reportsAll_map fun asset => ?_
    have hdefault : Refused asset (failure asset .failed "album contains an unavailable item"
        "album_incomplete") := ⟨rfl, rfl⟩
    exact (lookup_refused hready asset hdefault).1
  · refine (returns_sendGroup _ _ _).bind fun result _ => ?_
    have hfailed : ReportsAll assets (assets.map fun asset => sendFailure asset result) :=
      reportsAll_map fun asset => sendFailure_reports asset result
    cases result with
    | sent messages =>
      exact (within_groupResults d request assets messages).returns.mono fun _ h => h.1
    | badRequest error =>
      refine within_ite (fun hagain' => ?_) fun _ => within_pure hfailed
      refine (within_evictGroup d request _).returns.bind fun _ _ => hagain ?_
      cases forceUpload with
      | false => rfl
      | true => cases hagain'
    | retryAfter error | networkError error | otherError error => exact within_pure hfailed

theorem returns_deliverUnit (unit : List DeliveryAsset) (options : SendOptions) :
    Returns (deliverUnit d request keyOf unit options) (ReportsAll unit) := by
  have hgroup : Returns (deliverGroup d request keyOf unit options) (ReportsAll unit) :=
    returns_deliverGroupRound d request keyOf unit options false fun _ =>
      returns_deliverGroupRound d request keyOf unit options true fun h => nomatch h
  match unit with
  | [] => exact hgroup
  | [asset] =>
    refine (returns_deliverOne d request keyOf asset options).bind fun item hitem => within_pure ?_
    exact List.cons_eq_cons.mpr ⟨hitem, rfl⟩
  | first :: second :: rest => exact hgroup

end Items

/-- Anything but a Bot API call. -/
def Effect.Unsent : Effect → Prop
  | .startSend _ _ _ | .finishSend _ => False
  | _ => True

section Results

variable (d : TelegramDelivery) (request : Option MediaRequest) (keyOf : DeliveryAsset → String)

/-- Every entry has the outcome of an asset under its key. -/
def Recorded (results : Results) : Prop :=
  ∀ entry ∈ results, ∃ asset, keyOf asset = entry.1 ∧ Reports asset entry.2

/-- The asset has an outcome. -/
def HasOutcome (results : Results) (asset : DeliveryAsset) : Prop :=
  ∃ item, (keyOf asset, item) ∈ results

theorem Recorded.cons {results : Results} (h : Recorded keyOf results) {asset : DeliveryAsset}
    {item : DeliveredItem} (hitem : Reports asset item) :
    Recorded keyOf ((keyOf asset, item) :: results) := by
  intro entry hentry
  rcases List.mem_cons.mp hentry with rfl | hold
  · exact ⟨asset, rfl, hitem⟩
  · exact h entry hold

theorem within_beginCurrentDelivery (itemKeys : List String) :
    Within Effect.Unsent (beginCurrentDelivery itemKeys) fun _ => True :=
  (within_attempt trivial).bind fun _ _ =>
    within_ite (fun _ => within_pure trivial) fun _ => within_raise

theorem within_recordCurrentDelivery (itemKey : String) (outcome : DeliveryOutcome)
    (deliveryId : Option String) :
    Within Effect.Unsent (recordCurrentDelivery itemKey outcome deliveryId) fun _ => True :=
  (within_attempt trivial).bind fun _ _ =>
    within_ite (fun _ => within_pure trivial) fun _ => within_raise

theorem within_recordUnit {unit : List DeliveryAsset} {items : List DeliveredItem}
    (hreports : ReportsAll unit items) {results : Results} (h : Recorded keyOf results) :
    Within Effect.Unsent (recordUnit keyOf (unit.zip items) results) fun results' =>
      Recorded keyOf results' ∧ results ⊆ results' ∧ ∀ asset ∈ unit, HasOutcome keyOf results' asset := by
  induction unit generalizing items results with
  | nil => exact within_pure ⟨h, List.Subset.refl _, fun _ hasset => nomatch hasset⟩
  | cons asset unit ih =>
    cases items with
    | nil => cases hreports
    | cons item items =>
      obtain ⟨hitem, hrest⟩ := List.cons_eq_cons.mp hreports
      refine (within_recordCurrentDelivery _ _ _).bind fun _ _ => (ih hrest (h.cons keyOf hitem)).mono ?_
      rintro results' ⟨hrecorded, hsubset, houtcomes⟩
      refine ⟨hrecorded, fun entry hentry => hsubset (List.mem_cons_of_mem _ hentry), ?_⟩
      intro other hother
      rcases List.mem_cons.mp hother with rfl | hmem
      · exact ⟨item, hsubset List.mem_cons_self⟩
      · exact houtcomes other hmem

theorem returns_deliverUnits (options : SendOptions) (unitIndex : Nat)
    (units : List (List DeliveryAsset)) {results : Results} (h : Recorded keyOf results) :
    Returns (deliverUnits d request keyOf options unitIndex units results) fun results' =>
      Recorded keyOf results' ∧ results ⊆ results' ∧
        ∀ asset ∈ units.flatten, HasOutcome keyOf results' asset := by
  induction units generalizing unitIndex results with
  | nil => exact within_pure ⟨h, List.Subset.refl _, fun _ hasset => nomatch hasset⟩
  | cons unit units ih =>
    refine (within_beginCurrentDelivery _).returns.bind fun _ _ => ?_
    refine (returns_deliverUnit d request keyOf unit _).bind fun items hitems => ?_
    refine (within_recordUnit keyOf hitems h).returns.bind fun results₁ hunit => ?_
    obtain ⟨hrecorded, hsubset, houtcomes⟩ := hunit
    refine (ih (unitIndex + 1) hrecorded).mono ?_
    rintro results₂ ⟨hrecorded₂, hsubset₂, houtcomes₂⟩
    refine ⟨hrecorded₂, fun entry hentry => hsubset₂ (hsubset hentry), fun asset hasset => ?_⟩
    rw [List.flatten_cons] at hasset
    rcases List.mem_append.mp hasset with hin | hrest
    · obtain ⟨item, hitem⟩ := houtcomes asset hin
      exact ⟨item, hsubset₂ hitem⟩
    · exact houtcomes₂ asset hrest

theorem within_priorOutcomes (assets : List DeliveryAsset) {results : Results}
    (h : Recorded keyOf results) :
    Within Effect.Unsent (priorOutcomes keyOf assets results) fun prior =>
      Recorded keyOf prior.1 ∧ results ⊆ prior.1 ∧
        ∀ asset ∈ assets, asset ∈ prior.2 ∨ HasOutcome keyOf prior.1 asset := by
  induction assets generalizing results with
  | nil => exact within_pure ⟨h, List.Subset.refl _, by simp⟩
  | cons asset assets ih =>
    have hskip : ∀ item, Reports asset item →
        Within Effect.Unsent (priorOutcomes keyOf assets ((keyOf asset, item) :: results)) fun prior =>
          Recorded keyOf prior.1 ∧ results ⊆ prior.1 ∧
            ∀ other ∈ asset :: assets, other ∈ prior.2 ∨ HasOutcome keyOf prior.1 other := by
      intro item hitem
      refine (ih (h.cons keyOf hitem)).mono ?_
      rintro prior ⟨hrecorded, hsubset, houtcomes⟩
      refine ⟨hrecorded, fun entry hentry => hsubset (List.mem_cons_of_mem _ hentry), ?_⟩
      intro other hother
      rcases List.mem_cons.mp hother with rfl | hmem
      · exact .inr ⟨item, hsubset List.mem_cons_self⟩
      · exact houtcomes other hmem
    have htake : Within Effect.Unsent (priorOutcomes keyOf assets results >>= fun prior =>
        Pure.pure (prior.1, asset :: prior.2)) fun prior =>
          Recorded keyOf prior.1 ∧ results ⊆ prior.1 ∧
            ∀ other ∈ asset :: assets, other ∈ prior.2 ∨ HasOutcome keyOf prior.1 other := by
      refine (ih h).bind fun prior hprior => within_pure ⟨hprior.1, hprior.2.1, ?_⟩
      intro other hother
      rcases List.mem_cons.mp hother with rfl | hmem
      · exact .inl List.mem_cons_self
      · exact (hprior.2.2 other hmem).imp_left (List.mem_cons_of_mem _)
    have hread : Within Effect.Unsent (raises (.deliveryOutcome (keyOf asset)) id) fun _ => True :=
      within_attempt trivial
    refine hread.bind fun prior _ => ?_
    cases prior with
    | none => exact htake
    | some outcome =>
      cases outcome with
      | success => exact hskip _ rfl
      | failed => exact htake
      | uncertain => exact hskip _ rfl

theorem reportsAll_of_results (sha256 : String → String) {target : DeliveryTarget}
    {operationKey : Option String} {assets : List DeliveryAsset} {results : Results}
    (hrecorded : Recorded (durableItemKey sha256 target request operationKey) results)
    (houtcomes : ∀ asset ∈ assets,
      HasOutcome (durableItemKey sha256 target request operationKey) results asset) :
    ReportsAll assets (assets.filterMap fun asset =>
      results.lookup (durableItemKey sha256 target request operationKey asset)) := by
  induction assets with
  | nil => rfl
  | cons asset assets ih =>
    obtain ⟨item, hitem⟩ := houtcomes asset List.mem_cons_self
    have hrest := ih fun other hother => houtcomes other (List.mem_cons_of_mem _ hother)
    cases hlookup : results.lookup (durableItemKey sha256 target request operationKey asset) with
    | none =>
      have hne := List.lookup_eq_none_iff.mp hlookup _ hitem
      rw [bne_self_eq_false] at hne
      cases hne
    | some found =>
      obtain ⟨front, back, hsplit, -⟩ := List.lookup_eq_some_iff.mp hlookup
      have hmem : (durableItemKey sha256 target request operationKey asset, found) ∈ results := by
        rw [hsplit]
        exact List.mem_append_right _ List.mem_cons_self
      obtain ⟨other, hkey, hreports⟩ := hrecorded _ hmem
      simp only [List.filterMap_cons, hlookup]
      refine List.cons_eq_cons.mpr ⟨?_, hrest⟩
      exact hreports.trans (durableItemKey_injective sha256 hkey)

theorem returns_deliver (sha256 : String → String) (media : List DeliveryAsset)
    (target : DeliveryTarget) (operationKey : Option String) (options : SendOptions) :
    Returns (deliver d request sha256 media target operationKey options) fun receipt =>
      receipt.target = target ∧ ReportsAll (normalizeAssets media) receipt.items := by
  unfold deliver
  refine within_ite (fun hnil => within_pure ⟨rfl, ?_⟩) fun _ => ?_
  · rw [hnil]
    rfl
  · have hnil : Recorded (durableItemKey sha256 target request operationKey) [] :=
      fun _ h => nomatch h
    refine (within_priorOutcomes _ _ hnil).returns.bind fun prior hprior => ?_
    obtain ⟨hrecorded, -, houtcomes⟩ := hprior
    refine (returns_deliverUnits d request _ options 0 _ hrecorded).bind fun results hresults => ?_
    obtain ⟨hrecorded', hsubset, hunits⟩ := hresults
    refine within_pure ⟨rfl, reportsAll_of_results request sha256 hrecorded' fun asset hasset => ?_⟩
    rcases houtcomes asset hasset with hpending | ⟨item, hitem⟩
    · exact hunits asset (by rw [deliveryUnits_flatten]; exact hpending)
    · exact ⟨item, hsubset hitem⟩

/-- A retry reports the failed items among its assets, and nothing else. -/
theorem returns_retryFailed (sha256 : String → String) (receipt : DeliveryReceipt)
    (media : List DeliveryAsset) (target : DeliveryTarget) (operationKey : Option String)
    (options : SendOptions) :
    Returns (retryFailed d request sha256 receipt media target operationKey options) fun retried =>
      ∀ index, index ∈ retried.items.map DeliveredItem.itemIndex ↔
        index ∈ (normalizeAssets media).map DeliveryAsset.index ∧
          index ∈ receipt.retryableItems.map DeliveredItem.itemIndex := by
  refine (returns_deliver d request sha256 _ target operationKey options).mono ?_
  rintro retried ⟨-, hitems⟩ index
  rw [normalizeAssets_filter, ReportsAll] at hitems
  rw [hitems, List.mem_map, List.mem_map]
  constructor
  · rintro ⟨asset, hasset, rfl⟩
    obtain ⟨hmem, hfailed⟩ := List.mem_filter.mp hasset
    exact ⟨⟨asset, hmem, rfl⟩, of_decide_eq_true hfailed⟩
  · rintro ⟨⟨asset, hmem, rfl⟩, hfailed⟩
    exact ⟨asset, List.mem_filter.mpr ⟨hmem, decide_eq_true hfailed⟩, rfl⟩

end Results

section Merge

def DeliveredItem.success (item : DeliveredItem) : Bool :=
  item.status = .success || item.status = .delivered

/-- `replacements.get(item.item_index, item)`: a later outcome overwrites an earlier one. -/
def replacement (retried : DeliveryReceipt) (item : DeliveredItem) : DeliveredItem :=
  (retried.items.reverse.find? fun other => other.itemIndex = item.itemIndex).getD item

def mergeReceipts (original retried : DeliveryReceipt) : DeliveryReceipt :=
  let items := original.items.map (replacement retried)
  let status :=
    if items ≠ [] ∧ items.all DeliveredItem.success then DeliveryStatus.success
    else if items ≠ [] ∧ items.all fun item => item.status = .uncertain then .uncertain
    else if items ≠ [] ∧ items.all fun item => item.status = .failed then .failed
    else .partially
  ⟨original.target, items, status⟩

/-- Retry and merge, again and again. -/
def retryRounds (d : TelegramDelivery) (request : Option MediaRequest) (sha256 : String → String)
    (target : DeliveryTarget) (operationKey : Option String) (options : SendOptions) :
    DeliveryReceipt → List (List DeliveryAsset) → Coroutine DeliveryReceipt
  | receipt, [] => Pure.pure receipt
  | receipt, media :: rounds =>
    retryFailed d request sha256 receipt media target operationKey options >>= fun retried =>
      retryRounds d request sha256 target operationKey options (mergeReceipts receipt retried) rounds

theorem replacement_index (retried : DeliveryReceipt) (item : DeliveredItem) :
    (replacement retried item).itemIndex = item.itemIndex := by
  unfold replacement
  cases hfind : retried.items.reverse.find? fun other => other.itemIndex = item.itemIndex with
  | none => rfl
  | some other =>
    have hindex := List.find?_some hfind
    exact of_decide_eq_true hindex

theorem replacement_kept {retried : DeliveryReceipt} {item : DeliveredItem}
    (h : item.itemIndex ∉ retried.items.map DeliveredItem.itemIndex) :
    replacement retried item = item := by
  have hnone : (retried.items.reverse.find? fun other => other.itemIndex = item.itemIndex) = none := by
    refine List.find?_eq_none.mpr fun other hother heq => ?_
    exact h (List.mem_map.mpr ⟨other, List.mem_reverse.mp hother, of_decide_eq_true heq⟩)
  rw [replacement, hnone]
  rfl

/-- The last outcome of the item. -/
def LastOutcome (retried : DeliveryReceipt) (index : Nat) (outcome : DeliveredItem) : Prop :=
  ∃ before after, retried.items = before ++ outcome :: after ∧ outcome.itemIndex = index ∧
    ∀ later ∈ after, later.itemIndex ≠ index

theorem replacement_last {retried : DeliveryReceipt} {item : DeliveredItem}
    (h : item.itemIndex ∈ retried.items.map DeliveredItem.itemIndex) :
    LastOutcome retried item.itemIndex (replacement retried item) := by
  unfold replacement
  cases hfind : retried.items.reverse.find? fun other => other.itemIndex = item.itemIndex with
  | none =>
    obtain ⟨other, hother, heq⟩ := List.mem_map.mp h
    have hne := List.find?_eq_none.mp hfind other (List.mem_reverse.mpr hother)
    exact absurd (decide_eq_true heq) hne
  | some outcome =>
    obtain ⟨hindex, later, earlier, hsplit, hlater⟩ := List.find?_eq_some_iff_append.mp hfind
    refine ⟨earlier.reverse, later.reverse, ?_, of_decide_eq_true hindex, fun other hother heq => ?_⟩
    · rw [← List.reverse_reverse retried.items, hsplit, List.reverse_append, List.reverse_cons,
        List.append_assoc, List.singleton_append, Option.getD_some]
    · have hne := hlater other (List.mem_reverse.mp hother)
      rw [decide_eq_true heq] at hne
      cases hne

theorem mergeReceipts_status {original retried : DeliveryReceipt}
    (h : (mergeReceipts original retried).items ≠ []) :
    (mergeReceipts original retried).status =
      aggregateStatus (mergeReceipts original retried).items := by
  have hstatus : ∀ items : List DeliveredItem, items ≠ [] →
      (if items ≠ [] ∧ items.all DeliveredItem.success then DeliveryStatus.success
        else if items ≠ [] ∧ items.all fun item => item.status = .uncertain then .uncertain
        else if items ≠ [] ∧ items.all fun item => item.status = .failed then .failed
        else .partially) = aggregateStatus items := by
    intro items hne
    unfold aggregateStatus
    rw [if_neg hne]
    simp only [hne, ne_eq, not_false_eq_true, true_and]
    by_cases hsuccess : items.all DeliveredItem.success = true
    · rw [if_pos hsuccess]
      exact (if_pos hsuccess).symm
    · rw [if_neg hsuccess]
      refine Eq.trans ?_ (if_neg hsuccess).symm
      by_cases huncertain : (items.all fun item => decide (item.status = .uncertain)) = true
      · -- The tests come in the other order; an item does not have both.
        have hfailed : ¬ (items.all fun item => decide (item.status = .failed)) = true := by
          intro hfailed
          obtain ⟨item, hitem⟩ := List.exists_mem_of_ne_nil items hne
          have hu := of_decide_eq_true (List.all_eq_true.mp huncertain item hitem)
          have hf := of_decide_eq_true (List.all_eq_true.mp hfailed item hitem)
          rw [hu] at hf
          cases hf
        rw [if_pos huncertain, if_neg hfailed, if_pos huncertain]
      · rw [if_neg huncertain]
        by_cases hfailed : (items.all fun item => decide (item.status = .failed)) = true
        · rw [if_pos hfailed, if_pos hfailed]
        · rw [if_neg hfailed, if_neg hfailed, if_neg huncertain]
  exact hstatus _ h

/-- The item failed and one of the assets is its. -/
def Retried (media : List DeliveryAsset) (item : DeliveredItem) : Prop :=
  item.status = .failed ∧ item.itemIndex ∈ (normalizeAssets media).map DeliveryAsset.index

/-- A retried receipt merged into the original one. -/
structure Merged (receipt : DeliveryReceipt) (media : List DeliveryAsset)
    (retried merged : DeliveryReceipt) : Prop where
  target : merged.target = receipt.target
  order : merged.items.map DeliveredItem.itemIndex = receipt.items.map DeliveredItem.itemIndex
  kept : ∀ (position : Nat) item, receipt.items[position]? = some item → ¬ Retried media item →
    merged.items[position]? = some item
  replaced : ∀ (position : Nat) item, receipt.items[position]? = some item → Retried media item →
    ∃ outcome, merged.items[position]? = some outcome ∧ LastOutcome retried item.itemIndex outcome
  status : merged.items ≠ [] → merged.status = aggregateStatus merged.items

/-- The items that did not fail are where they were. -/
structure Settled (receipt merged : DeliveryReceipt) : Prop where
  target : merged.target = receipt.target
  order : merged.items.map DeliveredItem.itemIndex = receipt.items.map DeliveredItem.itemIndex
  kept : ∀ (position : Nat) item, receipt.items[position]? = some item → item.status ≠ .failed →
    merged.items[position]? = some item

theorem retryable_iff {receipt : DeliveryReceipt}
    (hdistinct : (receipt.items.map DeliveredItem.itemIndex).Nodup) {item : DeliveredItem}
    (hitem : item ∈ receipt.items) :
    item.itemIndex ∈ receipt.retryableItems.map DeliveredItem.itemIndex ↔ item.status = .failed := by
  constructor
  · intro h
    obtain ⟨other, hother, heq⟩ := List.mem_map.mp h
    obtain ⟨hmem, hfailed⟩ := List.mem_filter.mp hother
    obtain rfl := List.inj_on_of_nodup_map hdistinct hmem hitem heq
    exact of_decide_eq_true hfailed
  · intro h
    exact List.mem_map.mpr ⟨item, List.mem_filter.mpr ⟨hitem, decide_eq_true h⟩, rfl⟩

theorem mergeReceipts_merged {receipt retried : DeliveryReceipt} {media : List DeliveryAsset}
    (hdistinct : (receipt.items.map DeliveredItem.itemIndex).Nodup)
    (h : ∀ index, index ∈ retried.items.map DeliveredItem.itemIndex ↔
      index ∈ (normalizeAssets media).map DeliveryAsset.index ∧
        index ∈ receipt.retryableItems.map DeliveredItem.itemIndex) :
    Merged receipt media retried (mergeReceipts receipt retried) := by
  have hposition : ∀ (position : Nat) item, receipt.items[position]? = some item →
      (mergeReceipts receipt retried).items[position]? = some (replacement retried item) := by
    intro position item hitem
    rw [mergeReceipts, List.getElem?_map, hitem, Option.map_some]
  have hretried : ∀ item ∈ receipt.items,
      item.itemIndex ∈ retried.items.map DeliveredItem.itemIndex ↔ Retried media item := by
    intro item hitem
    rw [h, retryable_iff hdistinct hitem]
    exact and_comm
  refine ⟨rfl, ?_, ?_, ?_, mergeReceipts_status⟩
  · rw [mergeReceipts, List.map_map]
    exact List.map_congr_left fun item _ => replacement_index retried item
  · intro position item hitem hnot
    have hmem := List.mem_of_getElem? hitem
    rw [hposition position item hitem, replacement_kept fun hin => hnot ((hretried item hmem).mp hin)]
  · intro position item hitem hyes
    have hmem := List.mem_of_getElem? hitem
    exact ⟨_, hposition position item hitem, replacement_last ((hretried item hmem).mpr hyes)⟩

theorem Settled.refl (receipt : DeliveryReceipt) : Settled receipt receipt :=
  ⟨rfl, rfl, fun _ _ h _ => h⟩

theorem Settled.trans {receipt middle merged : DeliveryReceipt} (h : Settled receipt middle)
    (h' : Settled middle merged) : Settled receipt merged :=
  ⟨h'.target.trans h.target, h'.order.trans h.order, fun position item hitem hne =>
    h'.kept position item (h.kept position item hitem hne) hne⟩

theorem Merged.settled {receipt retried merged : DeliveryReceipt} {media : List DeliveryAsset}
    (h : Merged receipt media retried merged) : Settled receipt merged :=
  ⟨h.target, h.order, fun position item hitem hne =>
    h.kept position item hitem fun hretried => hne hretried.1⟩

variable (d : TelegramDelivery) (request : Option MediaRequest) (sha256 : String → String)
  (target : DeliveryTarget) (operationKey : Option String) (options : SendOptions)

theorem returns_merged {receipt : DeliveryReceipt}
    (hdistinct : (receipt.items.map DeliveredItem.itemIndex).Nodup) (media : List DeliveryAsset) :
    Returns (retryFailed d request sha256 receipt media target operationKey options) fun retried =>
      Merged receipt media retried (mergeReceipts receipt retried) :=
  (returns_retryFailed d request sha256 receipt media target operationKey options).mono
    fun _ h => mergeReceipts_merged hdistinct h

theorem returns_retryRounds {receipt : DeliveryReceipt}
    (hdistinct : (receipt.items.map DeliveredItem.itemIndex).Nodup)
    (rounds : List (List DeliveryAsset)) :
    Returns (retryRounds d request sha256 target operationKey options receipt rounds)
      (Settled receipt) := by
  induction rounds generalizing receipt with
  | nil => exact within_pure (Settled.refl receipt)
  | cons media rounds ih =>
    refine (returns_merged d request sha256 target operationKey options hdistinct media).bind ?_
    intro retried hmerged
    have hdistinct' : ((mergeReceipts receipt retried).items.map DeliveredItem.itemIndex).Nodup := by
      rw [hmerged.order]
      exact hdistinct
    exact (ih hdistinct').mono fun merged hsettled => hmerged.settled.trans hsettled

/-- What a retry of some assets reports replaces the failed items among them, and nothing else;
retries in a row leave every other item alone. -/
theorem mergeReceipts_faithful (receipt : DeliveryReceipt)
    (hdistinct : (receipt.items.map DeliveredItem.itemIndex).Nodup) :
    (∀ media, Returns (retryFailed d request sha256 receipt media target operationKey options)
      fun retried => Merged receipt media retried (mergeReceipts receipt retried)) ∧
    ∀ rounds, Returns (retryRounds d request sha256 target operationKey options receipt rounds)
      (Settled receipt) :=
  ⟨returns_merged d request sha256 target operationKey options hdistinct,
    returns_retryRounds d request sha256 target operationKey options hdistinct⟩

def partialReceipt : DeliveryReceipt where
  target := ⟨"100"⟩
  items := [success ⟨⟨"a", .photo⟩, none, some 0, none⟩ ⟨some 7, none, none⟩,
    failure ⟨⟨"b", .photo⟩, none, some 1, none⟩ .failed "flood" "rate_limited"]
  status := .partially

/-- Witness: the second photo of a half delivered pair. -/
theorem mergeReceipts_faithful_partial :
    (∀ media, Returns (retryFailed ⟨false, none, true, 2000, 50⟩ none id partialReceipt media
        ⟨"100"⟩ none ⟨"c", none, none⟩)
      fun retried => Merged partialReceipt media retried (mergeReceipts partialReceipt retried)) ∧
    ∀ rounds, Returns (retryRounds ⟨false, none, true, 2000, 50⟩ none id ⟨"100"⟩ none
      ⟨"c", none, none⟩ partialReceipt rounds) (Settled partialReceipt) :=
  mergeReceipts_faithful _ _ _ _ _ _ partialReceipt (by decide)

end Merge

end YtdlBot.Delivery
