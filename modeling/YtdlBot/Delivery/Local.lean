import YtdlBot.Delivery.Deliver

/-!
# The parts of a delivery that send nothing

Preparing items, reading and writing the cache, opening sources: such parts touch neither receipts
nor the Bot API.
-/

namespace YtdlBot.Delivery

open Framework
open Framework.Program
open JobStore (DeliveryOutcome StoreError)

/-- No receipt and no Bot API call. -/
def Effect.Local : Effect → Prop
  | .getDelivery _ | .putDelivery _ | .evictDelivery _ | .stat _ | .openSource _ => True
  | _ => False

/-- The outcome is that of the asset. -/
def Reports (asset : DeliveryAsset) (item : DeliveredItem) : Prop := item.itemIndex = asset.index

/-- The outcomes are those of the assets, in order. -/
def ReportsAll (assets : List DeliveryAsset) (items : List DeliveredItem) : Prop :=
  items.map DeliveredItem.itemIndex = assets.map DeliveryAsset.index

/-- An outcome without a send. -/
def Refused (asset : DeliveryAsset) (item : DeliveredItem) : Prop :=
  Reports asset item ∧ item.status = .failed

variable (d : TelegramDelivery) (request : Option MediaRequest)

theorem within_store (item : DeliveredItem) :
    Within Effect.Local (store d request item) fun _ => True :=
  within_ite (fun _ => within_call trivial) fun _ => within_pure trivial

theorem within_evict (asset : DeliveryAsset) :
    Within Effect.Local (evict d request asset) fun _ => True :=
  within_ite (fun _ => within_call trivial) fun _ => within_pure trivial

theorem within_prepareCached (asset : DeliveryAsset) :
    Within Effect.Local (prepareCached d request asset) fun _ => True := by
  have hcall : Within Effect.Local (call (.getDelivery asset.index)) fun _ => True :=
    within_call trivial
  refine hcall.bind fun cached _ => ?_
  cases cached with
  | none => exact within_pure trivial
  | some cached =>
    refine within_ite (fun _ => within_pure trivial) fun _ => ?_
    exact (within_evict d request asset).bind fun _ _ => within_pure trivial

theorem within_assetSize (asset : DeliveryAsset) :
    Within Effect.Local (assetSize asset) fun _ => True := by
  unfold assetSize
  cases asset.sizeBytes with
  | some size => exact within_pure trivial
  | none =>
    cases asset.source with
    | none => exact within_pure trivial
    | some source =>
      cases source with
      | path path => exact within_call trivial
      | url _ | bytes _ | stream => exact within_pure trivial

theorem within_prepareUpload (asset : DeliveryAsset) :
    Within Effect.Local (prepareUpload d asset) fun result =>
      ∀ item, result = .inl item → Refused asset item := by
  refine within_ite (fun _ => within_pure fun item h => by cases h; exact ⟨rfl, rfl⟩) fun _ => ?_
  refine (within_assetSize asset).bind fun size _ => ?_
  cases size with
  | error error => exact within_pure fun item h => by cases h; exact ⟨rfl, rfl⟩
  | ok size =>
    refine within_ite (fun _ => within_pure fun item h => by cases h; exact ⟨rfl, rfl⟩) fun _ => ?_
    exact within_pure fun item h => nomatch h

theorem within_prepare (forceUpload : Bool) (asset : DeliveryAsset) :
    Within Effect.Local (prepare d request forceUpload asset) fun result =>
      ∀ item, result = .inl item → Refused asset item := by
  refine within_ite (fun _ => ?_) fun _ => within_prepareUpload d asset
  refine (within_prepareCached d request asset).bind fun cached _ => ?_
  cases cached with
  | none => exact within_prepareUpload d asset
  | some prepared => exact within_pure fun item h => nomatch h

theorem within_prepareGroup (forceUpload : Bool) (assets : List DeliveryAsset) :
    Within Effect.Local (prepareGroup d request forceUpload assets) fun result =>
      ∀ entry ∈ result.1, entry.2.itemIndex = entry.1 ∧ entry.2.status = .failed := by
  induction assets with
  | nil => exact within_pure fun _ h => nomatch h
  | cons asset assets ih =>
    refine (within_prepare d request forceUpload asset).bind fun result hresult => ?_
    refine ih.bind fun rest hrest => ?_
    cases result with
    | inl item =>
      refine within_pure fun entry hentry => ?_
      rcases List.mem_cons.mp hentry with rfl | hold
      · exact hresult item rfl
      · exact hrest entry hold
    | inr ready => exact within_pure hrest

theorem lookup_refused {failures : List (Nat × DeliveredItem)}
    (hfailures : ∀ entry ∈ failures, entry.2.itemIndex = entry.1 ∧ entry.2.status = .failed)
    (asset : DeliveryAsset) {default : DeliveredItem} (hdefault : Refused asset default) :
    Refused asset ((failures.reverse.lookup asset.index).getD default) := by
  cases hlookup : failures.reverse.lookup asset.index with
  | none => exact hdefault
  | some item =>
    obtain ⟨front, back, hsplit, -⟩ := List.lookup_eq_some_iff.mp hlookup
    have hmem : (asset.index, item) ∈ failures.reverse := by
      rw [hsplit]
      exact List.mem_append_right _ List.mem_cons_self
    exact hfailures _ (List.mem_reverse.mp hmem)

theorem within_evictGroup (prepared : List PreparedAsset) :
    Within Effect.Local (evictGroup d request prepared) fun _ => True := by
  induction prepared with
  | nil => exact within_pure trivial
  | cons item prepared ih =>
    refine Within.bind (Q := fun _ => True) ?_ fun _ _ => ih
    exact within_ite (fun _ => within_evict d request item.asset) fun _ => within_pure trivial

theorem within_openGroup (prepared : List PreparedAsset) :
    Within Effect.Local (openGroup prepared) fun _ => True := by
  induction prepared with
  | nil => exact within_pure trivial
  | cons item prepared ih =>
    have hcall : Within Effect.Local (call (.openSource item.asset)) fun _ => True :=
      within_call trivial
    refine hcall.bind fun opened _ => ?_
    cases opened with
    | error error => exact within_pure trivial
    | ok u => exact within_ite (fun _ => ih) fun _ => within_pure trivial

theorem within_groupResults (assets : List DeliveryAsset) (messages : List Message) :
    Within Effect.Local (groupResults d request assets messages) fun items =>
      ReportsAll assets items ∧ ∀ item ∈ items, durableOutcome item.status ≠ .failed := by
  induction assets generalizing messages with
  | nil => exact within_pure ⟨rfl, fun _ h => nomatch h⟩
  | cons asset assets ih =>
    have hcons : ∀ {item : DeliveredItem} {items : List DeliveredItem}, Reports asset item →
        durableOutcome item.status ≠ .failed →
          (ReportsAll assets items ∧ ∀ item ∈ items, durableOutcome item.status ≠ .failed) →
            ReportsAll (asset :: assets) (item :: items) ∧
              ∀ other ∈ item :: items, durableOutcome other.status ≠ .failed := by
      rintro item items hreports hstatus ⟨hall, hstatuses⟩
      refine ⟨List.cons_eq_cons.mpr ⟨hreports, hall⟩, fun other hother => ?_⟩
      rcases List.mem_cons.mp hother with rfl | hrest
      · exact hstatus
      · exact hstatuses other hrest
    cases messages with
    | nil =>
      exact (ih []).bind fun items hitems =>
        within_pure (hcons rfl (fun hfailed => nomatch hfailed) hitems)
    | cons message messages =>
      refine (within_store d request _).bind fun _ _ => ?_
      exact (ih messages).bind fun items hitems =>
        within_pure (hcons rfl (fun hfailed => nomatch hfailed) hitems)

theorem sendFailure_reports (asset : DeliveryAsset) (result : SendResult) :
    Reports asset (sendFailure asset result) := by
  cases result <;> rfl

theorem sendFailure_outcome (asset : DeliveryAsset) {result : SendResult}
    (h : ∀ messages, result ≠ .sent messages) :
    durableOutcome (sendFailure asset result).status = .failed ↔ result.rejected = true := by
  cases result with
  | sent messages => exact absurd rfl (h messages)
  | retryAfter error => exact ⟨fun _ => rfl, fun _ => rfl⟩
  | badRequest error => exact ⟨fun _ => rfl, fun _ => rfl⟩
  | networkError error =>
    constructor
    · intro hfailed
      cases hfailed
    · intro hrejected
      cases hrejected
  | otherError error => exact ⟨fun _ => rfl, fun _ => rfl⟩

theorem within_finishOne (asset : DeliveryAsset) (result : SendResult) :
    Within Effect.Local (finishOne d request asset result) fun item =>
      Reports asset item ∧ (durableOutcome item.status = .failed ↔ result.rejected = true) := by
  cases result with
  | sent messages =>
    refine (within_store d request _).bind fun _ _ => within_pure ⟨rfl, ?_⟩
    constructor
    · intro hfailed
      cases hfailed
    · intro hrejected
      cases hrejected
  | retryAfter error | badRequest error | networkError error | otherError error =>
    exact within_pure ⟨sendFailure_reports asset _, sendFailure_outcome asset (by simp)⟩

end YtdlBot.Delivery
