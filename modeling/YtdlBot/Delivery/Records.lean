import Mathlib.Logic.Function.Basic
import YtdlBot.Delivery.Discipline
import YtdlBot.Delivery.Receipts
import YtdlBot.Framework.Phases

/-!
# What a delivery records

A delivery reserves and sends only items of which the store does not say that they may have been
sent, opens only the files of its assets, and returns what it has recorded.
-/

namespace YtdlBot.Delivery

open Framework
open Framework.Program
open JobStore (DeliveryOutcome StoreError)

/-- What the store was last heard to say of each receipt name, and how often it was reserved. -/
structure Records where
  recorded : String → Option DeliveryOutcome
  attempts : String → Nat

namespace Records

def initial : Records := ⟨fun _ => none, fun _ => 0⟩

/-- Nothing was sent, as far as is known. -/
def Unsent (r : Records) (key : String) : Prop :=
  r.recorded key = none ∨ r.recorded key = some .failed

/-- The item may be tried once more. -/
def Ready (r : Records) (limit : Nat) (key : String) : Prop :=
  r.Unsent key ∧ r.attempts key < limit

def record (r : Records) (key : String) (outcome : Option DeliveryOutcome) : Records :=
  { r with recorded := Function.update r.recorded key outcome }

def reserve (r : Records) (keys : List String) : Records :=
  { r with attempts := fun key => r.attempts key + if key ∈ keys then 1 else 0 }

def allows (files : String → Prop) (limit : Nat) (r : Records) : Effect → Prop
  | .beginDeliveryAttempts keys => ∀ key ∈ keys, r.Ready limit key
  | .startSend keys _ _ => ∀ key ∈ keys, r.Unsent key
  | .stat path => files path
  | .openSource asset => ∀ path, asset.source = some (.path path) → files path
  | _ => True

def next (r : Records) : (effect : Effect) → effect.Response → Records
  | .deliveryOutcome key, response =>
    match response with
    | .ok outcome => r.record key outcome
    | .error _ => r
  | .beginDeliveryAttempts keys, response =>
    match response with
    | .ok true => r.reserve keys
    | _ => r
  | .finalizeDeliveryAttempt key outcome _, response =>
    match response with
    | .ok true => r.record key (some outcome)
    | _ => r
  | _, _ => r

/-- Only these files are read, and an item is tried so many times. -/
def rules (files : String → Prop) (limit : Nat) : Protocol Effect Effect.Response Records :=
  ⟨allows files limit, next⟩

variable {r : Records} {key : String}

theorem record_self (outcome : Option DeliveryOutcome) :
    (r.record key outcome).recorded key = outcome :=
  Function.update_self _ _ _

theorem record_of_ne {key' : String} (outcome : Option DeliveryOutcome) (h : key' ≠ key) :
    (r.record key outcome).recorded key' = r.recorded key' :=
  Function.update_of_ne h _ _

end Records

section Handling

/-- What the delivery of a unit does: it reads these files and sends items with these names. -/
def Effect.Handles (files : String → Prop) (keys : List String) : Effect → Prop
  | .getDelivery _ | .putDelivery _ | .evictDelivery _ | .finishSend _ => True
  | .stat path => files path
  | .openSource asset => ∀ path, asset.source = some (.path path) → files path
  | .startSend itemKeys _ _ => itemKeys ⊆ keys
  | _ => False

/-- The file of the asset is one of these. -/
def DeliveryAsset.From (files : String → Prop) (asset : DeliveryAsset) : Prop :=
  ∀ path, asset.source = some (.path path) → files path

variable {files : String → Prop} {keys : List String} (d : TelegramDelivery)
  (request : Option MediaRequest) {keyOf : DeliveryAsset → String} {asset : DeliveryAsset}

theorem handles_store (item : DeliveredItem) :
    Within (Effect.Handles files keys) (store d request item) fun _ => True :=
  within_ite (fun _ => within_call trivial) fun _ => within_pure trivial

theorem handles_evict (asset : DeliveryAsset) :
    Within (Effect.Handles files keys) (evict d request asset) fun _ => True :=
  within_ite (fun _ => within_call trivial) fun _ => within_pure trivial

theorem handles_prepareCached (asset : DeliveryAsset) :
    Within (Effect.Handles files keys) (prepareCached d request asset) fun prepared =>
      ∀ ready ∈ prepared, ready.asset = asset := by
  have hcall : Within (Effect.Handles files keys) (call (.getDelivery asset.index)) fun _ => True :=
    within_call trivial
  refine hcall.bind fun cached _ => ?_
  cases cached with
  | none => exact within_pure (by simp)
  | some cached =>
    refine within_ite (fun _ => within_pure (by simp)) fun _ => ?_
    exact (handles_evict d request asset).bind fun _ _ => within_pure (by simp)

theorem handles_assetSize (hasset : asset.From files) :
    Within (Effect.Handles files keys) (assetSize asset) fun _ => True := by
  unfold assetSize
  cases asset.sizeBytes with
  | some size => exact within_pure trivial
  | none =>
    cases hsource : asset.source with
    | none => exact within_pure trivial
    | some source =>
      cases source with
      | path path => exact within_call (hasset path hsource)
      | url _ | bytes _ | stream => exact within_pure trivial

theorem handles_prepareUpload (hasset : asset.From files) :
    Within (Effect.Handles files keys) (prepareUpload d asset) fun result =>
      ∀ ready, result = .inr ready → ready.asset = asset := by
  refine within_ite (fun _ => within_pure (by simp)) fun _ => ?_
  refine (handles_assetSize hasset).bind fun size _ => ?_
  cases size with
  | error error => exact within_pure (by simp)
  | ok size => exact within_ite (fun _ => within_pure (by simp)) fun _ => within_pure (by simp)

theorem handles_prepare (hasset : asset.From files) (forceUpload : Bool) :
    Within (Effect.Handles files keys) (prepare d request forceUpload asset) fun result =>
      ∀ ready, result = .inr ready → ready.asset = asset := by
  refine within_ite (fun _ => ?_) fun _ => handles_prepareUpload d hasset
  refine (handles_prepareCached d request asset).bind fun cached hcached => ?_
  cases cached with
  | none => exact handles_prepareUpload d hasset
  | some prepared => exact within_pure (by simpa using hcached)

theorem handles_prepareGroup (forceUpload : Bool) {assets : List DeliveryAsset}
    (hassets : ∀ asset ∈ assets, asset.From files) :
    Within (Effect.Handles files keys) (prepareGroup d request forceUpload assets) fun result =>
      ∀ ready ∈ result.2, ready.asset ∈ assets := by
  induction assets with
  | nil => exact within_pure (by simp)
  | cons asset assets ih =>
    rw [List.forall_mem_cons] at hassets
    refine (handles_prepare d request hassets.1 forceUpload).bind fun result hresult => ?_
    refine (ih hassets.2).bind fun rest hrest => ?_
    have hothers : ∀ ready ∈ rest.2, ready.asset ∈ asset :: assets :=
      fun ready hready => List.mem_cons_of_mem _ (hrest ready hready)
    cases result with
    | inl item => exact within_pure hothers
    | inr ready =>
      have hready : ready.asset ∈ asset :: assets := by simp [hresult ready rfl]
      exact within_pure (List.forall_mem_cons.mpr ⟨hready, hothers⟩)

theorem handles_openGroup {prepared : List PreparedAsset}
    (hprepared : ∀ ready ∈ prepared, ready.asset.From files) :
    Within (Effect.Handles files keys) (openGroup prepared) fun _ => True := by
  induction prepared with
  | nil => exact within_pure trivial
  | cons ready prepared ih =>
    rw [List.forall_mem_cons] at hprepared
    have hcall : Within (Effect.Handles files keys) (call (.openSource ready.asset)) fun _ => True :=
      within_call hprepared.1
    refine hcall.bind fun opened _ => ?_
    cases opened with
    | error error => exact within_pure trivial
    | ok u => exact within_ite (fun _ => ih hprepared.2) fun _ => within_pure trivial

theorem handles_send {itemKeys : List String} (hkeys : itemKeys ⊆ keys) (method : String)
    (options : SendOptions) :
    Within (Effect.Handles files keys) (send itemKeys method options) fun _ => True := by
  have hcall : Within (Effect.Handles files keys) (call (.startSend itemKeys method options))
      fun _ => True := within_call hkeys
  exact hcall.bind fun id _ => within_call trivial

theorem handles_sendSingle {prepared : PreparedAsset} (hprepared : prepared.asset.From files)
    {key : String} (hkey : key ∈ keys) (options : SendOptions) :
    Within (Effect.Handles files keys) (sendSingle key prepared options) fun _ => True := by
  unfold sendSingle
  cases sendMethod prepared.asset.item.kind with
  | none => exact within_pure trivial
  | some method =>
    have hcall : Within (Effect.Handles files keys) (call (.openSource prepared.asset))
        fun _ => True := within_call hprepared
    refine hcall.bind fun opened _ => ?_
    cases opened with
    | error error => exact within_pure trivial
    | ok u => exact handles_send (by simpa using hkey) method options

theorem handles_sendGroup {prepared : List PreparedAsset}
    (hprepared : ∀ ready ∈ prepared, ready.asset.From files) (options : SendOptions) :
    Within (Effect.Handles files keys) (sendGroup keys prepared options) fun _ => True := by
  refine (handles_openGroup hprepared).bind fun opened _ => ?_
  cases opened with
  | some error => exact within_pure trivial
  | none => exact handles_send (List.Subset.refl _) _ options

theorem handles_finishOne (asset : DeliveryAsset) (result : SendResult) :
    Within (Effect.Handles files keys) (finishOne d request asset result) fun _ => True := by
  cases result with
  | sent messages => exact (handles_store d request _).bind fun _ _ => within_pure trivial
  | retryAfter error | badRequest error | networkError error | otherError error =>
    exact within_pure trivial

theorem handles_deliverOne (hasset : asset.From files) (hkey : keyOf asset ∈ keys)
    (options : SendOptions) :
    Within (Effect.Handles files keys) (deliverOne d request keyOf asset options) fun _ => True := by
  refine (handles_prepare d request hasset false).bind fun prepared hprepared => ?_
  cases prepared with
  | inl item => exact within_pure trivial
  | inr prepared =>
    have hready : prepared.asset.From files := hprepared prepared rfl ▸ hasset
    refine (handles_sendSingle hready hkey options).bind fun result _ => ?_
    cases result with
    | badRequest error =>
      refine within_ite (fun _ => ?_) fun _ => within_pure trivial
      refine (handles_evict d request asset).bind fun _ _ => ?_
      refine (handles_prepare d request hasset true).bind fun upload hupload => ?_
      cases upload with
      | inl item => exact within_pure trivial
      | inr upload =>
        have hready : upload.asset.From files := hupload upload rfl ▸ hasset
        exact (handles_sendSingle hready hkey options).bind fun result _ =>
          handles_finishOne d request asset result
    | sent messages => exact handles_finishOne d request asset (.sent messages)
    | retryAfter error => exact handles_finishOne d request asset (.retryAfter error)
    | networkError error => exact handles_finishOne d request asset (.networkError error)
    | otherError error => exact handles_finishOne d request asset (.otherError error)

theorem handles_evictGroup (prepared : List PreparedAsset) :
    Within (Effect.Handles files keys) (evictGroup d request prepared) fun _ => True := by
  induction prepared with
  | nil => exact within_pure trivial
  | cons ready prepared ih =>
    refine Within.bind (Q := fun _ => True) ?_ fun _ _ => ih
    exact within_ite (fun _ => handles_evict d request ready.asset) fun _ => within_pure trivial

theorem handles_groupResults (assets : List DeliveryAsset) (messages : List Message) :
    Within (Effect.Handles files keys) (groupResults d request assets messages) fun _ => True := by
  induction assets generalizing messages with
  | nil => exact within_pure trivial
  | cons asset assets ih =>
    cases messages with
    | nil => exact (ih []).bind fun items _ => within_pure trivial
    | cons message messages =>
      refine (handles_store d request _).bind fun _ _ => ?_
      exact (ih messages).bind fun items _ => within_pure trivial

theorem handles_deliverGroupRound {assets : List DeliveryAsset}
    (hassets : ∀ asset ∈ assets, asset.From files) (options : SendOptions) (forceUpload : Bool)
    {again : Coroutine (List DeliveredItem)}
    (hagain : Within (Effect.Handles files (assets.map keyOf)) again fun _ => True) :
    Within (Effect.Handles files (assets.map keyOf))
      (deliverGroupRound d request keyOf assets options forceUpload again) fun _ => True := by
  refine (handles_prepareGroup d request forceUpload hassets).bind fun ready hready => ?_
  refine within_ite (fun _ => within_pure trivial) fun _ => ?_
  have hprepared : ∀ prepared ∈ ready.2, prepared.asset.From files :=
    fun prepared hmem => hassets _ (hready prepared hmem)
  refine (handles_sendGroup hprepared options).bind fun result _ => ?_
  cases result with
  | sent messages => exact handles_groupResults d request assets messages
  | badRequest error =>
    refine within_ite (fun _ => ?_) fun _ => within_pure trivial
    exact (handles_evictGroup d request ready.2).bind fun _ _ => hagain
  | retryAfter error | networkError error | otherError error => exact within_pure trivial

theorem handles_deliverUnit {unit : List DeliveryAsset} (hunit : ∀ asset ∈ unit, asset.From files)
    (options : SendOptions) :
    Within (Effect.Handles files (unit.map keyOf)) (deliverUnit d request keyOf unit options)
      fun _ => True := by
  have hgroup : Within (Effect.Handles files (unit.map keyOf))
      (deliverGroup d request keyOf unit options) fun _ => True :=
    handles_deliverGroupRound d request hunit options false
      (handles_deliverGroupRound d request hunit options true (within_pure trivial))
  match unit with
  | [] => exact hgroup
  | [asset] =>
    exact (handles_deliverOne d request (hunit asset (by simp)) (by simp) options).bind
      fun item _ => within_pure trivial
  | first :: second :: rest => exact hgroup

end Handling

section Recording

variable {files : String → Prop} {limit : Nat} {r : Records} (d : TelegramDelivery)
  (request : Option MediaRequest) {keyOf : DeliveryAsset → String} {results : Results}

/-- The results are recorded, each under the name of an asset. -/
def Agrees (keyOf : DeliveryAsset → String) (results : Results) (r : Records) : Prop :=
  ∀ key item, results.lookup key = some item →
    r.recorded key = some (durableOutcome item.status) ∧
      ∃ asset, keyOf asset = key ∧ Reports asset item

/-- Only these names were dealt with, and each was reserved once at most. -/
structure Records.Passed (r : Records) (keys : List String) (r' : Records) : Prop where
  recorded : ∀ key ∉ keys, r'.recorded key = r.recorded key
  attempts : ∀ key, r'.attempts key ≤ r.attempts key + if key ∈ keys then 1 else 0

theorem Agrees.record (h : Agrees keyOf results r) {asset : DeliveryAsset} {item : DeliveredItem}
    (hitem : Reports asset item) :
    Agrees keyOf ((keyOf asset, item) :: results)
      (r.record (keyOf asset) (some (durableOutcome item.status))) := by
  intro key other hlookup
  rw [List.lookup_cons] at hlookup
  by_cases hkey : key = keyOf asset
  · subst hkey
    simp only [beq_self_eq_true, Option.some.injEq] at hlookup
    subst hlookup
    exact ⟨Records.record_self _, asset, rfl, hitem⟩
  · simp only [beq_eq_false_iff_ne.mpr hkey] at hlookup
    rw [Records.record_of_ne _ hkey]
    exact h key other hlookup

theorem Agrees.read (h : Agrees keyOf results r) {key : String} (hnone : results.lookup key = none)
    (outcome : Option DeliveryOutcome) : Agrees keyOf results (r.record key outcome) := by
  intro other item hlookup
  have hne : other ≠ key := by
    rintro rfl
    rw [hnone] at hlookup
    cases hlookup
  rw [Records.record_of_ne _ hne]
  exact h other item hlookup

theorem records_recordCurrentDelivery (key : String) (outcome : DeliveryOutcome)
    (deliveryId : Option String) :
    Follows (Records.rules files limit) r (recordCurrentDelivery key outcome deliveryId)
      fun _ r' => r' = r.record key (some outcome) := by
  refine follows_attempt_bind (P := Records.rules files limit) trivial ?_
  intro response finalized hresponse
  obtain rfl : response = .ok finalized := hresponse
  cases finalized with
  | false => exact follows_raise
  | true => exact follows_pure rfl

theorem records_beginCurrentDelivery {keys : List String} (h : ∀ key ∈ keys, r.Ready limit key) :
    Follows (Records.rules files limit) r (beginCurrentDelivery keys)
      fun _ r' => r' = r.reserve keys := by
  refine follows_attempt_bind (P := Records.rules files limit) h ?_
  intro response started hresponse
  obtain rfl : response = .ok started := hresponse
  cases started with
  | false => exact follows_raise
  | true => exact follows_pure rfl

theorem records_recordUnit {unit : List DeliveryAsset} {items : List DeliveredItem}
    (hreports : ReportsAll unit items) (h : Agrees keyOf results r) :
    Follows (Records.rules files limit) r (recordUnit keyOf (unit.zip items) results) fun results' r' =>
      Agrees keyOf results' r' ∧ r'.attempts = r.attempts ∧
        ∀ key ∉ unit.map keyOf, r'.recorded key = r.recorded key := by
  induction unit generalizing items results r with
  | nil => exact follows_pure ⟨h, rfl, fun _ _ => rfl⟩
  | cons asset unit ih =>
    cases items with
    | nil => cases hreports
    | cons item items =>
      obtain ⟨hitem, hrest⟩ := List.cons_eq_cons.mp hreports
      refine (records_recordCurrentDelivery _ _ _).bind ?_
      rintro - r₁ rfl
      refine (ih hrest (h.record hitem)).mono ?_
      rintro results' r' ⟨hagrees, hattempts, hrecorded⟩
      refine ⟨hagrees, hattempts, fun key hkey => ?_⟩
      rw [List.map_cons, List.mem_cons, not_or] at hkey
      rw [hrecorded key hkey.2, Records.record_of_ne _ hkey.1]

theorem records_priorOutcomes {assets : List DeliveryAsset} (hnodup : (assets.map keyOf).Nodup)
    (h : Agrees keyOf results r) (hnone : ∀ asset ∈ assets, results.lookup (keyOf asset) = none) :
    Follows (Records.rules files limit) r (priorOutcomes keyOf assets results) fun prior r' =>
      Agrees keyOf prior.1 r' ∧ r'.attempts = r.attempts ∧
        (∀ key ∉ assets.map keyOf, r'.recorded key = r.recorded key) ∧
        prior.2.Sublist assets ∧ ∀ asset ∈ prior.2, r'.Unsent (keyOf asset) := by
  induction assets generalizing results r with
  | nil => exact follows_pure ⟨h, rfl, fun _ _ => rfl, List.Sublist.refl _, by simp⟩
  | cons asset assets ih =>
    rw [List.map_cons, List.nodup_cons] at hnodup
    rw [List.forall_mem_cons] at hnone
    have houtside {r' : Records} {outcome : Option DeliveryOutcome}
        (hrecorded : ∀ key ∉ assets.map keyOf,
          r'.recorded key = (r.record (keyOf asset) outcome).recorded key) :
        ∀ key ∉ (asset :: assets).map keyOf, r'.recorded key = r.recorded key := by
      intro key hkey
      rw [List.map_cons, List.mem_cons, not_or] at hkey
      rw [hrecorded key hkey.2, Records.record_of_ne _ hkey.1]
    have hskip (item : DeliveredItem) (hitem : Reports asset item) :
        Follows (Records.rules files limit)
          (r.record (keyOf asset) (some (durableOutcome item.status)))
          (priorOutcomes keyOf assets ((keyOf asset, item) :: results)) fun prior r' =>
            Agrees keyOf prior.1 r' ∧ r'.attempts = r.attempts ∧
              (∀ key ∉ (asset :: assets).map keyOf, r'.recorded key = r.recorded key) ∧
              prior.2.Sublist (asset :: assets) ∧ ∀ asset ∈ prior.2, r'.Unsent (keyOf asset) := by
      have hother : ∀ other ∈ assets,
          List.lookup (keyOf other) ((keyOf asset, item) :: results) = none := by
        intro other hmem
        have hne : keyOf other ≠ keyOf asset :=
          fun heq => hnodup.1 (heq ▸ List.mem_map_of_mem hmem)
        rw [List.lookup_cons, beq_eq_false_iff_ne.mpr hne]
        exact hnone.2 other hmem
      refine (ih hnodup.2 (h.record hitem) hother).mono ?_
      rintro prior r' ⟨hagrees, hattempts, hrecorded, hsublist, hunsent⟩
      exact ⟨hagrees, hattempts, houtside hrecorded, hsublist.cons _, hunsent⟩
    have htake {outcome : Option DeliveryOutcome} (houtcome : outcome = none ∨ outcome = some .failed) :
        Follows (Records.rules files limit) (r.record (keyOf asset) outcome)
          (priorOutcomes keyOf assets results >>= fun prior =>
            Pure.pure (prior.1, asset :: prior.2)) fun prior r' =>
            Agrees keyOf prior.1 r' ∧ r'.attempts = r.attempts ∧
              (∀ key ∉ (asset :: assets).map keyOf, r'.recorded key = r.recorded key) ∧
              prior.2.Sublist (asset :: assets) ∧ ∀ asset ∈ prior.2, r'.Unsent (keyOf asset) := by
      refine (ih hnodup.2 (h.read hnone.1 outcome) hnone.2).bind ?_
      rintro prior r' ⟨hagrees, hattempts, hrecorded, hsublist, hunsent⟩
      have hfirst : r'.Unsent (keyOf asset) := by
        rw [Records.Unsent, hrecorded _ hnodup.1, Records.record_self]
        exact houtcome
      exact follows_pure ⟨hagrees, hattempts, houtside hrecorded, hsublist.cons_cons _,
        List.forall_mem_cons.mpr ⟨hfirst, hunsent⟩⟩
    refine follows_attempt_bind (P := Records.rules files limit) trivial ?_
    intro response prior hresponse
    obtain rfl : response = .ok prior := hresponse
    cases prior with
    | none => exact htake (.inl rfl)
    | some outcome =>
      cases outcome with
      | success =>
        exact hskip { success asset ⟨none, none, none⟩ with status := .delivered } rfl
      | failed => exact htake (.inr rfl)
      | uncertain =>
        exact hskip (failure asset .uncertain "Telegram send outcome was uncertain before restart"
          "recovered_unknown_outcome") rfl

theorem records_deliverUnit {unit : List DeliveryAsset} (hfiles : ∀ asset ∈ unit, asset.From files)
    (hunsent : ∀ asset ∈ unit, r.Unsent (keyOf asset)) (options : SendOptions) :
    Follows (Records.rules files limit) r (deliverUnit d request keyOf unit options)
      fun items r' => r' = r ∧ ReportsAll unit items := by
  have hkeys : ∀ key ∈ unit.map keyOf, r.Unsent key := by simpa using hunsent
  have hhandles : Within (Effect.Handles files (unit.map keyOf))
      (deliverUnit d request keyOf unit options) fun _ => True :=
    handles_deliverUnit d request hfiles options
  have hunit := hhandles.follows (P := Records.rules files limit) r ?_
  · exact (hunit.and_returns (returns_deliverUnit d request keyOf unit options)).mono
      fun items r' h => ⟨h.1.1, h.2⟩
  · intro effect heffect
    cases effect with
    | stat path => exact ⟨heffect, fun _ => rfl⟩
    | openSource asset => exact ⟨heffect, fun _ => rfl⟩
    | startSend itemKeys method options =>
      exact ⟨fun key hkey => hkeys key (heffect hkey), fun _ => rfl⟩
    | getDelivery _ | putDelivery _ | evictDelivery _ | finishSend _ =>
      exact ⟨trivial, fun _ => rfl⟩
    | deliveryOutcome _ | beginDeliveryAttempts _ | finalizeDeliveryAttempt _ _ _ => cases heffect

theorem records_deliverUnits (options : SendOptions) {units : List (List DeliveryAsset)}
    (hfiles : ∀ asset ∈ units.flatten, asset.From files)
    (hnodup : (units.flatten.map keyOf).Nodup)
    (hready : ∀ asset ∈ units.flatten, r.Ready limit (keyOf asset)) (h : Agrees keyOf results r)
    (unitIndex : Nat) :
    Follows (Records.rules files limit) r (deliverUnits d request keyOf options unitIndex units results)
      fun results' r' => Agrees keyOf results' r' ∧ r.Passed (units.flatten.map keyOf) r' := by
  induction units generalizing r results unitIndex with
  | nil => exact follows_pure ⟨h, fun _ _ => rfl, by simp⟩
  | cons unit units ih =>
    simp only [List.flatten_cons, List.map_append, List.forall_mem_append] at hfiles hnodup hready
    obtain ⟨-, hunits, hdisjoint⟩ := List.nodup_append.mp hnodup
    have hkeys : ∀ key ∈ unit.map keyOf, r.Ready limit key := by simpa using hready.1
    refine (records_beginCurrentDelivery hkeys).bind ?_
    rintro - r₁ rfl
    have hreserved : Agrees keyOf results (r.reserve (unit.map keyOf)) := h
    have hunsent₁ : ∀ asset ∈ unit, (r.reserve (unit.map keyOf)).Unsent (keyOf asset) :=
      fun asset hasset => (hready.1 asset hasset).1
    refine (records_deliverUnit d request hfiles.1 hunsent₁ _).bind ?_
    rintro items r₂ ⟨rfl, hreports⟩
    refine (records_recordUnit hreports hreserved).bind ?_
    rintro results₁ r₃ ⟨hagrees, hattempts, hrecorded⟩
    have hone (key : String) :
        r₃.attempts key = r.attempts key + if key ∈ unit.map keyOf then 1 else 0 := by
      rw [hattempts]
      rfl
    have hothers : ∀ asset ∈ units.flatten, r₃.Ready limit (keyOf asset) := by
      intro asset hasset
      have hkey : keyOf asset ∉ unit.map keyOf :=
        fun hmem => hdisjoint _ hmem _ (List.mem_map_of_mem hasset) rfl
      rw [Records.Ready, Records.Unsent, hrecorded _ hkey, hone, if_neg hkey]
      exact hready.2 asset hasset
    refine (ih hfiles.2 hunits hothers hagrees (unitIndex + 1)).mono ?_
    rintro results₂ r' ⟨hagrees', hpassed⟩
    refine ⟨hagrees', fun key hkey => ?_, fun key => ?_⟩
    · rw [List.flatten_cons, List.map_append, List.mem_append, not_or] at hkey
      rw [hpassed.recorded key hkey.2, hrecorded key hkey.1]
      rfl
    · have hbound := hpassed.attempts key
      rw [hone] at hbound
      rw [List.flatten_cons, List.map_append]
      by_cases hunit : key ∈ unit.map keyOf
      · have hnot : key ∉ units.flatten.map keyOf := fun hmem => hdisjoint _ hunit _ hmem rfl
        simp only [hunit, hnot, List.mem_append, true_or, if_true, if_false] at hbound ⊢
        omega
      · simp only [hunit, List.mem_append, false_or, if_false] at hbound ⊢
        omega

end Recording

section Deliver

variable {files : String → Prop} {limit : Nat} {r : Records} (d : TelegramDelivery)
  (request : Option MediaRequest) (sha256 : String → String) {media : List DeliveryAsset}
  {target : DeliveryTarget} {operationKey : Option String}

theorem names_nodup (h : DistinctIndexes media) : ((normalizeAssets media).map
    (durableItemKey sha256 target request operationKey)).Nodup := by
  apply List.pairwise_map.mpr
  refine (List.pairwise_map.mp h).imp ?_
  intro a b hne heq
  exact hne (durableItemKey_injective sha256 heq)

/-- A delivery reports what it has recorded, one outcome for each asset. -/
structure Delivered (keyOf : DeliveryAsset → String) (assets : List DeliveryAsset) (r : Records)
    (receipt : DeliveryReceipt) (r' : Records) : Prop where
  reports : ReportsAll assets receipt.items
  status : receipt.status = aggregateStatus receipt.items
  recorded : ∀ item ∈ receipt.items, ∃ asset ∈ assets, item.itemIndex = asset.index ∧
    r'.recorded (keyOf asset) = some (durableOutcome item.status)
  passed : r.Passed (assets.map keyOf) r'

theorem records_deliver (hdistinct : DistinctIndexes media)
    (hfiles : ∀ asset ∈ normalizeAssets media, asset.From files)
    (hattempts : ∀ key, r.attempts key < limit) (options : SendOptions) :
    Follows (Records.rules files limit) r (deliver d request sha256 media target operationKey options)
      (Delivered (durableItemKey sha256 target request operationKey) (normalizeAssets media) r) := by
  have hnodup : ((normalizeAssets media).map
      (durableItemKey sha256 target request operationKey)).Nodup :=
    names_nodup request sha256 hdistinct
  have hempty : Agrees (durableItemKey sha256 target request operationKey) [] r :=
    fun _ _ h => nomatch h
  have hreturns := returns_deliver d request sha256 media target operationKey options
  have hdeliver : Follows (Records.rules files limit) r
      (deliver d request sha256 media target operationKey options) fun receipt r' =>
        receipt.status = aggregateStatus receipt.items ∧
        (∀ item ∈ receipt.items, ∃ asset ∈ normalizeAssets media, item.itemIndex = asset.index ∧
          r'.recorded (durableItemKey sha256 target request operationKey asset) =
            some (durableOutcome item.status)) ∧
        r.Passed ((normalizeAssets media).map (durableItemKey sha256 target request operationKey))
          r' := by
    unfold deliver
    refine follows_ite (fun _ => follows_pure ⟨rfl, by simp, fun _ _ => rfl, by simp⟩) fun _ => ?_
    refine (records_priorOutcomes hnodup hempty fun _ _ => rfl).bind ?_
    rintro ⟨results, pending⟩ r₁ ⟨hagrees, hsame, hrecorded, hsublist, hunsent⟩
    have hflatten := deliveryUnits_flatten pending
    have hunits : Follows (Records.rules files limit) r₁ (deliverUnits d request
        (durableItemKey sha256 target request operationKey) options 0 (deliveryUnits pending) results)
        fun results' r' => Agrees (durableItemKey sha256 target request operationKey) results' r' ∧
          r₁.Passed ((deliveryUnits pending).flatten.map
            (durableItemKey sha256 target request operationKey)) r' := by
      refine records_deliverUnits d request options ?_ ?_ ?_ hagrees 0
      · rw [hflatten]
        exact fun asset hasset => hfiles asset (hsublist.subset hasset)
      · rw [hflatten]
        exact hnodup.sublist (hsublist.map _)
      · rw [hflatten]
        exact fun asset hasset => ⟨hunsent asset hasset, hsame ▸ hattempts _⟩
    rw [hflatten] at hunits
    refine hunits.bind ?_
    rintro results' r' ⟨hagrees', hpassed⟩
    have hkeys := (hsublist.map (durableItemKey sha256 target request operationKey)).subset
    refine follows_pure ⟨rfl, fun item hitem => ?_, fun key hkey => ?_, fun key => ?_⟩
    · obtain ⟨asset, hasset, hlookup⟩ := List.mem_filterMap.mp hitem
      obtain ⟨houtcome, other, hkey, hreports⟩ := hagrees' _ item hlookup
      exact ⟨asset, hasset, hreports.trans (durableItemKey_injective sha256 hkey), houtcome⟩
    · rw [hpassed.recorded key fun hmem => hkey (hkeys hmem), hrecorded key hkey]
    · have hbound := hpassed.attempts key
      rw [hsame] at hbound
      by_cases hmem : key ∈ pending.map (durableItemKey sha256 target request operationKey)
      · simpa [hmem, hkeys hmem] using hbound
      · rw [if_neg hmem] at hbound
        omega
  exact (hdeliver.and_returns hreturns).mono fun receipt r' h =>
    ⟨h.2.2, h.1.1, h.1.2.1, h.1.2.2⟩

theorem records_retryFailed (hdistinct : DistinctIndexes media)
    (hfiles : ∀ asset ∈ normalizeAssets media, asset.From files)
    (hattempts : ∀ key, r.attempts key < limit) (receipt : DeliveryReceipt) (options : SendOptions) :
    Follows (Records.rules files limit) r
      (retryFailed d request sha256 receipt media target operationKey options)
      (Delivered (durableItemKey sha256 target request operationKey)
        ((normalizeAssets media).filter fun asset =>
          asset.index ∈ receipt.retryableItems.map DeliveredItem.itemIndex) r) := by
  have hsame := normalizeAssets_filter media fun asset =>
    asset.index ∈ receipt.retryableItems.map DeliveredItem.itemIndex
  have hretry : Follows (Records.rules files limit) r
      (retryFailed d request sha256 receipt media target operationKey options)
      (Delivered (durableItemKey sha256 target request operationKey)
        (normalizeAssets ((normalizeAssets media).filter fun asset =>
          asset.index ∈ receipt.retryableItems.map DeliveredItem.itemIndex)) r) := by
    refine records_deliver d request sha256 ?_ ?_ hattempts options
    · rw [DistinctIndexes, hsame]
      exact List.Nodup.sublist (List.filter_sublist.map _) hdistinct
    · rw [hsame]
      exact fun asset hasset => hfiles asset (List.mem_of_mem_filter hasset)
  rwa [hsame] at hretry

end Deliver

end YtdlBot.Delivery
