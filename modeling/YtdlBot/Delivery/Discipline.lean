import YtdlBot.Delivery.Local

/-!
# The discipline of a delivery

What one `deliver` call knows about each receipt name, and that it sends an item only between a
committed reservation and its finalization, and never again after a call that may have sent it.
-/

namespace YtdlBot.Delivery

open Framework
open Framework.Program
open JobStore (DeliveryOutcome StoreError)

/-- What a call knows about a receipt name. -/
inductive Phase where
  /-- Nothing. -/
  | unknown
  /-- The receipt was absent or failed when this call read it. -/
  | fresh
  /-- This call reserved the item and has no send that may have succeeded. -/
  | reserved
  /-- A Bot API call with this number is in flight. -/
  | inFlight (call : Nat)
  /-- A send of this call may have succeeded. -/
  | spent
deriving DecidableEq

/-- The call holds the reservation of the item. -/
def Phase.held : Phase → Bool
  | .unknown | .fresh => false
  | _ => true

abbrev Phases := String → Phase

def Phases.idle : Phases := fun _ => .unknown

def Phases.setAll (g : Phases) (keys : List String) (phase : Phase) : Phases :=
  fun key => if key ∈ keys then phase else g key

theorem Phases.setAll_of_mem {g : Phases} {keys : List String} {phase : Phase} {key : String}
    (h : key ∈ keys) : g.setAll keys phase key = phase := if_pos h

theorem Phases.setAll_of_notMem {g : Phases} {keys : List String} {phase : Phase} {key : String}
    (h : key ∉ keys) : g.setAll keys phase key = g key := if_neg h

/-- Which effects a call may perform. -/
def allows (g : Phases) : Effect → Prop
  | .deliveryOutcome key => (g key).held = false
  | .beginDeliveryAttempts keys => keys.Nodup ∧ ∀ key ∈ keys, g key = .fresh
  | .startSend keys _ _ => keys.Nodup ∧ ∀ key ∈ keys, g key = .reserved
  | .finishSend id => ∃ key, g key = .inFlight id
  | .finalizeDeliveryAttempt key outcome _ =>
    (g key = .reserved ∧ outcome = .failed) ∨ (g key = .spent ∧ outcome ≠ .failed)
  | _ => True

/-- What a call knows after a response. -/
def nextPhases (g : Phases) : (effect : Effect) → effect.Response → Phases
  | .deliveryOutcome key, response =>
    match response with
    | .ok none | .ok (some .failed) => g.setAll [key] .fresh
    | _ => g.setAll [key] .unknown
  | .beginDeliveryAttempts keys, response =>
    match response with
    | .ok true => g.setAll keys .reserved
    | _ => g.setAll keys .unknown
  | .startSend keys _ _, id => g.setAll keys (.inFlight id)
  | .finishSend id, result => fun key =>
    if g key = .inFlight id then (if result.rejected then .reserved else .spent) else g key
  | .finalizeDeliveryAttempt key _ _, _ => g.setAll [key] .unknown
  | _, _ => g

def protocol : Protocol Effect Effect.Response Phases := ⟨allows, nextPhases⟩

/-- Keys outside the list are known as before. -/
def SameOutside (keys : List String) (g g' : Phases) : Prop := ∀ key, key ∉ keys → g' key = g key

private theorem follows_local {α : Type} {p : Coroutine α} {Q : α → Prop}
    (h : Within Effect.Local p Q) (g : Phases) :
    Follows protocol g p fun value g' => g' = g ∧ Q value := by
  refine h.follows g fun effect heffect => ?_
  cases effect with
  | getDelivery _ | putDelivery _ | evictDelivery _ | stat _ | openSource _ =>
    exact ⟨trivial, fun _ => rfl⟩
  | deliveryOutcome _ | beginDeliveryAttempts _ | finalizeDeliveryAttempt _ _ _ | startSend _ _ _
  | finishSend _ => cases heffect

section Send

variable (d : TelegramDelivery) (request : Option MediaRequest) (keyOf : DeliveryAsset → String)

/-- No Bot API call of this delivery is in flight. -/
def Quiet (g : Phases) : Prop := ∀ key id, g key ≠ .inFlight id

theorem Quiet.setAll {g : Phases} (h : Quiet g) (keys : List String) {phase : Phase}
    (hphase : ∀ id, phase ≠ .inFlight id) : Quiet (g.setAll keys phase) := by
  intro key id
  by_cases hmem : key ∈ keys
  · rw [Phases.setAll_of_mem hmem]
    exact hphase id
  · rw [Phases.setAll_of_notMem hmem]
    exact h key id

/-- The phases after a call: the items are spent unless the call was rejected. -/
def afterSend (g : Phases) (keys : List String) (result : SendResult) : Phases :=
  if result.rejected then g else g.setAll keys .spent

private theorem finishSend_phases {g : Phases} (hquiet : Quiet g) {keys : List String}
    (hreserved : ∀ key ∈ keys, g key = .reserved) (id : Nat) (result : SendResult) :
    nextPhases (g.setAll keys (.inFlight id)) (.finishSend id) result = afterSend g keys result := by
  funext key
  by_cases hmem : key ∈ keys
  · cases hrejected : result.rejected with
    | true =>
      simp [nextPhases, afterSend, Phases.setAll_of_mem hmem, hrejected, hreserved key hmem]
    | false =>
      simp [nextPhases, afterSend, Phases.setAll_of_mem hmem, hrejected]
  · have hidle := hquiet key id
    cases hrejected : result.rejected with
    | true => simp [nextPhases, afterSend, Phases.setAll_of_notMem hmem, hrejected, hidle]
    | false => simp [nextPhases, afterSend, Phases.setAll_of_notMem hmem, hrejected, hidle]

private theorem follows_send {g : Phases} (hquiet : Quiet g) {keys : List String}
    (hne : keys ≠ []) (hnodup : keys.Nodup) (hreserved : ∀ key ∈ keys, g key = .reserved) (method : String)
    (options : SendOptions) :
    Follows protocol g (send keys method options) fun result g' => g' = afterSend g keys result := by
  refine Follows.bind (Q := fun id g' => g' = g.setAll keys (.inFlight id)) ?_ ?_
  · exact Program.follows_call (P := protocol) ⟨hnodup, hreserved⟩ fun id => rfl
  · rintro id g' rfl
    obtain ⟨key, hkey⟩ := List.exists_mem_of_ne_nil keys hne
    exact Program.follows_call (P := protocol) ⟨key, Phases.setAll_of_mem hkey⟩
      fun result => finishSend_phases hquiet hreserved id result

private theorem follows_sendSingle {g : Phases} (hquiet : Quiet g) {key : String}
    (hreserved : g key = .reserved) (prepared : PreparedAsset) (options : SendOptions) :
    Follows protocol g (sendSingle key prepared options) fun result g' =>
      g' = afterSend g [key] result := by
  unfold sendSingle
  cases sendMethod prepared.asset.item.kind with
  | none => exact follows_pure rfl
  | some method =>
    have hopen : Within Effect.Local (call (.openSource prepared.asset)) fun _ => True :=
      within_call trivial
    refine (follows_local hopen g).bind ?_
    rintro opened g' ⟨rfl, -⟩
    cases opened with
    | error error => exact follows_pure rfl
    | ok u =>
      exact follows_send hquiet (List.cons_ne_nil key []) (List.nodup_singleton key)
        (by simpa using hreserved) method options

private theorem follows_sendGroup {g : Phases} (hquiet : Quiet g) {keys : List String}
    (hne : keys ≠ []) (hnodup : keys.Nodup) (hreserved : ∀ key ∈ keys, g key = .reserved)
    (prepared : List PreparedAsset) (options : SendOptions) :
    Follows protocol g (sendGroup keys prepared options) fun result g' =>
      g' = afterSend g keys result := by
  refine (follows_local (within_openGroup prepared) g).bind ?_
  rintro opened g' ⟨rfl, -⟩
  cases opened with
  | some error => exact follows_pure rfl
  | none => exact follows_send hquiet hne hnodup hreserved _ options

end Send

section One

variable (d : TelegramDelivery) (request : Option MediaRequest) (keyOf : DeliveryAsset → String)

/-- The phases after an item: spent unless its outcome is a failure. -/
def afterItem (g : Phases) (key : String) (item : DeliveredItem) : Phases :=
  if durableOutcome item.status = .failed then g else g.setAll [key] .spent

private theorem follows_finishOne (g : Phases) (asset : DeliveryAsset) (key : String)
    (result : SendResult) :
    Follows protocol (afterSend g [key] result) (finishOne d request asset result) fun item g' =>
      g' = afterItem g key item := by
  refine (follows_local (within_finishOne d request asset result) _).mono ?_
  rintro item g' ⟨rfl, -, hstatus⟩
  unfold afterSend afterItem
  by_cases hrejected : result.rejected = true
  · rw [if_pos hrejected, if_pos (hstatus.mpr hrejected)]
  · rw [if_neg hrejected, if_neg fun hfailed => hrejected (hstatus.mp hfailed)]

private theorem afterItem_of_failed {g : Phases} {key : String} {item : DeliveredItem}
    (h : item.status = .failed) : afterItem g key item = g := by
  simp [afterItem, h, durableOutcome]

private theorem follows_deliverOne {g : Phases} (hquiet : Quiet g) (asset : DeliveryAsset)
    (hreserved : g (keyOf asset) = .reserved) (options : SendOptions) :
    Follows protocol g (deliverOne d request keyOf asset options) fun item g' =>
      g' = afterItem g (keyOf asset) item := by
  refine (follows_local (within_prepare d request false asset) g).bind ?_
  rintro prepared g' ⟨rfl, hfailed⟩
  cases prepared with
  | inl item => exact follows_pure (afterItem_of_failed (hfailed item rfl).2).symm
  | inr prepared =>
    refine (follows_sendSingle hquiet hreserved prepared options).bind ?_
    rintro result g₁ rfl
    cases result with
    | badRequest error =>
      refine follows_ite (fun _ => ?_) fun _ => follows_pure rfl
      -- the cached file id was refused, so nothing was sent: upload it under the same reservation
      refine (follows_local (within_evict d request asset) _).bind ?_
      rintro - g₂ ⟨rfl, -⟩
      refine (follows_local (within_prepare d request true asset) _).bind ?_
      rintro upload g₃ ⟨rfl, hfailed⟩
      cases upload with
      | inl item => exact follows_pure (afterItem_of_failed (hfailed item rfl).2).symm
      | inr upload =>
        refine (follows_sendSingle hquiet hreserved upload options).bind ?_
        rintro result g₄ rfl
        exact follows_finishOne d request _ asset _ result
    | sent messages => exact follows_finishOne d request _ asset _ (.sent messages)
    | retryAfter error => exact follows_finishOne d request _ asset _ (.retryAfter error)
    | networkError error => exact follows_finishOne d request _ asset _ (.networkError error)
    | otherError error => exact follows_finishOne d request _ asset _ (.otherError error)

end One

section Group

variable (d : TelegramDelivery) (request : Option MediaRequest) (keyOf : DeliveryAsset → String)

/-- The items of an album share one fate. -/
def AfterGroup (g : Phases) (keys : List String) (items : List DeliveredItem) (g' : Phases) :
    Prop :=
  ((∀ item ∈ items, durableOutcome item.status = .failed) ∧ g' = g) ∨
    ((∀ item ∈ items, durableOutcome item.status ≠ .failed) ∧ g' = g.setAll keys .spent)

private theorem follows_deliverGroupRound {g : Phases} (hquiet : Quiet g)
    (assets : List DeliveryAsset) (hne : assets ≠ []) (hnodup : (assets.map keyOf).Nodup)
    (hreserved : ∀ key ∈ assets.map keyOf, g key = .reserved) (options : SendOptions)
    (forceUpload : Bool) {again : Coroutine (List DeliveredItem)}
    (hagain : Follows protocol g again (AfterGroup g (assets.map keyOf))) :
    Follows protocol g (deliverGroupRound d request keyOf assets options forceUpload again)
      (AfterGroup g (assets.map keyOf)) := by
  refine (follows_local (within_prepareGroup d request forceUpload assets) g).bind ?_
  rintro ⟨failures, prepared⟩ g' ⟨rfl, hfailures⟩
  have hrejected {result : SendResult} (hsent : ∀ messages, result ≠ .sent messages) :
      AfterGroup g' (assets.map keyOf) (assets.map fun asset => sendFailure asset result)
        (afterSend g' (assets.map keyOf) result) := by
    cases h : result.rejected with
    | true =>
      refine .inl ⟨?_, by simp [afterSend, h]⟩
      intro item hitem
      obtain ⟨asset, -, rfl⟩ := List.mem_map.mp hitem
      exact (sendFailure_outcome asset hsent).mpr h
    | false =>
      refine .inr ⟨?_, by simp [afterSend, h]⟩
      intro item hitem hfailed
      obtain ⟨asset, -, rfl⟩ := List.mem_map.mp hitem
      rw [sendFailure_outcome asset hsent, h] at hfailed
      exact absurd hfailed (by decide)
  refine follows_ite (fun _ => follows_pure (.inl ⟨?_, rfl⟩)) fun _ => ?_
  · intro item hitem
    obtain ⟨asset, -, rfl⟩ := List.mem_map.mp hitem
    have hdefault : Refused asset (failure asset .failed "album contains an unavailable item"
        "album_incomplete") := ⟨rfl, rfl⟩
    rw [(lookup_refused hfailures asset hdefault).2]
    rfl
  · have hkeys : assets.map keyOf ≠ [] := by simpa using hne
    refine (follows_sendGroup hquiet hkeys hnodup hreserved prepared options).bind ?_
    rintro result g₁ rfl
    cases result with
    | sent messages =>
      refine (follows_local (within_groupResults d request assets messages) _).mono ?_
      rintro items g₂ ⟨rfl, -, hitems⟩
      exact .inr ⟨hitems, rfl⟩
    | badRequest error =>
      refine follows_ite (fun _ => ?_) fun _ => follows_pure (hrejected (by simp))
      refine (follows_local (within_evictGroup d request prepared) _).bind ?_
      rintro - g₂ ⟨rfl, -⟩
      exact hagain
    | retryAfter error => exact follows_pure (hrejected (by simp))
    | networkError error => exact follows_pure (hrejected (by simp))
    | otherError error => exact follows_pure (hrejected (by simp))

private theorem follows_deliverGroup {g : Phases} (hquiet : Quiet g)
    (assets : List DeliveryAsset) (hne : assets ≠ []) (hnodup : (assets.map keyOf).Nodup)
    (hreserved : ∀ key ∈ assets.map keyOf, g key = .reserved) (options : SendOptions) :
    Follows protocol g (deliverGroup d request keyOf assets options)
      (AfterGroup g (assets.map keyOf)) := by
  have hend : Follows protocol g (Pure.pure [] : Coroutine (List DeliveredItem))
      (AfterGroup g (assets.map keyOf)) := follows_pure (.inl ⟨by simp, rfl⟩)
  exact follows_deliverGroupRound d request keyOf hquiet assets hne hnodup hreserved options false
    (follows_deliverGroupRound d request keyOf hquiet assets hne hnodup hreserved options true hend)

end Group

section Deliver

variable (d : TelegramDelivery) (request : Option MediaRequest) (keyOf : DeliveryAsset → String)

/-- Items that may be finalized: reserved ones as failed, spent ones otherwise. -/
def Finalizable (g : Phases) (pairs : List (DeliveryAsset × DeliveredItem)) : Prop :=
  ∀ pair ∈ pairs, (g (keyOf pair.1) = .reserved ∧ durableOutcome pair.2.status = .failed) ∨
    (g (keyOf pair.1) = .spent ∧ durableOutcome pair.2.status ≠ .failed)

private theorem follows_recordUnit {g : Phases} (hquiet : Quiet g)
    {pairs : List (DeliveryAsset × DeliveredItem)}
    (hnodup : (pairs.map fun pair => keyOf pair.1).Nodup) (hready : Finalizable keyOf g pairs)
    (results : Results) :
    Follows protocol g (recordUnit keyOf pairs results) fun _ g' =>
      Quiet g' ∧ SameOutside (pairs.map fun pair => keyOf pair.1) g g' := by
  induction pairs generalizing g results with
  | nil => exact follows_pure ⟨hquiet, fun key _ => rfl⟩
  | cons pair pairs ih =>
    obtain ⟨asset, item⟩ := pair
    rw [List.map_cons, List.nodup_cons] at hnodup
    refine Follows.bind (Q := fun _ g' => g' = g.setAll [keyOf asset] .unknown) ?_ ?_
    · refine Follows.bind (Q := fun _ g' => g' = g.setAll [keyOf asset] .unknown) ?_ ?_
      · exact follows_attempt (P := protocol) (hready (asset, item) List.mem_cons_self)
          fun response value _ => rfl
      · rintro finalized g' rfl
        exact follows_ite (fun _ => follows_pure rfl) fun _ => follows_raise
    · rintro - g' rfl
      have hother : ∀ pair ∈ pairs, keyOf pair.1 ∉ [keyOf asset] := by
        intro pair hpair hmem
        rw [List.mem_singleton] at hmem
        exact hnodup.1 (hmem ▸ List.mem_map_of_mem hpair)
      refine (ih (hquiet.setAll _ (by simp)) hnodup.2 ?_ _).mono ?_
      · intro pair hpair
        rw [Phases.setAll_of_notMem (hother pair hpair)]
        exact hready pair (List.mem_cons_of_mem _ hpair)
      · rintro - g' ⟨hquiet', hsame⟩
        refine ⟨hquiet', ?_⟩
        intro key hkey
        rw [List.map_cons, List.mem_cons, not_or] at hkey
        rw [hsame key hkey.2, Phases.setAll_of_notMem (by simpa using hkey.1)]

private theorem follows_deliverUnit {g : Phases} (hquiet : Quiet g) (unit : List DeliveryAsset)
    (hne : unit ≠ []) (hnodup : (unit.map keyOf).Nodup) (hreserved : ∀ key ∈ unit.map keyOf, g key = .reserved)
    (options : SendOptions) :
    Follows protocol g (deliverUnit d request keyOf unit options)
      (AfterGroup g (unit.map keyOf)) := by
  have hgroup := follows_deliverGroup d request keyOf hquiet unit hne hnodup hreserved options
  match unit with
  | [] => exact hgroup
  | [asset] =>
    refine (follows_deliverOne d request keyOf hquiet asset (hreserved _ (by simp)) options).bind ?_
    rintro item g' rfl
    refine follows_pure ?_
    by_cases hfailed : durableOutcome item.status = .failed
    · exact .inl ⟨by simpa using hfailed, by simp [afterItem, hfailed]⟩
    · exact .inr ⟨by simpa using hfailed, by simp [afterItem, hfailed]⟩
  | first :: second :: rest => exact hgroup

private theorem zip_keys_sublist (unit : List DeliveryAsset) (items : List DeliveredItem) :
    ((unit.zip items).map fun pair => keyOf pair.1).Sublist (unit.map keyOf) := by
  induction unit generalizing items with
  | nil => simp
  | cons asset unit ih =>
    cases items with
    | nil => simp
    | cons item items => exact (ih items).cons_cons _

private theorem finalizable_zip {g g' : Phases} {unit : List DeliveryAsset}
    {items : List DeliveredItem} (hreserved : ∀ key ∈ unit.map keyOf, g key = .reserved)
    (hafter : AfterGroup g (unit.map keyOf) items g') : Finalizable keyOf g' (unit.zip items) := by
  intro pair hpair
  obtain ⟨hasset, hitem⟩ := List.of_mem_zip hpair
  have hmem : keyOf pair.1 ∈ unit.map keyOf := List.mem_map_of_mem hasset
  rcases hafter with ⟨hfailed, rfl⟩ | ⟨hsent, rfl⟩
  · exact .inl ⟨hreserved _ hmem, hfailed _ hitem⟩
  · exact .inr ⟨Phases.setAll_of_mem hmem, hsent _ hitem⟩

private theorem follows_deliverUnits {g : Phases} (hquiet : Quiet g) (options : SendOptions)
    (unitIndex : Nat) (units : List (List DeliveryAsset)) (hne : ∀ unit ∈ units, unit ≠ [])
    (hnodup : (units.flatten.map keyOf).Nodup)
    (hfresh : ∀ key ∈ units.flatten.map keyOf, g key = .fresh) (results : Results) :
    Follows protocol g (deliverUnits d request keyOf options unitIndex units results)
      fun _ _ => True := by
  induction units generalizing g unitIndex results with
  | nil => exact follows_pure trivial
  | cons unit units ih =>
    rw [List.flatten_cons, List.map_append] at hnodup hfresh
    obtain ⟨hunit, hunits, hdisjoint⟩ := List.nodup_append.mp hnodup
    refine Follows.bind (Q := fun _ g' => g' = g.setAll (unit.map keyOf) .reserved) ?_ ?_
    · refine Follows.bind (Q := fun started g' => started = true →
        g' = g.setAll (unit.map keyOf) .reserved) ?_ ?_
      · refine follows_attempt (P := protocol)
          ⟨hunit, fun key hkey => hfresh key (List.mem_append_left _ hkey)⟩ ?_
        rintro response started hresponse rfl
        obtain rfl : response = .ok true := hresponse
        rfl
      · intro started g' hstarted
        exact follows_ite (fun h => follows_pure (hstarted h)) fun _ => follows_raise
    · rintro - g₁ rfl
      have hquiet₁ : Quiet (g.setAll (unit.map keyOf) .reserved) := hquiet.setAll _ (by simp)
      have hreserved : ∀ key ∈ unit.map keyOf,
          g.setAll (unit.map keyOf) .reserved key = .reserved :=
        fun key hkey => Phases.setAll_of_mem hkey
      refine (follows_deliverUnit d request keyOf hquiet₁ unit (hne unit List.mem_cons_self) hunit
        hreserved _).bind ?_
      intro items g₂ hafter
      have hkeys := zip_keys_sublist keyOf unit items
      have hquiet₂ : Quiet g₂ := by
        rcases hafter with ⟨-, rfl⟩ | ⟨-, rfl⟩
        · exact hquiet₁
        · exact hquiet₁.setAll _ (by simp)
      refine (follows_recordUnit keyOf hquiet₂ (hunit.sublist hkeys)
        (finalizable_zip keyOf hreserved hafter) results).bind ?_
      rintro results g₃ ⟨hquiet₃, hsame⟩
      refine ih hquiet₃ (unitIndex + 1) (fun other hother => hne other
        (List.mem_cons_of_mem _ hother)) hunits ?_ results
      intro key hkey
      have hnotUnit : key ∉ unit.map keyOf := fun hmem => hdisjoint key hmem key hkey rfl
      have hkept : g₂ key = g key := by
        rcases hafter with ⟨-, rfl⟩ | ⟨-, rfl⟩
        · rw [Phases.setAll_of_notMem hnotUnit]
        · rw [Phases.setAll_of_notMem hnotUnit, Phases.setAll_of_notMem hnotUnit]
      rw [hsame key fun hmem => hnotUnit (hkeys.subset hmem), hkept]
      exact hfresh key (List.mem_append_right _ hkey)

private theorem follows_priorOutcomes {g : Phases} (hquiet : Quiet g) (assets : List DeliveryAsset)
    (hnodup : (assets.map keyOf).Nodup) (hidle : ∀ key ∈ assets.map keyOf, g key = .unknown)
    (results : Results) :
    Follows protocol g (priorOutcomes keyOf assets results) fun result g' =>
      Quiet g' ∧ SameOutside (assets.map keyOf) g g' ∧ result.2.Sublist assets ∧
        ∀ key ∈ result.2.map keyOf, g' key = .fresh := by
  induction assets generalizing g results with
  | nil => exact follows_pure ⟨hquiet, fun key _ => rfl, List.Sublist.refl _, by simp⟩
  | cons asset assets ih =>
    rw [List.map_cons, List.nodup_cons] at hnodup
    have hself : g (keyOf asset) = .unknown := hidle _ (by simp)
    have hrest (phase : Phase) : ∀ key ∈ assets.map keyOf,
        g.setAll [keyOf asset] phase key = .unknown := by
      intro key hkey
      have hne : key ∉ [keyOf asset] := by
        rw [List.mem_singleton]
        rintro rfl
        exact hnodup.1 hkey
      rw [Phases.setAll_of_notMem hne]
      exact hidle key (List.mem_cons_of_mem _ hkey)
    have houtside {phase : Phase} {g' : Phases}
        (hsame : SameOutside (assets.map keyOf) (g.setAll [keyOf asset] phase) g') :
        SameOutside ((asset :: assets).map keyOf) g g' := by
      intro key hkey
      rw [List.map_cons, List.mem_cons, not_or] at hkey
      rw [hsame key hkey.2, Phases.setAll_of_notMem (by simpa using hkey.1)]
    have hskip (results : Results) : Follows protocol (g.setAll [keyOf asset] .unknown)
        (priorOutcomes keyOf assets results) fun result g' =>
          Quiet g' ∧ SameOutside ((asset :: assets).map keyOf) g g' ∧
            result.2.Sublist (asset :: assets) ∧ ∀ key ∈ result.2.map keyOf, g' key = .fresh := by
      refine (ih (hquiet.setAll _ (by simp)) hnodup.2 (hrest .unknown) results).mono ?_
      rintro result g' ⟨hquiet', hsame, hsub, hfresh⟩
      exact ⟨hquiet', houtside hsame, hsub.cons _, hfresh⟩
    have htake : Follows protocol (g.setAll [keyOf asset] .fresh)
        (priorOutcomes keyOf assets results >>= fun prior =>
          Pure.pure (prior.1, asset :: prior.2)) fun result g' =>
          Quiet g' ∧ SameOutside ((asset :: assets).map keyOf) g g' ∧
            result.2.Sublist (asset :: assets) ∧ ∀ key ∈ result.2.map keyOf, g' key = .fresh := by
      refine (ih (hquiet.setAll _ (by simp)) hnodup.2 (hrest .fresh) results).bind ?_
      rintro ⟨results, pending⟩ g' ⟨hquiet', hsame, hsub, hfresh⟩
      refine follows_pure ⟨hquiet', houtside hsame, hsub.cons_cons _, ?_⟩
      intro key hkey
      rcases List.mem_cons.mp hkey with rfl | hkey
      · rw [hsame _ hnodup.1]
        exact Phases.setAll_of_mem (by simp)
      · exact hfresh key hkey
    refine Follows.bind (Q := fun prior g' => g' = nextPhases g (.deliveryOutcome (keyOf asset))
      (.ok prior)) ?_ ?_
    · refine follows_attempt (P := protocol) (by simp [protocol, allows, hself, Phase.held]) ?_
      intro response prior hresponse
      obtain rfl : response = .ok prior := hresponse
      rfl
    · rintro prior g' rfl
      cases prior with
      | none => exact htake
      | some outcome =>
        cases outcome with
        | success => exact hskip _
        | failed => exact htake
        | uncertain => exact hskip _

/-- The items of one call have distinct indexes. -/
def DistinctIndexes (media : List DeliveryAsset) : Prop :=
  ((normalizeAssets media).map DeliveryAsset.index).Nodup

/-- A delivery keeps the discipline from start to end. -/
theorem follows_deliver (sha256 : String → String) {media : List DeliveryAsset}
    (hdistinct : DistinctIndexes media) (target : DeliveryTarget) (operationKey : Option String)
    (options : SendOptions) :
    Follows protocol .idle (deliver d request sha256 media target operationKey options)
      fun _ _ => True := by
  have hnodup : ((normalizeAssets media).map
      (durableItemKey sha256 target request operationKey)).Nodup := by
    apply List.pairwise_map.mpr
    refine (List.pairwise_map.mp hdistinct).imp ?_
    intro a b hne heq
    exact hne (durableItemKey_injective sha256 heq)
  refine follows_ite (fun _ => follows_pure trivial) fun _ => ?_
  refine (follows_priorOutcomes _ (fun key id => by simp) _ hnodup
    (fun key _ => rfl) []).bind ?_
  rintro ⟨results, pending⟩ g ⟨hquiet, -, hsub, hfresh⟩
  refine (follows_deliverUnits d request _ hquiet options 0 (deliveryUnits pending)
    (deliveryUnits_ne_nil pending) ?_ ?_ results).bind fun _ _ _ => follows_pure trivial
  · rw [deliveryUnits_flatten]
    exact hnodup.sublist (hsub.map _)
  · rw [deliveryUnits_flatten]
    exact hfresh

theorem follows_retryFailed (sha256 : String → String) (receipt : DeliveryReceipt)
    {media : List DeliveryAsset} (hdistinct : DistinctIndexes media) (target : DeliveryTarget)
    (operationKey : Option String) (options : SendOptions) :
    Follows protocol .idle
      (retryFailed d request sha256 receipt media target operationKey options)
      fun _ _ => True := by
  refine follows_deliver d request sha256 ?_ target operationKey options
  rw [DistinctIndexes, normalizeAssets_filter]
  exact hdistinct.sublist (List.filter_sublist.map _)

end Deliver

end YtdlBot.Delivery
