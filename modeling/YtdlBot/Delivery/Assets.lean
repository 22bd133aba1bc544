import YtdlBot.JobStore.Schema

/-!
# Assets and delivery units

What `TelegramDelivery` is given, how it names each item in the receipt table, and how it cuts
the items into Bot API calls.
-/

namespace YtdlBot.Delivery

open JobStore (DeliveryOutcome str)

inductive MediaKind where
  | auto
  | video
  | audio
  | photo
  | animation
  | document
  | album
deriving DecidableEq, Repr

def MediaKind.value : MediaKind → String
  | .auto => "auto"
  | .video => "video"
  | .audio => "audio"
  | .photo => "photo"
  | .animation => "animation"
  | .document => "document"
  | .album => "album"

structure MediaItem where
  mediaId : String
  kind : MediaKind
deriving DecidableEq, Repr

/-- `MediaSource` of the delivery module: a local path, a URL, bytes in memory, or a stream. -/
inductive MediaSource where
  | path (path : String)
  | url (url : String)
  | bytes (length : Nat)
  | stream
deriving DecidableEq, Repr

structure DeliveryAsset where
  item : MediaItem
  source : Option MediaSource
  itemIndex : Option Nat
  sizeBytes : Option Nat
deriving DecidableEq, Repr

structure DeliveryTarget where
  destination : String
deriving DecidableEq, Repr

structure MediaRequest where
  cacheKey : String
deriving DecidableEq, Repr

inductive DeliveryStatus where
  | pending
  | success
  | delivered
  | failed
  | uncertain
  | partially
deriving DecidableEq, Repr

structure DeliveredItem where
  item : MediaItem
  status : DeliveryStatus
  telegramType : MediaKind
  itemIndex : Nat
  messageId : Option Int
  fileId : Option String
  fileUniqueId : Option String
  deliveryId : Option String
  error : Option String
  errorCategory : Option String
deriving DecidableEq, Repr

structure DeliveryReceipt where
  target : DeliveryTarget
  items : List DeliveredItem
  status : DeliveryStatus
deriving DecidableEq, Repr

def DeliveryReceipt.retryableItems (receipt : DeliveryReceipt) : List DeliveredItem :=
  receipt.items.filter fun item => item.status = .failed

section Normalize

def normalizeFrom : Nat → List DeliveryAsset → List DeliveryAsset
  | _, [] => []
  | index, asset :: assets =>
    (if asset.itemIndex = none then { asset with itemIndex := some index } else asset) ::
      normalizeFrom (index + 1) assets

/-- An asset without an index takes its position. -/
def normalizeAssets (media : List DeliveryAsset) : List DeliveryAsset := normalizeFrom 0 media

/-- `asset.item_index or 0`. -/
def DeliveryAsset.index (asset : DeliveryAsset) : Nat := asset.itemIndex.getD 0

theorem normalizeFrom_eq_self {start : Nat} {media : List DeliveryAsset}
    (h : ∀ asset ∈ media, asset.itemIndex ≠ none) : normalizeFrom start media = media := by
  induction media generalizing start with
  | nil => rfl
  | cons asset media ih =>
    rw [normalizeFrom, if_neg (h asset List.mem_cons_self),
      ih fun other hother => h other (List.mem_cons_of_mem _ hother)]

theorem normalizeFrom_index {start : Nat} {media : List DeliveryAsset} :
    ∀ asset ∈ normalizeFrom start media, asset.itemIndex ≠ none := by
  induction media generalizing start with
  | nil => simp [normalizeFrom]
  | cons asset media ih =>
    intro other hother
    rcases List.mem_cons.mp hother with rfl | hother
    · split
      · simp
      · assumption
    · exact ih other hother

theorem normalizeAssets_filter (media : List DeliveryAsset) (keep : DeliveryAsset → Bool) :
    normalizeAssets ((normalizeAssets media).filter keep) = (normalizeAssets media).filter keep :=
  normalizeFrom_eq_self fun asset hasset =>
    normalizeFrom_index asset (List.mem_of_mem_filter hasset)

end Normalize

section Keys

variable (sha256 : String → String)

/-- The name of an item in the receipts of its job. -/
def durableItemKey (target : DeliveryTarget) (request : Option MediaRequest)
    (operationKey : Option String) (asset : DeliveryAsset) : String :=
  match request, operationKey with
  | some request, _ =>
    target.destination ++ ":request:" ++ request.cacheKey ++ ":" ++ str asset.index
  | none, some operationKey =>
    target.destination ++ ":operation:" ++ sha256 operationKey ++ ":" ++ str asset.index
  | none, none => target.destination ++ ":" ++ str asset.index ++ ":" ++ asset.item.mediaId

private theorem colon_not_mem_str (n : Nat) : ':' ∉ (str n).toList := by
  intro hmem
  have hnat : (str n).isNat = true := Nat.isNat_repr n
  have hdigit := (String.isNat_iff.mp hnat).2.1 ':' hmem
  simp at hdigit

private theorem takeWhile_colon (n : Nat) (rest : List Char) :
    ((str n).toList ++ (":".toList ++ rest)).takeWhile (· ≠ ':') = (str n).toList := by
  have hdigits : ∀ c ∈ (str n).toList, decide (c ≠ ':') = true := by
    intro c hc
    have hne : c ≠ ':' := fun heq => colon_not_mem_str n (heq ▸ hc)
    exact decide_eq_true hne
  rw [List.takeWhile_append_of_pos hdigits]
  simp

theorem durableItemKey_injective {target : DeliveryTarget} {request : Option MediaRequest}
    {operationKey : Option String} {a b : DeliveryAsset}
    (h : durableItemKey sha256 target request operationKey a =
      durableItemKey sha256 target request operationKey b) : a.index = b.index := by
  have hstr : str a.index = str b.index := by
    unfold durableItemKey at h
    cases request with
    | some request => exact String.append_right_inj _ |>.mp h
    | none =>
      cases operationKey with
      | some operationKey => exact String.append_right_inj _ |>.mp h
      | none =>
        have hlist := congrArg String.toList h
        simp only [String.toList_append, List.append_assoc, List.append_cancel_left_eq] at hlist
        have hcut := congrArg (List.takeWhile (· ≠ ':')) hlist
        rw [takeWhile_colon, takeWhile_colon] at hcut
        exact String.toList_injective hcut
  have hint : (a.index : Int) = (b.index : Int) := JobStore.str_injective hstr
  exact Int.ofNat.inj hint

end Keys

section Units

def MAX_TELEGRAM_ALBUM_SIZE : Nat := 10

/-- The `while` loop: every round takes at least nine items, so the fuel never runs out. -/
def albumChunksFrom : Nat → List DeliveryAsset → List (List DeliveryAsset)
  | 0, assets => [assets]
  | fuel + 1, assets =>
    if MAX_TELEGRAM_ALBUM_SIZE < assets.length then
      let take := if assets.length - MAX_TELEGRAM_ALBUM_SIZE = 1 then MAX_TELEGRAM_ALBUM_SIZE - 1
        else MAX_TELEGRAM_ALBUM_SIZE
      assets.take take :: albumChunksFrom fuel (assets.drop take)
    else [assets]

def albumChunks (assets : List DeliveryAsset) : List (List DeliveryAsset) :=
  albumChunksFrom assets.length assets

/-- `None` for a kind that is sent alone. -/
def MediaKind.family : MediaKind → Option String
  | .photo | .video => some "visual"
  | .audio => some "audio"
  | .document => some "document"
  | _ => none

def flush (pending : List DeliveryAsset) : List (List DeliveryAsset) :=
  if pending = [] then [] else albumChunks pending

def deliveryUnitsFrom :
    List DeliveryAsset → Option String → List DeliveryAsset → List (List DeliveryAsset)
  | pending, _, [] => flush pending
  | pending, pendingFamily, asset :: assets =>
    match asset.item.kind.family with
    | none => flush pending ++ [asset] :: deliveryUnitsFrom [] none assets
    | some family =>
      if pendingFamily ≠ none ∧ pendingFamily ≠ some family then
        flush pending ++ deliveryUnitsFrom [asset] (some family) assets
      else deliveryUnitsFrom (pending ++ [asset]) (some family) assets

/-- Contiguous albums without reordering. -/
def deliveryUnits (assets : List DeliveryAsset) : List (List DeliveryAsset) :=
  deliveryUnitsFrom [] none assets

theorem albumChunksFrom_flatten (fuel : Nat) (assets : List DeliveryAsset) :
    (albumChunksFrom fuel assets).flatten = assets := by
  induction fuel generalizing assets with
  | zero => simp [albumChunksFrom]
  | succ fuel ih =>
    rw [albumChunksFrom]
    split
    · rw [List.flatten_cons, ih, List.take_append_drop]
    · simp

theorem flush_flatten (pending : List DeliveryAsset) : (flush pending).flatten = pending := by
  unfold flush
  split
  · rename_i hempty
    rw [hempty]
    rfl
  · exact albumChunksFrom_flatten _ _

theorem deliveryUnitsFrom_flatten (pending : List DeliveryAsset) (family : Option String)
    (assets : List DeliveryAsset) :
    (deliveryUnitsFrom pending family assets).flatten = pending ++ assets := by
  induction assets generalizing pending family with
  | nil => simp [deliveryUnitsFrom, flush_flatten]
  | cons asset assets ih =>
    rw [deliveryUnitsFrom]
    split
    · simp [flush_flatten, ih]
    · split
      · simp [flush_flatten, ih]
      · simp [ih]

/-- The units are the assets in their order. -/
theorem deliveryUnits_flatten (assets : List DeliveryAsset) :
    (deliveryUnits assets).flatten = assets :=
  deliveryUnitsFrom_flatten [] none assets

theorem albumChunksFrom_ne_nil {fuel : Nat} {assets : List DeliveryAsset} (h : assets ≠ []) :
    ∀ unit ∈ albumChunksFrom fuel assets, unit ≠ [] := by
  induction fuel generalizing assets with
  | zero => simpa [albumChunksFrom] using h
  | succ fuel ih =>
    rw [albumChunksFrom]
    split
    · rename_i hlong
      intro unit hunit
      have htake {n : Nat} (hn : 0 < n) : assets.take n ≠ [] := by
        rw [ne_eq, List.take_eq_nil_iff, not_or]
        exact ⟨hn.ne', h⟩
      have hdrop {n : Nat} (hn : n ≤ MAX_TELEGRAM_ALBUM_SIZE) : assets.drop n ≠ [] := by
        rw [ne_eq, List.drop_eq_nil_iff]
        omega
      have hsize : 1 < MAX_TELEGRAM_ALBUM_SIZE := by decide
      rcases List.mem_cons.mp hunit with rfl | hunit
      · apply htake
        split <;> omega
      · refine ih (hdrop ?_) unit hunit
        split <;> omega
    · simpa using h

theorem flush_ne_nil (pending : List DeliveryAsset) : ∀ unit ∈ flush pending, unit ≠ [] := by
  unfold flush
  split
  · simp
  · rename_i hpending
    exact albumChunksFrom_ne_nil hpending

theorem deliveryUnitsFrom_ne_nil (pending : List DeliveryAsset) (family : Option String)
    (assets : List DeliveryAsset) :
    ∀ unit ∈ deliveryUnitsFrom pending family assets, unit ≠ [] := by
  induction assets generalizing pending family with
  | nil => exact flush_ne_nil pending
  | cons asset assets ih =>
    rw [deliveryUnitsFrom]
    split
    · simp only [List.mem_append, List.mem_cons]
      rintro unit (hunit | rfl | hunit)
      · exact flush_ne_nil pending unit hunit
      · simp
      · exact ih _ _ unit hunit
    · split
      · intro unit hunit
        rcases List.mem_append.mp hunit with hunit | hunit
        · exact flush_ne_nil pending unit hunit
        · exact ih _ _ unit hunit
      · exact ih _ _

theorem deliveryUnits_ne_nil (assets : List DeliveryAsset) :
    ∀ unit ∈ deliveryUnits assets, unit ≠ [] :=
  deliveryUnitsFrom_ne_nil [] none assets

end Units

section Receipt

def durableOutcome : DeliveryStatus → DeliveryOutcome
  | .success | .delivered => .success
  | .uncertain => .uncertain
  | _ => .failed

def aggregateStatus (items : List DeliveredItem) : DeliveryStatus :=
  if items = [] then .failed
  else if items.all fun item => item.status = .success || item.status = .delivered then .success
  else if items.all fun item => item.status = .failed then .failed
  else if items.all fun item => item.status = .uncertain then .uncertain
  else .partially

end Receipt

end YtdlBot.Delivery
