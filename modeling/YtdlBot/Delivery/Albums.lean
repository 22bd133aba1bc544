import YtdlBot.Delivery.Assets

/-!
# Albums

How `_delivery_units` cuts a sequence of assets: in order, by media family, and every run of one
family into as few albums as possible, none with a lone item.
-/

namespace YtdlBot.Delivery

def DeliveryAsset.family (asset : DeliveryAsset) : Option String := asset.item.kind.family

section Chunks

theorem length_le_of_flatten {α : Type} {parts : List (List α)} {n : Nat}
    (h : ∀ part ∈ parts, part.length ≤ n) : parts.flatten.length ≤ n * parts.length := by
  induction parts with
  | nil => exact Nat.zero_le _
  | cons part parts ih =>
    have hpart := h part List.mem_cons_self
    have hparts := ih fun other hother => h other (List.mem_cons_of_mem _ hother)
    rw [List.flatten_cons, List.length_append, List.length_cons, Nat.mul_succ]
    omega

/-- As many albums as needed, and a lone item only on its own. -/
structure Chunked (assets : List DeliveryAsset) (chunks : List (List DeliveryAsset)) : Prop where
  count : chunks.length = (assets.length + 9) / 10
  size : ∀ chunk ∈ chunks, 1 ≤ chunk.length ∧ chunk.length ≤ 10
  lone : ∀ chunk ∈ chunks, chunk.length = 1 → assets.length = 1

theorem chunked_singleton {assets : List DeliveryAsset} (hpos : 1 ≤ assets.length)
    (hle : assets.length ≤ 10) : Chunked assets [assets] := by
  refine ⟨?_, fun chunk hchunk => ?_, fun chunk hchunk hone => ?_⟩
  · rw [List.length_singleton]
    omega
  · obtain rfl := List.mem_singleton.mp hchunk
    exact ⟨hpos, hle⟩
  · obtain rfl := List.mem_singleton.mp hchunk
    exact hone

theorem Chunked.cons {assets : List DeliveryAsset} {chunks : List (List DeliveryAsset)} {take : Nat}
    (hlong : 10 < assets.length) (htake : take = if assets.length - 10 = 1 then 9 else 10)
    (h : Chunked (assets.drop take) chunks) : Chunked assets (assets.take take :: chunks) := by
  have hsize : take = 9 ∧ assets.length = 11 ∨ take = 10 ∧ 12 ≤ assets.length := by
    split at htake <;> omega
  have hcount := h.count
  have hlone := h.lone
  rw [List.length_drop] at hcount hlone
  have hlength : (assets.take take).length = take := by
    rw [List.length_take]
    omega
  refine ⟨?_, fun chunk hchunk => ?_, fun chunk hchunk hone => ?_⟩
  · rw [List.length_cons]
    omega
  · rcases List.mem_cons.mp hchunk with rfl | hrest
    · omega
    · exact h.size chunk hrest
  · rcases List.mem_cons.mp hchunk with rfl | hrest
    · omega
    · have hrest := hlone chunk hrest hone
      omega

theorem albumChunksFrom_chunked (fuel : Nat) (assets : List DeliveryAsset)
    (hpos : 1 ≤ assets.length) (hfuel : assets.length ≤ fuel) :
    Chunked assets (albumChunksFrom fuel assets) := by
  induction fuel generalizing assets with
  | zero => omega
  | succ fuel ih =>
    rw [albumChunksFrom]
    by_cases hlong : MAX_TELEGRAM_ALBUM_SIZE < assets.length
    · rw [if_pos hlong]
      have hmax : MAX_TELEGRAM_ALBUM_SIZE = 10 := rfl
      rw [hmax] at hlong ⊢
      refine Chunked.cons hlong rfl (ih _ ?_ ?_) <;> rw [List.length_drop] <;> split <;> omega
    · rw [if_neg hlong]
      exact chunked_singleton hpos (Nat.le_of_not_lt hlong)

theorem albumChunks_chunked {assets : List DeliveryAsset} (h : assets ≠ []) :
    Chunked assets (albumChunks assets) :=
  albumChunksFrom_chunked _ assets (List.length_pos_of_ne_nil h) (le_refl _)

theorem albumChunks_flatten (assets : List DeliveryAsset) : (albumChunks assets).flatten = assets :=
  albumChunksFrom_flatten _ assets

theorem albumChunks_minimal {assets : List DeliveryAsset} (h : assets ≠ [])
    (parts : List (List DeliveryAsset)) (hparts : parts.flatten = assets)
    (hsize : ∀ part ∈ parts, part.length ≤ 10) : (albumChunks assets).length ≤ parts.length := by
  have hcount := (albumChunks_chunked h).count
  have hle := length_le_of_flatten hsize
  rw [hparts] at hle
  omega

end Chunks

section Runs

/-- The family of the items in hand after some more assets. -/
def lastFamily : Option String → List DeliveryAsset → Option String
  | family, [] => family
  | _, asset :: assets => lastFamily asset.family assets

/-- The next asset does not go on with the family in hand. -/
def Breaks (family : Option String) (assets : List DeliveryAsset) : Prop :=
  ∀ f, family = some f → ∀ asset ∈ assets.head?, asset.family ≠ some f

theorem lastFamily_of_ne_nil {family : Option String} {assets : List DeliveryAsset} {f : String}
    (h : lastFamily family assets = some f) :
    assets = [] ∨ ∃ asset ∈ assets.getLast?, asset.family = some f := by
  induction assets generalizing family with
  | nil => exact .inl rfl
  | cons asset assets ih =>
    refine .inr ?_
    rcases ih h with hnil | ⟨last, hlast, hf⟩
    · subst hnil
      exact ⟨asset, rfl, h⟩
    · exact ⟨last, List.mem_getLast?_cons hlast, hf⟩

theorem deliveryUnitsFrom_breaks {pending assets : List DeliveryAsset} (family : Option String)
    (hpending : family = none → pending = []) (h : Breaks family assets) :
    deliveryUnitsFrom pending family assets = flush pending ++ deliveryUnits assets := by
  cases family with
  | none =>
    rw [hpending rfl]
    rfl
  | some f =>
    cases assets with
    | nil =>
      rw [deliveryUnits, deliveryUnitsFrom, deliveryUnitsFrom]
      exact (List.append_nil _).symm
    | cons asset assets =>
      have hne : asset.item.kind.family ≠ some f := h f rfl asset rfl
      rw [deliveryUnits, deliveryUnitsFrom, deliveryUnitsFrom]
      cases hg : asset.item.kind.family with
      | none => rfl
      | some g =>
        rw [hg] at hne
        have hother : some f ≠ none ∧ some f ≠ some g := ⟨by simp, hne.symm⟩
        simp only [if_pos hother]
        rfl

theorem deliveryUnitsFrom_append {pending : List DeliveryAsset} {family : Option String}
    (before assets : List DeliveryAsset) (hpending : family = none → pending = [])
    (h : Breaks (lastFamily family before) assets) :
    deliveryUnitsFrom pending family (before ++ assets) =
      deliveryUnitsFrom pending family before ++ deliveryUnits assets := by
  induction before generalizing pending family with
  | nil => exact deliveryUnitsFrom_breaks family hpending h
  | cons asset before ih =>
    rw [List.cons_append, deliveryUnitsFrom, deliveryUnitsFrom]
    cases hg : asset.item.kind.family with
    | none =>
      have hfamily : asset.family = none := hg
      rw [lastFamily, hfamily] at h
      simp only [ih (fun _ => rfl) h, List.append_assoc, List.cons_append]
    | some g =>
      have hfamily : asset.family = some g := hg
      rw [lastFamily, hfamily] at h
      have hmore : ∀ pending', deliveryUnitsFrom pending' (some g) (before ++ assets) =
          deliveryUnitsFrom pending' (some g) before ++ deliveryUnits assets :=
        fun pending' => ih (by simp) h
      simp only [hmore]
      split
      · rw [List.append_assoc]
      · rfl

theorem deliveryUnitsFrom_run {pending run after : List DeliveryAsset} {f : String}
    (hrun : ∀ asset ∈ run, asset.family = some f) :
    deliveryUnitsFrom pending (some f) (run ++ after) =
      deliveryUnitsFrom (pending ++ run) (some f) after := by
  induction run generalizing pending with
  | nil => rw [List.nil_append, List.append_nil]
  | cons asset run ih =>
    have hg : asset.item.kind.family = some f := hrun asset List.mem_cons_self
    rw [List.cons_append, deliveryUnitsFrom, hg]
    have hsame : ¬ (some f ≠ none ∧ some f ≠ some f) := fun hne => hne.2 rfl
    simp only [if_neg hsame]
    rw [ih fun other hother => hrun other (List.mem_cons_of_mem _ hother), List.append_assoc,
      List.singleton_append]

theorem deliveryUnits_run {run after : List DeliveryAsset} {f : String} (hne : run ≠ [])
    (hrun : ∀ asset ∈ run, asset.family = some f) (hafter : ∀ asset ∈ after.head?, asset.family ≠ some f) :
    deliveryUnits (run ++ after) = albumChunks run ++ deliveryUnits after := by
  have hstart : deliveryUnits (run ++ after) = deliveryUnitsFrom run (some f) after := by
    cases run with
    | nil => exact absurd rfl hne
    | cons asset run =>
      have hg : asset.item.kind.family = some f := hrun asset List.mem_cons_self
      rw [List.cons_append, deliveryUnits, deliveryUnitsFrom, hg]
      have hnone : ¬ ((none : Option String) ≠ none ∧ (none : Option String) ≠ some f) :=
        fun h => h.1 rfl
      simp only [if_neg hnone]
      exact deliveryUnitsFrom_run fun other hother => hrun other (List.mem_cons_of_mem _ hother)
  have hbreaks : Breaks (some f) after := by
    intro g hg asset hasset
    obtain rfl := Option.some.inj hg
    exact hafter asset hasset
  have hsome : (some f : Option String) = none → run = [] := by simp
  rw [hstart, deliveryUnitsFrom_breaks (some f) hsome hbreaks, flush, if_neg hne]

theorem deliveryUnits_append (before assets : List DeliveryAsset)
    (h : ∀ f, (∃ asset ∈ before.getLast?, asset.family = some f) →
      ∀ asset ∈ assets.head?, asset.family ≠ some f) :
    deliveryUnits (before ++ assets) = deliveryUnits before ++ deliveryUnits assets := by
  refine deliveryUnitsFrom_append before assets (fun _ => rfl) fun f hf => ?_
  rcases lastFamily_of_ne_nil hf with hnil | hlast
  · subst hnil
    cases hf
  · exact h f hlast

theorem deliveryUnits_alone {asset : DeliveryAsset} (after : List DeliveryAsset)
    (h : asset.family = none) : deliveryUnits (asset :: after) = [asset] :: deliveryUnits after := by
  have hg : asset.item.kind.family = none := h
  rw [deliveryUnits, deliveryUnitsFrom, hg]
  rfl

end Runs

section Families

/-- The items of a unit are of one family, or it is an item that is sent alone. -/
def OneFamily (unit : List DeliveryAsset) : Prop :=
  (∃ f, ∀ asset ∈ unit, asset.family = some f) ∨ ∃ asset, unit = [asset] ∧ asset.family = none

theorem flush_units {pending : List DeliveryAsset} {f : String}
    (hpending : ∀ asset ∈ pending, asset.family = some f) :
    ∀ unit ∈ flush pending, unit.length ≤ 10 ∧ OneFamily unit := by
  intro unit hunit
  unfold flush at hunit
  split at hunit
  · cases hunit
  next hne =>
    refine ⟨((albumChunks_chunked hne).size unit hunit).2, .inl ⟨f, fun asset hasset => ?_⟩⟩
    refine hpending asset ?_
    rw [← albumChunks_flatten pending]
    exact List.mem_flatten.mpr ⟨unit, hunit, hasset⟩

theorem deliveryUnitsFrom_units {pending assets : List DeliveryAsset} {family : Option String}
    (hnone : family = none → pending = [])
    (hpending : ∀ f, family = some f → ∀ asset ∈ pending, asset.family = some f) :
    ∀ unit ∈ deliveryUnitsFrom pending family assets, unit.length ≤ 10 ∧ OneFamily unit := by
  have hflush : ∀ {pending : List DeliveryAsset} {family : Option String},
      (family = none → pending = []) →
        (∀ f, family = some f → ∀ asset ∈ pending, asset.family = some f) →
          ∀ unit ∈ flush pending, unit.length ≤ 10 ∧ OneFamily unit := by
    intro pending family hnone hpending
    cases family with
    | none =>
      rw [hnone rfl]
      intro unit hunit
      cases hunit
    | some f => exact flush_units (hpending f rfl)
  induction assets generalizing pending family with
  | nil => exact hflush hnone hpending
  | cons asset assets ih =>
    rw [deliveryUnitsFrom]
    intro unit hunit
    cases hg : asset.item.kind.family with
    | none =>
      simp only [hg] at hunit
      rcases List.mem_append.mp hunit with hleft | hright
      · exact hflush hnone hpending unit hleft
      · rcases List.mem_cons.mp hright with rfl | hrest
        · exact ⟨Nat.le_of_ble_eq_true rfl, .inr ⟨asset, rfl, hg⟩⟩
        · exact ih (fun _ => rfl) (by simp) unit hrest
    | some g =>
      simp only [hg] at hunit
      split at hunit
      · rcases List.mem_append.mp hunit with hleft | hright
        · exact hflush hnone hpending unit hleft
        · have hsome : (some g : Option String) = none → [asset] = [] := by simp
          refine ih hsome (fun f hf other hother => ?_) unit hright
          obtain rfl := Option.some.inj hf
          obtain rfl := List.mem_singleton.mp hother
          exact hg
      next hsame =>
        have hsome : (some g : Option String) = none → pending ++ [asset] = [] := by
          simp
        refine ih hsome (fun f hf other hother => ?_) unit hunit
        obtain rfl := Option.some.inj hf
        rcases List.mem_append.mp hother with hold | hnew
        · cases family with
          | none =>
            rw [hnone rfl] at hold
            cases hold
          | some f =>
            have heq : f = g := by
              by_contra hne
              exact hsame ⟨by simp, fun h => hne (Option.some.inj h)⟩
            exact heq ▸ hpending f rfl other hold
        · obtain rfl := List.mem_singleton.mp hnew
          exact hg

end Families

/-- The units are the assets in their order, each an album of one family. An asset without a
family is a unit, and a maximal run of one family is cut into as few units as possible, a lone item
only when the run is one. -/
structure Partitioned (assets : List DeliveryAsset) (units : List (List DeliveryAsset)) : Prop where
  order : units.flatten = assets
  size : ∀ unit ∈ units, 1 ≤ unit.length ∧ unit.length ≤ 10
  family : ∀ unit ∈ units, OneFamily unit
  alone : ∀ before asset after, assets = before ++ asset :: after → asset.family = none →
    ∃ earlier later, units = earlier ++ [asset] :: later ∧ earlier.flatten = before ∧
      later.flatten = after
  run : ∀ before run after f, assets = before ++ (run ++ after) → run ≠ [] →
    (∀ asset ∈ run, asset.family = some f) → (∀ asset ∈ before.getLast?, asset.family ≠ some f) →
    (∀ asset ∈ after.head?, asset.family ≠ some f) →
    ∃ earlier albums later, units = earlier ++ (albums ++ later) ∧ earlier.flatten = before ∧
      albums.flatten = run ∧ later.flatten = after ∧ albums.length = (run.length + 9) / 10 ∧
      (∀ parts : List (List DeliveryAsset), parts.flatten = run →
        (∀ part ∈ parts, part.length ≤ 10) → albums.length ≤ parts.length) ∧
      ∀ album ∈ albums, album.length = 1 → run.length = 1

theorem deliveryUnits_partition (assets : List DeliveryAsset) :
    Partitioned assets (deliveryUnits assets) where
  order := deliveryUnits_flatten assets
  size := fun unit hunit => ⟨List.length_pos_of_ne_nil (deliveryUnits_ne_nil assets unit hunit),
    (deliveryUnitsFrom_units (fun _ => rfl) (fun _ _ _ h => nomatch h) unit hunit).1⟩
  family := fun unit hunit =>
    (deliveryUnitsFrom_units (fun _ => rfl) (fun _ _ _ h => nomatch h) unit hunit).2
  alone := by
    intro before asset after hassets hfamily
    have hborder : deliveryUnits assets = deliveryUnits before ++ [asset] :: deliveryUnits after := by
      rw [hassets, deliveryUnits_append, deliveryUnits_alone after hfamily]
      rintro f - other hother
      obtain rfl := Option.some.inj hother
      rw [hfamily]
      exact fun heq => nomatch heq
    exact ⟨_, _, hborder, deliveryUnits_flatten before, deliveryUnits_flatten after⟩
  run := by
    intro before run after f hassets hne hrun hbefore hafter
    have hborder : deliveryUnits assets =
        deliveryUnits before ++ (albumChunks run ++ deliveryUnits after) := by
      rw [hassets, deliveryUnits_append, deliveryUnits_run hne hrun hafter]
      rintro g ⟨last, hlast, hg⟩ head hhead heq
      have hfirst : head ∈ run := by
        cases run with
        | nil => exact absurd rfl hne
        | cons first rest =>
          obtain rfl := Option.some.inj hhead
          exact List.mem_cons_self
      have hfg : f = g := Option.some.inj ((hrun head hfirst).symm.trans heq)
      exact hbefore last hlast (hg.trans (congrArg some hfg.symm))
    have hchunked := albumChunks_chunked hne
    exact ⟨_, _, _, hborder, deliveryUnits_flatten before, albumChunks_flatten run,
      deliveryUnits_flatten after, hchunked.count, albumChunks_minimal hne, hchunked.lone⟩

end YtdlBot.Delivery
