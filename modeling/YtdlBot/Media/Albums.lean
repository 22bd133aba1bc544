import Mathlib.Algebra.Ring.Int.Defs
import YtdlBot.Framework.Fallible
import YtdlBot.Media.Candidates

/-!
# Albums

A request may select items of an album by their positions. What is accepted can be projected to the
selection, and every item is then downloaded by one source of its own.
-/

namespace YtdlBot.Media

open Framework
open MediaCache (MediaKind MediaRequest)

inductive CandidateRejectionReason where
  | mediaIdMismatch
  | videoUnavailable
  | kindMismatch
  | albumIncomplete
  | albumSelectionUnavailable
  | watermarkPresent
  | watermarkUnknown
  | qualityTooLow
  | audioUnavailable
  | audioFormatUnavailable
  | audioLanguageUnavailable
  | authScopeMismatch
deriving DecidableEq

/-- `MediaResolutionError` with its text. -/
structure MediaResolutionError where
  text : String
deriving DecidableEq

section Functions

variable {τ : Type}

def kindIsCompatible (request : MediaRequest) (candidate : MediaCandidate τ) : Bool :=
  match candidate.kind with
  | none => request.kind = .auto || request.kind = .video || request.kind = .audio
  | some offered =>
    if request.kind = .auto then
      offered = .video || offered = .photo || offered = .animation || offered = .album
    else if request.kind = .audio then offered = .audio || offered = .video
    else offered = request.kind

/-- The reasons to reject a candidate; without any it is usable. -/
def validateCandidate (request : MediaRequest) (candidate : MediaCandidate τ) :
    List CandidateRejectionReason :=
  let when (condition : Bool) (reason : CandidateRejectionReason) :=
    if condition then [reason] else []
  let audioFormat := request.audioFormat.filter fun format => format ≠ ""
  let audioLanguage := request.audioLanguage.filter fun language => language ≠ ""
  when (candidate.mediaId.any fun mediaId => mediaId ≠ request.mediaId) .mediaIdMismatch ++
  when (candidate.authScope ≠ request.authScope) .authScopeMismatch ++
  when (!kindIsCompatible request candidate) .kindMismatch ++
  when (request.isExact && !candidate.complete &&
    (request.kind = .album || candidate.kind = some .album)) .albumIncomplete ++
  when (request.albumSelection ≠ [] &&
    if candidate.items = [] then request.albumSelection ≠ [0]
    else request.albumSelection.any fun index => index < 0 || (candidate.items.length : Int) ≤ index)
    .albumSelectionUnavailable ++
  (if request.isExact && !request.watermarkAllowed then
    match candidate.watermarkFree with
    | some false => [.watermarkPresent]
    | none => [.watermarkUnknown]
    | some true => []
  else []) ++
  when (request.kind = .video && !candidate.hasVideo) .videoUnavailable ++
  when (request.kind ≠ .audio && request.quality.maxEdge.any fun maxEdge =>
    min (candidate.width.getD 0) (candidate.height.getD 0) < maxEdge) .qualityTooLow ++
  if (request.kind = .audio || request.audioFormat.isSome || request.audioLanguage.isSome) &&
      !candidate.hasAudio then [.audioUnavailable]
  else if audioFormat.any fun format => format ∉ candidate.audioFormats then
    [.audioFormatUnavailable]
  else when (audioLanguage.any fun language => language ∉ candidate.audioLanguages)
    .audioLanguageUnavailable

/-- The entry of `{source.url: source for source in sources}`. -/
def sourceByUrl (sources : List (MediaSource τ)) (url : String) : Option (MediaSource τ) :=
  sources.reverse.find? fun source => source.url = url

/-- The source of the item at `index`. -/
def sourceOf (sources : List (MediaSource τ)) (item : MediaItem τ) (index : Nat) : MediaSource τ :=
  match sourceByUrl sources item.url with
  | some source => { source with formatId := toString index }
  | none => plainSource (toString index) item.url item.container item.filesizeBytes

def sourcesOf (sources : List (MediaSource τ)) (items : List (MediaItem τ)) : List (MediaSource τ) :=
  items.mapIdx fun index item => sourceOf sources item index

def projectAlbumSelection (request : MediaRequest) (candidate : MediaCandidate τ) :
    Except MediaResolutionError (MediaCandidate τ) :=
  let selection := request.albumSelection
  let provider := textOr candidate.provider "provider"
  if selection = [] then .ok candidate
  else if selection.any fun index => index < 0 then
    .error ⟨provider ++ ": album selection is out of range"⟩
  else if candidate.items = [] then
    if selection = [0] then .ok candidate
    else .error ⟨provider ++ ": album selection is unavailable"⟩
  else
    match selection.mapM fun index => candidate.items[index.toNat]? with
    | none => .error ⟨provider ++ ": album selection is out of range"⟩
    | some items =>
      .ok { candidate with items := items, sources := sourcesOf candidate.sources items }

/-- A candidate as it is materialized. -/
def normalized (candidate : MediaCandidate τ) : MediaCandidate τ :=
  if candidate.items = [] then candidate
  else { candidate with sources := sourcesOf candidate.sources candidate.items }

def materializationCandidates (candidates : List (MediaCandidate τ)) :
    Except MediaResolutionError (List (MediaCandidate τ)) :=
  if candidates = [] then .error ⟨"resolved media contains no candidates"⟩
  else .ok (candidates.map normalized)

end Functions

section Sources

variable {τ : Type} {sources : List (MediaSource τ)} {items : List (MediaItem τ)} {item : MediaItem τ}
  {index : Nat}

theorem sourceOf_url : (sourceOf sources item index).url = item.url := by
  unfold sourceOf
  split
  next source hsource => simpa using List.find?_some hsource
  · rfl

theorem sourceOf_formatId : (sourceOf sources item index).formatId = toString index := by
  unfold sourceOf
  split <;> rfl

theorem length_sourcesOf : (sourcesOf sources items).length = items.length := by
  simp [sourcesOf]

theorem getElem?_sourcesOf :
    (sourcesOf sources items)[index]? = items[index]?.map fun item => sourceOf sources item index := by
  simp [sourcesOf]

/-- A source per item, in the order of the items. -/
def OneSourcePerItem (sources : List (MediaSource τ)) (items : List (MediaItem τ)) : Prop :=
  sources.length = items.length ∧
    ∀ (index : Nat) (source : MediaSource τ), sources[index]? = some source →
      ∃ item, items[index]? = some item ∧ source.url = item.url ∧ source.formatId = toString index

theorem oneSource_sourcesOf : OneSourcePerItem (sourcesOf sources items) items := by
  refine ⟨length_sourcesOf, fun index source hsource => ?_⟩
  rw [getElem?_sourcesOf] at hsource
  obtain ⟨item, hitem, rfl⟩ := Option.map_eq_some_iff.mp hsource
  exact ⟨item, hitem, sourceOf_url, sourceOf_formatId⟩

theorem sourceByUrl_of_nodup {source : MediaSource τ} (hnodup : (sources.map MediaSource.url).Nodup)
    (hmem : source ∈ sources) : sourceByUrl sources source.url = some source := by
  cases hfound : sourceByUrl sources source.url with
  | none =>
    have hnone := List.find?_eq_none.mp hfound _ (List.mem_reverse.mpr hmem)
    simp at hnone
  | some found =>
    have hurl : found.url = source.url := by simpa using List.find?_some hfound
    have hfoundMem := List.mem_reverse.mp (List.mem_of_find?_eq_some hfound)
    rw [List.inj_on_of_nodup_map hnodup hfoundMem hmem hurl]

theorem sourceByUrl_sourcesOf (hitem : item ∈ items) : ∃ (last : MediaItem τ) (index : Nat),
    last ∈ items ∧ last.url = item.url ∧
      sourceByUrl (sourcesOf sources items) item.url = some (sourceOf sources last index) := by
  obtain ⟨position, hposition⟩ := List.mem_iff_getElem?.mp hitem
  have hmem : sourceOf sources item position ∈ sourcesOf sources items := by
    refine List.mem_iff_getElem?.mpr ⟨position, ?_⟩
    rw [getElem?_sourcesOf, hposition, Option.map_some]
  cases hfound : sourceByUrl (sourcesOf sources items) item.url with
  | none =>
    have hnone := List.find?_eq_none.mp hfound _ (List.mem_reverse.mpr hmem)
    simp [sourceOf_url] at hnone
  | some source =>
    have hurl : source.url = item.url := by simpa using List.find?_some hfound
    have hsource := List.mem_reverse.mp (List.mem_of_find?_eq_some hfound)
    obtain ⟨index, hindex⟩ := List.mem_iff_getElem?.mp hsource
    rw [getElem?_sourcesOf] at hindex
    obtain ⟨last, hlast, rfl⟩ := Option.map_eq_some_iff.mp hindex
    exact ⟨last, index, List.mem_of_getElem? hlast, sourceOf_url.symm.trans hurl, rfl⟩

/-- Items that share a URL which no source has are of one container and one size. -/
def Consistent (sources : List (MediaSource τ)) (items : List (MediaItem τ)) : Prop :=
  ∀ item ∈ items, ∀ other ∈ items, item.url = other.url → sourceByUrl sources item.url = none →
    item.container = other.container ∧ item.filesizeBytes = other.filesizeBytes

theorem sourceOf_known {source : MediaSource τ} (hknown : sourceByUrl sources item.url = some source) :
    sourceOf sources item index = { source with formatId := toString index } := by
  simp [sourceOf, hknown]

theorem sourceOf_unknown (hunknown : sourceByUrl sources item.url = none) :
    sourceOf sources item index =
      plainSource (toString index) item.url item.container item.filesizeBytes := by
  simp [sourceOf, hunknown]

theorem sourceOf_again (hitem : item ∈ items) : ∃ last ∈ items, last.url = item.url ∧
    ∀ (other : MediaItem τ) (index : Nat), other.url = item.url →
      (sourceOf (sourcesOf sources items) other index = sourceOf sources other index ↔
        (sourceByUrl sources item.url = none →
          last.container = other.container ∧ last.filesizeBytes = other.filesizeBytes)) := by
  obtain ⟨last, position, hlast, hurl, hfound⟩ := sourceByUrl_sourcesOf hitem
  refine ⟨last, hlast, hurl, fun other index hother => ?_⟩
  rw [← hother] at hfound hurl ⊢
  rw [sourceOf_known hfound]
  rcases Option.eq_none_or_eq_some (sourceByUrl sources other.url) with hnone | ⟨source, hsource⟩
  · rw [sourceOf_unknown hnone, sourceOf_unknown (hurl ▸ hnone)]
    simp [plainSource, hurl, hnone]
  · rw [sourceOf_known hsource, sourceOf_known (hurl ▸ hsource)]
    simp [hsource]

theorem sourcesOf_again : sourcesOf (sourcesOf sources items) items = sourcesOf sources items ↔
    Consistent sources items := by
  have hpointwise : sourcesOf (sourcesOf sources items) items = sourcesOf sources items ↔
      ∀ (index : Nat) item, items[index]? = some item →
        sourceOf (sourcesOf sources items) item index = sourceOf sources item index := by
    constructor
    · intro heq index item hitem
      have hindex := congrArg (fun l => l[index]?) heq
      simpa [getElem?_sourcesOf, hitem] using hindex
    · intro hall
      refine List.ext_getElem? fun index => ?_
      rw [getElem?_sourcesOf, getElem?_sourcesOf]
      cases hitem : items[index]? with
      | none => rfl
      | some item => rw [Option.map_some, Option.map_some, hall index item hitem]
  rw [hpointwise]
  constructor
  · intro hall item hitem other hother hurl hnone
    obtain ⟨last, -, -, hagain⟩ := sourceOf_again hitem
    obtain ⟨position, hposition⟩ := List.mem_iff_getElem?.mp hitem
    obtain ⟨otherPosition, hotherPosition⟩ := List.mem_iff_getElem?.mp hother
    have hsame := (hagain item position rfl).mp (hall position item hposition) hnone
    have hotherSame := (hagain other otherPosition hurl.symm).mp
      (hall otherPosition other hotherPosition) hnone
    exact ⟨hsame.1.symm.trans hotherSame.1, hsame.2.symm.trans hotherSame.2⟩
  · intro hconsistent index item hitem
    have hmem := List.mem_of_getElem? hitem
    obtain ⟨last, hlast, hurl, hagain⟩ := sourceOf_again hmem
    exact (hagain item index rfl).mpr fun hnone =>
      hconsistent last hlast item hmem hurl (hurl.symm ▸ hnone)

end Sources

section Selection

variable {τ : Type} {request : MediaRequest} {candidate projected : MediaCandidate τ}

theorem selection_of_usable (hvalid : validateCandidate request candidate = [])
    (hselection : request.albumSelection ≠ []) :
    (candidate.items = [] → request.albumSelection = [0]) ∧
      (candidate.items ≠ [] → ∀ index ∈ request.albumSelection,
        0 ≤ index ∧ index < candidate.items.length) := by
  simp only [validateCandidate, List.append_eq_nil_iff] at hvalid
  obtain ⟨⟨⟨⟨⟨-, hunavailable⟩, -⟩, -⟩, -⟩, -⟩ := hvalid
  constructor
  · intro hitems
    simpa [hselection, hitems] using hunavailable
  · intro hitems
    simpa [hselection, hitems] using hunavailable

/-- The items that the request asks for, in the order of the selection. -/
def selectedItems (request : MediaRequest) (candidate : MediaCandidate τ) :
    List (Option (MediaItem τ)) :=
  if request.albumSelection = [] ∨ candidate.items = [] then candidate.items.map some
  else request.albumSelection.map fun index => candidate.items[index.toNat]?

theorem exists_selected (items : List (MediaItem τ)) (selection : List Int)
    (hrange : ∀ index ∈ selection, 0 ≤ index ∧ index < items.length) :
    ∃ selected : List (MediaItem τ),
      selected.map some = selection.map fun index => items[index.toNat]? := by
  induction selection with
  | nil => exact ⟨[], rfl⟩
  | cons index selection ih =>
    obtain ⟨selected, hselected⟩ := ih fun other hother =>
      hrange other (List.mem_cons_of_mem _ hother)
    have hbounds := hrange index List.mem_cons_self
    have hlt : index.toNat < items.length := by omega
    refine ⟨items[index.toNat] :: selected, ?_⟩
    simp [hselected, List.getElem?_eq_getElem hlt]

theorem project_spec (h : projectAlbumSelection request candidate = .ok projected) :
    projected.items.map some = selectedItems request candidate ∧
      (request.albumSelection = [] ∨ candidate.items = [] → projected = candidate) ∧
      (request.albumSelection ≠ [] → candidate.items ≠ [] →
        projected.sources = sourcesOf candidate.sources projected.items) := by
  unfold projectAlbumSelection at h
  dsimp only at h
  split_ifs at h with hselection hneg hitems hzero
  · obtain rfl := Except.ok.inj h
    exact ⟨by simp [selectedItems, hselection], fun _ => rfl, fun hne => absurd hselection hne⟩
  · obtain rfl := Except.ok.inj h
    exact ⟨by simp [selectedItems, hitems], fun _ => rfl, fun _ hne => absurd hitems hne⟩
  · cases hselected : request.albumSelection.mapM fun index => candidate.items[index.toNat]? with
    | none => simp [hselected] at h
    | some selected =>
      rw [hselected] at h
      obtain rfl := Except.ok.inj h
      have hmap := (mapM_eq_some _ _ _).mp hselected
      refine ⟨?_, ?_, fun _ _ => rfl⟩
      · simpa [selectedItems, hselection, hitems] using hmap
      · simp [hselection, hitems]

theorem project_of_usable (hvalid : validateCandidate request candidate = []) :
    ∃ projected, projectAlbumSelection request candidate = .ok projected := by
  by_cases hselection : request.albumSelection = []
  · exact ⟨candidate, by simp [projectAlbumSelection, hselection]⟩
  obtain ⟨hempty, hrange⟩ := selection_of_usable hvalid hselection
  by_cases hitems : candidate.items = []
  · exact ⟨candidate, by simp [projectAlbumSelection, hempty hitems, hitems]⟩
  · have hnonneg : ¬ (request.albumSelection.any fun index => index < 0) = true := by
      intro hany
      obtain ⟨index, hindex, hneg⟩ := List.any_eq_true.mp hany
      have := hrange hitems index hindex
      simp only [decide_eq_true_eq] at hneg
      omega
    obtain ⟨selected, hmap⟩ := exists_selected candidate.items _ (hrange hitems)
    have hselected := (mapM_eq_some _ _ _).mpr hmap
    refine ⟨{ candidate with
      items := selected, sources := sourcesOf candidate.sources selected }, ?_⟩
    simp [projectAlbumSelection, hselection, hnonneg, hitems, hselected]

end Selection

section Normalized

variable {τ : Type} {candidates : List (MediaCandidate τ)} {candidate : MediaCandidate τ}

@[simp] theorem items_normalized : (normalized candidate).items = candidate.items := by
  unfold normalized
  split <;> rfl

theorem oneSource_normalized (hitems : candidate.items ≠ []) :
    OneSourcePerItem (normalized candidate).sources (normalized candidate).items := by
  rw [normalized, if_neg hitems]
  exact oneSource_sourcesOf

theorem normalized_again : normalized (normalized candidate) = normalized candidate ↔
    Consistent candidate.sources candidate.items := by
  by_cases hitems : candidate.items = []
  · have hsame : normalized candidate = candidate := if_pos hitems
    simp [hsame, Consistent, hitems]
  · have honce : normalized candidate =
        { candidate with sources := sourcesOf candidate.sources candidate.items } := if_neg hitems
    have htwice : normalized (normalized candidate) = { candidate with
        sources := sourcesOf (sourcesOf candidate.sources candidate.items) candidate.items } := by
      rw [honce]
      exact if_neg hitems
    rw [← sourcesOf_again, htwice, honce]
    constructor
    · intro hagain
      exact congrArg MediaCandidate.sources hagain
    · intro hsame
      rw [hsame]

theorem materializationCandidates_again (hcandidates : candidates ≠ []) :
    materializationCandidates (candidates.map normalized) = .ok (candidates.map normalized) ↔
      ∀ candidate ∈ candidates, Consistent candidate.sources candidate.items := by
  have hpass : materializationCandidates (candidates.map normalized) =
      .ok ((candidates.map normalized).map normalized) := by
    rw [materializationCandidates, if_neg (by simpa using hcandidates)]
  simp only [hpass, Except.ok.injEq, List.map_map, List.map_inj_left, Function.comp_apply,
    normalized_again]

end Normalized

end YtdlBot.Media
