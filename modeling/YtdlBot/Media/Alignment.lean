import YtdlBot.Media.Materialize

/-!
# Alignment

Validation, projection, normalisation, refresh, download and asset building index an album each in
its own way. Asset `i` is the `i`-th item with the bytes of its URL.
-/

namespace YtdlBot.Media

open Materialize
open MediaCache (MediaRequest)
open Framework.Json (FiniteFloat)

variable {τ : Type}

section Assets

variable {item : MaterializedItem τ} {index : Nat} {asset : DeliveryAsset τ}

theorem length_fromMaterialized : (fromMaterialized item).length = item.paths.length := by
  simp [fromMaterialized]

/-- As many files as items: an asset has the item and the file of its position. -/
theorem fromMaterialized_spec (hlength : item.candidate.items.length = item.paths.length)
    (hasset : (fromMaterialized item)[index]? = some asset) :
    item.candidate.items[index]? = some asset.item ∧ item.paths[index]? = some asset.source ∧
      asset.itemIndex = index := by
  simp only [fromMaterialized, List.getElem?_mapIdx, hlength, if_true] at hasset
  obtain ⟨path, hpath, rfl⟩ := Option.map_eq_some_iff.mp hasset
  have hlt : index < item.candidate.items.length := by
    rw [hlength]
    exact (List.getElem?_eq_some_iff.mp hpath).1
  refine ⟨?_, hpath, rfl⟩
  simp [List.getElem?_eq_getElem hlt]

/-- An asset carries what was fetched from the URL of its item. -/
def Carries (download : Download τ) (item : MaterializedItem τ) : Prop :=
  item.paths.length = item.candidate.items.length ∧
    (fromMaterialized item).length = item.candidate.items.length ∧
    ∀ (index : Nat) (asset : DeliveryAsset τ), (fromMaterialized item)[index]? = some asset →
      asset.itemIndex = index ∧ item.candidate.items[index]? = some asset.item ∧
      ∃ source : MediaSource τ, source.url = asset.item.url ∧
        download.fetch index source = .ok asset.source

theorem carries_of_download {download : Download τ} {request : MediaRequest}
    (hdownload : downloadCandidate download request item.candidate = .ok item)
    (halign : OneSourcePerItem item.candidate.sources item.candidate.items)
    (hitems : item.candidate.items ≠ []) (hmode : item.candidate.muxMode = none)
    (hclip : clipRequested request = false) : Carries download item := by
  have hfetch := (downloadCandidate_spec hdownload).2 hmode hclip
  have hsources : item.candidate.sources ≠ [] := by
    intro hempty
    have hlength := halign.1
    rw [hempty] at hlength
    exact hitems (List.length_eq_zero_iff.mp hlength.symm)
  rw [downloadSources, if_pos hsources] at hfetch
  obtain ⟨hlength, hall⟩ := fetchAll_spec hfetch
  have hfiles : item.paths.length = item.candidate.items.length := hlength.trans halign.1
  refine ⟨hfiles, length_fromMaterialized.trans hfiles, fun index asset hasset => ?_⟩
  obtain ⟨hitem, hpath, hindex⟩ := fromMaterialized_spec hfiles.symm hasset
  obtain ⟨source, hsource, hbytes⟩ := hall index asset.source hpath
  obtain ⟨found, hfound, hurl, -⟩ := halign.2 index source hsource
  obtain rfl := Option.some.inj (hfound.symm.trans hitem)
  exact ⟨hindex, hitem, source, hurl, by rwa [Nat.zero_add] at hbytes⟩

end Assets

section Normalised

variable {candidates result : List (MediaCandidate τ)}

theorem materializationCandidates_spec (h : materializationCandidates candidates = .ok result) :
    result = candidates.map normalized ∧ candidates ≠ [] := by
  unfold materializationCandidates at h
  split_ifs at h with hempty
  exact ⟨(Except.ok.inj h).symm, hempty⟩

theorem oneSource_of_mem (h : materializationCandidates candidates = .ok result) :
    ∀ candidate ∈ result, candidate.items ≠ [] →
      OneSourcePerItem candidate.sources candidate.items := by
  intro candidate hmem hitems
  rw [(materializationCandidates_spec h).1] at hmem
  obtain ⟨original, -, rfl⟩ := List.mem_map.mp hmem
  exact oneSource_normalized (by rwa [items_normalized] at hitems)

end Normalised

section Main

variable [LE τ] [DecidableLE τ] [Zero τ] (P : Gallery.Python τ)

/-- The items of a refreshed selection are those of the candidate it replaces. -/
theorem offered_items {request : MediaRequest} {a : Attempt τ} {candidate offered : MediaCandidate τ}
    (h : Offered P request a candidate offered) (hselection : request.albumSelection ≠ []) :
    offered.items.map (fun item => (item.mediaId, item.kind)) =
      candidate.items.map fun item => (item.mediaId, item.kind) := by
  rcases h with rfl | ⟨descriptor, -, -, hvalid⟩
  · rfl
  · unfold validateRefreshedCandidate at hvalid
    dsimp only at hvalid
    split_ifs at hvalid with haccepted
    simp only [Bool.and_eq_true, Bool.or_eq_true, decide_eq_true_eq] at haccepted
    exact (haccepted.1.2.resolve_left hselection).symm

theorem offered_aligned {request : MediaRequest} {a : Attempt τ} {candidate offered : MediaCandidate τ}
    (h : Offered P request a candidate offered) (hitems : offered.items ≠ [])
    (halign : candidate.items ≠ [] → OneSourcePerItem candidate.sources candidate.items) :
    OneSourcePerItem offered.sources offered.items := by
  rcases h with rfl | ⟨descriptor, -, hrefresh, -⟩
  · exact halign hitems
  · exact refreshOf_aligned hrefresh hitems

theorem albums_aligned (maxBytes : Int) (request : MediaRequest) :
    (∀ candidate : MediaCandidate τ, validateCandidate request candidate = [] →
      ∃ projected, projectAlbumSelection request candidate = .ok projected ∧
        projected.items.map some = selectedItems request candidate) ∧
    (∀ candidates result : List (MediaCandidate τ),
      materializationCandidates candidates = .ok result →
        result.map MediaCandidate.items = candidates.map MediaCandidate.items ∧
        (∀ candidate ∈ result, candidate.items ≠ [] →
          OneSourcePerItem candidate.sources candidate.items) ∧
        (materializationCandidates result = .ok result ↔
          ∀ candidate ∈ candidates, Consistent candidate.sources candidate.items) ∧
        ∀ (world : World τ) (item : MaterializedItem τ),
          materialize P maxBytes request result world = .ok item → item.candidate.items ≠ [] →
          item.candidate.muxMode = none → clipRequested request = false →
          ∃ candidate ∈ result, ∃ position,
            Offered P request (world.attempts position) candidate item.candidate ∧
            (request.albumSelection ≠ [] →
              item.candidate.items.map (fun item => (item.mediaId, item.kind)) =
                candidate.items.map fun item => (item.mediaId, item.kind)) ∧
            ∃ download ∈ [(world.attempts position).first, (world.attempts position).second],
              Carries download item) ∧
    (∀ (available : Bool) (extraction : Gallery.Extraction τ) (candidates : List (MediaCandidate τ))
        (candidate projected fresh : MediaCandidate τ) (descriptor : RefreshDescriptor)
        (attempt : Nat) (deadline : Option FiniteFloat) (expired : Bool),
      Gallery.resolve P available request extraction = .ok candidates → candidate ∈ candidates →
      (candidate.items.map MediaItem.url).Nodup →
      projectAlbumSelection request candidate = .ok projected →
      Gallery.refresh P available request descriptor attempt deadline expired extraction = .ok fresh →
      fresh.items = projected.items ∧ fresh.sources = projected.sources) := by
  refine ⟨fun candidate hvalid => ?_, fun candidates result hresult => ?_, ?_⟩
  · obtain ⟨projected, hprojected⟩ := project_of_usable hvalid
    exact ⟨projected, hprojected, (project_spec hprojected).1⟩
  · have haligned := oneSource_of_mem hresult
    obtain ⟨rfl, hcandidates⟩ := materializationCandidates_spec hresult
    refine ⟨by simp, haligned, materializationCandidates_again hcandidates, ?_⟩
    intro world item hmaterialize hitems hmode hclip
    obtain ⟨candidate, hcandidate, position, hattempt⟩ := materialize_spec hmaterialize
    obtain ⟨hoffered, download, hdownload, hrun⟩ := attempt_spec hattempt
    have halign := offered_aligned P hoffered hitems (haligned candidate hcandidate)
    exact ⟨candidate, hcandidate, position, hoffered, offered_items P hoffered, download, hdownload,
      carries_of_download hrun halign hitems hmode hclip⟩
  · intro available extraction candidates candidate projected fresh descriptor attempt deadline
      expired hresolve hmem hdistinct hproject hrefresh
    exact Gallery.refresh_project hresolve hmem hdistinct hproject hrefresh

end Main

section Pictures

def asciiPython : Gallery.Python Int where
  floatEq x n := x = n
  str
    | .str text => text
    | _ => ""
  int
    | .int n => .ok (some n)
    | _ => .ok none
  float
    | .int n => .ok (some n)
    | _ => .ok none
  lower text := String.ofList (text.toList.map Char.toLower)
  suffix _ := .ok ""

def requestOf (albumSelection : List Int) : MediaRequest where
  canonicalUrl := "https://www.pinterest.com/pin/7"
  platform := "pinterest"
  mediaId := "7"
  kind := .auto
  quality := ⟨none⟩
  audioFormat := none
  audioLanguage := none
  clip := ⟨none, none⟩
  albumSelection := albumSelection
  watermarkAllowed := true
  callerScope := "public"
  authScope := "public"
  isExact := false
  outputVariant := none
  deadline := none

def picture (mediaId url : String) : Gallery.Json Int :=
  .array [.int 3, .str url, .object [("id", .str mediaId), ("extension", .str "jpg")]]

def twoPictures : Gallery.Extraction Int := .ok ([picture "a" "u1", picture "b" "u2"], none)

def pictureItem (mediaId url : String) : MediaItem Int :=
  ⟨mediaId, .photo, url, none, none, none, none, some "jpg", none⟩

def pictureSource (formatId url : String) : MediaSource Int :=
  plainSource formatId url (some "jpg") none

def album (items : List (MediaItem Int)) (sources : List (MediaSource Int)) : MediaCandidate Int where
  candidateId := "gallery:a:b"
  url := "u1"
  width := none
  height := none
  hasVideo := false
  hasAudio := false
  audioFormats := []
  audioLanguages := []
  container := none
  filesizeBytes := none
  durationSeconds := none
  sources := sources
  complete := true
  muxMode := none
  refresh := some ⟨"gallery-dl", "7", "gallery:a:b", 1⟩
  provider := some "gallery-dl"
  mediaId := some "7"
  kind := some .album
  items := items
  authScope := "public"
  watermarkFree := none

def pictures : MediaCandidate Int :=
  album [pictureItem "a" "u1", pictureItem "b" "u2"] [pictureSource "0" "u1", pictureSource "1" "u2"]

def swapped : MediaCandidate Int :=
  album [pictureItem "b" "u2", pictureItem "a" "u1"] [pictureSource "0" "u2", pictureSource "1" "u1"]

/-- The second picture is two bytes long, the first one is one byte. -/
def fetchPicture (_ : Nat) (source : MediaSource Int) : Except Failure Bytes :=
  if source.url = "u2" then .ok [2, 2] else .ok [1]

def goodDownload : Download Int := ⟨.ok (), fetchPicture, .error .other, .ok ()⟩

def failingDownload : Download Int :=
  ⟨.ok (), fun _ _ => .error (.downloadFailed "media URL expired or denied"), .error .other, .ok ()⟩

/-- The first download fails, and the candidate is refreshed. -/
def refreshingWorld : World Int where
  entry := .ok ()
  urls _ := .ok ()
  attempts _ := ⟨failingDownload, true, .ok (), none, .error .other, true, false, twoPictures, .ok (),
    goodDownload⟩
  race := .error .other
  expired _ := false

theorem albums_aligned_swapped :
    (∃ projected, projectAlbumSelection (requestOf [1, 0]) pictures = .ok projected ∧
      projected.items.map some = [some (pictureItem "b" "u2"), some (pictureItem "a" "u1")]) ∧
    (∃ (item : MaterializedItem Int) (download : Download Int),
      materialize asciiPython 1000 (requestOf [1, 0]) [swapped] refreshingWorld = .ok item ∧
        item.paths = [[2, 2], [1]] ∧ Carries download item) ∧
    ∃ fresh projected : MediaCandidate Int,
      projectAlbumSelection (requestOf [1, 0]) pictures = .ok projected ∧
        Gallery.refresh asciiPython true (requestOf [1, 0]) ⟨"gallery-dl", "7", "gallery:a:b", 1⟩ 0
          none false twoPictures = .ok fresh ∧
        fresh.items = projected.items ∧ fresh.sources = projected.sources := by
  obtain ⟨hproject, hmaterialize, hrefresh⟩ := albums_aligned asciiPython 1000 (requestOf [1, 0])
  have hitem : materialize asciiPython 1000 (requestOf [1, 0]) [swapped] refreshingWorld =
      .ok ⟨[[2, 2], [1]], swapped⟩ := by decide +kernel
  have hprojected : projectAlbumSelection (requestOf [1, 0]) pictures = .ok swapped := by
    decide +kernel
  have hfresh : Gallery.refresh asciiPython true (requestOf [1, 0])
      ⟨"gallery-dl", "7", "gallery:a:b", 1⟩ 0 none false twoPictures = .ok swapped := by
    decide +kernel
  refine ⟨hproject pictures (by decide +kernel), ?_, swapped, swapped, hprojected, hfresh, ?_⟩
  · obtain ⟨-, -, -, hcarries⟩ := hmaterialize [swapped] [swapped] (by decide +kernel)
    obtain ⟨candidate, -, position, -, -, download, -, hdownload⟩ :=
      hcarries refreshingWorld _ hitem (by decide +kernel) rfl (by decide +kernel)
    exact ⟨_, download, hitem, rfl, hdownload⟩
  · exact hrefresh true twoPictures [pictures] pictures swapped swapped
      ⟨"gallery-dl", "7", "gallery:a:b", 1⟩ 0 none false (by decide +kernel) List.mem_cons_self
      (by decide +kernel) hprojected hfresh

/-- Two items of one URL in different containers, and no source. -/
def twoContainers : MediaCandidate Int :=
  album [{ pictureItem "a" "u1" with container := some "jpg" },
    { pictureItem "b" "u1" with container := some "png" }] []

theorem normalized_not_idempotent :
    ¬ ∀ (request : MediaRequest) (candidate projected : MediaCandidate Int)
        (result : List (MediaCandidate Int)), validateCandidate request candidate = [] →
      projectAlbumSelection request candidate = .ok projected →
      materializationCandidates [projected] = .ok result →
      materializationCandidates result = .ok result := by
  intro hclaim
  have hagain := hclaim (requestOf []) twoContainers twoContainers [normalized twoContainers]
    (by decide +kernel) rfl rfl
  exact absurd hagain (by decide +kernel)

end Pictures

end YtdlBot.Media
