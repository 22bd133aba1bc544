import YtdlBot.Media.Albums
import YtdlBot.Race.CircuitBreaker
import YtdlBot.Transport.Headers

/-!
# Galleries

`GalleryDlProvider`: the messages of an extraction become the items of one candidate, each with its
source. A refresh extracts again and projects the selection by position, while the pipeline projects
it by URL.
-/

namespace YtdlBot.Media.Gallery

open Framework
open MediaCache (MediaKind MediaRequest)
open Framework.Json (FiniteFloat)
open Race (FailureKind)

/-- A decoded value; the fields of an object have different names. -/
inductive Json (τ : Type) where
  | null
  | bool (value : Bool)
  | int (value : Int)
  | float (value : τ)
  | str (text : String)
  | array (values : List (Json τ))
  | object (fields : List (String × Json τ))

abbrev Fields (τ : Type) := List (String × Json τ)

inductive GalleryError where
  | provider (kind : FailureKind) (message : String)
  | timeout
  /-- An exception of a conversion or of an index. -/
  | other
deriving DecidableEq

/-- Conversions of the language; a `TypeError` or `ValueError` of a number is no number. -/
structure Python (τ : Type) where
  floatEq : τ → Int → Bool
  str : Json τ → String
  int : Json τ → Except GalleryError (Option Int)
  float : Json τ → Except GalleryError (Option τ)
  lower : String → String
  /-- `PurePosixPath(urlsplit(url).path).suffix` -/
  suffix : String → Except GalleryError String

structure MediaMessage (τ : Type) where
  url : String
  metadata : Fields τ
  kind : MediaKind
  container : Option String

section Functions

variable {τ : Type} (P : Python τ)

def equalsInt (value : Json τ) (n : Int) : Bool :=
  match value with
  | .bool b => (if b then 1 else 0) = n
  | .int m => m = n
  | .float x => P.floatEq x n
  | _ => false

def truthy : Json τ → Bool
  | .null => false
  | .bool b => b
  | .int n => n ≠ 0
  | .float x => !P.floatEq x 0
  | .str text => text ≠ ""
  | .array values => !values.isEmpty
  | .object fields => !fields.isEmpty

/-- `fields.get(name)` -/
def get (fields : Fields τ) (name : String) : Json τ := (fields.lookup name).getD .null

/-- `value or other` -/
def orElse (value other : Json τ) : Json τ := if truthy P value then value else other

def videoExtensions : List String := ["m4v", "mkv", "mov", "mp4", "webm"]

def animationExtensions : List String := ["gif"]

def photoExtensions : List String := ["avif", "bmp", "jpeg", "jpg", "png", "webp"]

def safeHeaderNames : List String :=
  ["accept", "accept-encoding", "accept-language", "origin", "referer", "user-agent"]

/-- `text.removeprefix(".")` -/
def removeDot (text : String) : String :=
  match text.toList with
  | '.' :: rest => String.ofList rest
  | _ => text

def kindAndContainer (url : String) (metadata : Fields τ) :
    Except GalleryError (Option MediaKind × Option String) := do
  let rawExtension := orElse P (get metadata "extension") (get metadata "ext")
  let extension ← if truthy P rawExtension then pure (removeDot (P.lower (P.str rawExtension)))
    else (P.suffix url).map fun suffix => removeDot (P.lower suffix)
  if extension ∈ videoExtensions then return (some .video, some extension)
  if extension ∈ animationExtensions then return (some .animation, some extension)
  if extension ∈ photoExtensions then return (some .photo, some extension)
  return (none, if extension = "" then none else some extension)

def mediaMessage : Json τ → Except GalleryError (Option (MediaMessage τ))
  | .array (first :: .str url :: .object metadata :: _) => do
    if equalsInt P first 3 then
      let (kind, container) ← kindAndContainer P url metadata
      return kind.map fun kind => ⟨url, metadata, kind, container⟩
    return none
  | _ => .ok none

def strip (text : String) : String := String.ofList (Transport.strip text.toList)

def safeHeaders (metadata : Fields τ) : List (String × String) :=
  match orElse P (get metadata "http_headers") (get metadata "_http_headers") with
  | .object fields =>
    let headers := fields.filterMap fun (name, value) =>
      let normalized := P.lower (strip name)
      let text := strip (P.str value)
      if normalized ∈ safeHeaderNames ∧ !normalized.contains '\r' ∧ !normalized.contains '\n' ∧
          !text.contains '\r' ∧ !text.contains '\n' then some (normalized, text) else none
    headers.mergeSort fun a b => a.1 < b.1 || (a.1 = b.1 && a.2 ≤ b.2)
  | _ => []

def positiveInt (value : Json τ) : Except GalleryError (Option Int) :=
  (P.int value).map fun number => number.filter fun number => 0 < number

def nonnegativeFloat [LE τ] [DecidableLE τ] [Zero τ] (value : Json τ) :
    Except GalleryError (Option τ) :=
  (P.float value).map fun number => number.filter fun number => 0 ≤ number

variable [LE τ] [DecidableLE τ] [Zero τ]

/-- The item of a message at its position, and its source. -/
def itemAndSource (request : MediaRequest) (proxyKey : Option String) (directory : Fields τ)
    (index : Nat) (message : MediaMessage τ) : Except GalleryError (MediaItem τ × MediaSource τ) := do
  let metadata := message.metadata
  let mediaId := P.str (orElse P (get metadata "id") (orElse P (get metadata "media_id")
    (orElse P (get metadata "filename") (.str (request.mediaId ++ ":" ++ toString index)))))
  let width ← positiveInt P (get metadata "width")
  let height ← positiveInt P (get metadata "height")
  let duration ← nonnegativeFloat P (get metadata "duration")
  let size ← positiveInt P (orElse P (get metadata "filesize") (get metadata "file_size"))
  let title := orElse P (get metadata "title") (get directory "title")
  return (⟨mediaId, message.kind, message.url, if truthy P title then some (P.str title) else none,
      duration, width, height, message.container, size⟩,
    { plainSource (toString index) message.url message.container size with
      httpHeaders := safeHeaders P metadata, proxyKey := proxyKey })

/-- The last value of a list. -/
def directoryMessage : Json τ → Option (Fields τ)
  | .array (first :: second :: rest) =>
    if equalsInt P first 2 then
      match (second :: rest).getLast (List.cons_ne_nil _ _) with
      | .object fields => some fields
      | _ => none
    else none
  | _ => none

/-- The loop over the messages, from the items and sources it has so far. -/
def collect (request : MediaRequest) (proxyKey : Option String) :
    List (Json τ) → Fields τ → List (MediaItem τ) → List (MediaSource τ) →
      Except GalleryError (List (MediaItem τ) × List (MediaSource τ))
  | [], _, items, sources => .ok (items, sources)
  | message :: messages, directory, items, sources =>
    match directoryMessage P message with
    | some fields => collect request proxyKey messages fields items sources
    | none => do
      match ← mediaMessage P message with
      | none => collect request proxyKey messages directory items sources
      | some media =>
        let (item, source) ← itemAndSource P request proxyKey directory items.length media
        collect request proxyKey messages directory (items ++ [item]) (sources ++ [source])

/-- What the extraction ends with: the messages and the key of the proxy. -/
abbrev Extraction (τ : Type) := Except GalleryError (List (Json τ) × Option String)

def providerName : String := "gallery-dl"

def supports (available : Bool) (request : MediaRequest) : Bool :=
  available && request.authScope = "public" &&
    request.platform ∈ ["tiktok", "instagram", "facebook", "pinterest"] &&
    (request.kind = .auto || request.kind = .video || request.kind = .photo ||
      request.kind = .animation || request.kind = .album)

/-- The candidate of an extraction. -/
def galleryCandidate (request : MediaRequest) (items : List (MediaItem τ))
    (sources : List (MediaSource τ)) (first : MediaItem τ) (kind : MediaKind) : MediaCandidate τ :=
  let candidateId := "gallery:" ++ ":".intercalate (items.map MediaItem.mediaId)
  let single (value : Option Int) := if items.length = 1 then value else none
  { candidateId := candidateId
    url := first.url
    width := single first.width
    height := single first.height
    hasVideo := items.any fun item => item.kind = .video || item.kind = .animation
    hasAudio := items.any fun item => item.kind = .video
    audioFormats := []
    audioLanguages := []
    container := if items.length = 1 then first.container else none
    filesizeBytes := single first.filesizeBytes
    durationSeconds := if items.length = 1 then first.durationSeconds else none
    sources := sources
    complete := true
    muxMode := none
    refresh := some ⟨providerName, request.mediaId, candidateId, 1⟩
    provider := some providerName
    mediaId := some request.mediaId
    kind := some kind
    items := items
    authScope := "public"
    watermarkFree := none }

def resolve (available : Bool) (request : MediaRequest) (extraction : Extraction τ) :
    Except GalleryError (List (MediaCandidate τ)) :=
  if !supports available request then .ok []
  else do
    let (messages, proxyKey) ← extraction
    let (items, sources) ← collect P request proxyKey messages [] [] []
    match items with
    | [] => .error (.provider .permanent "gallery-dl found no media")
    | first :: _ =>
      let kind := if items.length = 1 then first.kind else .album
      if request.kind ≠ .auto ∧ request.kind ≠ kind then return []
      return [galleryCandidate request items sources first kind]

/-- The selection of a refreshed candidate. -/
def selectAgain (request : MediaRequest) (candidate : MediaCandidate τ) :
    Except GalleryError (MediaCandidate τ) :=
  let selection := request.albumSelection
  if selection = [] then .ok candidate
  else if selection.any fun index => index < 0 || (candidate.items.length : Int) ≤ index then
    .error (.provider .permanent "gallery selection is out of range")
  else
    match selection.mapM fun index => candidate.items[index.toNat]?,
      selection.mapM fun index => candidate.sources[index.toNat]? with
    | some items, some sources =>
      .ok { candidate with
        items := items
        sources := sources.mapIdx fun output source => { source with formatId := toString output } }
    | _, _ => .error .other

/-- `refresh`; `extraction` is the second one, and `expired` says that it takes too long. -/
def refresh (available : Bool) (request : MediaRequest) (descriptor : RefreshDescriptor)
    (attempt : Nat) (deadline : Option FiniteFloat) (expired : Bool) (extraction : Extraction τ) :
    Except GalleryError (MediaCandidate τ) :=
  if descriptor.provider ≠ providerName ∨ descriptor.mediaId ≠ request.mediaId ∨ attempt ≠ 0 then
    .error (.provider .permanent "refresh identity mismatch")
  else if expired then .error .timeout
  else do
    let candidates ← resolve P available { request with deadline := deadline } extraction
    match candidates.find? fun candidate => candidate.candidateId = descriptor.variantId with
    | none => .error (.provider .permanent "requested gallery disappeared")
    | some candidate => selectAgain request candidate

end Functions

section Aligned

variable {τ : Type} {sources : List (MediaSource τ)} {items : List (MediaItem τ)}
  {source : MediaSource τ} {item : MediaItem τ}

theorem oneSource_append (halign : OneSourcePerItem sources items) (hurl : source.url = item.url)
    (hformat : source.formatId = toString items.length) :
    OneSourcePerItem (sources ++ [source]) (items ++ [item]) := by
  obtain ⟨hlength, hsources⟩ := halign
  refine ⟨by simp [hlength], fun index other hother => ?_⟩
  rcases Nat.lt_trichotomy index sources.length with hlt | heq | hgt
  · rw [List.getElem?_append_left hlt] at hother
    obtain ⟨item', hitem', hrest⟩ := hsources index other hother
    exact ⟨item', by rw [List.getElem?_append_left (hlength ▸ hlt), hitem'], hrest⟩
  · subst heq
    simp only [List.getElem?_concat_length, Option.some.injEq] at hother
    subst hother
    exact ⟨item, by simp [hlength], hurl, hlength ▸ hformat⟩
  · have hlong : (sources ++ [source]).length ≤ index := by
      rw [List.length_append, List.length_singleton]
      omega
    rw [List.getElem?_eq_none hlong] at hother
    cases hother

theorem urls_of_oneSource (halign : OneSourcePerItem sources items) :
    sources.map MediaSource.url = items.map MediaItem.url := by
  refine List.ext_getElem? fun index => ?_
  rw [List.getElem?_map, List.getElem?_map]
  cases hsource : sources[index]? with
  | none =>
    have hlong := List.getElem?_eq_none_iff.mp hsource
    rw [List.getElem?_eq_none (halign.1 ▸ hlong)]
    rfl
  | some source =>
    obtain ⟨item, hitem, hurl, -⟩ := halign.2 index source hsource
    rw [hitem, Option.map_some, Option.map_some, hurl]

theorem sourceOf_position {index : Nat} (halign : OneSourcePerItem sources items)
    (hdistinct : (items.map MediaItem.url).Nodup) (hitem : items[index]? = some item)
    (hsource : sources[index]? = some source) (output : Nat) :
    sourceOf sources item output = { source with formatId := toString output } := by
  obtain ⟨item', hitem', hurl, -⟩ := halign.2 index source hsource
  obtain rfl := Option.some.inj (hitem'.symm.trans hitem)
  refine sourceOf_known (hurl ▸ sourceByUrl_of_nodup ?_ (List.mem_of_getElem? hsource))
  rwa [urls_of_oneSource halign]

end Aligned

section Resolved

variable {τ : Type} {P : Python τ} [LE τ] [DecidableLE τ] [Zero τ] {request : MediaRequest}
  {proxyKey : Option String} {available : Bool} {extraction : Extraction τ}
  {candidates : List (MediaCandidate τ)} {candidate fresh : MediaCandidate τ}

theorem itemAndSource_spec {directory : Fields τ} {index : Nat} {message : MediaMessage τ}
    {item : MediaItem τ} {source : MediaSource τ}
    (h : itemAndSource P request proxyKey directory index message = .ok (item, source)) :
    source.url = item.url ∧ source.formatId = toString index := by
  unfold itemAndSource at h
  obtain ⟨width, -, h⟩ := bind_eq_ok h
  obtain ⟨height, -, h⟩ := bind_eq_ok h
  obtain ⟨duration, -, h⟩ := bind_eq_ok h
  obtain ⟨size, -, h⟩ := bind_eq_ok h
  obtain ⟨rfl, rfl⟩ := Prod.mk.inj (Except.ok.inj h)
  exact ⟨rfl, rfl⟩

theorem collect_aligned {messages : List (Json τ)} {directory : Fields τ}
    {items items' : List (MediaItem τ)} {sources sources' : List (MediaSource τ)}
    (h : collect P request proxyKey messages directory items sources = .ok (items', sources'))
    (halign : OneSourcePerItem sources items) : OneSourcePerItem sources' items' := by
  induction messages generalizing directory items sources with
  | nil =>
    obtain ⟨rfl, rfl⟩ := Prod.mk.inj (Except.ok.inj h)
    exact halign
  | cons message messages ih =>
    unfold collect at h
    cases hdirectory : directoryMessage P message with
    | some fields =>
      rw [hdirectory] at h
      exact ih h halign
    | none =>
      rw [hdirectory] at h
      obtain ⟨media, -, h⟩ := bind_eq_ok h
      cases media with
      | none => exact ih h halign
      | some media =>
        obtain ⟨⟨item, source⟩, hitem, h⟩ := bind_eq_ok h
        obtain ⟨hurl, hformat⟩ := itemAndSource_spec hitem
        exact ih h (oneSource_append halign hurl hformat)

/-- A gallery has one candidate at most, whose sources are aligned with its items. -/
theorem resolve_spec (h : resolve P available request extraction = .ok candidates)
    (hmem : candidate ∈ candidates) :
    candidates = [candidate] ∧ OneSourcePerItem candidate.sources candidate.items := by
  unfold resolve at h
  split_ifs at h with hsupports
  · obtain rfl := Except.ok.inj h
    cases hmem
  obtain ⟨⟨messages, proxyKey⟩, -, h⟩ := bind_eq_ok h
  obtain ⟨⟨items, sources⟩, hcollect, h⟩ := bind_eq_ok h
  have halign := collect_aligned hcollect ⟨rfl, fun index source hsource => by simp at hsource⟩
  cases items with
  | nil => cases h
  | cons first items =>
    dsimp only at h
    generalize (if (first :: items).length = 1 then first.kind else MediaKind.album) = kind at h
    split_ifs at h with hkind
    · obtain rfl := Except.ok.inj h
      cases hmem
    · obtain rfl := Except.ok.inj h
      obtain rfl := List.mem_singleton.mp hmem
      exact ⟨rfl, halign⟩

theorem collect_deadline (deadline : Option FiniteFloat) (messages : List (Json τ))
    (directory : Fields τ) (items : List (MediaItem τ)) (sources : List (MediaSource τ)) :
    collect P { request with deadline := deadline } proxyKey messages directory items sources =
      collect P request proxyKey messages directory items sources := by
  induction messages generalizing directory items sources with
  | nil => rfl
  | cons message messages ih =>
    simp only [collect, ih]
    rfl

/-- The deadline of a request only bounds the extraction. -/
theorem resolve_deadline (deadline : Option FiniteFloat) :
    resolve P available { request with deadline := deadline } extraction =
      resolve P available request extraction := by
  simp only [resolve, collect_deadline]
  rfl

omit [LE τ] [DecidableLE τ] [Zero τ] in
theorem selectAgain_spec (hselection : request.albumSelection ≠ [])
    (h : selectAgain request candidate = .ok fresh) :
    fresh.items.map some = request.albumSelection.map (fun index => candidate.items[index.toNat]?) ∧
      ∃ sources : List (MediaSource τ),
        sources.map some = request.albumSelection.map (fun index => candidate.sources[index.toNat]?) ∧
        fresh.sources = sources.mapIdx fun output source =>
          { source with formatId := toString output } := by
  unfold selectAgain at h
  dsimp only at h
  rw [if_neg hselection] at h
  split_ifs at h
  cases hitems : request.albumSelection.mapM fun index => candidate.items[index.toNat]? with
  | none => simp [hitems] at h
  | some items =>
    cases hsources : request.albumSelection.mapM fun index => candidate.sources[index.toNat]? with
    | none => simp [hitems, hsources] at h
    | some sources =>
      rw [hitems, hsources] at h
      obtain rfl := Except.ok.inj h
      exact ⟨(mapM_eq_some _ _ _).mp hitems, sources, (mapM_eq_some _ _ _).mp hsources, rfl⟩

omit [LE τ] [DecidableLE τ] [Zero τ] in
theorem selectAgain_aligned (halign : OneSourcePerItem candidate.sources candidate.items)
    (h : selectAgain request candidate = .ok fresh) : OneSourcePerItem fresh.sources fresh.items := by
  by_cases hselection : request.albumSelection = []
  · obtain rfl : candidate = fresh := by simpa [selectAgain, hselection] using h
    exact halign
  obtain ⟨hitems, sources, hsources, hfresh⟩ := selectAgain_spec hselection h
  rw [hfresh]
  have hlength : sources.length = fresh.items.length := by
    have hitemsLength := congrArg List.length hitems
    have hsourcesLength := congrArg List.length hsources
    simp only [List.length_map] at hitemsLength hsourcesLength
    omega
  refine ⟨by simpa using hlength, fun output source hsource => ?_⟩
  rw [List.getElem?_mapIdx] at hsource
  obtain ⟨found, hfound, rfl⟩ := Option.map_eq_some_iff.mp hsource
  rw [getElem?_of_map_some hsources] at hfound
  obtain ⟨index, hindex, hposition⟩ := Option.bind_eq_some_iff.mp hfound
  obtain ⟨item, hitem, hurl, -⟩ := halign.2 _ _ hposition
  refine ⟨item, ?_, hurl, rfl⟩
  rw [getElem?_of_map_some hitems, hindex]
  exact hitem

omit [LE τ] [DecidableLE τ] [Zero τ] in
/-- Selecting by position and selecting by URL agree where no two items share a URL. -/
theorem selectAgain_project {projected : MediaCandidate τ}
    (halign : OneSourcePerItem candidate.sources candidate.items)
    (hdistinct : (candidate.items.map MediaItem.url).Nodup)
    (hproject : projectAlbumSelection request candidate = .ok projected)
    (h : selectAgain request candidate = .ok fresh) :
    fresh.items = projected.items ∧ fresh.sources = projected.sources := by
  by_cases hselection : request.albumSelection = []
  · obtain rfl : candidate = fresh := by simpa [selectAgain, hselection] using h
    obtain rfl : candidate = projected := by
      simpa [projectAlbumSelection, hselection] using hproject
    exact ⟨rfl, rfl⟩
  obtain ⟨hitems, sources, hsources, hfresh⟩ := selectAgain_spec hselection h
  obtain ⟨hselected, -, hprojected⟩ := project_spec hproject
  have hnonempty : candidate.items ≠ [] := by
    intro hempty
    obtain ⟨index, rest, hcons⟩ := List.exists_cons_of_ne_nil hselection
    rw [hcons, hempty] at hitems
    cases hfreshItems : fresh.items <;> simp [hfreshItems] at hitems
  have hsame : fresh.items = projected.items := by
    rw [selectedItems, if_neg (by simp [hselection, hnonempty]), ← hitems] at hselected
    exact (List.map_injective_iff.mpr (Option.some_injective _) hselected).symm
  refine ⟨hsame, ?_⟩
  rw [hfresh, hprojected hselection hnonempty, ← hsame]
  refine List.ext_getElem? fun output => ?_
  rw [List.getElem?_mapIdx, getElem?_sourcesOf, getElem?_of_map_some hsources,
    getElem?_of_map_some hitems]
  cases hindex : request.albumSelection[output]? with
  | none => rfl
  | some index =>
    dsimp only [Option.bind_some]
    cases hsource : candidate.sources[index.toNat]? with
    | none =>
      have hlong := List.getElem?_eq_none_iff.mp hsource
      rw [List.getElem?_eq_none (halign.1 ▸ hlong)]
      rfl
    | some source =>
      obtain ⟨item, hitem, -⟩ := halign.2 _ _ hsource
      rw [hitem, Option.map_some, Option.map_some,
        sourceOf_position halign hdistinct hitem hsource output]

theorem refresh_spec {descriptor : RefreshDescriptor} {attempt : Nat} {deadline : Option FiniteFloat}
    {expired : Bool}
    (h : refresh P available request descriptor attempt deadline expired extraction = .ok fresh) :
    ∃ candidates candidate, resolve P available request extraction = .ok candidates ∧
      candidate ∈ candidates ∧ selectAgain request candidate = .ok fresh := by
  unfold refresh at h
  split_ifs at h
  obtain ⟨candidates, hresolve, h⟩ := bind_eq_ok h
  rw [resolve_deadline] at hresolve
  cases hfind : candidates.find? fun candidate => candidate.candidateId = descriptor.variantId with
  | none => simp [hfind] at h
  | some candidate =>
    rw [hfind] at h
    exact ⟨candidates, candidate, hresolve, List.mem_of_find?_eq_some hfind, h⟩

theorem refresh_aligned {descriptor : RefreshDescriptor} {attempt : Nat}
    {deadline : Option FiniteFloat} {expired : Bool}
    (h : refresh P available request descriptor attempt deadline expired extraction = .ok fresh) :
    OneSourcePerItem fresh.sources fresh.items := by
  obtain ⟨candidates, candidate, hresolve, hmem, hselect⟩ := refresh_spec h
  exact selectAgain_aligned (resolve_spec hresolve hmem).2 hselect

/-- What is refreshed from the same extraction is the candidate that was projected. -/
theorem refresh_project {projected : MediaCandidate τ} {descriptor : RefreshDescriptor}
    {attempt : Nat} {deadline : Option FiniteFloat} {expired : Bool}
    (hresolve : resolve P available request extraction = .ok candidates)
    (hmem : candidate ∈ candidates) (hdistinct : (candidate.items.map MediaItem.url).Nodup)
    (hproject : projectAlbumSelection request candidate = .ok projected)
    (hrefresh : refresh P available request descriptor attempt deadline expired extraction =
      .ok fresh) :
    fresh.items = projected.items ∧ fresh.sources = projected.sources := by
  obtain ⟨candidates', candidate', hresolve', hmem', hselect⟩ := refresh_spec hrefresh
  obtain rfl := Except.ok.inj (hresolve.symm.trans hresolve')
  obtain ⟨hsingle, halign⟩ := resolve_spec hresolve hmem
  rw [hsingle] at hmem'
  obtain rfl := List.mem_singleton.mp hmem'
  exact selectAgain_project halign hdistinct hproject hselect

end Resolved

end YtdlBot.Media.Gallery
