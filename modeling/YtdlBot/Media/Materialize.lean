import Mathlib.Algebra.GroupWithZero.Nat
import Mathlib.Algebra.Ring.Int.Defs
import YtdlBot.Media.Gallery

/-!
# Materialization

`MediaTransport.materialize` downloads the sources of a candidate, one file each, and the delivery
makes an asset of every file. What the network, the disk, ffmpeg and the clock answer is given.
-/

namespace YtdlBot.Media.Materialize

open Framework
open Framework.Json (FiniteFloat)
open MediaCache (MediaKind MediaRequest)

inductive Failure where
  | downloadFailed (message : String)
  | transferTimeout (message : String)
  | mediaSizeExceeded (message : String)
  /-- `MaterializationError`, or another class of it with its name. -/
  | materializationError (name message : String)
  /-- An exception that is no `MaterializationError`. -/
  | other
deriving DecidableEq

def Failure.name : Failure → Option String
  | .downloadFailed _ => some "DownloadFailed"
  | .transferTimeout _ => some "TransferTimeout"
  | .mediaSizeExceeded _ => some "MediaSizeExceeded"
  | .materializationError name _ => some name
  | .other => none

abbrev Bytes := List UInt8

structure MaterializedItem (τ : Type) where
  paths : List Bytes
  candidate : MediaCandidate τ
deriving DecidableEq

/-- `size_bytes` -/
def MaterializedItem.sizeBytes {τ : Type} (media : MaterializedItem τ) : Nat :=
  (media.paths.map List.length).sum

structure DeliveryAsset (τ : Type) where
  item : MediaItem τ
  source : Bytes
  itemIndex : Nat
  sizeBytes : Nat
deriving DecidableEq

/-- What one download of a candidate meets. -/
structure Download (τ : Type) where
  reserve : Except Failure Unit
  /-- The body of the loop over the sources: checks, probe and stream. -/
  fetch : Nat → MediaSource τ → Except Failure Bytes
  /-- The transform with its reservation. -/
  transform : Except Failure Bytes
  /-- The checks of the finished files. -/
  accept : Except Failure Unit

/-- Candidates of yt-dlp have no items. -/
abbrev YtdlpCandidate (τ : Type) := { candidate : MediaCandidate τ // candidate.items = [] }

/-- What one attempt meets. -/
structure Attempt (τ : Type) where
  first : Download τ
  /-- No other attempt has refreshed its candidate. -/
  mayRefresh : Bool
  remaining : Except Failure Unit
  deadline : Option FiniteFloat
  ytdlp : Except Failure (YtdlpCandidate τ)
  galleryAvailable : Bool
  galleryExpired : Bool
  galleryExtraction : Gallery.Extraction τ
  urls : Except Failure Unit
  second : Download τ

/-- What a materialization meets; attempts go by the position of their candidate. -/
structure World (τ : Type) where
  /-- The time left, and the check of the canonical URL. -/
  entry : Except Failure Unit
  urls : Nat → Except Failure Unit
  attempts : Nat → Attempt τ
  /-- `_race_small` of the first two: which of them is handed over, and the errors. -/
  race : Except Failure (Option Bool × List Failure)
  expired : Nat → Bool

section Functions

variable {τ : Type}

def clipRequested (request : MediaRequest) : Bool :=
  request.clip.startSeconds.isSome || request.clip.endSeconds.isSome

def finalizeCandidate (transform : Except Failure Bytes) (request : MediaRequest)
    (candidate : MediaCandidate τ) (inputs : List Bytes) : Except Failure (List Bytes) :=
  let mode := candidate.muxMode
  if mode = none ∧ !clipRequested request then
    if 1 < inputs.length ∧ candidate.items = [] then
      .error (.downloadFailed "split media candidate omitted a mux plan")
    else .ok inputs
  else if candidate.items ≠ [] ∧ 1 < inputs.length then
    .error (.downloadFailed "album transforms require per-item plans")
  else if mode ∉ [none, some "copy", some "extract-mp3", some "mute-mp4"] then
    .error (.downloadFailed "unsupported media transform plan")
  else if mode = some "extract-mp3" ∧ inputs.length ≠ 1 then
    .error (.downloadFailed "MP3 extraction requires one source")
  else transform.map fun output => [output]

/-- The loop over the sources, the first of which has this number. -/
def fetchAll (fetch : Nat → MediaSource τ → Except Failure Bytes) :
    Nat → List (MediaSource τ) → Except Failure (List Bytes)
  | _, [] => .ok []
  | number, source :: sources => do
    let path ← fetch number source
    let paths ← fetchAll fetch (number + 1) sources
    return path :: paths

def downloadCandidate (download : Download τ) (request : MediaRequest)
    (candidate : MediaCandidate τ) : Except Failure (MaterializedItem τ) := do
  download.reserve
  let completed ← fetchAll download.fetch 0 (downloadSources candidate)
  let paths ← finalizeCandidate download.transform request candidate completed
  download.accept
  return ⟨paths, candidate⟩

def declaredSize (candidate : MediaCandidate τ) : Option Int :=
  match candidate.filesizeBytes with
  | some size => some size
  | none =>
    let sources := downloadSources candidate
    if sources.all fun source => source.filesizeBytes.isSome then
      some (sources.map fun source => source.filesizeBytes.getD 0).sum
    else none

def checkDeclaredSize (maxBytes : Int) (candidate : MediaCandidate τ) : Except Failure Unit :=
  if (declaredSize candidate).any fun declared => declared < 0 || maxBytes < declared then
    .error (.mediaSizeExceeded "declared media size exceeds configured limit")
  else .ok ()

def smallParallelLimit : Int := 20000000

def isSmall (candidate : MediaCandidate τ) : Bool :=
  (declaredSize candidate).any fun declared => declared ≤ smallParallelLimit

def validateRefreshedCandidate (request : MediaRequest) (original : MediaCandidate τ)
    (descriptor : RefreshDescriptor) (fresh : MediaCandidate τ) : Except Failure Unit :=
  let identityMatches := descriptor.maxAttempts = 1 && descriptor.mediaId = request.mediaId &&
    original.provider = some descriptor.provider && original.mediaId = some descriptor.mediaId &&
    original.candidateId = descriptor.variantId && fresh.provider = some descriptor.provider &&
    fresh.mediaId = some descriptor.mediaId && fresh.candidateId = descriptor.variantId &&
    fresh.authScope = request.authScope && fresh.authScope = original.authScope &&
    fresh.refresh = some descriptor
  let languagesMatch := !(request.platform = "youtube" && original.hasAudio &&
    original.audioLanguages ≠ []) || fresh.audioLanguages = original.audioLanguages
  let itemsMatch := request.albumSelection = [] ||
    original.items.map (fun item => (item.mediaId, item.kind)) =
      fresh.items.map fun item => (item.mediaId, item.kind)
  -- the original positions mean nothing in what has been projected
  if identityMatches && languagesMatch && itemsMatch &&
      validateCandidate { request with albumSelection := [] } fresh = [] then .ok ()
  else .error (.downloadFailed "refreshed candidate contract mismatch")

/-- A `MaterializationError` is kept, anything else is raised. -/
def retained (failure : Failure) : Bool := failure.name.isSome

/-- The candidates that pass validation, with their positions, and the errors of the others. -/
def validateAll (maxBytes : Int) (urls : Nat → Except Failure Unit) :
    Nat → List (MediaCandidate τ) →
      Except Failure (List (Nat × MediaCandidate τ) × List Failure)
  | _, [] => .ok ([], [])
  | position, candidate :: candidates =>
    match checkDeclaredSize maxBytes candidate >>= fun _ => urls position with
    | .ok () => do
      let (safe, errors) ← validateAll maxBytes urls (position + 1) candidates
      return ((position, candidate) :: safe, errors)
    | .error failure =>
      if retained failure then do
        let (safe, errors) ← validateAll maxBytes urls (position + 1) candidates
        return (safe, failure :: errors)
      else .error failure

/-- The error that no usable candidate leaves. -/
def summary (errors : List Failure) : Failure :=
  match errors with
  | [failure] => failure
  | _ =>
    let names := ", ".intercalate (errors.filterMap Failure.name)
    .materializationError "MaterializationError"
      ("materialization failed (" ++ (if names = "" then "no usable result" else names) ++ ")")

variable [LE τ] [DecidableLE τ] [Zero τ] (P : Gallery.Python τ)

/-- `refreshers.get(descriptor.provider)` with its call; a failure of the call is converted. -/
def refreshOf (request : MediaRequest) (a : Attempt τ) (descriptor : RefreshDescriptor) :
    Option (Except Failure (MediaCandidate τ)) :=
  if descriptor.provider = "ytdlp" then some (a.ytdlp.map Subtype.val)
  else if descriptor.provider = Gallery.providerName then
    some (match Gallery.refresh P a.galleryAvailable request descriptor 0 a.deadline
        a.galleryExpired a.galleryExtraction with
      | .ok fresh => .ok fresh
      | .error .timeout => .error (.transferTimeout "provider refresh timed out")
      | .error _ => .error (.downloadFailed "provider refresh failed"))
  else none

def attempt (maxBytes : Int) (request : MediaRequest) (a : Attempt τ)
    (candidate : MediaCandidate τ) : Except Failure (MaterializedItem τ) :=
  match downloadCandidate a.first request candidate with
  | .ok item => .ok item
  | .error failure =>
    match failure with
    | .downloadFailed _ | .transferTimeout _ =>
      match candidate.refresh with
      | none => .error failure
      | some descriptor =>
        match refreshOf P request a descriptor with
        | none => .error failure
        | some refreshed =>
          if !a.mayRefresh then .error failure
          else do
            a.remaining
            let fresh ← refreshed
            validateRefreshedCandidate request candidate descriptor fresh
            checkDeclaredSize maxBytes fresh
            a.urls
            downloadCandidate a.second request fresh
    | _ => .error failure

/-- The loop over the candidates one after another. -/
def tryAll (maxBytes : Int) (request : MediaRequest) (world : World τ) :
    List (Nat × MediaCandidate τ) → List Failure → Except Failure (MaterializedItem τ)
  | [], errors => .error (summary errors)
  | (position, candidate) :: safe, errors =>
    if world.expired position then .error (summary errors)
    else
      match attempt P maxBytes request (world.attempts position) candidate with
      | .ok item => .ok item
      | .error failure =>
        if retained failure then tryAll maxBytes request world safe (errors ++ [failure])
        else .error failure

def youtubeShortDefaultVariant : String := "youtube-short-default"

def shortEdge (candidate : MediaCandidate τ) : Int :=
  min (candidate.width.getD 0) (candidate.height.getD 0)

def materialize (maxBytes : Int) (request : MediaRequest) (candidates : List (MediaCandidate τ))
    (world : World τ) : Except Failure (MaterializedItem τ) :=
  if candidates = [] then .error (.materializationError "MaterializationError" "no media candidates")
  else do
    world.entry
    let (safe, errors) ← validateAll maxBytes world.urls 0 candidates
    match safe, errors with
    | [], [failure] => .error failure
    | [], _ =>
      .error (.materializationError "MaterializationError" "all candidates failed validation")
    | first :: second :: rest, _ =>
      if isSmall first.2 && isSmall second.2 &&
          (request.outputVariant ≠ some youtubeShortDefaultVariant ||
            shortEdge first.2 = shortEdge second.2) then do
        let (winner, parallelErrors) ← world.race
        match winner with
        | none => tryAll P maxBytes request world rest (errors ++ parallelErrors)
        | some one =>
          let racer := if one then second else first
          attempt P maxBytes request (world.attempts racer.1) racer.2
      else tryAll P maxBytes request world safe errors
    | _, _ => tryAll P maxBytes request world safe errors

/-- `_from_materialized` -/
def fromMaterialized (media : MaterializedItem τ) : List (DeliveryAsset τ) :=
  let candidate := media.candidate
  let sizeOf (path : Bytes) := if media.paths.length = 1 then media.sizeBytes else path.length
  media.paths.mapIdx fun index path =>
    let plain : MediaItem τ :=
      ⟨textOr candidate.mediaId candidate.candidateId ++
          (if 1 < media.paths.length then ":" ++ toString index else ""),
        candidate.kind.getD .video, candidate.url, none, none, candidate.width, candidate.height,
        candidate.container, some (sizeOf path)⟩
    let item := if candidate.items.length = media.paths.length then
        candidate.items[index]?.getD plain
      else plain
    ⟨item, path, index, sizeOf path⟩

end Functions

section Results

variable {τ : Type} {request : MediaRequest} {candidate fresh : MediaCandidate τ}
  {candidates : List (MediaCandidate τ)} {item : MaterializedItem τ} {maxBytes : Int}

/-- Every file is fetched from the source at its position. -/
theorem fetchAll_spec {fetch : Nat → MediaSource τ → Except Failure Bytes} {number : Nat}
    {sources : List (MediaSource τ)} {paths : List Bytes}
    (h : fetchAll fetch number sources = .ok paths) :
    paths.length = sources.length ∧ ∀ (index : Nat) path, paths[index]? = some path →
      ∃ source, sources[index]? = some source ∧ fetch (number + index) source = .ok path := by
  induction sources generalizing number paths with
  | nil =>
    obtain rfl := Except.ok.inj h
    exact ⟨rfl, fun index path hpath => by simp at hpath⟩
  | cons source sources ih =>
    obtain ⟨first, hfirst, h⟩ := bind_eq_ok h
    obtain ⟨rest, hrest, h⟩ := bind_eq_ok h
    obtain rfl := Except.ok.inj h
    obtain ⟨hlength, hall⟩ := ih hrest
    refine ⟨by simp [hlength], fun index path hpath => ?_⟩
    cases index with
    | zero =>
      obtain rfl := Option.some.inj hpath
      exact ⟨source, rfl, hfirst⟩
    | succ index =>
      obtain ⟨found, hfound, hfetch⟩ := hall index path hpath
      exact ⟨found, hfound, by rwa [Nat.add_right_comm] at hfetch⟩

/-- Without a transform the files of a candidate are what its sources give. -/
theorem downloadCandidate_spec {download : Download τ}
    (h : downloadCandidate download request candidate = .ok item) : item.candidate = candidate ∧
      (candidate.muxMode = none → clipRequested request = false →
        fetchAll download.fetch 0 (downloadSources candidate) = .ok item.paths) := by
  unfold downloadCandidate at h
  obtain ⟨-, -, h⟩ := bind_eq_ok h
  obtain ⟨completed, hcompleted, h⟩ := bind_eq_ok h
  obtain ⟨paths, hpaths, h⟩ := bind_eq_ok h
  obtain ⟨-, -, h⟩ := bind_eq_ok h
  obtain rfl := Except.ok.inj h
  refine ⟨rfl, fun hmode hclip => ?_⟩
  simp only [finalizeCandidate, hmode, hclip, Bool.not_false, and_self, if_true] at hpaths
  split_ifs at hpaths
  obtain rfl := Except.ok.inj hpaths
  exact hcompleted

variable [LE τ] [DecidableLE τ] [Zero τ] {P : Gallery.Python τ} {a : Attempt τ} {world : World τ}

/-- The item is of the candidate that was given, or of the one that its provider refreshed. -/
def Offered (P : Gallery.Python τ) (request : MediaRequest) (a : Attempt τ)
    (candidate offered : MediaCandidate τ) : Prop :=
  offered = candidate ∨ ∃ descriptor, candidate.refresh = some descriptor ∧
    refreshOf P request a descriptor = some (.ok offered) ∧
    validateRefreshedCandidate request candidate descriptor offered = .ok ()

theorem attempt_spec (h : attempt P maxBytes request a candidate = .ok item) :
    Offered P request a candidate item.candidate ∧
      ∃ download ∈ [a.first, a.second],
        downloadCandidate download request item.candidate = .ok item := by
  unfold attempt at h
  cases hfirst : downloadCandidate a.first request candidate with
  | ok first =>
    rw [hfirst] at h
    obtain rfl := Except.ok.inj h
    obtain ⟨hcandidate, -⟩ := downloadCandidate_spec hfirst
    exact ⟨.inl hcandidate, a.first, List.mem_cons_self, hcandidate ▸ hfirst⟩
  | error failure =>
    rw [hfirst] at h
    have hagain : ∃ descriptor refreshed, candidate.refresh = some descriptor ∧
        refreshOf P request a descriptor = some refreshed ∧ (do
          a.remaining
          let fresh ← refreshed
          validateRefreshedCandidate request candidate descriptor fresh
          checkDeclaredSize maxBytes fresh
          a.urls
          downloadCandidate a.second request fresh) = .ok item := by
      cases hdescriptor : candidate.refresh with
      | none => cases failure <;> simp [hdescriptor] at h
      | some descriptor =>
        cases hrefresh : refreshOf P request a descriptor with
        | none => cases failure <;> simp [hdescriptor, hrefresh] at h
        | some refreshed =>
          refine ⟨descriptor, refreshed, rfl, hrefresh, ?_⟩
          cases failure <;> simp only [hdescriptor, hrefresh, reduceCtorEq] at h
          all_goals
            split_ifs at h
            exact h
    obtain ⟨descriptor, refreshed, hdescriptor, hrefresh, h⟩ := hagain
    obtain ⟨-, -, h⟩ := bind_eq_ok h
    obtain ⟨fresh, hfresh, h⟩ := bind_eq_ok h
    obtain ⟨⟨⟩, hvalid, h⟩ := bind_eq_ok h
    obtain ⟨-, -, h⟩ := bind_eq_ok h
    obtain ⟨-, -, h⟩ := bind_eq_ok h
    obtain ⟨hcandidate, -⟩ := downloadCandidate_spec h
    rw [hcandidate]
    exact ⟨.inr ⟨descriptor, hdescriptor, hfresh ▸ hrefresh, hvalid⟩, a.second, by simp, h⟩

theorem refreshOf_aligned {descriptor : RefreshDescriptor}
    (h : refreshOf P request a descriptor = some (.ok fresh)) (hitems : fresh.items ≠ []) :
    OneSourcePerItem fresh.sources fresh.items := by
  unfold refreshOf at h
  split_ifs at h
  · obtain ⟨candidate, -, rfl⟩ := map_eq_ok (Option.some.inj h)
    exact absurd candidate.2 hitems
  · cases hrefresh : Gallery.refresh P a.galleryAvailable request descriptor 0 a.deadline
        a.galleryExpired a.galleryExtraction with
    | ok candidate =>
      rw [hrefresh] at h
      obtain rfl := Except.ok.inj (Option.some.inj h)
      exact Gallery.refresh_aligned hrefresh
    | error error => cases error <;> simp [hrefresh] at h

theorem tryAll_spec {safe : List (Nat × MediaCandidate τ)} {errors : List Failure}
    (h : tryAll P maxBytes request world safe errors = .ok item) :
    ∃ entry ∈ safe, attempt P maxBytes request (world.attempts entry.1) entry.2 = .ok item := by
  induction safe generalizing errors with
  | nil => cases h
  | cons entry safe ih =>
    unfold tryAll at h
    split_ifs at h
    cases hattempt : attempt P maxBytes request (world.attempts entry.1) entry.2 with
    | ok first =>
      rw [hattempt] at h
      exact ⟨entry, List.mem_cons_self, hattempt.trans h⟩
    | error failure =>
      rw [hattempt] at h
      dsimp only at h
      split_ifs at h
      obtain ⟨found, hfound, hspec⟩ := ih h
      exact ⟨found, List.mem_cons_of_mem _ hfound, hspec⟩

omit [LE τ] [DecidableLE τ] [Zero τ] in
theorem validateAll_mem {urls : Nat → Except Failure Unit} {position : Nat}
    {safe : List (Nat × MediaCandidate τ)} {errors : List Failure}
    (h : validateAll maxBytes urls position candidates = .ok (safe, errors)) :
    ∀ entry ∈ safe, entry.2 ∈ candidates := by
  induction candidates generalizing position safe errors with
  | nil =>
    obtain ⟨rfl, rfl⟩ := Prod.mk.inj (Except.ok.inj h)
    simp
  | cons candidate candidates ih =>
    unfold validateAll at h
    split at h
    · obtain ⟨⟨safe', errors'⟩, hrest, h⟩ := bind_eq_ok h
      obtain ⟨rfl, rfl⟩ := Prod.mk.inj (Except.ok.inj h)
      intro entry hentry
      rcases List.mem_cons.mp hentry with rfl | hentry
      · exact List.mem_cons_self
      · exact List.mem_cons_of_mem _ (ih hrest entry hentry)
    · split_ifs at h
      obtain ⟨⟨safe', errors'⟩, hrest, h⟩ := bind_eq_ok h
      obtain ⟨rfl, rfl⟩ := Prod.mk.inj (Except.ok.inj h)
      exact fun entry hentry => List.mem_cons_of_mem _ (ih hrest entry hentry)

/-- What is handed over comes from an attempt of one of the candidates. -/
theorem materialize_spec (h : materialize P maxBytes request candidates world = .ok item) :
    ∃ candidate ∈ candidates, ∃ position,
      attempt P maxBytes request (world.attempts position) candidate = .ok item := by
  unfold materialize at h
  split_ifs at h
  obtain ⟨-, -, h⟩ := bind_eq_ok h
  obtain ⟨⟨safe, errors⟩, hsafe, h⟩ := bind_eq_ok h
  have hmem := validateAll_mem hsafe
  have hfinish : ∀ {left : List (Nat × MediaCandidate τ)} {errors : List Failure},
      (∀ entry ∈ left, entry.2 ∈ candidates) →
      tryAll P maxBytes request world left errors = .ok item → ∃ candidate ∈ candidates,
        ∃ position, attempt P maxBytes request (world.attempts position) candidate = .ok item := by
    intro left errors hleft htry
    obtain ⟨entry, hentry, hattempt⟩ := tryAll_spec htry
    exact ⟨entry.2, hleft entry hentry, entry.1, hattempt⟩
  match safe, errors, hmem, h with
  | [], [failure], _, h => cases h
  | [], [], _, h => cases h
  | [], _ :: _ :: _, _, h => cases h
  | [only], errors, hmem, h => exact hfinish hmem h
  | first :: second :: rest, errors, hmem, h =>
    dsimp only at h
    split_ifs at h
    · obtain ⟨⟨winner, parallelErrors⟩, -, h⟩ := bind_eq_ok h
      match winner, h with
      | none, h => exact hfinish (fun entry hentry => hmem entry (by simp [hentry])) h
      | some false, h => exact ⟨first.2, hmem first (by simp), first.1, h⟩
      | some true, h => exact ⟨second.2, hmem second (by simp), second.1, h⟩
    · exact hfinish hmem h

end Results

end YtdlBot.Media.Materialize
