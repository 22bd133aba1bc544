import YtdlBot.Framework.Urls
import YtdlBot.Media.Times
import YtdlBot.MediaCache.Keys

/-!
# Media requests

`MediaRequest.from_url`: what it takes from the link of a video on YouTube. An interval keeps the
order of its bounds. The texts of URLs are lists of characters.
-/

namespace YtdlBot.Media.Requests

open Framework.Percent Framework.Urls Times
open MediaCache (MediaKind QualityPolicy)
open Transport (lowerChar)

section Intervals

/-- Whether the bounds are in order. -/
def Ordered (start stop : Option Seconds) : Prop :=
  (∀ t ∈ start, 0 ≤ t.value) ∧ (∀ t ∈ stop, 0 ≤ t.value) ∧
    ∀ s ∈ start, ∀ t ∈ stop, s.value ≤ t.value

structure ClipInterval where
  startSeconds : Option Seconds
  endSeconds : Option Seconds
  ordered : Ordered startSeconds endSeconds
deriving DecidableEq

/-- `ClipInterval()` -/
def ClipInterval.empty : ClipInterval := ⟨none, none, by simp [Ordered]⟩

/-- The checks of `__post_init__`; `Except.error` is a `ValueError`. -/
def ClipInterval.create (start stop : Option Seconds) : Except String ClipInterval :=
  if hstart : ∃ t ∈ start, t.value < 0 then .error "clip start must not be negative"
  else if hstop : ∃ t ∈ stop, t.value < 0 then .error "clip end must not be negative"
  else if horder : ∃ s ∈ start, ∃ t ∈ stop, t.value < s.value then
    .error "clip end must not precede clip start"
  else .ok ⟨start, stop, fun t ht => not_lt.mp fun h => hstart ⟨t, ht, h⟩,
    fun t ht => not_lt.mp fun h => hstop ⟨t, ht, h⟩,
    fun s hs t ht => not_lt.mp fun h => horder ⟨s, hs, t, ht, h⟩⟩

theorem ClipInterval.create_of_ordered {start stop : Option Seconds} (h : Ordered start stop) :
    ClipInterval.create start stop = .ok ⟨start, stop, h⟩ := by
  have hstart : ¬ ∃ t ∈ start, t.value < 0 := fun ⟨t, ht, hlt⟩ => not_le.mpr hlt (h.1 t ht)
  have hstop : ¬ ∃ t ∈ stop, t.value < 0 := fun ⟨t, ht, hlt⟩ => not_le.mpr hlt (h.2.1 t ht)
  have horder : ¬ ∃ s ∈ start, ∃ t ∈ stop, t.value < s.value :=
    fun ⟨s, hs, t, ht, hlt⟩ => not_le.mpr hlt (h.2.2 s hs t ht)
  rw [create, dif_neg hstart, dif_neg hstop, dif_neg horder]

end Intervals

section Requests

structure MediaRequest where
  canonicalUrl : List Char
  platform : String
  mediaId : List Char
  kind : MediaKind
  quality : QualityPolicy
  audioFormat : Option String
  audioLanguage : Option String
  clip : ClipInterval
  albumSelection : List ℤ
  watermarkAllowed : Bool
  callerScope : String
  authScope : String
  isExact : Bool
  outputVariant : Option String
  deadline : Option ℚ
deriving DecidableEq

/-- The keyword arguments; a `quality` of `None` is the policy without an edge. -/
structure Options where
  kind : MediaKind
  quality : QualityPolicy
  audioFormat : Option String
  audioLanguage : Option String
  clip : Option ClipInterval
  albumSelection : List ℤ
  watermarkAllowed : Bool
  callerScope : String
  authScope : String
  isExact : Bool
  outputVariant : Option String
  deadline : Option ℚ

/-- The defaults. -/
def Options.defaults : Options where
  kind := .auto
  quality := ⟨none⟩
  audioFormat := none
  audioLanguage := none
  clip := none
  albumSelection := []
  watermarkAllowed := true
  callerScope := "public"
  authScope := "public"
  isExact := true
  outputVariant := none
  deadline := none

def Options.request (o : Options) (canonicalUrl : List Char) (platform : String)
    (mediaId : List Char) (clip : ClipInterval) (outputVariant : Option String) : MediaRequest where
  canonicalUrl := canonicalUrl
  platform := platform
  mediaId := mediaId
  kind := o.kind
  quality := o.quality
  audioFormat := o.audioFormat
  audioLanguage := o.audioLanguage
  clip := clip
  albumSelection := o.albumSelection
  watermarkAllowed := o.watermarkAllowed
  callerScope := o.callerScope
  authScope := o.authScope
  isExact := o.isExact
  outputVariant := outputVariant
  deadline := o.deadline

scoped instance lawfulBEq_chars : LawfulBEq (List Char) := inferInstance

/-- `[part for part in path.split("/") if part]` -/
def pathParts (path : List Char) : List (List Char) := (path.splitOn '/').filter (· ≠ [])

/-- `_first_query_value` -/
def firstQueryValue (query : Query) : List (List Char) → Option (List Char)
  | [] => none
  | name :: names =>
    match query.lookup name with
    | some (c :: value) => some (c :: value)
    | _ => firstQueryValue query names

/-- `_is_valid_youtube_id` -/
def isValidYoutubeId (mediaId : List Char) : Bool :=
  mediaId ≠ [] && mediaId.all fun c => c.isAlphanum || c ∈ ['-', '_']

/-- `rstrip(".")` -/
def stripDots (host : List Char) : List Char := host.rdropWhile (· = '.')

def watchHosts : List (List Char) :=
  ["youtube.com".toList, "www.youtube.com".toList, "m.youtube.com".toList]

variable (U : Unicode)

/-- The identifier of the video, and the parameters of the link. -/
def videoOf (host path : List Char) (query : Query) : Option (List Char) :=
  let parts := pathParts path
  if host ∈ watchHosts then
    if parts.head? = some "watch".toList then firstQueryValue query ["v".toList]
    else if parts.head? = some "shorts".toList then parts[1]?
    else none
  else if host = "youtu.be".toList then parts.head?
  else none

/-- `_parse_media_url` up to the identifier. -/
def parseVideo (url : List Char) : Except UrlError (List Char × Query) :=
  match urlsplit U url with
  | none => .error (.unsupported "malformed media URL")
  | some parsed =>
    match parsed.port, parsed.hostname U with
    | none, _ => .error (.unsupported "malformed media URL")
    | some _, hostname =>
      -- The scheme was lowered when the URL was split.
      if parsed.scheme ∉ ["http".toList, "https".toList] ∨ hostname = none then
        .error (.unsupported "media URL must use HTTP(S) and include a host")
      else
        let host := stripDots (U.lower (hostname.getD []))
        let query := parseQsl true parsed.query
        match videoOf host parsed.path query with
        | some mediaId =>
          if isValidYoutubeId mediaId then .ok (mediaId, query)
          else .error (.unsupported "unsupported or malformed YouTube media URL")
        | none => .error (.unsupported "unsupported or malformed YouTube media URL")

/-- `_parse_time` -/
def parseOptionalTime : Option (List Char) → Except UrlError (Option Seconds)
  | none => .ok none
  | some value => (parseTime value).map some

def startNames : List (List Char) := ["t".toList, "start".toList]

def endNames : List (List Char) := ["end".toList]

def parseClip (query : Query) : Except UrlError ClipInterval := do
  let start ← parseOptionalTime (firstQueryValue query startNames)
  let stop ← parseOptionalTime (firstQueryValue query endNames)
  match ClipInterval.create start stop with
  | .ok clip => .ok clip
  | .error _ => .error (.unsupported "invalid clip interval")

def watchUrl (mediaId : List Char) : List Char :=
  "https://www.youtube.com/watch?v=".toList ++ quote ['-', '_'] mediaId

theorem watchUrl_eq (mediaId : List Char) :
    watchUrl mediaId = "https://www.youtube.com/watch?v=".toList ++ quote ['-', '_'] mediaId :=
  rfl

/-- `_parse_media_url` -/
def parseMediaUrl (url : List Char) : Except UrlError (List Char × String × List Char × ClipInterval) := do
  let (mediaId, query) ← parseVideo U url
  let clip ← parseClip query
  .ok (watchUrl mediaId, "youtube", mediaId, clip)

/-- The path of the link leads to a short. -/
def isShort (url : List Char) : Bool :=
  match urlsplit U url with
  | none => false
  | some parsed =>
    let parts := pathParts parsed.path
    2 ≤ parts.length ∧ parts.head? = some "shorts".toList

def defaultVariant (o : Options) (url : List Char) : Option String :=
  if o.outputVariant = none ∧ (o.kind = .auto ∨ o.kind = .video) ∧ o.quality.maxEdge = none then
    if isShort U url then some "youtube-short-default"
    else if o.kind = .video ∧ o.callerScope = "command" then some "youtube-command-default"
    else o.outputVariant
  else o.outputVariant

/-- `MediaRequest.from_url`; every parsed link is one of YouTube. -/
def fromUrl (o : Options) (url : List Char) : Except UrlError MediaRequest := do
  let (canonicalUrl, platform, mediaId, clip) ← parseMediaUrl U url
  .ok (o.request canonicalUrl platform mediaId (o.clip.getD clip) (defaultVariant U o url))

end Requests

section Failures

variable {U : Unicode} {o : Options} {url : List Char}

/-- What a parameter of the link writes is no time and breaks the parser. -/
def BreaksTime (value : Option (List Char)) : Prop := ∃ v ∈ value, BrokenClock (v.map lowerChar)

/-- A parameter of the link is missing or a time. -/
def ReadsTime (value : Option (List Char)) : Prop := ∀ v ∈ value, ∃ q, Reads v q

/-- The link of a video on which the time parser breaks, at the start of the clip or at the end
behind a start that is fine. -/
def Breaks (U : Unicode) (url : List Char) : Prop :=
  ∃ mediaId query, parseVideo U url = .ok (mediaId, query) ∧
    (BreaksTime (firstQueryValue query startNames) ∨
      ReadsTime (firstQueryValue query startNames) ∧ BreaksTime (firstQueryValue query endNames))

theorem parseOptionalTime_valueError (value : Option (List Char)) :
    parseOptionalTime value = .error .valueError ↔ BreaksTime value := by
  cases value with
  | none => simp [parseOptionalTime, BreaksTime]
  | some v =>
    have hbroken := parseTime_valueError v
    cases h : parseTime v with
    | ok t => simp [parseOptionalTime, BreaksTime, ← hbroken, h, Except.map]
    | error e => simp [parseOptionalTime, BreaksTime, ← hbroken, h, Except.map]

theorem parseOptionalTime_ok (value : Option (List Char)) :
    (∃ t, parseOptionalTime value = .ok t) ↔ ReadsTime value := by
  cases value with
  | none => simp [parseOptionalTime, ReadsTime]
  | some v =>
    have hok := fun t => parseTime_ok v t
    cases h : parseTime v with
    | ok t =>
      obtain ⟨q, hq, -⟩ := (hok t).mp h
      simpa [parseOptionalTime, ReadsTime, h, Except.map] using ⟨q, hq⟩
    | error e =>
      have hnone : ∀ q, ¬ Reads v q := fun q hq => by
        have := (hok (.ofRat q)).mpr ⟨q, hq, rfl⟩
        rw [h] at this
        cases this
      simpa [parseOptionalTime, ReadsTime, h, Except.map] using hnone

theorem parseVideo_not_valueError (U : Unicode) (url : List Char) : parseVideo U url ≠ .error .valueError := by
  unfold parseVideo
  split
  · simp
  · split
    · simp
    · split_ifs
      · simp
      · dsimp only
        split
        · split_ifs <;> simp
        · simp

theorem parseClip_valueError {query : Query} :
    parseClip query = .error .valueError ↔ BreaksTime (firstQueryValue query startNames) ∨
      ReadsTime (firstQueryValue query startNames) ∧ BreaksTime (firstQueryValue query endNames) := by
  have hstart := parseOptionalTime_valueError (firstQueryValue query startNames)
  have hstop := parseOptionalTime_valueError (firstQueryValue query endNames)
  have hreads := parseOptionalTime_ok (firstQueryValue query startNames)
  rw [← hstart, ← hstop, ← hreads]
  unfold parseClip
  cases parseOptionalTime (firstQueryValue query startNames) with
  | error e => simp [bind, Except.bind]
  | ok start =>
    cases parseOptionalTime (firstQueryValue query endNames) with
    | error e => simp [bind, Except.bind]
    | ok stop =>
      cases hclip : ClipInterval.create start stop <;> simp [bind, Except.bind, hclip]

theorem fromUrl_valueError : fromUrl U o url = .error .valueError ↔ Breaks U url := by
  have hvideo := parseVideo_not_valueError U url
  unfold fromUrl parseMediaUrl Breaks
  cases hparse : parseVideo U url with
  | error e =>
    rw [hparse] at hvideo
    simpa [bind, Except.bind] using hvideo
  | ok found =>
    obtain ⟨mediaId, query⟩ := found
    have hbreaks : (∃ m q, Except.ok (ε := UrlError) (mediaId, query) = .ok (m, q) ∧
        (BreaksTime (firstQueryValue q startNames) ∨
          ReadsTime (firstQueryValue q startNames) ∧ BreaksTime (firstQueryValue q endNames))) ↔
        parseClip query = .error .valueError := by
      rw [parseClip_valueError]
      constructor
      · rintro ⟨_, _, ⟨⟩, h⟩
        exact h
      · exact fun h => ⟨mediaId, query, rfl, h⟩
    rw [hbreaks]
    cases h : parseClip query <;> simp [bind, Except.bind, h]

end Failures

/-- A link fails with one error only, unless the time parser breaks on it. The parser accepts a
number of seconds that is no less than zero and groups of numbers with units whose sum is positive,
and returns that number. -/
theorem from_url_errors (U : Unicode) :
    (∀ o url, ((∃ r, fromUrl U o url = .ok r ∧ Ordered r.clip.startSeconds r.clip.endSeconds) ∨
      ∃ message, fromUrl U o url = .error (.unsupported message)) ↔ ¬ Breaks U url) ∧
    ∀ value t, parseTime value = .ok t ↔ ∃ q, Reads value q ∧ t = Seconds.ofRat q := by
  refine ⟨fun o url => ?_, parseTime_ok⟩
  rw [← fromUrl_valueError (o := o)]
  cases fromUrl U o url with
  | ok r => simp [r.clip.ordered]
  | error e => cases e <;> simp

/-- Two points in a number of minutes raise another error. -/
theorem from_url_breaks :
    ¬ ∀ (U : Unicode) (o : Options) (url : List Char), (∃ r, fromUrl U o url = .ok r) ∨
      ∃ message, fromUrl U o url = .error (.unsupported message) := by
  intro h
  have hbreaks : fromUrl .ascii .defaults "https://youtu.be/dQw4w9WgXcQ?t=1.2.3s".toList =
      .error .valueError := by
    decide +kernel
  rcases h .ascii .defaults "https://youtu.be/dQw4w9WgXcQ?t=1.2.3s".toList with
    ⟨r, hok⟩ | ⟨message, herror⟩
  · rw [hbreaks] at hok
    cases hok
  · rw [hbreaks] at herror
    cases herror

example : fromUrl .ascii .defaults "https://youtu.be/dQw4w9WgXcQ?t=1h2m3s".toList =
    .ok (Options.defaults.request "https://www.youtube.com/watch?v=dQw4w9WgXcQ".toList "youtube"
      "dQw4w9WgXcQ".toList ⟨some (.int 3723), none, by simp [Ordered, Seconds.value]⟩ none) := by
  decide +kernel

end YtdlBot.Media.Requests
