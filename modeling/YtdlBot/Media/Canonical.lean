import YtdlBot.Media.Requests

/-!
# Canonical URLs

`build_media_request`: a link of YouTube keeps its video, every other URL is rewritten without the
parameters that track its visitors. What the canonical URL is split into is compared with the parts
of the URL.
-/

namespace YtdlBot.Media.Requests

open Framework.Doubles Framework.Percent Framework.Urls Times
open Transport (strip)

section Clips

def Double.neg : Double → Double
  | .finite q => .finite (-q)
  | .infinite negative => .infinite !negative
  | .nan => .nan

/-- `abs(a) >= abs(b)` -/
def Double.absGe : Double → Double → Bool
  | .finite a, .finite b => |b| ≤ |a|
  | .infinite _, .nan => false
  | .infinite _, _ => true
  | _, _ => false

/-- A sum so far, with what rounding took from it. -/
def addCompensated (state : Double × Double) (x : Double) : Double × Double :=
  let (total, lost) := state
  let t := total.add x
  if Double.absGe total x then (t, lost.add ((total.add (Double.neg t)).add x))
  else (t, lost.add ((x.add (Double.neg t)).add total))

/-- `sum` of floats, which compensates for rounding. -/
def sumFloats (parts : List Double) : Double :=
  match parts with
  | [] => .finite 0
  | first :: rest =>
    match rest.foldl addCompensated (first, .finite 0) with
    | (total, .finite lost) => if lost = 0 then total else total.add (.finite lost)
    | (total, _) => total

/-- `_clock_seconds`; an error is a `ValueError`. -/
def clockSeconds (value : List Char) : Except UrlError Seconds :=
  let stripped := strip value
  let seconds : Option Double :=
    if ':' ∉ stripped then float stripped
    else
      let parts := (stripped.splitOn ':').map float
      if parts.all Option.isSome ∧ (parts.length = 2 ∨ parts.length = 3) then
        some (sumFloats ((parts.reduceOption.reverse.zipIdx).map fun (part, index) =>
          part.mul (.finite (60 ^ index))))
      else none
  match seconds with
  | some (.finite q) => if q < 0 then .error .valueError else .ok (.ofRat q)
  | _ => .error .valueError

inductive ClipArgument where
  | none
  | interval (clip : ClipInterval)
  | text (value : List Char)

/-- `_parse_clip` -/
def parseClipArgument : ClipArgument → Except UrlError (Option ClipInterval)
  | .none => .ok .none
  | .interval clip => .ok (some clip)
  | .text value =>
    let raw := match strip value with
      | '*' :: rest => rest
      | text => text
    if raw = [] then .ok (some .empty)
    else match cut '-' raw with
      | (_, .none) => .error .valueError
      | (start, some stop) => do
        let start ← clockSeconds start
        let stop ← clockSeconds stop
        match ClipInterval.create (some start) (some stop) with
        | .ok clip => .ok (some clip)
        | .error _ => .error .valueError

end Clips

section Canonicalization

variable (U : Unicode) (hexdigest : List Char → List Char)

/-- `_TRACKING_QUERY_NAMES` -/
def trackingQueryNames : List (List Char) :=
  ["fbclid".toList, "feature".toList, "igshid".toList, "si".toList, "source".toList, "s".toList,
    "t".toList]

def isTracking (key : List Char) : Bool :=
  "utm_".toList.isPrefixOf (U.lower key) || U.lower key ∈ trackingQueryNames

/-- The host is one of `domains` or below one of `parents`. -/
def belongs (host : List Char) (domains parents : List String) : Bool :=
  domains.any (fun domain => host = domain.toList) ||
    parents.any fun parent => ('.' :: parent.toList).isSuffixOf host

/-- `_platform_for_host` -/
def platformForHost (host : List Char) : String :=
  if belongs host ["tiktok.com"] ["tiktok.com"] then "tiktok"
  else if belongs host ["x.com", "twitter.com"] ["x.com", "twitter.com"] then "x"
  else if belongs host ["instagram.com", "instagr.am"] ["instagram.com", "instagr.am"] then
    "instagram"
  else if belongs host ["facebook.com", "fb.watch"] ["facebook.com"] then "facebook"
  else if belongs host ["pinterest.com", "pin.it"] ["pinterest.com"] then "pinterest"
  else if belongs host ["vk.com", "vkvideo.ru"] ["vk.com", "vkvideo.ru"] then "vk"
  else if belongs host ["rutube.ru"] ["rutube.ru"] then "rutube"
  else "other"

/-- The part behind the first `marker`. -/
def partAfter (marker : String) (parts : List (List Char)) : Option (List Char) :=
  if marker.toList ∈ parts then parts[parts.idxOf marker.toList + 1]? else none

/-- The last value of the parameter, unless it is empty. -/
def lastValue (query : Query) (name : String) : Option (List Char) :=
  (query.reverse.lookup name.toList).filter (· ≠ [])

/-- `_generic_media_id` -/
def genericMediaId (platform : String) (path : List Char) (query : Query) (canonical : List Char) :
    List Char :=
  let parts := pathParts path
  let found :=
    if platform = "x" then partAfter "status" parts
    else if platform = "tiktok" then (partAfter "video" parts).or (partAfter "photo" parts)
    else if platform = "instagram" then
      if 2 ≤ parts.length ∧
          parts.head? ∈ ["p", "reel", "tv", "stories"].map (fun name => some name.toList) then
        parts.getLast?
      else none
    else if platform = "pinterest" then partAfter "pin" parts
    else none
  let named := (lastValue query "v").or ((lastValue query "id").or (lastValue query "story_fbid"))
  ((found.or named).or parts.getLast?).getD ((hexdigest canonical).take 24)

def canonicalQuery (query : List Char) : Query :=
  (parseQsl true query).filter fun item => !isTracking U item.1

/-- `host if port is None else f"{host}:{port}"` -/
def netlocOf (host : List Char) (port : Option ℕ) : List Char :=
  match port with
  | none => host
  | some port => host ++ ':' :: Nat.toDigits 10 port

/-- `(parsed.hostname or "").lower().rstrip(".")` -/
def hostOf (parsed : SplitResult) : List Char := stripDots (U.lower ((parsed.hostname U).getD []))

/-- `_canonicalize_generic_url` -/
def canonicalizeGenericUrl (url : List Char) : Except UrlError (List Char × String × List Char) :=
  match urlsplit U url with
  | none => .error (.unsupported "malformed media URL")
  | some parsed =>
    match parsed.port with
    | none => .error (.unsupported "malformed media URL")
    | some port =>
      let host := hostOf U parsed
      if parsed.scheme ∉ ["http".toList, "https".toList] ∨ host = [] then
        .error (.unsupported "media URL must use HTTP(S) and include a host")
      else if parsed.hasCredentials then
        .error (.unsupported "media URL must not contain credentials")
      else
        let platform := platformForHost host
        let query := canonicalQuery U parsed.query
        let path := if parsed.path = [] then ['/'] else parsed.path
        let canonical := urlunsplit "https".toList (netlocOf host port) path (urlencode query)
        .ok (canonical, platform, genericMediaId hexdigest platform parsed.path query canonical)

def youtubeHosts : List (List Char) := watchHosts ++ ["youtu.be".toList]

/-- `build_media_request` behind the parsing of its clip. -/
def buildWithInterval (o : Options) (url : List Char) : Except UrlError MediaRequest :=
  match fromUrl U o url with
  | .error (.unsupported message) => do
    let (canonical, platform, mediaId) ← canonicalizeGenericUrl U hexdigest url
    match urlsplit U canonical with
    | none => .error .valueError
    | some parsed =>
      match parsed.hostname U with
      | some hostname =>
        if hostname ∈ youtubeHosts then .error (.unsupported message)
        else .ok (o.request canonical platform mediaId (o.clip.getD .empty) o.outputVariant)
      | none => .ok (o.request canonical platform mediaId (o.clip.getD .empty) o.outputVariant)
  | result => result

/-- `build_media_request`; the clip of the options is the one that `clip` says. -/
def buildMediaRequest (o : Options) (clip : ClipArgument) (url : List Char) :
    Except UrlError MediaRequest := do
  let interval ← parseClipArgument clip
  buildWithInterval U hexdigest { o with clip := interval } url

end Canonicalization

section Hosts

variable {U : Unicode} {s : SplitResult}

theorem stripDots_initial (host : List Char) : stripDots host <+: host := List.rdropWhile_prefix _ _

@[simp] theorem stripDots_stripDots (host : List Char) :
    stripDots (stripDots host) = stripDots host :=
  List.rdropWhile_idempotent _ _

theorem lower_of_infix_hostOf {text : List Char} (h : text <:+: hostOf U s) : U.lower text = text :=
  U.lower_infix _ _ (h.trans (stripDots_initial _).isInfix)

theorem mem_hostOf {c : Char} (h : c ∈ hostOf U s) (hascii : c.toNat < 0x80)
    (hlower : c.isLower = false) : c ∈ s.hostAndPort.1 := by
  have hmem := U.mem_lower _ c ((stripDots_initial _).mem h) hascii hlower
  cases hname : s.hostname U with
  | none => simp [hname] at hmem
  | some host => exact SplitResult.mem_hostname hname (by simpa [hname] using hmem) hascii hlower

theorem hostOf_of_lowered (h : ∀ t, t <:+: s.hostAndPort.1 → U.lower t = t) :
    hostOf U s = stripDots s.hostAndPort.1 := by
  by_cases hne : s.hostAndPort.1 = []
  · simp [hostOf, SplitResult.hostname, hne, U.lower_nil]
  · rw [hostOf, SplitResult.hostname_of_lowered h hne, Option.getD_some, h _ List.infix_rfl]

end Hosts

section Rewriting

variable {U : Unicode} {s : SplitResult} {port : Option ℕ}

/-- The parts of the canonical URL. -/
def rewritten (U : Unicode) (s : SplitResult) (port : Option ℕ) : SplitResult where
  scheme := "https".toList
  netloc := netlocOf (hostOf U s) port
  path := if s.path = [] then ['/'] else s.path
  query := urlencode (canonicalQuery U s.query)
  fragment := []

def canonicalOf (U : Unicode) (s : SplitResult) (port : Option ℕ) : List Char :=
  urlunsplit "https".toList (rewritten U s port).netloc (rewritten U s port).path
    (rewritten U s port).query

theorem mem_netlocOf {host : List Char} {c : Char} (h : c ∈ netlocOf host port) :
    c ∈ host ∨ c = ':' ∨ c.isDigit = true := by
  cases port with
  | none => exact .inl h
  | some p =>
    rcases List.mem_append.mp h with h | h
    · exact .inl h
    · rcases List.mem_cons.mp h with h | h
      · exact .inr (.inl h)
      · exact .inr (.inr (Nat.isDigit_of_mem_toDigits (by decide) (by decide) h))

theorem not_mem_rewritten {c : Char} (h : c ∉ s.netloc) (hascii : c.toNat < 0x80)
    (hlower : c.isLower = false) (hdigit : c.isDigit = false) (hcolon : c ≠ ':') :
    c ∉ (rewritten U s port).netloc := by
  intro hc
  rcases mem_netlocOf hc with hc | hc | hc
  · exact h (SplitResult.mem_hostAndPort (mem_hostOf hc hascii hlower))
  · exact hcolon hc
  · rw [hdigit] at hc
    cases hc

theorem netloc_ne_nil (h : hostOf U s ≠ []) : s.netloc ≠ [] := by
  intro hempty
  have hhost : s.hostAndPort.1 = [] :=
    List.eq_nil_iff_forall_not_mem.mpr fun c hc => by
      simpa [hempty] using SplitResult.mem_hostAndPort hc
  have hlowered : ∀ t, t <:+: s.hostAndPort.1 → U.lower t = t := by
    intro t ht
    rw [hhost, List.infix_nil] at ht
    rw [ht, U.lower_nil]
  rw [hostOf_of_lowered hlowered, hhost] at h
  exact h rfl

theorem urlencode_clean {query : Query} {c : Char} (h : c ∈ urlencode query) :
    c ≠ '#' ∧ isDropped c = false := by
  have hencoded := mem_urlencode h
  constructor
  · rintro rfl
    exact absurd hencoded (by decide)
  · rw [← Bool.not_eq_true]
    intro hdropped
    simp only [isDropped, decide_eq_true_eq, List.mem_cons, List.not_mem_nil, or_false] at hdropped
    rcases hdropped with rfl | rfl | rfl <;> exact absurd hencoded (by decide)

theorem rewritten_parts (h : Parts s) (hhost : hostOf U s ≠ []) : Parts (rewritten U s port) := by
  have hpath := h.rooted (netloc_ne_nil hhost)
  refine ⟨?_, ?_, ?_, ?_⟩
  · intro c hc
    have hnot : ∀ d ∈ ['/', '?', '#', '\t', '\r', '\n'], c ≠ d := by
      rintro d hd rfl
      have hforeign : (['/', '?', '#', '\t', '\r', '\n'].all fun d =>
          (endsNetloc d || isDropped d) && decide (d.toNat < 0x80) && !d.isLower && !d.isDigit &&
            d != ':') = true := by decide
      have hd := List.all_eq_true.mp hforeign c hd
      simp only [Bool.and_eq_true, Bool.or_eq_true, decide_eq_true_eq, Bool.not_eq_true',
        bne_iff_ne] at hd
      refine not_mem_rewritten (fun hmem => ?_) hd.1.1.1.2 hd.1.1.2 hd.1.2 hd.2 hc
      have hclean := h.netloc c hmem
      simp [hclean.1, hclean.2] at hd
    have hslash := hnot '/' (by simp)
    have hquestion := hnot '?' (by simp)
    have hhash := hnot '#' (by simp)
    have htab := hnot '\t' (by simp)
    have hreturn := hnot '\r' (by simp)
    have hline := hnot '\n' (by simp)
    simp [endsNetloc, isDropped, hslash, hquestion, hhash, htab, hreturn, hline]
  · intro c hc
    simp only [rewritten] at hc
    split_ifs at hc with hempty
    · obtain rfl := List.mem_singleton.mp hc
      decide
    · exact h.path c hc
  · intro _
    simp only [rewritten]
    split_ifs with hempty
    · exact .inr rfl
    · exact .inr (hpath.resolve_left hempty)
  · exact fun c hc => urlencode_clean hc

theorem urlsplit_canonicalOf (h : Parts s) (hhost : hostOf U s ≠ []) :
    urlsplit U (canonicalOf U s port) =
      if bracketsValid (rewritten U s port).netloc && nfkcValid U (rewritten U s port).netloc then
        some (rewritten U s port) else none := by
  have hroot : (rewritten U s port).path.head? = some '/' := by
    simp only [rewritten]
    split_ifs with hempty
    · rfl
    · exact (h.rooted (netloc_ne_nil hhost)).resolve_left hempty
  exact urlsplit_urlunsplit (rewritten_parts h hhost) rfl hroot rfl

theorem rewritten_hostAndPort (hcredentials : '@' ∉ s.netloc)
    (hvalid : bracketsValid s.netloc = true)
    (hbrackets : bracketsValid (rewritten U s port).netloc = true) :
    (rewritten U s port).hostAndPort = ((cut ':' (rewritten U s port).netloc).1,
      (cut ':' (rewritten U s port).netloc).2.getD []) := by
  have hat : '@' ∉ (rewritten U s port).netloc :=
    not_mem_rewritten hcredentials (by decide) (by decide) (by decide) (by decide)
  have hclose : ']' ∉ (rewritten U s port).netloc := by
    intro hc
    rcases mem_netlocOf hc with hc | hc | hc
    · exact SplitResult.close_not_mem hcredentials hvalid (mem_hostOf hc (by decide) (by decide))
    · exact absurd hc (by decide)
    · exact absurd hc (by decide)
  refine SplitResult.hostAndPort_plain hat fun hopen => ?_
  simp [bracketsValid, hopen, hclose] at hbrackets

theorem hostOf_rewritten {name text : List Char} (h : (rewritten U s port).hostAndPort = (name, text))
    (hname : name <:+: hostOf U s) : hostOf U (rewritten U s port) = stripDots name := by
  rw [hostOf_of_lowered, h]
  intro t ht
  rw [h] at ht
  exact lower_of_infix_hostOf (ht.trans hname)

/-- A host, or its first part, stays what it is when the canonical URL is read. -/
def Survives (U : Unicode) (s : SplitResult) (port : Option ℕ) (name : List Char) : Prop :=
  ':' ∉ hostOf U s ∧ name = hostOf U s ∨
    port = none ∧ ∃ p ≤ 65535, hostOf U s = name ++ ':' :: Nat.toDigits 10 p ∧ ':' ∉ name ∧
      name ≠ [] ∧ stripDots name = name

theorem eq_of_cut {before before' rest rest' : List Char} (h : ':' ∉ before) (h' : ':' ∉ before')
    (heq : before ++ ':' :: rest = before' ++ ':' :: rest') : before = before' ∧ rest = rest' := by
  have hcut := congrArg (cut ':') heq
  rw [cut_append h, cut_append h'] at hcut
  simpa using hcut

section Survival

variable (hport : s.port = some port) (hcredentials : '@' ∉ s.netloc)
  (hvalid : bracketsValid s.netloc = true)
  (hbrackets : bracketsValid (rewritten U s port).netloc = true)

include hport hcredentials hvalid hbrackets

theorem reads_host (hcolon : ':' ∉ hostOf U s) :
    (rewritten U s port).port = some port ∧ hostOf U (rewritten U s port) = hostOf U s := by
  have hpair := rewritten_hostAndPort hcredentials hvalid hbrackets
  have hplain : stripDots (hostOf U s) = hostOf U s := stripDots_stripDots _
  rcases SplitResult.port_cases hport with ⟨-, rfl⟩ | ⟨-, p, hp, rfl⟩
  · have hcut : cut ':' (rewritten U s none).netloc = (hostOf U s, none) := cut_of_not_mem hcolon
    rw [hcut] at hpair
    exact ⟨SplitResult.port_none (by rw [hpair]; rfl),
      (hostOf_rewritten hpair List.infix_rfl).trans hplain⟩
  · have hcut : cut ':' (rewritten U s (some p)).netloc = (hostOf U s, some (Nat.toDigits 10 p)) :=
      cut_append hcolon _
    rw [hcut] at hpair
    exact ⟨SplitResult.port_digits (by rw [hpair]; rfl) hp,
      (hostOf_rewritten hpair List.infix_rfl).trans hplain⟩

theorem reads_first {first rest : List Char} (hcolon : ':' ∉ first)
    (hsplit : hostOf U s = first ++ ':' :: rest) :
    hostOf U (rewritten U s port) = stripDots first ∧
      (rewritten U s port).hostAndPort.2 = rest ++ (netlocOf [] port) := by
  have hpair := rewritten_hostAndPort hcredentials hvalid hbrackets
  have hnetloc : (rewritten U s port).netloc = first ++ ':' :: (rest ++ netlocOf [] port) := by
    change netlocOf (hostOf U s) port = _
    rw [hsplit]
    cases port <;> simp [netlocOf]
  rw [hnetloc, cut_append hcolon] at hpair
  have hpart : first <:+: hostOf U s := ⟨[], ':' :: rest, by simp [hsplit]⟩
  exact ⟨hostOf_rewritten hpair hpart, by rw [hpair]; rfl⟩

/-- Reading the canonical URL gives its network location back exactly where the host survives. -/
theorem survives_iff (hhost : hostOf U s ≠ []) (name : List Char) :
    (∃ port', (rewritten U s port).port = some port' ∧ hostOf U (rewritten U s port) = name ∧
      name ≠ [] ∧ netlocOf name port' = netlocOf (hostOf U s) port) ↔ Survives U s port name := by
  rcases cut_cases ':' (hostOf U s) with ⟨hcolon, -⟩ | ⟨first, rest, hcolon, hsplit, -⟩
  · obtain ⟨hagain, hread⟩ := reads_host hport hcredentials hvalid hbrackets hcolon
    constructor
    · rintro ⟨port', -, rfl, -, -⟩
      exact .inl ⟨hcolon, hread⟩
    · rintro (⟨-, rfl⟩ | ⟨-, p, -, hsplit, -⟩)
      · exact ⟨port, hagain, hread, hhost, rfl⟩
      · simp [hsplit] at hcolon
  · obtain ⟨hread, htext⟩ := reads_first hport hcredentials hvalid hbrackets hcolon hsplit
    have hstripped : ':' ∉ stripDots first := fun h => hcolon ((stripDots_initial _).mem h)
    constructor
    · rintro ⟨port', hport', rfl, hne, hnetloc⟩
      rw [hread] at hne hnetloc ⊢
      rcases SplitResult.port_cases hport' with ⟨-, rfl⟩ | ⟨hdigits, p, hp, rfl⟩
      · have hmem : ':' ∈ netlocOf (hostOf U s) port := by
          cases port <;> simp [netlocOf, hsplit]
        rw [← hnetloc] at hmem
        exact absurd hmem hstripped
      · rw [htext, List.all_append, Bool.and_eq_true] at hdigits
        cases port with
        | some q => simp [netlocOf] at hdigits
        | none =>
          have heq : stripDots first ++ ':' :: Nat.toDigits 10 p = first ++ ':' :: rest :=
            hnetloc.trans hsplit
          obtain ⟨hfirst, hrest⟩ := eq_of_cut hstripped hcolon heq
          refine .inr ⟨rfl, p, hp, ?_, hstripped, hne, stripDots_stripDots _⟩
          rw [hsplit, hfirst, hrest]
    · rintro (⟨hnot, -⟩ | ⟨rfl, p, hp, heq, hname, hne, hdots⟩)
      · simp [hsplit] at hnot
      · obtain ⟨rfl, rfl⟩ := eq_of_cut hname hcolon (heq.symm.trans hsplit)
        refine ⟨some p, SplitResult.port_digits ?_ hp, by rw [hread, hdots], hne, heq.symm⟩
        rw [htext]
        simp [netlocOf]

end Survival

end Rewriting

end YtdlBot.Media.Requests
