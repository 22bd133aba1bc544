import Mathlib.Data.List.DropRight
import YtdlBot.Framework.Percent

/-!
# URLs

`urlsplit` and `urlunsplit` of `urllib.parse`, with the properties of what they split. A URL that is
put together from clean parts is split into them again.
-/

namespace YtdlBot.Framework.Urls

open Percent

/-- Characters that end or divide a network location. -/
def delimiters : List Char := ['/', '?', '#', '@', ':']

/-- What a Unicode database says of texts: `str.lower` and normalization to NFKC. Lowered text stays
as it is, ASCII letters are lowered one by one, and what else is lowered makes no ASCII characters
but small letters. -/
structure Unicode where
  lower : List Char → List Char
  nfkc : List Char → List Char
  lower_ascii : ∀ s, (∀ c ∈ s, c.toNat < 0x80) → lower s = s.map Char.toLower
  lower_infix : ∀ s t, t <:+: lower s → lower t = t
  mem_lower : ∀ s, ∀ c ∈ lower s, c.toNat < 0x80 → c.isLower = false → c ∈ s

theorem toLower_cases (c : Char) : c.toLower = c ∨ c.toLower.isLower = true := by
  unfold Char.toLower
  split_ifs with h
  · simp only [ge_iff_le, UInt32.le_iff_toNat_le] at h
    simp only [Char.isLower, Bool.and_eq_true, decide_eq_true_eq, ge_iff_le, UInt32.le_iff_toNat_le]
    right
    simp at h ⊢
    omega
  · exact .inl rfl

theorem toLower_of_isLower {c : Char} (h : c.isLower = true) : c.toLower = c := by
  rw [Char.toLower, dif_neg]
  simp only [Char.isLower, Bool.and_eq_true, decide_eq_true_eq, ge_iff_le,
    UInt32.le_iff_toNat_le] at h ⊢
  intro hupper
  exact absurd (Nat.le_trans h.1 hupper.2) (by decide)

theorem toLower_toLower (c : Char) : c.toLower.toLower = c.toLower := by
  rcases toLower_cases c with h | h
  · rw [h, h]
  · exact toLower_of_isLower h

/-- The database as far as ASCII texts can tell. -/
def Unicode.ascii : Unicode where
  lower := List.map Char.toLower
  nfkc := id
  lower_ascii := fun _ _ => rfl
  lower_infix := by
    intro s t h
    have hlower : ∀ c ∈ t, c.toLower = c := by
      intro c hc
      obtain ⟨d, -, rfl⟩ := List.mem_map.mp (h.subset hc)
      exact toLower_toLower d
    exact (List.map_congr_left hlower).trans (List.map_id t)
  mem_lower := by
    intro s c hc _ hlower
    obtain ⟨d, hd, rfl⟩ := List.mem_map.mp hc
    rcases toLower_cases d with h | h
    · rwa [h]
    · rw [h] at hlower
      cases hlower

theorem Unicode.lower_nil (U : Unicode) : U.lower [] = [] := U.lower_ascii [] (by simp)

section Splitting

/-- `lstrip` of C0 controls and spaces, and the removal of tabs and line ends. -/
def clean (url : List Char) : List Char :=
  (url.dropWhile fun c => c.toNat ≤ 0x20).filter fun c => c ∉ ['\t', '\r', '\n']

def isSchemeChar (c : Char) : Bool := c.isAlphanum || c ∈ ['+', '-', '.']

/-- The scheme and the rest. -/
def splitScheme (url : List Char) : List Char × List Char :=
  match cut ':' url with
  | (scheme, some rest) =>
    if scheme.head?.any Char.isAlpha && scheme.all isSchemeChar then
      (scheme.map Char.toLower, rest)
    else ([], url)
  | (_, none) => ([], url)

def endsNetloc (c : Char) : Bool := c ∈ ['/', '?', '#']

/-- `_splitnetloc`, after two slashes. -/
def splitNetloc : List Char → List Char × List Char
  | '/' :: '/' :: rest =>
    (rest.takeWhile fun c => !endsNetloc c, rest.dropWhile fun c => !endsNetloc c)
  | url => ([], url)

/-- `rpartition("@")[2]` -/
def hostinfo (netloc : List Char) : List Char := netloc.rtakeWhile (· ≠ '@')

def isHex (c : Char) : Bool := (hexValue c).isSome

/-- The pattern of an IPvFuture address. -/
def isIpvFuture (host : List Char) : Bool :=
  let hex := host.tail.takeWhile isHex
  hex ≠ [] && match host.tail.dropWhile isHex with
    | '.' :: _ :: _ => true
    | _ => false

def isIpv4 (text : List Char) : Bool :=
  let octets := text.splitOn '.'
  octets.length = 4 && octets.all fun octet =>
    octet ≠ [] && octet.all Char.isDigit && octet.length ≤ 3 && (octet = ['0'] || octet.head? ≠ some '0') &&
      Nat.ofDigitChars 10 octet 0 ≤ 255

def isHextet (part : List Char) : Bool := part ≠ [] && part.all isHex && part.length ≤ 4

/-- `IPv6Address(text)` raises nothing. -/
def isIpv6 (text : List Char) : Bool :=
  let (address, scope) := cut '%' text
  let parts := address.splitOn ':'
  let last := parts.getLastD []
  -- an IPv4 suffix stands for two hextets
  let parts := if last.contains '.' then parts.dropLast ++ [['0'], ['0']] else parts
  let inner := parts.tail.dropLast
  '/' ∉ text && (scope.all fun scope => scope ≠ [] && '%' ∉ scope) &&
    3 ≤ (address.splitOn ':').length && (!last.contains '.' || isIpv4 last) && parts.length ≤ 9 &&
    match inner.findIdx? (· = []) with
    | none => parts.length = 8 && parts.all isHextet
    | some index =>
      let high := parts.take (index + 1)
      let low := parts.drop (index + 2)
      let high := if high = [[]] then [] else high
      let low := if low = [[]] then [] else low
      high.all isHextet && low.all isHextet && high.length + low.length ≤ 7

/-- `_check_bracketed_netloc` -/
def bracketsValid (netloc : List Char) : Bool :=
  if '[' ∈ netloc ∨ ']' ∈ netloc then
    '[' ∈ netloc && ']' ∈ netloc &&
      match cut '[' (hostinfo netloc) with
      | (before, some bracketed) =>
        let (host, port) := cut ']' bracketed
        before = [] && (port.getD []).head?.all (· = ':') &&
          if host.head? = some 'v' then isIpvFuture host else isIpv6 host
      | (_, none) =>
        let host := (cut ':' (hostinfo netloc)).1
        if host.head? = some 'v' then isIpvFuture host else isIpv6 host
  else true

/-- `_checknetloc` -/
def nfkcValid (U : Unicode) (netloc : List Char) : Bool :=
  netloc.all (fun c => c.toNat < 0x80) ||
    delimiters.all fun c => c ∉ U.nfkc (netloc.filter fun d => d ∉ ['@', ':', '#', '?'])

structure SplitResult where
  scheme : List Char
  netloc : List Char
  path : List Char
  query : List Char
  fragment : List Char
deriving DecidableEq

/-- `urlsplit`; `none` is a `ValueError`. -/
def urlsplit (U : Unicode) (url : List Char) : Option SplitResult :=
  let (scheme, rest) := splitScheme (clean url)
  let (netloc, rest) := splitNetloc rest
  let (rest, fragment) := cut '#' rest
  let (path, query) := cut '?' rest
  if bracketsValid netloc && nfkcValid U netloc then
    some ⟨scheme, netloc, path, query.getD [], fragment.getD []⟩
  else none

/-- `urlunsplit` of a URL with a scheme, a network location and no fragment. -/
def urlunsplit (scheme netloc path query : List Char) : List Char :=
  scheme ++ ':' :: '/' :: '/' :: netloc ++
    (if path ≠ [] ∧ path.head? ≠ some '/' then '/' :: path else path) ++
    if query = [] then [] else '?' :: query

namespace SplitResult

variable (s : SplitResult)

/-- `_hostinfo`: the host and the text of the port. -/
def hostAndPort : List Char × List Char :=
  match cut '[' (hostinfo s.netloc) with
  | (_, some bracketed) =>
    let (host, rest) := cut ']' bracketed
    (host, (cut ':' (rest.getD [])).2.getD [])
  | (_, none) =>
    let (host, port) := cut ':' (hostinfo s.netloc)
    (host, port.getD [])

def hostname (U : Unicode) : Option (List Char) :=
  let host := s.hostAndPort.1
  if host = [] then none
  else
    let (name, zone) := cut '%' host
    some (U.lower name ++ match zone with
      | none => []
      | some zone => '%' :: zone)

/-- `sys.int_info.default_max_str_digits` -/
def maxStrDigits : Nat := 4300

/-- `none` is a `ValueError`. -/
def port : Option (Option Nat) :=
  let text := s.hostAndPort.2
  if text = [] then some none
  else if text.all Char.isDigit && text.length ≤ maxStrDigits &&
      Nat.ofDigitChars 10 text 0 ≤ 65535 then some (some (Nat.ofDigitChars 10 text 0))
  else none

/-- `username is not None or password is not None` -/
def hasCredentials : Bool := s.netloc.contains '@'

end SplitResult

end Splitting

section Facts

variable {U : Unicode} {url : List Char} {s : SplitResult}

/-- Characters that are dropped from every URL. -/
def isDropped (c : Char) : Bool := c ∈ ['\t', '\r', '\n']

/-- What the parts of a URL are made of. -/
structure Parts (s : SplitResult) : Prop where
  netloc : ∀ c ∈ s.netloc, endsNetloc c = false ∧ isDropped c = false
  path : ∀ c ∈ s.path, c ≠ '?' ∧ c ≠ '#' ∧ isDropped c = false
  rooted : s.netloc ≠ [] → s.path = [] ∨ s.path.head? = some '/'
  query : ∀ c ∈ s.query, c ≠ '#' ∧ isDropped c = false

theorem mem_splitScheme {c : Char} (h : c ∈ (splitScheme url).2) : c ∈ url := by
  unfold splitScheme at h
  split at h
  next scheme rest hcut =>
    split_ifs at h
    · have hrest : c ∈ (cut ':' url).2.getD [] := by simpa [hcut] using h
      exact mem_of_mem_cut (.inr hrest)
    · exact h
  · exact h

theorem splitNetloc_netloc {c : Char} (h : c ∈ (splitNetloc url).1) :
    c ∈ url ∧ endsNetloc c = false := by
  unfold splitNetloc at h
  split at h
  next rest =>
    have hmem := (List.takeWhile_prefix _).mem h
    have hall := List.all_eq_true.mp (List.all_takeWhile (l := rest)) c h
    exact ⟨by simp [hmem], by simpa using hall⟩
  · simp at h

theorem splitNetloc_rest {c : Char} (h : c ∈ (splitNetloc url).2) : c ∈ url := by
  unfold splitNetloc at h
  split at h
  · exact List.mem_cons_of_mem _ (List.mem_cons_of_mem _ ((List.dropWhile_sublist _).mem h))
  · exact h

theorem splitNetloc_ends (h : (splitNetloc url).1 ≠ []) :
    ∀ c ∈ (splitNetloc url).2.head?, endsNetloc c = true := by
  unfold splitNetloc at h ⊢
  split at h
  next rest =>
    intro c hc
    have hnot := List.head?_dropWhile_not (fun c => !endsNetloc c) rest
    dsimp only at hc
    rw [Option.mem_def.mp hc] at hnot
    simpa using hnot
  · exact absurd rfl h

theorem parts_of_urlsplit (h : urlsplit U url = some s) : Parts s := by
  unfold urlsplit at h
  dsimp only at h
  split_ifs at h
  obtain rfl := Option.some.inj h
  have hclean : ∀ {c : Char}, c ∈ (splitScheme (clean url)).2 → isDropped c = false := by
    intro c hc
    simpa [isDropped] using (List.mem_filter.mp (mem_splitScheme hc)).2
  refine ⟨?_, ?_, ?_, ?_⟩
  · intro c hc
    obtain ⟨hmem, hends⟩ := splitNetloc_netloc hc
    exact ⟨hends, hclean hmem⟩
  · intro c hc
    have hrest := mem_of_mem_cut (.inl hc)
    refine ⟨?_, ?_, hclean (splitNetloc_rest (mem_of_mem_cut (.inl hrest)))⟩
    · rintro rfl
      exact not_mem_cut _ _ hc
    · rintro rfl
      exact not_mem_cut _ _ hrest
  · intro hnetloc
    have hends := splitNetloc_ends hnetloc
    dsimp only at hnetloc ⊢
    cases hrest : (splitNetloc (splitScheme (clean url)).2).2 with
    | nil => exact .inl rfl
    | cons c rest =>
      rw [hrest] at hends
      have hc := hends c rfl
      simp only [endsNetloc, List.mem_cons, List.not_mem_nil, or_false, decide_eq_true_eq] at hc
      rcases hc with rfl | rfl | rfl
      · exact .inr rfl
      · exact .inl rfl
      · exact .inl rfl
  · intro c hc
    have hrest := mem_of_mem_cut (.inr hc)
    refine ⟨?_, hclean (splitNetloc_rest (mem_of_mem_cut (.inl hrest)))⟩
    rintro rfl
    exact not_mem_cut _ _ hrest

theorem bracketsValid_of_urlsplit (h : urlsplit U url = some s) :
    bracketsValid s.netloc = true := by
  unfold urlsplit at h
  dsimp only at h
  split_ifs at h with hvalid
  obtain rfl := Option.some.inj h
  exact (Bool.and_eq_true_iff.mp hvalid).1

theorem cut_query {path : List Char} (query : List Char) (h : '?' ∉ path) :
    (cut '?' (path ++ if query = [] then [] else '?' :: query)).1 = path ∧
      (cut '?' (path ++ if query = [] then [] else '?' :: query)).2.getD [] = query := by
  split_ifs with hquery
  · rw [List.append_nil, cut_of_not_mem h]
    exact ⟨rfl, hquery.symm⟩
  · rw [cut_append h]
    exact ⟨rfl, rfl⟩

/-- What is put together from the parts of a URL is split into them, or refused. -/
theorem urlsplit_urlunsplit (h : Parts s) (hscheme : s.scheme = "https".toList)
    (hpath : s.path.head? = some '/') (hfragment : s.fragment = []) :
    urlsplit U (urlunsplit "https".toList s.netloc s.path s.query) =
      if bracketsValid s.netloc && nfkcValid U s.netloc then some s else none := by
  obtain ⟨scheme, netloc, path, query, fragment⟩ := s
  dsimp only at hscheme hpath hfragment
  subst hscheme hfragment
  have hquery := cut_query query fun hmem => (h.path _ hmem).1 rfl
  have hurl : urlunsplit "https".toList netloc path query =
      "https".toList ++ ':' :: '/' :: '/' :: (netloc ++ (path ++
        if query = [] then [] else '?' :: query)) := by
    simp [urlunsplit, hpath]
  generalize hrest : (path ++ if query = [] then [] else '?' :: query) = rest at hquery hurl
  have hmem : ∀ c ∈ rest, c ≠ '#' ∧ isDropped c = false := by
    intro c hc
    rw [← hrest] at hc
    rcases List.mem_append.mp hc with hc | hc
    · exact (h.path c hc).2
    · split_ifs at hc
      · cases hc
      · rcases List.mem_cons.mp hc with rfl | hc
        · exact ⟨by decide, by decide⟩
        · exact h.query c hc
  have hhead : rest.head? = some '/' := by
    rw [← hrest, List.head?_append, hpath]
    rfl
  have hclean : clean (urlunsplit "https".toList netloc path query) =
      urlunsplit "https".toList netloc path query := by
    rw [hurl]
    refine List.filter_eq_self.mpr ?_
    intro c hc
    have hkept : c ∈ "https://".toList ∨ c ∈ netloc ∨ c ∈ rest := by
      simpa [or_assoc] using hc
    rcases hkept with hc | hc | hc
    · have hprefixed : "https://".toList.all (fun c => decide (c ∉ ['\t', '\r', '\n'])) = true := by
        decide
      exact List.all_eq_true.mp hprefixed c hc
    · simpa [isDropped] using (h.netloc c hc).2
    · simpa [isDropped] using (hmem c hc).2
  have hsplit : splitScheme (urlunsplit "https".toList netloc path query) =
      ("https".toList, '/' :: '/' :: (netloc ++ rest)) := by
    rw [hurl, splitScheme, cut_append (by decide)]
    rfl
  have hnetloc : splitNetloc ('/' :: '/' :: (netloc ++ rest)) = (netloc, rest) := by
    have hall : ∀ c ∈ netloc, (!endsNetloc c) = true := fun c hc => by simp [(h.netloc c hc).1]
    cases rest with
    | nil => cases hhead
    | cons c rest =>
      obtain rfl : c = '/' := by simpa using hhead
      have hslash : (!endsNetloc '/') = false := by decide
      rw [splitNetloc, List.takeWhile_append_of_pos hall, List.dropWhile_append_of_pos hall,
        List.takeWhile_cons, List.dropWhile_cons, hslash]
      simp
  have hhash : cut '#' rest = (rest, none) := cut_of_not_mem fun hc => (hmem _ hc).1 rfl
  rw [urlsplit, hclean, hsplit]
  dsimp only
  rw [hnetloc]
  dsimp only
  rw [hhash]
  dsimp only
  rw [hquery.1, hquery.2]
  rfl

namespace SplitResult

theorem mem_hostname {host : List Char} {c : Char} (h : s.hostname U = some host) (hc : c ∈ host)
    (hascii : c.toNat < 0x80) (hlower : c.isLower = false) : c ∈ s.hostAndPort.1 := by
  simp only [hostname] at h
  split_ifs at h
  obtain rfl := Option.some.inj h
  rcases cut_cases '%' s.hostAndPort.1 with ⟨-, hcut⟩ | ⟨name, zone, -, hhost, hcut⟩
  · rw [hcut] at hc
    exact U.mem_lower _ c (by simpa using hc) hascii hlower
  · rw [hcut] at hc
    rw [hhost]
    rcases List.mem_append.mp hc with hc | hc
    · exact List.mem_append_left _ (U.mem_lower _ c hc hascii hlower)
    · exact List.mem_append_right _ hc

theorem hostname_of_lowered (h : ∀ t, t <:+: s.hostAndPort.1 → U.lower t = t)
    (hne : s.hostAndPort.1 ≠ []) : s.hostname U = some s.hostAndPort.1 := by
  simp only [hostname, hne, if_false]
  rcases cut_cases '%' s.hostAndPort.1 with ⟨-, hcut⟩ | ⟨name, zone, -, hhost, hcut⟩
  · simp [hcut, h _ List.infix_rfl]
  · have hname : name <:+: s.hostAndPort.1 := ⟨[], '%' :: zone, by simp [hhost]⟩
    rw [hcut, hhost]
    simp [h _ hname]

theorem mem_hostinfo {netloc : List Char} {c : Char} (h : c ∈ hostinfo netloc) : c ∈ netloc :=
  (List.rtakeWhile_suffix _ _).mem h

theorem hostinfo_eq {netloc : List Char} (h : '@' ∉ netloc) : hostinfo netloc = netloc := by
  refine List.rtakeWhile_eq_self_iff.mpr fun c hc => ?_
  have hne : c ≠ '@' := by
    rintro rfl
    exact h hc
  simpa using hne

theorem mem_hostAndPort {c : Char} (h : c ∈ s.hostAndPort.1) : c ∈ s.netloc := by
  unfold hostAndPort at h
  rcases cut_cases '[' (hostinfo s.netloc) with ⟨-, hcut⟩ | ⟨before, bracketed, -, hinfo, hcut⟩
  · rw [hcut] at h
    exact mem_hostinfo (mem_of_mem_cut (.inl h))
  · rw [hcut] at h
    refine mem_hostinfo ?_
    rw [hinfo]
    exact List.mem_append_right _ (List.mem_cons_of_mem _ (mem_of_mem_cut (.inl h)))

theorem close_not_mem (hcredentials : '@' ∉ s.netloc) (hvalid : bracketsValid s.netloc = true) :
    ']' ∉ s.hostAndPort.1 := by
  unfold hostAndPort
  rw [hostinfo_eq hcredentials]
  rcases cut_cases '[' s.netloc with ⟨hopen, hcut⟩ | ⟨before, bracketed, -, -, hcut⟩
  · rw [hcut]
    intro hclose
    have hmem : ']' ∈ s.netloc := mem_of_mem_cut (.inl hclose)
    simp [bracketsValid, hmem, hopen] at hvalid
  · rw [hcut]
    exact not_mem_cut _ _

theorem hostAndPort_plain (hcredentials : '@' ∉ s.netloc) (hopen : '[' ∉ s.netloc) :
    s.hostAndPort = ((cut ':' s.netloc).1, (cut ':' s.netloc).2.getD []) := by
  rw [hostAndPort, hostinfo_eq hcredentials, cut_of_not_mem hopen]

theorem port_none (h : s.hostAndPort.2 = []) : s.port = some none := by
  simp [port, h]

theorem port_digits {p : ℕ} (h : s.hostAndPort.2 = Nat.toDigits 10 p) (hp : p ≤ 65535) :
    s.port = some (some p) := by
  have hdigits : (Nat.toDigits 10 p).all Char.isDigit = true :=
    List.all_eq_true.mpr fun c hc => Nat.isDigit_of_mem_toDigits (by decide) (by decide) hc
  have hlength : (Nat.toDigits 10 p).length ≤ 5 :=
    (Nat.length_toDigits_le_iff (by decide) (by decide)).mpr (by omega)
  have hmax : (Nat.toDigits 10 p).length ≤ maxStrDigits := hlength.trans (by decide)
  simp [port, h, hdigits, hmax, hp, Nat.toDigits_ne_nil]

theorem port_cases {found : Option ℕ} (h : s.port = some found) :
    s.hostAndPort.2 = [] ∧ found = none ∨
      s.hostAndPort.2.all Char.isDigit = true ∧ ∃ p ≤ 65535, found = some p := by
  simp only [port] at h
  split_ifs at h with hempty hvalid
  · exact .inl ⟨hempty, (Option.some.inj h).symm⟩
  · simp only [Bool.and_eq_true, decide_eq_true_eq] at hvalid
    exact .inr ⟨hvalid.1.1, _, hvalid.2, (Option.some.inj h).symm⟩

end SplitResult

end Facts

section Queries

variable {U : Unicode}

/-- A URL with a query, or without one. -/
def withQuery (front : List Char) (query : Option (List Char)) (tail : List Char) : List Char :=
  front ++ match query with
    | none => tail
    | some query => '?' :: query ++ tail

/-- What comes behind a path: a query, a fragment or nothing. -/
def Behind (rest : List Char) : Prop := ∀ c ∈ rest.head?, c = '?' ∨ c = '#'

theorem clean_append {front rest : List Char} (h : Behind rest) :
    clean (front ++ rest) = clean front ++ rest.filter fun c => !isDropped c := by
  have hkept : rest.dropWhile (fun c => decide (c.toNat ≤ 0x20)) = rest := by
    cases rest with
    | nil => rfl
    | cons c rest =>
      rcases h c rfl with rfl | rfl <;> rfl
  have hdropped : ∀ c, decide (c ∉ ['\t', '\r', '\n']) = !isDropped c := fun c => by simp [isDropped]
  simp only [clean, hdropped]
  rw [List.dropWhile_append, hkept]
  split_ifs with hempty
  · simp [List.isEmpty_iff.mp hempty]
  · rw [List.filter_append]

theorem foreign_of_colon {front rest before after : List Char} (h : Behind rest)
    (hcolon : ':' ∉ front) (heq : front ++ rest = before ++ ':' :: after) :
    ∃ c ∈ before, isSchemeChar c = false := by
  have hhead : ∀ after, rest ≠ ':' :: after := by
    rintro after rfl
    exact absurd (h ':' rfl) (by decide)
  rcases List.append_eq_append_iff.mp heq with ⟨excess, rfl, hrest⟩ | ⟨excess, rfl, hexcess⟩
  · cases excess with
    | nil => exact absurd hrest (hhead _)
    | cons c excess =>
      refine ⟨c, by simp, ?_⟩
      rcases h c (by simp [hrest]) with rfl | rfl <;> decide
  · cases excess with
    | nil => exact absurd hexcess.symm (hhead _)
    | cons c excess =>
      obtain ⟨rfl, -⟩ := List.cons.inj hexcess
      simp at hcolon

theorem splitScheme_append {front rest : List Char} (h : Behind rest) :
    splitScheme (front ++ rest) = ((splitScheme front).1, (splitScheme front).2 ++ rest) := by
  unfold splitScheme
  rcases cut_cases ':' front with ⟨hcolon, hcut⟩ | ⟨scheme, after, hcolon, rfl, hcut⟩
  · rw [hcut]
    rcases cut_cases ':' (front ++ rest) with ⟨-, hcut'⟩ | ⟨before, after, hbefore, heq, hcut'⟩
    · rw [hcut']
    · rw [hcut']
      obtain ⟨c, hc, hforeign⟩ := foreign_of_colon h hcolon heq
      have hall : before.all isSchemeChar = false :=
        List.all_eq_false.mpr ⟨c, hc, by simp [hforeign]⟩
      simp [hall]
  · have hcut' : cut ':' (scheme ++ ':' :: after ++ rest) = (scheme, some (after ++ rest)) := by
      rw [List.append_assoc, List.cons_append, cut_append hcolon]
    rw [hcut, hcut']
    dsimp only
    split_ifs <;> rfl

theorem splitNetloc_of_ne {url : List Char} (h : ∀ rest, url ≠ '/' :: '/' :: rest) :
    splitNetloc url = ([], url) := by
  unfold splitNetloc
  split
  · exact absurd rfl (h _)
  · rfl

theorem span_append {p : Char → Bool} {rest : List Char} (h : ∀ c ∈ rest.head?, p c = false)
    (front : List Char) : (front ++ rest).takeWhile p = front.takeWhile p ∧
      (front ++ rest).dropWhile p = front.dropWhile p ++ rest := by
  induction front with
  | nil =>
    cases rest with
    | nil => simp
    | cons c rest => simp [h c rfl]
  | cons c front ih =>
    rw [List.cons_append, List.takeWhile_cons, List.dropWhile_cons, ih.1, ih.2]
    cases hc : p c <;> simp [hc]

theorem splitNetloc_append {front rest : List Char} (h : Behind rest) :
    splitNetloc (front ++ rest) = ((splitNetloc front).1, (splitNetloc front).2 ++ rest) := by
  have hslash : ∀ after, rest ≠ '/' :: after := by
    rintro after rfl
    exact absurd (h '/' rfl) (by decide)
  by_cases hnetloc : ∃ after, front = '/' :: '/' :: after
  · obtain ⟨after, rfl⟩ := hnetloc
    have hends : ∀ c ∈ rest.head?, (!endsNetloc c) = false := by
      intro c hc
      rcases h c hc with rfl | rfl <;> decide
    simp only [List.cons_append, splitNetloc, (span_append hends after).1,
      (span_append hends after).2]
  · have hfront : ∀ after, front ≠ '/' :: '/' :: after := fun after heq => hnetloc ⟨after, heq⟩
    rw [splitNetloc_of_ne hfront, splitNetloc_of_ne]
    intro after heq
    rcases List.append_eq_cons_iff.mp heq with ⟨-, hrest⟩ | ⟨front', rfl, hfront'⟩
    · exact hslash _ hrest
    · rcases List.append_eq_cons_iff.mp hfront'.symm with ⟨-, hrest⟩ | ⟨front'', rfl, -⟩
      · exact hslash _ hrest
      · exact hfront _ rfl

theorem cut_behind {sep : Char} {text rest : List Char} (htext : sep ∉ text)
    (hrest : ∀ c ∈ rest.head?, c = sep) : cut sep (text ++ rest) = (text, (cut sep rest).2) := by
  cases rest with
  | nil => simp [cut_of_not_mem htext, cut]
  | cons c rest =>
    obtain rfl := hrest c rfl
    rw [cut_append htext]
    simp [cut]

theorem head?_undropped {rest : List Char} {c : Char} (h : ∀ d ∈ rest.head?, isDropped d = false)
    (hc : c ∈ (rest.filter fun c => !isDropped c).head?) : c ∈ rest.head? := by
  cases rest with
  | nil => cases hc
  | cons d rest =>
    have hd := h d rfl
    simpa [hd] using hc

theorem urlsplit_append {front rest before : List Char} {fragment : Option (List Char)}
    (h : Behind rest)
    (hcut : cut '#' ((splitNetloc (splitScheme (clean front)).2).2 ++
      rest.filter fun c => !isDropped c) = (before, fragment)) :
    urlsplit U (front ++ rest) =
      if bracketsValid (splitNetloc (splitScheme (clean front)).2).1 &&
          nfkcValid U (splitNetloc (splitScheme (clean front)).2).1 then
        some ⟨(splitScheme (clean front)).1, (splitNetloc (splitScheme (clean front)).2).1,
          (cut '?' before).1, (cut '?' before).2.getD [], fragment.getD []⟩
      else none := by
  have hkept : Behind (rest.filter fun c => !isDropped c) := fun c hc =>
    h c (head?_undropped (fun d hd => by rcases h d hd with rfl | rfl <;> decide) hc)
  rw [urlsplit, clean_append h, splitScheme_append hkept]
  dsimp only
  rw [splitNetloc_append hkept]
  dsimp only
  rw [hcut]

/-- The query of a URL changes nothing else of it. -/
theorem urlsplit_withQuery {front tail : List Char} (query : Option (List Char))
    (hfront : '?' ∉ front ∧ '#' ∉ front) (hquery : ∀ q ∈ query, '#' ∉ q)
    (htail : ∀ c ∈ tail.head?, c = '#') :
    urlsplit U (withQuery front query tail) = (urlsplit U (front ++ tail)).map fun s =>
      { s with query := (query.getD []).filter fun c => !isDropped c } := by
  have hclean : ∀ c, c ∉ front → c ∉ (splitNetloc (splitScheme (clean front)).2).2 := by
    intro c hnot hmem
    have hmem := mem_splitScheme (splitNetloc_rest hmem)
    exact hnot ((List.dropWhile_sublist _).mem (List.mem_of_mem_filter hmem))
  have hquestion := hclean '?' hfront.1
  have hhash := hclean '#' hfront.2
  have hbehind : ∀ c ∈ (tail.filter fun c => !isDropped c).head?, c = '#' := fun c hc =>
    htail c (head?_undropped (fun d hd => by obtain rfl := htail d hd; decide) hc)
  rw [urlsplit_append (fun c hc => .inr (htail c hc)) (cut_behind hhash hbehind)]
  cases query with
  | none =>
    rw [withQuery, urlsplit_append (fun c hc => .inr (htail c hc)) (cut_behind hhash hbehind)]
    split_ifs <;> simp [cut_of_not_mem hquestion]
  | some q =>
    have hq : '#' ∉ q := hquery q rfl
    have hpath : '#' ∉ (splitNetloc (splitScheme (clean front)).2).2 ++
        '?' :: q.filter fun c => !isDropped c := by
      simp [hhash, hq]
    have hrest : (('?' :: q) ++ tail).filter (fun c => !isDropped c) =
        ('?' :: q.filter fun c => !isDropped c) ++ tail.filter fun c => !isDropped c := by
      have hkept : isDropped '?' = false := by decide
      rw [List.filter_append, List.filter_cons, hkept]
      rfl
    have hcut := cut_behind hpath hbehind
    rw [List.append_assoc, ← hrest] at hcut
    rw [withQuery, urlsplit_append (fun c hc => by simp at hc; exact .inl hc.symm) hcut]
    split_ifs <;> simp [cut_of_not_mem hquestion, cut_append hquestion]

end Queries

end YtdlBot.Framework.Urls
