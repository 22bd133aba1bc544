import Mathlib

/-!
# Percent-encoding

`quote` and `unquote` of texts through UTF-8, with `urlencode` and `parse_qsl` of query strings.
What has been encoded is read back. Bytes are numbers below 256.
-/

namespace YtdlBot.Framework.Percent

section Utf8

def encodeChar (c : Char) : List Nat :=
  let n := c.toNat
  if n < 0x80 then [n]
  else if n < 0x800 then [0xC0 + n / 64, 0x80 + n % 64]
  else if n < 0x10000 then [0xE0 + n / 4096, 0x80 + n / 64 % 64, 0x80 + n % 64]
  else [0xF0 + n / 262144, 0x80 + n / 4096 % 64, 0x80 + n / 64 % 64, 0x80 + n % 64]

def encode (text : List Char) : List Nat := text.flatMap encodeChar

def replacement : Char := Char.ofNat 0xFFFD

/-- A character of which some bytes are read: what they say, how many are missing, and the range of
the next one. -/
structure Partial where
  value : Nat
  missing : Nat
  low : Nat
  high : Nat

/-- The first byte of a character. -/
def first (b : Nat) : List Char × Option Partial :=
  if b < 0x80 then ([Char.ofNat b], none)
  else if 0xC2 ≤ b ∧ b ≤ 0xDF then ([], some ⟨b - 0xC0, 1, 0x80, 0xBF⟩)
  else if 0xE0 ≤ b ∧ b ≤ 0xEF then
    ([], some ⟨b - 0xE0, 2, if b = 0xE0 then 0xA0 else 0x80, if b = 0xED then 0x9F else 0xBF⟩)
  else if 0xF0 ≤ b ∧ b ≤ 0xF4 then
    ([], some ⟨b - 0xF0, 3, if b = 0xF0 then 0x90 else 0x80, if b = 0xF4 then 0x8F else 0xBF⟩)
  else ([replacement], none)

def next (p : Partial) (b : Nat) : List Char × Option Partial :=
  if p.low ≤ b ∧ b ≤ p.high then
    if p.missing = 1 then ([Char.ofNat (p.value * 64 + (b - 0x80))], none)
    else ([], some ⟨p.value * 64 + (b - 0x80), p.missing - 1, 0x80, 0xBF⟩)
  else (replacement :: (first b).1, (first b).2)

/-- `bytes.decode("utf-8", "replace")`, from within a character. -/
def decodeFrom : Option Partial → List Nat → List Char
  | none, [] => []
  | some _, [] => [replacement]
  | none, b :: bs => (first b).1 ++ decodeFrom (first b).2 bs
  | some p, b :: bs => (next p b).1 ++ decodeFrom (next p b).2 bs

def decode (bytes : List Nat) : List Char := decodeFrom none bytes

theorem ofNat_eq {c : Char} {n : Nat} (h : n = c.toNat) : Char.ofNat n = c := by
  rw [h, Char.ofNat_toNat]

theorem not_surrogate (c : Char) : c.toNat < 0xD800 ∨ 0xE000 ≤ c.toNat ∧ c.toNat < 0x110000 := by
  have hvalid := c.valid
  simp only [UInt32.isValidChar, Nat.isValidChar] at hvalid
  change c.val.toNat < 0xD800 ∨ 0xE000 ≤ c.val.toNat ∧ c.val.toNat < 0x110000
  omega

theorem first_two {b : Nat} (hlow : 2 ≤ b) (hhigh : b < 32) :
    first (0xC0 + b) = ([], some ⟨b, 1, 0x80, 0xBF⟩) := by
  have hascii : ¬ 0xC0 + b < 0x80 := by omega
  have hrange : 0xC2 ≤ 0xC0 + b ∧ 0xC0 + b ≤ 0xDF := by omega
  have hbits : 0xC0 + b - 0xC0 = b := by omega
  rw [first, if_neg hascii, if_pos hrange, hbits]

theorem first_three {b : Nat} (hhigh : b < 16) :
    first (0xE0 + b) = ([], some ⟨b, 2, if b = 0 then 0xA0 else 0x80,
      if b = 13 then 0x9F else 0xBF⟩) := by
  have hascii : ¬ 0xE0 + b < 0x80 := by omega
  have htwo : ¬ (0xC2 ≤ 0xE0 + b ∧ 0xE0 + b ≤ 0xDF) := by omega
  have hrange : 0xE0 ≤ 0xE0 + b ∧ 0xE0 + b ≤ 0xEF := by omega
  have hbits : 0xE0 + b - 0xE0 = b := by omega
  have hzero : (0xE0 + b = 0xE0) = (b = 0) := propext (by omega)
  have hlast : (0xE0 + b = 0xED) = (b = 13) := propext (by omega)
  rw [first, if_neg hascii, if_neg htwo, if_pos hrange, hbits]
  simp only [hzero, hlast]

theorem first_four {b : Nat} (hhigh : b ≤ 4) :
    first (0xF0 + b) = ([], some ⟨b, 3, if b = 0 then 0x90 else 0x80,
      if b = 4 then 0x8F else 0xBF⟩) := by
  have hascii : ¬ 0xF0 + b < 0x80 := by omega
  have htwo : ¬ (0xC2 ≤ 0xF0 + b ∧ 0xF0 + b ≤ 0xDF) := by omega
  have hthree : ¬ (0xE0 ≤ 0xF0 + b ∧ 0xF0 + b ≤ 0xEF) := by omega
  have hrange : 0xF0 ≤ 0xF0 + b ∧ 0xF0 + b ≤ 0xF4 := by omega
  have hbits : 0xF0 + b - 0xF0 = b := by omega
  have hzero : (0xF0 + b = 0xF0) = (b = 0) := propext (by omega)
  have hlast : (0xF0 + b = 0xF4) = (b = 4) := propext (by omega)
  rw [first, if_neg hascii, if_neg htwo, if_neg hthree, if_pos hrange, hbits]
  simp only [hzero, hlast]

theorem next_inside (value missing : Nat) {low high b : Nat} (hlow : low ≤ 0x80 + b)
    (hhigh : 0x80 + b ≤ high) : next ⟨value, missing + 2, low, high⟩ (0x80 + b) =
      ([], some ⟨value * 64 + b, missing + 1, 0x80, 0xBF⟩) := by
  have hmissing : ¬ missing + 2 = 1 := by omega
  have hbits : 0x80 + b - 0x80 = b := by omega
  simp only [next, hlow, hhigh, hmissing, hbits, and_self, if_true, if_false, Nat.add_one_sub_one]

theorem next_last (value : Nat) {low high b : Nat} (hlow : low ≤ 0x80 + b) (hhigh : 0x80 + b ≤ high) :
    next ⟨value, 1, low, high⟩ (0x80 + b) = ([Char.ofNat (value * 64 + b)], none) := by
  have hbits : 0x80 + b - 0x80 = b := by omega
  simp only [next, hlow, hhigh, hbits, and_self, if_true]

theorem decode_encodeChar (c : Char) (bytes : List Nat) :
    decodeFrom none (encodeChar c ++ bytes) = c :: decodeFrom none bytes := by
  have hvalid := not_surrogate c
  unfold encodeChar
  dsimp only
  generalize hn : c.toNat = n at hvalid ⊢
  have hlast : n % 64 < 64 := Nat.mod_lt _ (by decide)
  split_ifs with h1 h2 h3
  · have hfirst : first n = ([c], none) := by
      rw [first, if_pos h1, ofNat_eq hn.symm]
    simp only [List.cons_append, List.nil_append, decodeFrom, hfirst]
  · have hfirst := first_two (b := n / 64) (by omega) (by omega)
    have hsecond : next ⟨n / 64, 1, 0x80, 0xBF⟩ (0x80 + n % 64) = ([c], none) := by
      rw [next_last _ (by omega) (by omega), ofNat_eq (c := c) (by omega)]
    simp only [List.cons_append, List.nil_append, decodeFrom, hfirst, hsecond]
  · have hfirst := first_three (b := n / 4096) (by omega)
    have hsecond : next ⟨n / 4096, 2, if n / 4096 = 0 then 0xA0 else 0x80,
        if n / 4096 = 13 then 0x9F else 0xBF⟩ (0x80 + n / 64 % 64) =
        ([], some ⟨n / 4096 * 64 + n / 64 % 64, 1, 0x80, 0xBF⟩) :=
      next_inside _ 0 (by split_ifs <;> omega) (by split_ifs <;> omega)
    have hthird : next ⟨n / 4096 * 64 + n / 64 % 64, 1, 0x80, 0xBF⟩ (0x80 + n % 64) =
        ([c], none) := by
      rw [next_last _ (by omega) (by omega), ofNat_eq (c := c) (by omega)]
    simp only [List.cons_append, List.nil_append, decodeFrom, hfirst, hsecond, hthird]
  · have hfirst := first_four (b := n / 262144) (by omega)
    have hsecond : next ⟨n / 262144, 3, if n / 262144 = 0 then 0x90 else 0x80,
        if n / 262144 = 4 then 0x8F else 0xBF⟩ (0x80 + n / 4096 % 64) =
        ([], some ⟨n / 262144 * 64 + n / 4096 % 64, 2, 0x80, 0xBF⟩) :=
      next_inside _ 1 (by split_ifs <;> omega) (by split_ifs <;> omega)
    have hthird : next ⟨n / 262144 * 64 + n / 4096 % 64, 2, 0x80, 0xBF⟩ (0x80 + n / 64 % 64) =
        ([], some ⟨(n / 262144 * 64 + n / 4096 % 64) * 64 + n / 64 % 64, 1, 0x80, 0xBF⟩) :=
      next_inside _ 0 (by omega) (by omega)
    have hfourth : next ⟨(n / 262144 * 64 + n / 4096 % 64) * 64 + n / 64 % 64, 1, 0x80, 0xBF⟩
        (0x80 + n % 64) = ([c], none) := by
      rw [next_last _ (by omega) (by omega), ofNat_eq (c := c) (by omega)]
    simp only [List.cons_append, List.nil_append, decodeFrom, hfirst, hsecond, hthird, hfourth]

@[simp] theorem decode_encode (text : List Char) : decode (encode text) = text := by
  induction text with
  | nil => rfl
  | cons c text ih =>
    rw [encode, List.flatMap_cons, decode, decode_encodeChar]
    exact congrArg (c :: ·) ih

theorem encodeChar_ascii {c : Char} (h : c.toNat < 0x80) : encodeChar c = [c.toNat] := by
  simp [encodeChar, h]

theorem encodeChar_lt (c : Char) : ∀ b ∈ encodeChar c, b < 256 := by
  have hvalid := not_surrogate c
  unfold encodeChar
  dsimp only
  generalize c.toNat = n at hvalid ⊢
  intro b hb
  split_ifs at hb <;> simp only [List.mem_cons, List.not_mem_nil, or_false] at hb <;> omega

end Utf8

section Quoting

/-- An uppercase hexadecimal digit. -/
def hexDigit (n : Nat) : Char := (Nat.digitChar n).toUpper

def hexDigits : List Char := "0123456789abcdefABCDEF".toList

/-- The value of a hexadecimal digit. -/
def hexValue (c : Char) : Option Nat :=
  if c ∈ hexDigits then
    some (if c.isDigit then c.toNat - 48 else if c.isLower then c.toNat - 87 else c.toNat - 55)
  else none

def alwaysSafe (c : Char) : Bool := c.isAlphanum || c ∈ ['_', '.', '-', '~']

def percent (b : Nat) : List Char := ['%', hexDigit (b / 16), hexDigit (b % 16)]

/-- `quote` of one character; `safe` adds to the characters that are always safe. -/
def quoteChar (safe : List Char) (c : Char) : List Char :=
  if c.toNat < 0x80 ∧ (alwaysSafe c ∨ c ∈ safe) then [c] else (encodeChar c).flatMap percent

def quote (safe text : List Char) : List Char := text.flatMap (quoteChar safe)

def quotePlus (text : List Char) : List Char :=
  (quote [' '] text).map fun c => if c = ' ' then '+' else c

/-- `unquote_to_bytes` of an ASCII text. -/
def unquoteBytes : List Char → List Nat
  | [] => []
  | [c] => [c.toNat]
  | [c, d] => [c.toNat, d.toNat]
  | c :: d :: e :: rest =>
    if c = '%' then
      match hexValue d, hexValue e with
      | some x, some y => (16 * x + y) :: unquoteBytes rest
      | _, _ => c.toNat :: unquoteBytes (d :: e :: rest)
    else c.toNat :: unquoteBytes (d :: e :: rest)

/-- `unquote`, from within a run of ASCII characters, which are kept in reverse. -/
def unquoteFrom (run : List Char) : List Char → List Char
  | [] => decode (unquoteBytes run.reverse)
  | c :: rest =>
    if c.toNat < 0x80 then unquoteFrom (c :: run) rest
    else decode (unquoteBytes run.reverse) ++ c :: unquoteFrom [] rest

def unquote (text : List Char) : List Char := unquoteFrom [] text

def unquotePlus (text : List Char) : List Char :=
  unquote (text.map fun c => if c = '+' then ' ' else c)

theorem unquoteBytes_cons {c : Char} (h : c ≠ '%') (rest : List Char) :
    unquoteBytes (c :: rest) = c.toNat :: unquoteBytes rest := by
  match rest with
  | [] => rfl
  | [d] => rfl
  | d :: e :: rest => rw [unquoteBytes, if_neg h]

theorem hexValue_hexDigit : ∀ n < 16, hexValue (hexDigit n) = some n := by decide

theorem unquoteBytes_percent {b : Nat} (hb : b < 256) (rest : List Char) :
    unquoteBytes (percent b ++ rest) = b :: unquoteBytes rest := by
  have hhigh := hexValue_hexDigit (b / 16) (by omega)
  have hlow := hexValue_hexDigit (b % 16) (by omega)
  have hvalue : 16 * (b / 16) + b % 16 = b := by omega
  simp only [percent, List.cons_append, List.nil_append, unquoteBytes, if_true, hhigh, hlow, hvalue]

theorem unquoteFrom_ascii {run text : List Char} (h : ∀ c ∈ text, c.toNat < 0x80) :
    unquoteFrom run text = decode (unquoteBytes (run.reverse ++ text)) := by
  induction text generalizing run with
  | nil => simp [unquoteFrom]
  | cons c text ih =>
    have hc := h c List.mem_cons_self
    rw [unquoteFrom, if_pos hc, ih fun d hd => h d (List.mem_cons_of_mem _ hd)]
    simp

/-- The characters that quoting writes besides the ones it is told are safe. -/
def isQuoted (c : Char) : Bool := alwaysSafe c || c == '%'

theorem isQuoted_percent : ∀ b < 256, (percent b).all isQuoted = true := by decide +kernel

theorem isQuoted_ascii {c : Char} (h : isQuoted c = true) : c.toNat < 0x80 := by
  have hsafe : alwaysSafe c = true ∨ c = '%' := by simpa [isQuoted] using h
  rcases hsafe with hsafe | rfl
  · simp only [alwaysSafe, Bool.or_eq_true, Char.isAlphanum, Char.isAlpha, Char.isUpper,
      Char.isLower, Char.isDigit, decide_eq_true_eq, Bool.and_eq_true, List.mem_cons,
      List.not_mem_nil, or_false, ge_iff_le, UInt32.le_iff_toNat_le] at hsafe
    rcases hsafe with hletter | rfl | rfl | rfl | rfl
    · simp at hletter
      omega
    · decide
    · decide
    · decide
    · decide
  · decide

theorem mem_quote {safe text : List Char} {c : Char} (h : c ∈ quote safe text) :
    c.toNat < 0x80 ∧ (isQuoted c = true ∨ c ∈ safe) := by
  obtain ⟨d, -, hc⟩ := List.mem_flatMap.mp h
  unfold quoteChar at hc
  split_ifs at hc with hd
  · obtain rfl := List.mem_singleton.mp hc
    exact ⟨hd.1, hd.2.imp_left fun hsafe => by simp [isQuoted, hsafe]⟩
  · obtain ⟨b, hb, hc⟩ := List.mem_flatMap.mp hc
    have hquoted := List.all_eq_true.mp (isQuoted_percent b (encodeChar_lt d b hb)) c hc
    exact ⟨isQuoted_ascii hquoted, .inl hquoted⟩

theorem unquoteBytes_encoded {bytes : List Nat} (h : ∀ b ∈ bytes, b < 256) (rest : List Char) :
    unquoteBytes (bytes.flatMap percent ++ rest) = bytes ++ unquoteBytes rest := by
  induction bytes with
  | nil => rfl
  | cons b bytes ih =>
    rw [List.flatMap_cons, List.append_assoc, unquoteBytes_percent (h b List.mem_cons_self),
      ih fun b hb => h b (List.mem_cons_of_mem _ hb)]
    rfl

theorem unquoteBytes_quote {safe : List Char} (hsafe : '%' ∉ safe) (text : List Char) :
    unquoteBytes (quote safe text) = encode text := by
  induction text with
  | nil => rfl
  | cons c text ih =>
    rw [quote, List.flatMap_cons, encode, List.flatMap_cons, ← encode, ← ih, quote]
    unfold quoteChar
    split_ifs with hc
    · have hpercent : c ≠ '%' := by
        rintro rfl
        rcases hc.2 with hpercent | hpercent
        · exact absurd hpercent (by decide)
        · exact hsafe hpercent
      rw [encodeChar_ascii hc.1]
      exact unquoteBytes_cons hpercent _
    · exact unquoteBytes_encoded (encodeChar_lt c) _

theorem unquote_quote {safe : List Char} (hsafe : '%' ∉ safe) (text : List Char) :
    unquote (quote safe text) = text := by
  rw [unquote, unquoteFrom_ascii fun c hc => (mem_quote hc).1]
  simp [unquoteBytes_quote hsafe]

@[simp] theorem unquotePlus_quotePlus (text : List Char) : unquotePlus (quotePlus text) = text := by
  have hplus : ∀ c ∈ quote [' '] text, c ≠ '+' := by
    rintro c hc rfl
    rcases (mem_quote hc).2 with h | h
    · exact absurd h (by decide)
    · exact absurd (List.mem_singleton.mp h) (by decide)
  have hback : (quotePlus text).map (fun c => if c = '+' then ' ' else c) = quote [' '] text := by
    rw [quotePlus, List.map_map]
    refine (List.map_congr_left fun c hc => ?_).trans (List.map_id _)
    by_cases hspace : c = ' '
    · simp [hspace]
    · simp [hspace, hplus c hc]
  rw [unquotePlus, hback, unquote_quote (by simp)]

theorem mem_quotePlus {text : List Char} {c : Char} (h : c ∈ quotePlus text) :
    isQuoted c = true ∨ c = '+' := by
  obtain ⟨d, hd, rfl⟩ := List.mem_map.mp h
  split_ifs with hspace
  · exact .inr rfl
  · exact .inl ((mem_quote hd).2.resolve_right fun h => hspace (List.mem_singleton.mp h))

theorem quote_eq_self {safe text : List Char}
    (h : ∀ c ∈ text, c.toNat < 0x80 ∧ (alwaysSafe c = true ∨ c ∈ safe)) : quote safe text = text := by
  induction text with
  | nil => rfl
  | cons c text ih =>
    rw [quote, List.flatMap_cons, quoteChar, if_pos (h c List.mem_cons_self)]
    exact congrArg (c :: ·) (ih fun d hd => h d (List.mem_cons_of_mem _ hd))

end Quoting

section Queries

/-- `text.partition(sep)`, with no second part where there is no separator. -/
def cut (sep : Char) : List Char → List Char × Option (List Char)
  | [] => ([], none)
  | c :: rest => if c = sep then ([], some rest) else ((c :: (cut sep rest).1), (cut sep rest).2)

abbrev Query := List (List Char × List Char)

/-- `parse_qsl`; `keepBlank` is `keep_blank_values`. -/
def parseQsl (keepBlank : Bool) (query : List Char) : Query :=
  ((query.splitOn '&').filter fun field =>
    field ≠ [] ∧ (keepBlank ∨ (cut '=' field).2.getD [] ≠ [])).map fun field =>
      (unquotePlus (cut '=' field).1, unquotePlus ((cut '=' field).2.getD []))

def urlencode (query : Query) : List Char :=
  ['&'].intercalate (query.map fun item => quotePlus item.1 ++ '=' :: quotePlus item.2)

variable {sep : Char} {before rest : List Char}

theorem cut_append (h : sep ∉ before) (rest : List Char) :
    cut sep (before ++ sep :: rest) = (before, some rest) := by
  induction before with
  | nil => simp [cut]
  | cons c before ih =>
    obtain ⟨hc, hbefore⟩ := not_or.mp (List.mem_cons.not.mp h)
    simp [cut, Ne.symm hc, ih hbefore]

theorem cut_of_not_mem (h : sep ∉ before) : cut sep before = (before, none) := by
  induction before with
  | nil => rfl
  | cons c before ih =>
    obtain ⟨hc, hbefore⟩ := not_or.mp (List.mem_cons.not.mp h)
    simp [cut, Ne.symm hc, ih hbefore]

theorem cut_cases (sep : Char) (text : List Char) :
    sep ∉ text ∧ cut sep text = (text, none) ∨
      ∃ before rest, sep ∉ before ∧ text = before ++ sep :: rest ∧
        cut sep text = (before, some rest) := by
  by_cases h : sep ∈ text
  · obtain ⟨before, rest, rfl, hbefore⟩ := List.eq_append_cons_of_mem h
    exact .inr ⟨before, rest, hbefore, rfl, cut_append hbefore rest⟩
  · exact .inl ⟨h, cut_of_not_mem h⟩

theorem not_mem_cut (sep : Char) (text : List Char) : sep ∉ (cut sep text).1 := by
  rcases cut_cases sep text with ⟨h, hcut⟩ | ⟨before, rest, h, -, hcut⟩
  · rwa [hcut]
  · rwa [hcut]

theorem mem_of_mem_cut {text : List Char} {c : Char}
    (h : c ∈ (cut sep text).1 ∨ c ∈ (cut sep text).2.getD []) : c ∈ text := by
  rcases cut_cases sep text with ⟨-, hcut⟩ | ⟨before, rest, -, rfl, hcut⟩
  · simpa [hcut] using h
  · rw [hcut] at h
    rcases h with h | h
    · exact List.mem_append_left _ h
    · exact List.mem_append_right _ (List.mem_cons_of_mem _ h)

theorem mem_cut {c : Char} {text : List Char} (h : c ∈ text) (hsep : c ≠ sep) :
    c ∈ (cut sep text).1 ++ (cut sep text).2.getD [] := by
  rcases cut_cases sep text with ⟨-, hcut⟩ | ⟨before, rest, -, rfl, hcut⟩
  · simpa [hcut] using h
  · simpa [hcut, hsep] using h

/-- The parameters that were written are read back. -/
@[simp] theorem parseQsl_urlencode (query : Query) : parseQsl true (urlencode query) = query := by
  have hclean : ∀ {text : List Char} {c : Char}, c ∈ quotePlus text → c ≠ '&' ∧ c ≠ '=' := by
    intro text c hc
    constructor
    · rintro rfl
      exact absurd (mem_quotePlus hc) (by decide)
    · rintro rfl
      exact absurd (mem_quotePlus hc) (by decide)
  cases query with
  | nil => rfl
  | cons item query =>
    have hfields : ∀ field ∈ (item :: query).map
        (fun item => quotePlus item.1 ++ '=' :: quotePlus item.2), '&' ∉ field := by
      intro field hfield hmem
      obtain ⟨item, -, rfl⟩ := List.mem_map.mp hfield
      rcases List.mem_append.mp hmem with hmem | hmem
      · exact (hclean hmem).1 rfl
      · rcases List.mem_cons.mp hmem with hmem | hmem
        · exact absurd hmem (by decide)
        · exact (hclean hmem).1 rfl
    have hcut : ∀ item : List Char × List Char,
        cut '=' (quotePlus item.1 ++ '=' :: quotePlus item.2) =
          (quotePlus item.1, some (quotePlus item.2)) :=
      fun item => cut_append (fun hmem => (hclean hmem).2 rfl) _
    rw [parseQsl, urlencode, List.splitOn_intercalate _ hfields (by simp), List.filter_eq_self.mpr,
      List.map_map]
    · refine (List.map_congr_left fun item _ => ?_).trans (List.map_id _)
      simp [hcut]
    · intro field hfield
      obtain ⟨item, -, rfl⟩ := List.mem_map.mp hfield
      simp

theorem mem_intercalate {fields : List (List Char)} {c : Char}
    (h : c ∈ [sep].intercalate fields) : c = sep ∨ ∃ field ∈ fields, c ∈ field := by
  induction fields with
  | nil => simp at h
  | cons field fields ih =>
    cases fields with
    | nil => exact .inr ⟨field, by simp, by simpa using h⟩
    | cons other fields =>
      rw [List.intercalate_cons_cons] at h
      simp only [List.mem_append, List.mem_singleton] at h
      rcases h with (h | h) | h
      · exact .inr ⟨field, by simp, h⟩
      · exact .inl h
      · exact (ih h).imp_right fun ⟨found, hfound, hc⟩ => ⟨found, List.mem_cons_of_mem _ hfound, hc⟩

theorem mem_urlencode {query : Query} {c : Char} (h : c ∈ urlencode query) :
    isQuoted c = true ∨ c ∈ ['+', '&', '='] := by
  have hplus : ∀ {text : List Char}, c ∈ quotePlus text → isQuoted c = true ∨ c ∈ ['+', '&', '='] :=
    fun hc => (mem_quotePlus hc).imp_right fun hplus => by simp [hplus]
  rcases mem_intercalate h with rfl | ⟨field, hfield, hc⟩
  · simp
  · obtain ⟨item, -, rfl⟩ := List.mem_map.mp hfield
    rcases List.mem_append.mp hc with hc | hc
    · exact hplus hc
    · rcases List.mem_cons.mp hc with rfl | hc
      · simp
      · exact hplus hc

end Queries

end YtdlBot.Framework.Percent
