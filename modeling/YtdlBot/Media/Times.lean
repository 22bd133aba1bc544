import YtdlBot.Framework.Doubles
import YtdlBot.Framework.Percent
import YtdlBot.Transport.Headers

/-!
# Clip times

The times that users write into links: what `float` reads as seconds, and otherwise numbers that are
each followed by `h`, `m` or `s`. The loop over such a text is compared with the groups that it is
made of.
-/

namespace YtdlBot.Media.Times

open Framework.Doubles Framework.Percent Transport

section Numbers

/-- What `float` first makes of a character: decimal digits and spaces in ASCII, and no other
characters beyond it. -/
def ascii (c : Char) : Char :=
  match digit c with
  | some d => Char.ofNat (48 + d)
  | none => if c.toNat < 127 then c else if isSpace c then ' ' else '?'

def isAsciiSpace (c : Char) : Bool := c == ' ' || (9 ≤ c.toNat && c.toNat ≤ 13)

def stripAscii (text : List Char) : List Char :=
  ((text.dropWhile isAsciiSpace).reverse.dropWhile isAsciiSpace).reverse

/-- Underscores stand between digits only. -/
def underscoresValid : Char → List Char → Bool
  | previous, [] => previous ≠ '_'
  | previous, c :: rest =>
    (if c = '_' then previous.isDigit else previous ≠ '_' || c.isDigit) && underscoresValid c rest

/-- An optional sign, and what comes after it. -/
def splitSign : List Char → Bool × List Char
  | '+' :: rest => (false, rest)
  | '-' :: rest => (true, rest)
  | text => (false, text)

def signed (negative : Bool) (q : ℚ) : ℚ := if negative then -q else q

/-- The digits before the point, the ones after it, and the rest. -/
def splitPoint (text : List Char) : List Char × List Char × List Char :=
  match text.dropWhile Char.isDigit with
  | '.' :: rest => (text.takeWhile Char.isDigit, rest.takeWhile Char.isDigit,
      rest.dropWhile Char.isDigit)
  | rest => (text.takeWhile Char.isDigit, [], rest)

/-- The exponent that ends a number. -/
def scientific : List Char → Option ℤ
  | [] => some 0
  | c :: rest =>
    let (negative, digits) := splitSign rest
    if (c = 'e' ∨ c = 'E') ∧ digits ≠ [] ∧ digits.all Char.isDigit then
      some (if negative then -digitsValue digits else digitsValue digits)
    else none

def decimal (negative : Bool) (text : List Char) : Option Double :=
  let (whole, fraction, rest) := splitPoint text
  if whole ++ fraction = [] then none
  else (scientific rest).map fun e =>
    .ofRat (signed negative (digitsValue (whole ++ fraction) * (10 : ℚ) ^ (e - fraction.length : ℤ)))

/-- A number in ASCII without underscores. -/
def number (text : List Char) : Option Double :=
  let (negative, text) := splitSign text
  let word := text.map Char.toLower
  if word = "inf".toList ∨ word = "infinity".toList then some (.infinite negative)
  else if word = "nan".toList then some .nan
  else decimal negative text

/-- `float(text)`; `none` is its `ValueError`. -/
def float (text : List Char) : Option Double :=
  let text := stripAscii (text.map ascii)
  if underscoresValid '\x00' text then number (text.filter (· ≠ '_')) else none

end Numbers

section Parsing

/-- `str.isdigit` of characters that are no decimal digits. -/
def otherDigits : List (Nat × Nat) :=
  [(0xB2, 0xB3), (0xB9, 0xB9), (0x1369, 0x1371), (0x19DA, 0x19DA), (0x2070, 0x2070),
    (0x2074, 0x2079), (0x2080, 0x2089), (0x2460, 0x2468), (0x2474, 0x247C), (0x2488, 0x2490),
    (0x24EA, 0x24EA), (0x24F5, 0x24FD), (0x24FF, 0x24FF), (0x2776, 0x277E), (0x2780, 0x2788),
    (0x278A, 0x2792), (0x10A40, 0x10A43), (0x10E60, 0x10E68), (0x11052, 0x1105A),
    (0x1F100, 0x1F10A)]

def strIsDigit (c : Char) : Bool :=
  isDigit c || otherDigits.any fun range => range.1 ≤ c.toNat && c.toNat ≤ range.2

inductive UrlError where
  | unsupported (message : String)
  | valueError
deriving DecidableEq

def units (c : Char) : Option Nat :=
  if c = 'h' then some 3600 else if c = 'm' then some 60 else if c = 's' then some 1 else none

def isNumberChar (c : Char) : Bool := strIsDigit c || c == '.'

/-- The loop of `_parse_clock_time` over the lowered text. -/
def clockLoop (total : Double) (number : List Char) : List Char → Except UrlError Double
  | [] => if number ≠ [] ∨ total = .finite 0 then .error (.unsupported "invalid clip time") else .ok total
  | c :: rest =>
    if isNumberChar c then clockLoop total (number ++ [c]) rest
    else match units c with
      | none => .error (.unsupported "invalid clip time")
      | some seconds =>
        if number = [] then .error (.unsupported "invalid clip time")
        else match float number with
          | none => .error .valueError
          | some n => clockLoop (total.add (n.mul (.finite seconds))) [] rest

def parseClockTime (value : List Char) : Except UrlError Double :=
  clockLoop (.finite 0) [] (value.map lowerChar)

/-- Whole seconds are integers. -/
inductive Seconds where
  | int (n : ℤ)
  | float (q : ℚ)
deriving DecidableEq

def Seconds.value : Seconds → ℚ
  | int n => n
  | float q => q

/-- `int(seconds) if seconds.is_integer() else seconds` -/
def Seconds.ofRat (q : ℚ) : Seconds := if q.den = 1 then .int q.num else .float q

/-- The check of `_parse_time`, and what is returned. -/
def checkTime : Double → Except UrlError Seconds
  | .finite q =>
    if q < 0 then .error (.unsupported "clip times must be finite and non-negative")
    else .ok (.ofRat q)
  | _ => .error (.unsupported "clip times must be finite and non-negative")

/-- `_parse_time` of a value that is there. -/
def parseTime (value : List Char) : Except UrlError Seconds := do
  let seconds ← match float value with
    | some seconds => .ok seconds
    | none => parseClockTime value
  checkTime seconds

end Parsing

section Decimals

/-- What digits with at most one point among them write. -/
def decimalValue (text : List Char) : Option ℚ :=
  let (whole, fraction) := cut '.' text
  let fraction := fraction.getD []
  if whole ++ fraction ≠ [] ∧ (whole ++ fraction).all isDigit then
    some (digitsValue (whole ++ fraction) / 10 ^ fraction.length)
  else none

theorem digit_lt {c : Char} {d : Nat} (h : digit c = some d) : d < 10 := by
  obtain ⟨start, hstart, rfl⟩ := Option.map_eq_some_iff.mp h
  have hrange := List.find?_some hstart
  simp only [decide_eq_true_eq] at hrange
  omega

theorem digit_of_ascii : ∀ d < 10, digit (Char.ofNat (48 + d)) = some d ∧
    (Char.ofNat (48 + d)).isDigit = true := by decide

theorem isDigit_of_isDigit {c : Char} (h : c.isDigit = true) : isDigit c = true := by
  have hrange : 0x30 ≤ c.toNat ∧ c.toNat < 0x30 + 10 := by
    simp only [Char.isDigit, Bool.and_eq_true, decide_eq_true_eq, ge_iff_le,
      UInt32.le_iff_toNat_le] at h
    exact ⟨h.1, Nat.lt_succ_of_le h.2⟩
  simp [isDigit, digit, digitZeros, hrange]

/-- The characters that numbers in groups become. -/
def Plain (c : Char) : Prop := c.isDigit = true ∨ c = '.' ∨ c = '?'

theorem isDigit_plain {c : Char} (h : Plain c) : c.isDigit = isDigit c := by
  rcases h with h | rfl | rfl
  · rw [h, isDigit_of_isDigit h]
  · decide
  · decide

theorem scientific_plain {c : Char} {rest : List Char} (h : Plain c) :
    scientific (c :: rest) = none := by
  have hletter : ¬ (c = 'e' ∨ c = 'E') := by
    rintro (rfl | rfl) <;> exact absurd h (by simp [Plain])
  simp [scientific, hletter]

theorem all_isDigit {text : List Char} (h : ∀ c ∈ text, Plain c) :
    text.all Char.isDigit = text.all isDigit := by
  rw [Bool.eq_iff_iff, List.all_eq_true, List.all_eq_true]
  exact forall₂_congr fun c hc => by rw [isDigit_plain (h c hc)]

theorem decimalValue_eq_none {text : List Char} {c : Char} (h : c ∈ text) (hpoint : c ≠ '.')
    (hdigit : isDigit c = false) : decimalValue text = none := by
  have hall : ¬ ((cut '.' text).1 ++ (cut '.' text).2.getD []).all isDigit = true := fun hall => by
    simpa [hdigit] using List.all_eq_true.mp hall c (mem_cut h hpoint)
  exact if_neg fun hdigits => hall hdigits.2

theorem decimal_eq {text whole fraction rest : List Char}
    (h : splitPoint text = (whole, fraction, rest)) : decimal false text =
      if whole ++ fraction = [] then none
      else (scientific rest).map fun e =>
        .ofRat (digitsValue (whole ++ fraction) * (10 : ℚ) ^ (e - fraction.length : ℤ)) := by
  rw [decimal, h]
  rfl

theorem decimal_whole {text whole fraction : List Char}
    (h : splitPoint text = (whole, fraction, [])) (hdigits : (whole ++ fraction).all isDigit = true)
    (hcut : (cut '.' text).1 = whole ∧ (cut '.' text).2.getD [] = fraction) :
    decimal false text = (decimalValue text).map Double.ofRat := by
  rw [decimal_eq h, decimalValue]
  simp only [hcut.1, hcut.2, hdigits, and_true, scientific]
  by_cases hempty : whole ++ fraction = []
  · simp only [hempty, ne_eq, not_true_eq_false, if_true, if_false, Option.map_none]
  · simp only [hempty, ne_eq, not_false_eq_true, if_true, if_false, Option.map_some, zero_sub,
      zpow_neg, zpow_natCast, div_eq_mul_inv]

theorem decimal_broken {text whole fraction rest : List Char} {c : Char}
    (h : splitPoint text = (whole, fraction, c :: rest)) (hc : Plain c)
    (hnone : decimalValue text = none) :
    decimal false text = (decimalValue text).map Double.ofRat := by
  simp [decimal_eq h, scientific_plain hc, hnone]

theorem decimal_plain {text : List Char} (h : ∀ c ∈ text, Plain c) :
    decimal false text = (decimalValue text).map Double.ofRat := by
  have hsplit := List.takeWhile_append_dropWhile (p := Char.isDigit) (l := text)
  have hhead := List.head?_dropWhile_not Char.isDigit text
  have hwhole := List.all_takeWhile (p := Char.isDigit) (l := text)
  generalize hw : text.takeWhile Char.isDigit = whole at hsplit hwhole
  generalize hr : text.dropWhile Char.isDigit = rest at hsplit hhead
  have hplain : ∀ c ∈ whole ++ rest, Plain c := hsplit ▸ h
  have hpoint : '.' ∉ whole := fun hc => absurd (List.all_eq_true.mp hwhole _ hc) (by decide)
  rw [all_isDigit fun c hc => hplain c (List.mem_append_left _ hc)] at hwhole
  cases rest with
  | nil =>
    obtain rfl : whole = text := by simpa using hsplit
    have hparts : splitPoint whole = (whole, [], []) := by simp [splitPoint, hr, hw]
    exact decimal_whole hparts (by rwa [List.append_nil]) (by simp [cut_of_not_mem hpoint])
  | cons c rest =>
    rcases hplain c (by simp) with hc | rfl | rfl
    · simp [hc] at hhead
    · have hcut : cut '.' text = (whole, some rest) := by rw [← hsplit, cut_append hpoint]
      have hfraction := List.takeWhile_append_dropWhile (p := Char.isDigit) (l := rest)
      have hdigits := List.all_takeWhile (p := Char.isDigit) (l := rest)
      have hover := List.head?_dropWhile_not Char.isDigit rest
      have hparts : splitPoint text =
          (whole, rest.takeWhile Char.isDigit, rest.dropWhile Char.isDigit) := by
        simp [splitPoint, hr, hw]
      generalize rest.takeWhile Char.isDigit = fraction at hparts hfraction hdigits
      generalize rest.dropWhile Char.isDigit = excess at hparts hfraction hover
      have hrest : ∀ d ∈ fraction ++ excess, Plain d := fun d hd =>
        hplain d (by simp [← hfraction, hd])
      rw [all_isDigit fun c hc => hrest c (List.mem_append_left _ hc)] at hdigits
      cases excess with
      | nil =>
        obtain rfl : fraction = rest := by simpa using hfraction
        exact decimal_whole hparts (by simp [hwhole, hdigits]) (by simp [hcut])
      | cons d excess =>
        have hd : Plain d := hrest d (by simp)
        have hdigit : isDigit d = false := by
          rw [← isDigit_plain hd]
          simpa using hover
        refine decimal_broken hparts hd ?_
        have hbroken : ¬ (whole ++ rest).all isDigit = true := by simp [← hfraction, hdigit]
        exact if_neg fun hall => hbroken (by simpa [hcut] using hall.2)
    · have hparts : splitPoint text = (whole, [], '?' :: rest) := by simp [splitPoint, hr, hw]
      refine decimal_broken hparts (.inr (.inr rfl)) ?_
      exact decimalValue_eq_none (c := '?') (by simp [← hsplit]) (by decide) (by decide)

theorem ascii_of_other {c : Char} (h : isNumberChar c = true) (hdigit : isDigit c = false)
    (hpoint : c ≠ '.') : ascii c = '?' := by
  have hnone : digit c = none := by simpa [isDigit] using hdigit
  have hother : ∃ range ∈ otherDigits, range.1 ≤ c.toNat ∧ c.toNat ≤ range.2 := by
    simpa [isNumberChar, strIsDigit, hdigit, hpoint] using h
  have hbeyond : ¬ c.toNat < 127 ∧ isSpace c = false := by
    obtain ⟨range, hrange, hc⟩ := hother
    simp only [otherDigits, List.mem_cons, List.not_mem_nil, or_false] at hrange
    simp only [isSpace, Bool.or_eq_false_iff, Bool.and_eq_false_iff, decide_eq_false_iff_not,
      beq_eq_false_iff_ne]
    generalize c.toNat = n at hc
    rcases hrange with rfl | rfl | rfl | rfl | rfl | rfl | rfl | rfl | rfl | rfl | rfl | rfl |
      rfl | rfl | rfl | rfl | rfl | rfl | rfl | rfl <;> dsimp only at hc <;> omega
  simp [ascii, hnone, hbeyond]

theorem ascii_of_digit {c : Char} (h : isDigit c = true) :
    digit (ascii c) = digit c ∧ (ascii c).isDigit = true := by
  obtain ⟨d, hd⟩ := Option.isSome_iff_exists.mp h
  have hascii : ascii c = Char.ofNat (48 + d) := by simp [ascii, hd]
  rw [hascii, hd]
  exact digit_of_ascii d (digit_lt hd)

theorem ascii_cases {c : Char} (h : isNumberChar c = true) :
    isDigit c = true ∨ c = '.' ∨ isDigit c = false ∧ c ≠ '.' ∧ ascii c = '?' := by
  by_cases hdigit : isDigit c = true
  · exact .inl hdigit
  · by_cases hpoint : c = '.'
    · exact .inr (.inl hpoint)
    · have hdigit : isDigit c = false := by simpa using hdigit
      exact .inr (.inr ⟨hdigit, hpoint, ascii_of_other h hdigit hpoint⟩)

theorem ascii_point : ascii '.' = '.' := by decide

theorem plain_ascii {c : Char} (h : isNumberChar c = true) : Plain (ascii c) := by
  rcases ascii_cases h with h | rfl | ⟨-, -, h⟩
  · exact .inl (ascii_of_digit h).2
  · exact .inr (.inl ascii_point)
  · exact .inr (.inr h)

theorem isDigit_ascii {c : Char} (h : isNumberChar c = true) : isDigit (ascii c) = isDigit c := by
  rcases ascii_cases h with h | rfl | ⟨hdigit, -, h⟩
  · rw [isDigit, isDigit, (ascii_of_digit h).1]
  · rw [ascii_point]
  · rw [h, hdigit]
    decide

theorem ascii_eq_point {c : Char} (h : isNumberChar c = true) : ascii c = '.' ↔ c = '.' := by
  rcases ascii_cases h with h | rfl | ⟨-, hpoint, h⟩
  · have hascii := isDigit_of_isDigit (ascii_of_digit h).2
    constructor
    · intro hc
      rw [hc] at hascii
      exact absurd hascii (by decide)
    · rintro rfl
      exact absurd h (by decide)
  · simp [ascii_point]
  · simp [h, hpoint]

theorem cut_ascii {run : List Char} (h : run.all isNumberChar = true) :
    cut '.' (run.map ascii) = ((cut '.' run).1.map ascii, (cut '.' run).2.map (List.map ascii)) := by
  induction run with
  | nil => rfl
  | cons c run ih =>
    obtain ⟨hc, hrun⟩ := Bool.and_eq_true_iff.mp h
    rw [List.map_cons, cut, cut]
    by_cases hpoint : c = '.'
    · simp [hpoint, ascii_point]
    · simp [hpoint, (ascii_eq_point hc).not.mpr hpoint, ih hrun]

theorem digitsValue_ascii {text : List Char} (h : text.all isDigit = true) :
    digitsValue (text.map ascii) = digitsValue text := by
  rw [digitsValue, List.foldl_map]
  refine List.foldl_ext _ _ _ fun n c hc => ?_
  rw [(ascii_of_digit (List.all_eq_true.mp h c hc)).1]

theorem decimalValue_ascii {run : List Char} (h : run.all isNumberChar = true) :
    decimalValue (run.map ascii) = decimalValue run := by
  have hparts : ∀ c ∈ (cut '.' run).1 ++ (cut '.' run).2.getD [], isNumberChar c = true :=
    fun c hc => List.all_eq_true.mp h c (mem_of_mem_cut (List.mem_append.mp hc))
  have hfraction : ((cut '.' run).2.map (List.map ascii)).getD [] =
      ((cut '.' run).2.getD []).map ascii := by
    cases (cut '.' run).2 <;> rfl
  have hdigits : (((cut '.' run).1 ++ (cut '.' run).2.getD []).map ascii).all isDigit =
      ((cut '.' run).1 ++ (cut '.' run).2.getD []).all isDigit := by
    rw [List.all_map, Bool.eq_iff_iff, List.all_eq_true, List.all_eq_true]
    exact forall₂_congr fun c hc => by rw [Function.comp_apply, isDigit_ascii (hparts c hc)]
  rw [decimalValue, decimalValue, cut_ascii h]
  dsimp only
  rw [hfraction, ← List.map_append, hdigits, List.length_map]
  by_cases hall : ((cut '.' run).1 ++ (cut '.' run).2.getD []).all isDigit = true
  · simp only [digitsValue_ascii hall, ne_eq, List.map_eq_nil_iff]
  · simp only [hall, and_false, if_false, Bool.false_eq_true]

theorem strip_plain {text : List Char} (h : ∀ c ∈ text, Plain c) : stripAscii text = text := by
  have hspace : ∀ c, Plain c → isAsciiSpace c = false := by
    rintro c (hc | rfl | rfl)
    · simp only [Char.isDigit, Bool.and_eq_true, decide_eq_true_eq, ge_iff_le,
        UInt32.le_iff_toNat_le] at hc
      have hrange : ¬ c.toNat ≤ 13 := by
        have := hc.1
        change 48 ≤ c.toNat at this
        omega
      have hblank : c ≠ ' ' := by
        rintro rfl
        exact absurd hc.1 (by decide)
      simp [isAsciiSpace, hrange, hblank]
    · decide
    · decide
  have hdrop : ∀ l : List Char, (∀ c ∈ l, Plain c) → l.dropWhile isAsciiSpace = l := by
    intro l hl
    cases l with
    | nil => rfl
    | cons c l => rw [List.dropWhile_cons, hspace c (hl c List.mem_cons_self)]; rfl
  rw [stripAscii, hdrop text h, hdrop text.reverse fun c hc => h c (List.mem_reverse.mp hc),
    List.reverse_reverse]

theorem underscoresValid_plain {text : List Char} {previous : Char} (h : ∀ c ∈ text, Plain c)
    (hprevious : previous ≠ '_') : underscoresValid previous text = true := by
  induction text generalizing previous with
  | nil => simp [underscoresValid, hprevious]
  | cons c text ih =>
    have hc : c ≠ '_' := by
      rintro rfl
      exact absurd (h _ List.mem_cons_self) (by simp [Plain])
    simp [underscoresValid, hc, hprevious, ih (fun d hd => h d (List.mem_cons_of_mem _ hd)) hc]

theorem toLower_plain {c : Char} (h : Plain c) : c.toLower = c := by
  rcases h with h | rfl | rfl
  · rw [Char.toLower, dif_neg]
    simp only [Char.isDigit, Bool.and_eq_true, decide_eq_true_eq, ge_iff_le,
      UInt32.le_iff_toNat_le] at h ⊢
    intro hupper
    exact absurd (hupper.1.trans h.2) (by decide)
  · decide
  · decide

theorem number_plain {text : List Char} (h : ∀ c ∈ text, Plain c) :
    number text = decimal false text := by
  cases text with
  | nil => rfl
  | cons c text =>
    have hc := h c List.mem_cons_self
    have hne : ∀ d : Char, ¬ Plain d → c ≠ d := by
      rintro d hd rfl
      exact hd hc
    have hsign : splitSign (c :: text) = (false, c :: text) := by
      unfold splitSign
      split
      · exact absurd (List.cons.inj ‹_›).1 (hne _ (by simp [Plain]))
      · exact absurd (List.cons.inj ‹_›).1 (hne _ (by simp [Plain]))
      · rfl
    have hi := hne 'i' (by simp [Plain])
    have hn := hne 'n' (by simp [Plain])
    simp [number, hsign, toLower_plain hc, hi, hn]

theorem float_run {run : List Char} (h : run.all isNumberChar = true) :
    float run = (decimalValue run).map Double.ofRat := by
  have hplain : ∀ c ∈ run.map ascii, Plain c := by
    intro c hc
    obtain ⟨d, hd, rfl⟩ := List.mem_map.mp hc
    exact plain_ascii (List.all_eq_true.mp h d hd)
  have hfilter : (run.map ascii).filter (· ≠ '_') = run.map ascii := by
    refine List.filter_eq_self.mpr fun c hc => ?_
    have hne : c ≠ '_' := by
      rintro rfl
      exact absurd (hplain _ hc) (by simp [Plain])
    simpa using hne
  simp only [float, strip_plain hplain, underscoresValid_plain hplain (by decide : '\x00' ≠ '_'),
    if_true, hfilter, number_plain hplain, decimal_plain hplain, decimalValue_ascii h]

end Decimals

section Clock

/-- A number and the unit that it is followed by. -/
structure Group where
  text : List Char
  unit : Char
  number : ℚ
  seconds : ℕ
  run : text.all isNumberChar = true
  reads : decimalValue text = some number
  measures : units unit = some seconds

def write (groups : List Group) : List Char := groups.flatMap fun g => g.text ++ [g.unit]

/-- The sum, in the arithmetic of doubles. -/
def sum (total : Double) (groups : List Group) : Double :=
  groups.foldl (fun total g => total.add ((Double.ofRat g.number).mul (.finite g.seconds))) total

/-- After some groups come number characters before a unit that are no number. -/
def BrokenClock (text : List Char) : Prop :=
  ∃ groups run unit rest, text = write groups ++ run ++ unit :: rest ∧ run ≠ [] ∧
    run.all isNumberChar = true ∧ decimalValue run = none ∧ (units unit).isSome = true

variable {total : Double} {number text : List Char}

theorem clockLoop_run {run : List Char} (h : run.all isNumberChar = true) (rest : List Char) :
    clockLoop total number (run ++ rest) = clockLoop total (number ++ run) rest := by
  induction run generalizing number with
  | nil => simp
  | cons c run ih =>
    obtain ⟨hc, hrun⟩ := Bool.and_eq_true_iff.mp h
    rw [List.cons_append, clockLoop, if_pos hc, ih hrun, List.append_assoc]
    rfl

theorem unit_not_numberChar {unit : Char} {seconds : ℕ} (h : units unit = some seconds) :
    isNumberChar unit = false ∧ 0 < seconds := by
  unfold units at h
  split_ifs at h with h1 h2 h3 <;> obtain rfl := Option.some.inj h
  · subst h1
    decide
  · subst h2
    decide
  · subst h3
    decide

theorem decimalValue_nil : decimalValue [] = none := rfl

theorem clockLoop_group (g : Group) (rest : List Char) :
    clockLoop total [] (g.text ++ g.unit :: rest) =
      clockLoop (total.add ((Double.ofRat g.number).mul (.finite g.seconds))) [] rest := by
  have hne : g.text ≠ [] := by
    intro hempty
    have hreads := g.reads
    rw [hempty, decimalValue_nil] at hreads
    cases hreads
  have hfloat : float g.text = some (Double.ofRat g.number) := by
    rw [float_run g.run, g.reads, Option.map_some]
  rw [clockLoop_run g.run, List.nil_append, clockLoop,
    if_neg (by rw [(unit_not_numberChar g.measures).1]; decide)]
  simp only [g.measures, hne, if_false, hfloat]

theorem clockLoop_write (total : Double) (groups : List Group) (rest : List Char) :
    clockLoop total [] (write groups ++ rest) = clockLoop (sum total groups) [] rest := by
  induction groups generalizing total with
  | nil => rfl
  | cons g groups ih =>
    have hwrite : write (g :: groups) ++ rest = g.text ++ g.unit :: (write groups ++ rest) := by
      simp [write]
    rw [hwrite, clockLoop_group, ih]
    rfl

theorem clockLoop_broken (h : BrokenClock text) : clockLoop total [] text = .error .valueError := by
  obtain ⟨groups, run, unit, rest, rfl, hne, hrun, hnone, hunit⟩ := h
  obtain ⟨seconds, hseconds⟩ := Option.isSome_iff_exists.mp hunit
  have hfloat : float run = none := by rw [float_run hrun, hnone, Option.map_none]
  rw [List.append_assoc, clockLoop_write, clockLoop_run hrun, List.nil_append, clockLoop,
    if_neg (by rw [(unit_not_numberChar hseconds).1]; decide)]
  simp only [hseconds, hne, if_false, hfloat]

/-- What the loop makes of any text: groups throughout, a broken number, or neither. -/
theorem clockLoop_cases (text : List Char) :
    (∃ groups, text = write groups) ∨ BrokenClock text ∨
      ∀ total, clockLoop total [] text = .error (.unsupported "invalid clip time") := by
  induction hlength : text.length using Nat.strong_induction_on generalizing text with
  | _ length ih =>
    have hsplit := List.takeWhile_append_dropWhile (p := isNumberChar) (l := text)
    have hrun := List.all_takeWhile (p := isNumberChar) (l := text)
    have hhead := List.head?_dropWhile_not isNumberChar text
    generalize text.takeWhile isNumberChar = run at hsplit hrun
    generalize text.dropWhile isNumberChar = rest at hsplit hhead
    subst hsplit
    cases rest with
    | nil =>
      by_cases hne : run = []
      · exact .inl ⟨[], by simp [hne, write]⟩
      · refine .inr (.inr fun total => ?_)
        rw [clockLoop_run hrun]
        simp [clockLoop, hne]
    | cons unit rest =>
      have hunit : ¬ isNumberChar unit = true := by simpa using hhead
      cases hseconds : units unit with
      | none =>
        refine .inr (.inr fun total => ?_)
        rw [clockLoop_run hrun, clockLoop, if_neg hunit, hseconds]
      | some seconds =>
        by_cases hne : run = []
        · refine .inr (.inr fun total => ?_)
          rw [clockLoop_run hrun, clockLoop, if_neg hunit, hseconds]
          simp [hne]
        · cases hvalue : decimalValue run with
          | none =>
            exact .inr (.inl ⟨[], run, unit, rest, by simp [write], hne, hrun, hvalue,
              by simp [hseconds]⟩)
          | some value =>
            have hshort : rest.length < length := by simp [← hlength]; omega
            let g : Group := ⟨run, unit, value, seconds, hrun, hvalue, hseconds⟩
            rcases ih _ hshort rest rfl with ⟨groups, rfl⟩ | hbroken | hstuck
            · exact .inl ⟨g :: groups, by simp [write, g]⟩
            · obtain ⟨groups, run', unit', rest', rfl, hbroken⟩ := hbroken
              exact .inr (.inl ⟨g :: groups, run', unit', rest', by simp [write, g], hbroken⟩)
            · refine .inr (.inr fun total => ?_)
              rw [clockLoop_group g, hstuck]

theorem clockLoop_end (groups : List Group) :
    clockLoop (.finite 0) [] (write groups) =
      if sum (.finite 0) groups = .finite 0 then .error (.unsupported "invalid clip time")
      else .ok (sum (.finite 0) groups) := by
  have h := clockLoop_write (.finite 0) groups []
  rw [List.append_nil] at h
  simp [h, clockLoop]

end Clock

section Letters

/-- The letters of the units, in both cases. -/
def unitLetters : List Char := "hmsHMS".toList

theorem toLower_eq {c d : Char} (upper : Char) (hupper : upper.val + 32 = d.val)
    (h : c.toLower = d) : c = d ∨ c = upper := by
  unfold Char.toLower at h
  split_ifs at h
  · have hval : c.val + 32 = d.val := congrArg Char.val h
    exact .inr (Char.ext ((UInt32.add_left_inj 32).mp (hval.trans hupper.symm)))
  · exact .inl h

theorem mem_unitLetters {c : Char} (h : (units (lowerChar c)).isSome = true) : c ∈ unitLetters := by
  have hunit : lowerChar c = 'h' ∨ lowerChar c = 'm' ∨ lowerChar c = 's' := by
    unfold units at h
    split_ifs at h with h1 h2 h3
    · exact .inl h1
    · exact .inr (.inl h2)
    · exact .inr (.inr h3)
    · cases h
  unfold lowerChar at hunit
  split_ifs at hunit with hkelvin
  · simp at hunit
  · rcases hunit with hc | hc | hc
    · rcases toLower_eq 'H' (by decide) hc with rfl | rfl <;> decide
    · rcases toLower_eq 'M' (by decide) hc with rfl | rfl <;> decide
    · rcases toLower_eq 'S' (by decide) hc with rfl | rfl <;> decide

/-- The characters of numbers. -/
def isNumeric (c : Char) : Bool :=
  c.isDigit || c ∈ ['+', '-', '.', 'e', 'E'] || c.toLower ∈ "infinityna".toList

theorem isNumeric_of_isDigit {c : Char} (h : c.isDigit = true) : isNumeric c = true := by
  simp [isNumeric, h]

theorem mem_splitSign {text : List Char} {c : Char} (h : c ∈ text) :
    c ∈ (splitSign text).2 ∨ c = '+' ∨ c = '-' := by
  unfold splitSign
  split
  · exact (List.mem_cons.mp h).elim (fun hc => .inr (.inl hc)) .inl
  · exact (List.mem_cons.mp h).elim (fun hc => .inr (.inr hc)) .inl
  · exact .inl h

theorem isNumeric_scientific {text : List Char} {e : ℤ} (h : scientific text = some e) :
    ∀ c ∈ text, isNumeric c = true := by
  cases text with
  | nil => simp
  | cons mark rest =>
    simp only [scientific] at h
    split_ifs at h with hform
    all_goals
      obtain ⟨hmark, -, hdigits⟩ := hform
      intro c hc
      rcases List.mem_cons.mp hc with rfl | hc
      · rcases hmark with rfl | rfl <;> decide
      · rcases mem_splitSign hc with hc | rfl | rfl
        · exact isNumeric_of_isDigit (List.all_eq_true.mp hdigits c hc)
        · decide
        · decide

theorem mem_splitPoint {text : List Char} {c : Char} (h : c ∈ text) :
    c.isDigit = true ∨ c = '.' ∨ c ∈ (splitPoint text).2.2 := by
  have hdigit : ∀ {l : List Char}, c ∈ l → c.isDigit = true ∨ c ∈ l.dropWhile Char.isDigit := by
    intro l hc
    rw [← List.takeWhile_append_dropWhile (p := Char.isDigit) (l := l)] at hc
    exact (List.mem_append.mp hc).imp_left fun hc => List.all_eq_true.mp List.all_takeWhile c hc
  unfold splitPoint
  rcases hdigit h with hc | hc
  · exact .inl hc
  · split
    next rest hrest =>
      rw [hrest] at hc
      rcases List.mem_cons.mp hc with rfl | hc
      · exact .inr (.inl rfl)
      · exact (hdigit hc).imp_right .inr
    next => exact .inr (.inr hc)

theorem isNumeric_number {text : List Char} {n : Double} (h : number text = some n) :
    ∀ c ∈ text, isNumeric c = true := by
  intro c hc
  rcases mem_splitSign hc with hc | rfl | rfl
  · have hword : (splitSign text).2.map Char.toLower ∈
        ["inf".toList, "infinity".toList, "nan".toList] → isNumeric c = true := by
      intro hword
      have hlower : c.toLower ∈ (splitSign text).2.map Char.toLower := List.mem_map_of_mem hc
      have hwords : (["inf".toList, "infinity".toList, "nan".toList].all fun word =>
          word.all fun c => "infinityna".toList.contains c) = true := by decide
      have hletter := List.all_eq_true.mp (List.all_eq_true.mp hwords _ hword) _ hlower
      exact Bool.or_eq_true_iff.mpr (.inr (decide_eq_true (List.contains_iff_mem.mp hletter)))
    simp only [number] at h
    split_ifs at h with hinf hnan
    · exact hword (by simpa using hinf.elim .inl fun h => .inr (.inl h))
    · exact hword (by simp [hnan])
    · simp only [decimal] at h
      split_ifs at h
      obtain ⟨e, he, -⟩ := Option.map_eq_some_iff.mp h
      rcases mem_splitPoint hc with hc | rfl | hc
      · exact isNumeric_of_isDigit hc
      · decide
      · exact isNumeric_scientific he c hc
  · decide
  · decide

theorem mem_stripAscii {text : List Char} {c : Char} (h : c ∈ text)
    (hspace : isAsciiSpace c = false) : c ∈ stripAscii text := by
  have hdrop : ∀ {l : List Char}, c ∈ l → c ∈ l.dropWhile isAsciiSpace := by
    intro l hc
    rw [← List.takeWhile_append_dropWhile (p := isAsciiSpace) (l := l)] at hc
    rcases List.mem_append.mp hc with hc | hc
    · have hall := List.all_eq_true.mp List.all_takeWhile c hc
      simp [hspace] at hall
    · exact hc
  exact List.mem_reverse.mpr (hdrop (List.mem_reverse.mpr (hdrop h)))

theorem float_unit {text : List Char} {c : Char} (h : c ∈ text)
    (hunit : (units (lowerChar c)).isSome = true) : float text = none := by
  have hletter := mem_unitLetters hunit
  have hplain : unitLetters.all (fun c => decide (ascii c = c ∧ isAsciiSpace c = false ∧ c ≠ '_' ∧
      isNumeric c = false)) = true := by decide
  obtain ⟨hascii, hspace, hunderscore, hnumeric⟩ :=
    of_decide_eq_true (List.all_eq_true.mp hplain c hletter)
  have hmem : c ∈ (stripAscii (text.map ascii)).filter (· ≠ '_') := by
    refine List.mem_filter.mpr ⟨mem_stripAscii ?_ hspace, by simpa using hunderscore⟩
    exact List.mem_map.mpr ⟨c, h, hascii⟩
  cases hfloat : float text with
  | none => rfl
  | some n =>
    simp only [float] at hfloat
    split_ifs at hfloat
    rw [isNumeric_number hfloat c hmem] at hnumeric
    cases hnumeric

end Letters

section Acceptance

variable {value : List Char} {t : Seconds}

theorem decimalValue_nonneg {text : List Char} {q : ℚ} (h : decimalValue text = some q) : 0 ≤ q := by
  obtain ⟨-, h⟩ := Option.ite_none_right_eq_some.mp h
  obtain rfl := Option.some.inj h
  positivity

theorem sum_nonneg {total : Double} (h : total.Nonneg) (groups : List Group) :
    (sum total groups).Nonneg := by
  induction groups generalizing total with
  | nil => exact h
  | cons g groups ih =>
    have hseconds : (0 : ℚ) < g.seconds := by exact_mod_cast (unit_not_numberChar g.measures).2
    have hnumber := Double.ofRat_nonneg (decimalValue_nonneg g.reads)
    exact ih (h.add (hnumber.mul_pos hseconds))

/-- Whole numbers of hours, minutes and seconds are added without rounding. -/
theorem sum_whole {groups : List Group} {counts : List ℕ} {n : ℕ}
    (hcounts : groups.map Group.number = counts.map Nat.cast)
    (hbound : n + (List.zipWith (fun g k => k * g.seconds) groups counts).sum < 2 ^ 53) :
    sum (.finite n) groups =
      .finite (n + (List.zipWith (fun g k => k * g.seconds) groups counts).sum : ℕ) := by
  induction groups generalizing counts n with
  | nil => simp [sum]
  | cons g groups ih =>
    cases counts with
    | nil => cases hcounts
    | cons k counts =>
      obtain ⟨hnumber, hrest⟩ := List.cons.inj hcounts
      rw [List.zipWith_cons_cons, List.sum_cons, ← Nat.add_assoc] at hbound ⊢
      have hk : k ≤ k * g.seconds := Nat.le_mul_of_pos_right k (unit_not_numberChar g.measures).2
      have hproduct : (Double.ofRat g.number).mul (.finite g.seconds) =
          .finite (k * g.seconds : ℕ) := by
        rw [hnumber, Double.ofRat_natCast (by omega), Double.mul, ← Nat.cast_mul,
          Double.ofRat_natCast (by omega)]
      have hstep : (Double.finite n).add ((Double.ofRat g.number).mul (.finite g.seconds)) =
          .finite (n + k * g.seconds : ℕ) := by
        rw [hproduct, Double.add, ← Nat.cast_add, Double.ofRat_natCast (by omega)]
      rw [sum, List.foldl_cons, hstep]
      exact ih hrest hbound

/-- The value is a number that is no less than zero, or made of groups with a positive sum. -/
def Reads (value : List Char) (q : ℚ) : Prop :=
  float value = some (.finite q) ∧ 0 ≤ q ∨
    ∃ groups, value.map lowerChar = write groups ∧ sum (.finite 0) groups = .finite q ∧ 0 < q

theorem float_lowered (unit : Char) (h : unit ∈ value.map lowerChar)
    (hunit : (units unit).isSome = true) : float value = none := by
  obtain ⟨c, hc, rfl⟩ := List.mem_map.mp h
  exact float_unit hc hunit

theorem float_write {groups : List Group} (h : value.map lowerChar = write groups)
    (hne : groups ≠ []) : float value = none := by
  obtain ⟨g, groups, rfl⟩ := List.exists_cons_of_ne_nil hne
  exact float_lowered g.unit (by simp [h, write]) (by simp [g.measures])

theorem float_broken (h : BrokenClock (value.map lowerChar)) : float value = none := by
  obtain ⟨groups, run, unit, rest, hvalue, -, -, -, hunit⟩ := h
  exact float_lowered unit (by simp [hvalue]) hunit

theorem checkTime_ok {n : Double} :
    checkTime n = .ok t ↔ ∃ q, n = .finite q ∧ 0 ≤ q ∧ t = Seconds.ofRat q := by
  cases n with
  | finite q =>
    by_cases hq : q < 0
    · simp [checkTime, hq, not_le.mpr hq]
    · simp [checkTime, hq, not_lt.mp hq, eq_comm]
  | infinite negative => simp [checkTime]
  | nan => simp [checkTime]

theorem checkTime_not_valueError (n : Double) : checkTime n ≠ .error .valueError := by
  unfold checkTime
  split
  · split_ifs <;> simp
  · simp

theorem parseTime_number {n : Double} (h : float value = some n) :
    parseTime value = checkTime n := by
  rw [parseTime, h]
  rfl

theorem parseTime_clock (h : float value = none) :
    parseTime value = clockLoop (.finite 0) [] (value.map lowerChar) >>= checkTime := by
  rw [parseTime, h]
  rfl

theorem parseTime_write {groups : List Group} (h : value.map lowerChar = write groups)
    (hfloat : float value = none) :
    parseTime value = .ok t ↔
      ∃ q, sum (.finite 0) groups = .finite q ∧ 0 < q ∧ t = Seconds.ofRat q := by
  rw [parseTime_clock hfloat, h, clockLoop_end]
  have hzero : (Double.finite 0).Nonneg := le_rfl
  have hnonneg := sum_nonneg hzero groups
  generalize sum (.finite 0) groups = total at hnonneg
  split_ifs with hzero
  · simp [hzero, bind, Except.bind]
  · change checkTime total = .ok t ↔ _
    rw [checkTime_ok]
    constructor
    · rintro ⟨q, rfl, hq, rfl⟩
      have hne : q ≠ 0 := fun h => hzero (by rw [h])
      exact ⟨q, rfl, lt_of_le_of_ne hq hne.symm, rfl⟩
    · rintro ⟨q, rfl, hq, rfl⟩
      exact ⟨q, rfl, hq.le, rfl⟩

/-- The time parser accepts what reads as seconds, and nothing else. -/
theorem parseTime_ok (value : List Char) (t : Seconds) :
    parseTime value = .ok t ↔ ∃ q, Reads value q ∧ t = Seconds.ofRat q := by
  constructor
  · intro h
    cases hfloat : float value with
    | some n =>
      rw [parseTime_number hfloat, checkTime_ok] at h
      obtain ⟨q, rfl, hq, rfl⟩ := h
      exact ⟨q, .inl ⟨hfloat, hq⟩, rfl⟩
    | none =>
      rcases clockLoop_cases (value.map lowerChar) with ⟨groups, hgroups⟩ | hbroken | hstuck
      · obtain ⟨q, hsum, hq, rfl⟩ := (parseTime_write hgroups hfloat).mp h
        exact ⟨q, .inr ⟨groups, hgroups, hsum, hq⟩, rfl⟩
      · rw [parseTime_clock hfloat, clockLoop_broken hbroken] at h
        cases h
      · rw [parseTime_clock hfloat, hstuck] at h
        cases h
  · rintro ⟨q, ⟨hfloat, hq⟩ | ⟨groups, hgroups, hsum, hq⟩, rfl⟩
    · rw [parseTime_number hfloat, checkTime_ok]
      exact ⟨q, rfl, hq, rfl⟩
    · have hne : groups ≠ [] := by
        rintro rfl
        obtain rfl := Double.finite.inj hsum
        exact lt_irrefl _ hq
      exact (parseTime_write hgroups (float_write hgroups hne)).mpr ⟨q, hsum, hq, rfl⟩

/-- The conversion of a group fails where the text has a number that is none. -/
theorem parseTime_valueError (value : List Char) :
    parseTime value = .error .valueError ↔ BrokenClock (value.map lowerChar) := by
  constructor
  · intro h
    cases hfloat : float value with
    | some n =>
      rw [parseTime_number hfloat] at h
      exact absurd h (checkTime_not_valueError n)
    | none =>
      rw [parseTime_clock hfloat] at h
      rcases clockLoop_cases (value.map lowerChar) with ⟨groups, hgroups⟩ | hbroken | hstuck
      · rw [hgroups, clockLoop_end] at h
        split_ifs at h
        · cases h
        · exact absurd h (checkTime_not_valueError _)
      · exact hbroken
      · rw [hstuck] at h
        cases h
  · intro h
    rw [parseTime_clock (float_broken h), clockLoop_broken h]
    rfl

end Acceptance

end YtdlBot.Media.Times
