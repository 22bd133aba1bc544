import YtdlBot.Framework.Json
import YtdlBot.Framework.Percent

/-!
# Reading JSON

`json.dumps` and `json.loads` of values of any depth, with compact separators. What has been written
is read back. Half of a surrogate pair is not a character here, so a text with one is not read.
-/

namespace YtdlBot.Framework.Json

open Percent (hexValue)

/-- A decoded value. Among fields of one name the last one counts. -/
inductive Document (φ : Type) where
  | null
  | bool (b : Bool)
  | int (n : Int)
  | float (x : φ)
  | str (s : String)
  | array (xs : List (Document φ))
  | object (fields : List (String × Document φ))

/-- How floats are written and read. -/
structure FloatText (φ : Type) where
  text : φ → List Char
  /-- The value of a literal, of `NaN`, or of an infinity. -/
  read : List Char → φ

section Writing

variable {φ : Type} (F : FloatText φ)

mutual

def Document.text : Document φ → List Char
  | .null => ['n', 'u', 'l', 'l']
  | .bool true => ['t', 'r', 'u', 'e']
  | .bool false => ['f', 'a', 'l', 's', 'e']
  | .int n => intText n
  | .float x => F.text x
  | .str s => quote s
  | .array xs => '\x5b' :: itemsText xs
  | .object fields => '\x7b' :: fieldsText fields

/-- The items of an array, with the bracket behind them. -/
def itemsText : List (Document φ) → List Char
  | [] => ['\x5d']
  | [x] => x.text ++ ['\x5d']
  | x :: y :: xs => x.text ++ ',' :: itemsText (y :: xs)

/-- The fields of an object, with the brace behind them. -/
def fieldsText : List (String × Document φ) → List Char
  | [] => ['\x7d']
  | [(name, x)] => quote name ++ ':' :: (x.text ++ ['\x7d'])
  | (name, x) :: field :: fields => quote name ++ ':' :: (x.text ++ ',' :: fieldsText (field :: fields))

end

end Writing

section Scanning

def isSpace (c : Char) : Bool := c == ' ' || c == '\t' || c == '\n' || c == '\r'

def skip (text : List Char) : List Char := text.dropWhile isSpace

/-- The rest behind a word. -/
def behind (word text : List Char) : Option (List Char) :=
  if word.isPrefixOf text then some (text.drop word.length) else none

def unescape (c : Char) : Option Char :=
  if c = '/' then some '/' else (shortEscapes.find? fun p => p.2 == c).map fun p => Char.ofNat p.1

def hexFour (a b c d : Char) : Option Nat :=
  match hexValue a, hexValue b, hexValue c, hexValue d with
  | some a, some b, some c, some d => some (4096 * a + 256 * b + 16 * c + d)
  | _, _, _, _ => none

/-- `py_scanstring` in its strict mode, behind the opening quotation mark. -/
def scanString : List Char → Option (List Char × List Char)
  | [] => none
  | c :: text =>
    if c = quotation then some ([], text)
    else if c = backslash then
      match text with
      | 'u' :: a :: b :: x :: y :: text =>
        match hexFour a b x y with
        | none => none
        | some n =>
          if 0xd800 ≤ n ∧ n < 0xdc00 then
            match text with
            | '\\' :: 'u' :: a :: b :: x :: y :: text =>
              match hexFour a b x y with
              | none => none
              | some m =>
                if 0xdc00 ≤ m ∧ m < 0xe000 then
                  (scanString text).map fun p =>
                    (Char.ofNat (0x10000 + (n - 0xd800) * 0x400 + (m - 0xdc00)) :: p.1, p.2)
                else none
            | _ => none
          else if 0xdc00 ≤ n ∧ n < 0xe000 then none
          else (scanString text).map fun p => (Char.ofNat n :: p.1, p.2)
      | x :: text =>
        match unescape x with
        | none => none
        | some d => (scanString text).map fun p => (d :: p.1, p.2)
      | [] => none
    else if c.toNat < 0x20 then none
    else (scanString text).map fun p => (c :: p.1, p.2)

/-- Digits, and what follows them. -/
def digits (text : List Char) : List Char × List Char :=
  (text.takeWhile Char.isDigit, text.dropWhile Char.isDigit)

def integer : List Char → Option (List Char × List Char)
  | [] => none
  | c :: text =>
    if c = '0' then some (['0'], text)
    else if c.isDigit then some (c :: (digits text).1, (digits text).2)
    else none

def fraction : List Char → List Char × List Char
  | '.' :: c :: text =>
    if c.isDigit then ('.' :: c :: (digits text).1, (digits text).2) else ([], '.' :: c :: text)
  | text => ([], text)

def exponent : List Char → List Char × List Char
  | e :: text =>
    if e = 'e' ∨ e = 'E' then
      match text with
      | sign :: c :: text =>
        if (sign = '+' ∨ sign = '-') ∧ c.isDigit then
          (e :: sign :: c :: (digits text).1, (digits text).2)
        else if sign.isDigit then (e :: sign :: (digits (c :: text)).1, (digits (c :: text)).2)
        else ([], e :: sign :: c :: text)
      | [c] => if c.isDigit then ([e, c], []) else ([], [e, c])
      | [] => ([], [e])
    else ([], e :: text)
  | [] => ([], [])

def sign : List Char → List Char × List Char
  | '-' :: text => (['-'], text)
  | text => ([], text)

/-- `NUMBER_RE`: the literal, whether it is a float, and the rest. -/
def number (text : List Char) : Option (List Char × Bool × List Char) :=
  match integer (sign text).2 with
  | none => none
  | some (whole, rest) =>
    let fractional := fraction rest
    let exponential := exponent fractional.2
    some ((sign text).1 ++ whole ++ fractional.1 ++ exponential.1,
      decide (fractional.1 ≠ [] ∨ exponential.1 ≠ []), exponential.2)

/-- `sys.int_info.default_max_str_digits` -/
def maxStrDigits : Nat := 4300

/-- `int` of a literal. -/
def readInt (literal : List Char) : Option Int :=
  let magnitude := (sign literal).2
  if maxStrDigits < magnitude.length then none
  else
    let n : Int := Nat.ofDigitChars 10 magnitude 0
    some (if (sign literal).1 = [] then n else -n)

variable {φ : Type} (F : FloatText φ)

/-- What begins with a letter, a digit or a sign. -/
def scanToken (text : List Char) : Option (Document φ × List Char) :=
  match behind ['n', 'u', 'l', 'l'] text with
  | some rest => some (.null, rest)
  | none =>
    match behind ['t', 'r', 'u', 'e'] text with
    | some rest => some (.bool true, rest)
    | none =>
      match behind ['f', 'a', 'l', 's', 'e'] text with
      | some rest => some (.bool false, rest)
      | none =>
        match number text with
        | some (literal, true, rest) => some (.float (F.read literal), rest)
        | some (literal, false, rest) => (readInt literal).map fun n => (.int n, rest)
        | none =>
          (["NaN".toList, "Infinity".toList, "-Infinity".toList].findSome? fun word =>
            (behind word text).map fun rest => (.float (F.read word), rest))

mutual

/-- `scan_once` -/
def scanValue : Nat → List Char → Option (Document φ × List Char)
  | 0, _ => none
  | _ + 1, [] => none
  | fuel + 1, c :: text =>
    if c = quotation then (scanString text).map fun p => (.str (String.ofList p.1), p.2)
    else if c = '\x7b' then
      match skip text with
      | '\x7d' :: rest => some (.object [], rest)
      | text => (scanFields fuel text).map fun p => (.object p.1, p.2)
    else if c = '\x5b' then
      match skip text with
      | '\x5d' :: rest => some (.array [], rest)
      | text => (scanItems fuel text).map fun p => (.array p.1, p.2)
    else scanToken F (c :: text)

/-- The loop of `JSONArray`. -/
def scanItems : Nat → List Char → Option (List (Document φ) × List Char)
  | 0, _ => none
  | fuel + 1, text =>
    match scanValue fuel text with
    | none => none
    | some (x, rest) =>
      match skip rest with
      | '\x5d' :: rest => some ([x], rest)
      | ',' :: rest => (scanItems fuel (skip rest)).map fun p => (x :: p.1, p.2)
      | _ => none

/-- The loop of `JSONObject`. -/
def scanFields : Nat → List Char → Option (List (String × Document φ) × List Char)
  | 0, _ => none
  | _ + 1, [] => none
  | fuel + 1, c :: text =>
    if c = quotation then
      match scanString text with
      | none => none
      | some (name, rest) =>
        match skip rest with
        | ':' :: rest =>
          match scanValue fuel (skip rest) with
          | none => none
          | some (x, rest) =>
            match skip rest with
            | '\x7d' :: rest => some ([(String.ofList name, x)], rest)
            | ',' :: rest =>
              (scanFields fuel (skip rest)).map fun p => ((String.ofList name, x) :: p.1, p.2)
            | _ => none
        | _ => none
    else none

end

/-- `json.loads`; two steps take a character at least, so there is fuel for the whole text. -/
def loads (text : List Char) : Option (Document φ) :=
  match scanValue F (2 * text.length + 2) (skip text) with
  | some (x, rest) => if skip rest = [] then some x else none
  | none => none

end Scanning

section Strings

variable {c : Char} {text : List Char} {n : Nat}

theorem hexValue_digitChar : ∀ d < 16, hexValue (Nat.digitChar d) = some d := by decide

theorem hexFour_digitChar (hn : n < 0x10000) :
    hexFour (Nat.digitChar (n / 4096 % 16)) (Nat.digitChar (n / 256 % 16))
      (Nat.digitChar (n / 16 % 16)) (Nat.digitChar (n % 16)) = some n := by
  have hdigit : ∀ m, hexValue (Nat.digitChar (m % 16)) = some (m % 16) :=
    fun m => hexValue_digitChar _ (Nat.mod_lt _ (by decide))
  simp only [hexFour, hdigit, Option.some.injEq]
  omega

theorem unescape_shortEscape {x : Char} (h : shortEscape c = some x) : unescape x = some c := by
  have htable : ∀ p ∈ shortEscapes, unescape p.2 = some (Char.ofNat p.1) := by decide
  have hx := htable _ (mem_shortEscapes h)
  rwa [Char.ofNat_toNat] at hx

theorem scanString_short {x : Char} (hx : x ≠ 'u') :
    scanString (backslash :: x :: text) =
      match unescape x with
      | none => none
      | some d => (scanString text).map fun p => (d :: p.1, p.2) := by
  rw [scanString.eq_def]
  dsimp only
  rw [if_neg (by decide), if_pos rfl]
  split
  · next heq => exact absurd (List.cons.inj heq).1 hx
  · next heq =>
    obtain ⟨rfl, rfl⟩ := List.cons.inj heq
    rfl
  · next heq => cases heq

theorem scanString_unicode (hn : n < 0x10000) (hlow : n < 0xd800 ∨ 0xe000 ≤ n) :
    scanString (unicodeEscape n ++ text) =
      (scanString text).map fun p => (Char.ofNat n :: p.1, p.2) := by
  simp only [unicodeEscape, List.cons_append, List.nil_append]
  rw [scanString, if_neg (by decide), if_pos rfl]
  simp only [hexFour_digitChar hn]
  rw [if_neg (by omega), if_neg (by omega)]

theorem scanString_pair (hn : n < 0x100000) :
    scanString (unicodeEscape (0xd800 + n / 0x400) ++ (unicodeEscape (0xdc00 + n % 0x400) ++ text)) =
      (scanString text).map fun p => (Char.ofNat (0x10000 + n) :: p.1, p.2) := by
  have hvalue : 0x10000 + (0xd800 + n / 0x400 - 0xd800) * 0x400 + (0xdc00 + n % 0x400 - 0xdc00) =
      0x10000 + n := by omega
  simp only [unicodeEscape, List.cons_append, List.nil_append]
  rw [scanString, if_neg (by decide), if_pos rfl]
  simp only [hexFour_digitChar (n := 0xd800 + n / 0x400) (by omega)]
  rw [if_pos (by omega)]
  simp only [backslash, hexFour_digitChar (n := 0xdc00 + n % 0x400) (by omega)]
  rw [if_pos (by omega), hvalue]

theorem scanString_escapeChar (c : Char) (text : List Char) :
    scanString (escapeChar c ++ text) = (scanString text).map fun p => (c :: p.1, p.2) := by
  unfold escapeChar
  cases hshort : shortEscape c with
  | some x =>
    simp only [List.cons_append, List.nil_append, scanString_short (shortEscape_ne hshort),
      unescape_shortEscape hshort]
  | none =>
    dsimp only
    split
    · next hplain =>
      have hquotation : c ≠ quotation := by
        rintro rfl
        cases hshort
      have hbackslash : c ≠ backslash := by
        rintro rfl
        cases hshort
      rw [scanString.eq_def]
      simp only [List.cons_append, List.nil_append]
      rw [if_neg hquotation, if_neg hbackslash, if_neg (by omega)]
    · have hvalid := not_surrogate c
      have hlt := toNat_lt c
      split
      · next hunit => rw [scanString_unicode hunit (by omega), Char.ofNat_toNat]
      · next hpair =>
        rw [List.append_assoc, scanString_pair (by omega),
          Nat.add_sub_cancel' (Nat.le_of_not_lt hpair), Char.ofNat_toNat]

theorem scanString_escaped (cs text : List Char) :
    scanString (cs.flatMap escapeChar ++ quotation :: text) = some (cs, text) := by
  induction cs with
  | nil =>
    rw [scanString.eq_def]
    simp
  | cons c cs ih => simp [List.flatMap_cons, scanString_escapeChar, ih]

end Strings

section Numbers

variable {text rest front : List Char}

theorem Closed.digit (h : Closed rest) : ∀ c ∈ rest.head?, c.isDigit = false := by
  intro c hc
  have hclosed := h c hc
  simp only [isTokenChar, Char.isAlphanum, Bool.or_eq_false_iff] at hclosed
  exact hclosed.1.1.1.2

theorem digits_append (h : Closed rest) (text : List Char) :
    digits (text ++ rest) = ((digits text).1, (digits text).2 ++ rest) := by
  unfold digits
  induction text with
  | nil =>
    cases rest with
    | nil => simp
    | cons c rest => simp [h.digit c rfl]
  | cons c text ih =>
    cases hc : c.isDigit
    · simp [hc]
    · simpa [hc] using ih

theorem integer_append (h : Closed rest) (hsome : (integer text).isSome = true) :
    integer (text ++ rest) = (integer text).map fun p => (p.1, p.2 ++ rest) := by
  cases text with
  | nil => simp [integer] at hsome
  | cons c text =>
    simp only [List.cons_append, integer, digits_append h]
    split
    · rfl
    · split <;> rfl

theorem fraction_append (h : Closed rest) (text : List Char) :
    fraction (text ++ rest) = ((fraction text).1, (fraction text).2 ++ rest) := by
  have hrest : fraction rest = ([], rest) := by
    cases rest with
    | nil => rfl
    | cons d rest =>
      have hd : d ≠ '.' := by
        rintro rfl
        exact absurd (h '.' rfl) (by decide)
      simp [fraction, hd]
  cases text with
  | nil => exact hrest
  | cons c text =>
    by_cases hc : c = '.'
    · subst hc
      cases text with
      | nil =>
        cases rest with
        | nil => rfl
        | cons d rest => simp [fraction, h.digit d rfl]
      | cons d text =>
        simp only [List.cons_append, fraction, digits_append h]
        split <;> rfl
    · simp [fraction, hc]

theorem exponent_append (h : Closed rest) (text : List Char) :
    exponent (text ++ rest) = ((exponent text).1, (exponent text).2 ++ rest) := by
  have hclosed : ∀ c ∈ rest.head?, c ≠ 'e' ∧ c ≠ 'E' ∧ c ≠ '+' ∧ c ≠ '-' ∧ c.isDigit = false := by
    intro c hc
    refine ⟨?_, ?_, ?_, ?_, h.digit c hc⟩ <;>
    · rintro rfl
      exact absurd (h _ hc) (by decide)
  cases text with
  | nil =>
    cases rest with
    | nil => rfl
    | cons d rest =>
      obtain ⟨hlower, hupper, -⟩ := hclosed d rfl
      simp [exponent, hlower, hupper]
  | cons e text =>
    by_cases he : e = 'e' ∨ e = 'E'
    · cases text with
      | nil =>
        cases rest with
        | nil => simp
        | cons d rest =>
          obtain ⟨-, -, hplus, hminus, hdigit⟩ := hclosed d rfl
          cases rest <;> simp [exponent, he, hplus, hminus, hdigit]
      | cons c text =>
        cases text with
        | nil =>
          cases rest with
          | nil => simp [exponent, he]
          | cons d rest =>
            obtain ⟨-, -, -, -, hdigit⟩ := hclosed d rfl
            cases hc : c.isDigit <;> simp [exponent, he, hc, hdigit, digits]
        | cons d text =>
          have hdigits := digits_append h text
          have hdigits' := digits_append h (d :: text)
          simp only [List.cons_append] at hdigits' ⊢
          simp only [exponent, he, if_true, hdigits, hdigits']
          split
          · rfl
          · split <;> rfl
    · simp [exponent, he]

theorem sign_append (hne : text ≠ []) :
    sign (text ++ rest) = ((sign text).1, (sign text).2 ++ rest) := by
  cases text with
  | nil => exact absurd rfl hne
  | cons c text =>
    by_cases hc : c = '-'
    · subst hc
      rfl
    · simp [sign, hc]

theorem number_append {literal : List Char} {isFloat : Bool} (h : Closed rest)
    (hnumber : number text = some (literal, isFloat, [])) :
    number (text ++ rest) = some (literal, isFloat, rest) := by
  unfold number at hnumber ⊢
  have hne : text ≠ [] := by
    rintro rfl
    cases hnumber
  cases hwhole : integer (sign text).2 with
  | none => simp [hwhole] at hnumber
  | some whole =>
    simp only [hwhole, Option.some.injEq, Prod.mk.injEq] at hnumber
    obtain ⟨rfl, rfl, hrest⟩ := hnumber
    have hinteger : integer ((sign text).2 ++ rest) =
        (integer (sign text).2).map fun p => (p.1, p.2 ++ rest) :=
      integer_append h (by simp [hwhole])
    rw [hwhole] at hinteger
    simp only [sign_append hne, hinteger, Option.map_some, fraction_append h, exponent_append h,
      hrest, List.nil_append]

theorem head_toDigits (n : Nat) (hn : 0 < n) : (Nat.toDigits 10 n).head? ≠ some '0' := by
  induction n using Nat.strongRecOn with
  | ind n ih =>
    by_cases hlt : n < 10
    · rw [Nat.toDigits_of_lt_base hlt]
      have hdigit : ∀ m < 10, 0 < m → Nat.digitChar m ≠ '0' := by decide
      simpa using hdigit n hlt hn
    · rw [Nat.toDigits_of_base_le (by decide) (by omega), List.head?_append_of_ne_nil _ Nat.toDigits_ne_nil]
      exact ih (n / 10) (by omega) (by omega)

theorem digits_of_all (h : ∀ c ∈ text, c.isDigit = true) : digits text = (text, []) := by
  unfold digits
  rw [List.takeWhile_eq_self_iff.mpr h, List.dropWhile_eq_nil_iff.mpr h]

theorem integer_toDigits (n : Nat) : integer (Nat.toDigits 10 n) = some (Nat.toDigits 10 n, []) := by
  have hdigit : ∀ c ∈ Nat.toDigits 10 n, c.isDigit = true := fun c hc => isDigit_of_mem hc
  by_cases hn : n = 0
  · subst hn
    rfl
  · have hhead := head_toDigits n (Nat.pos_of_ne_zero hn)
    cases htext : Nat.toDigits 10 n with
    | nil => exact absurd htext Nat.toDigits_ne_nil
    | cons c text =>
      rw [htext] at hdigit hhead
      have hzero : c ≠ '0' := by simpa using hhead
      have hrest := digits_of_all fun d hd => hdigit d (List.mem_cons_of_mem _ hd)
      simp [integer, hzero, hdigit c List.mem_cons_self, hrest]

theorem sign_toDigits (n : Nat) : sign (Nat.toDigits 10 n) = ([], Nat.toDigits 10 n) := by
  cases htext : Nat.toDigits 10 n with
  | nil => rfl
  | cons c text =>
    have hc : c ≠ '-' := by
      rintro rfl
      have hdigit := isDigit_of_mem (a := n) (htext ▸ List.mem_cons_self)
      exact absurd hdigit (by decide)
    simp [sign, hc]

theorem number_intText (n : Int) : number (intText n) = some (intText n, false, []) := by
  cases n with
  | ofNat n => simp [number, intText, sign_toDigits, integer_toDigits, fraction, exponent]
  | negSucc n => simp [number, intText, sign, integer_toDigits, fraction, exponent]

/-- The digits of the number are within the limit of a conversion. -/
def Convertible (n : Int) : Prop := (Nat.toDigits 10 n.natAbs).length ≤ maxStrDigits

theorem readInt_intText {n : Int} (h : Convertible n) : readInt (intText n) = some n := by
  unfold Convertible at h
  cases n with
  | ofNat n =>
    have hlength : ¬ maxStrDigits < (Nat.toDigits 10 n).length := Nat.not_lt.mpr h
    simp [readInt, intText, sign_toDigits, hlength, Nat.ofDigitChars_ten_toDigits]
  | negSucc n =>
    have hlength : ¬ maxStrDigits < (Nat.toDigits 10 (n + 1)).length := Nat.not_lt.mpr h
    simp [readInt, intText, sign, hlength, Nat.ofDigitChars_ten_toDigits, Int.negSucc_eq]

end Numbers

section Values

variable {φ : Type} {F : FloatText φ} {c : Char} {text rest word : List Char}

theorem behind_ne {d : Char} (h : c ≠ d) : behind (d :: word) (c :: text) = none := by
  simp [behind, h.symm]

/-- The float is written as a literal of its own, which is read as the float. -/
def FloatText.Reads (F : FloatText φ) (x : φ) : Prop :=
  number (F.text x) = some (F.text x, true, []) ∧ F.read (F.text x) = x

theorem number_head {literal : List Char} {isFloat : Bool}
    (h : number text = some (literal, isFloat, rest)) :
    ∃ c tail, text = c :: tail ∧ (c.isDigit = true ∨ c = '-') := by
  cases text with
  | nil => cases h
  | cons c tail =>
    refine ⟨c, tail, rfl, ?_⟩
    by_cases hminus : c = '-'
    · exact .inr hminus
    · by_cases hzero : c = '0'
      · subst hzero
        exact .inl rfl
      · left
        by_contra hdigit
        simp [number, sign, hminus, integer, hzero, hdigit] at h

theorem ne_of_head {d : Char} (hhead : c.isDigit = true ∨ c = '-') (hd : d.isDigit = false)
    (hminus : d ≠ '-') : c ≠ d := by
  rintro rfl
  rcases hhead with hdigit | rfl
  · simp [hdigit] at hd
  · exact hminus rfl

theorem scanToken_number {literal : List Char} {isFloat : Bool}
    (h : number text = some (literal, isFloat, rest)) :
    scanToken F text =
      if isFloat then some (.float (F.read literal), rest)
      else (readInt literal).map fun n => (.int n, rest) := by
  obtain ⟨c, tail, rfl, hhead⟩ := number_head h
  unfold scanToken
  rw [behind_ne (ne_of_head hhead rfl (by decide)), behind_ne (ne_of_head hhead rfl (by decide)),
    behind_ne (ne_of_head hhead rfl (by decide)), h]
  cases isFloat <;> rfl

mutual

/-- Everything in the value can be read. -/
def Document.Readable (F : FloatText φ) : Document φ → Prop
  | .int n => Convertible n
  | .float x => F.Reads x
  | .array xs => ItemsReadable F xs
  | .object fields => FieldsReadable F fields
  | _ => True

def ItemsReadable (F : FloatText φ) : List (Document φ) → Prop
  | [] => True
  | x :: xs => x.Readable F ∧ ItemsReadable F xs

def FieldsReadable (F : FloatText φ) : List (String × Document φ) → Prop
  | [] => True
  | (_, x) :: fields => x.Readable F ∧ FieldsReadable F fields

end

theorem Document.text_head {x : Document φ} (h : x.Readable F) :
    ∃ c tail, x.text F = c :: tail ∧ isSpace c = false ∧ c ≠ ']' ∧ c ≠ '}' := by
  have hnumber {text literal : List Char} {isFloat : Bool}
      (h : number text = some (literal, isFloat, [])) :
      ∃ c tail, text = c :: tail ∧ isSpace c = false ∧ c ≠ ']' ∧ c ≠ '}' := by
    obtain ⟨c, tail, rfl, hhead⟩ := number_head h
    refine ⟨c, tail, rfl, ?_, ne_of_head hhead rfl (by decide), ne_of_head hhead rfl (by decide)⟩
    have hspaces : ∀ d : Char, isSpace d = true → d.isDigit = false ∧ d ≠ '-' := by
      intro d hd
      simp only [isSpace, Bool.or_eq_true, beq_iff_eq] at hd
      rcases hd with ((rfl | rfl) | rfl) | rfl <;> decide
    by_contra hspace
    obtain ⟨hdigit, hminus⟩ := hspaces c (by simpa using hspace)
    exact ne_of_head hhead hdigit hminus rfl
  cases x with
  | int n => exact hnumber (number_intText n)
  | float x => exact hnumber h.1
  | bool b => cases b <;> exact ⟨_, _, rfl, by decide, by decide, by decide⟩
  | _ => exact ⟨_, _, rfl, by decide, by decide, by decide⟩

theorem skip_cons (h : isSpace c = false) : skip (c :: text) = c :: text := by
  simp [skip, h]

theorem Document.skip_text {x : Document φ} (h : x.Readable F) :
    skip (x.text F ++ rest) = x.text F ++ rest := by
  obtain ⟨c, tail, htext, hspace, -⟩ := x.text_head h
  rw [htext]
  exact skip_cons hspace

theorem itemsText_head {x : Document φ} {xs : List (Document φ)} (h : x.Readable F) :
    ∃ c tail, itemsText F (x :: xs) = c :: tail ∧ isSpace c = false ∧ c ≠ '\x5d' := by
  obtain ⟨c, tail, htext, hspace, hclose, -⟩ := x.text_head h
  cases xs with
  | nil => exact ⟨c, _, by rw [itemsText, htext, List.cons_append], hspace, hclose⟩
  | cons y xs => exact ⟨c, _, by rw [itemsText, htext, List.cons_append], hspace, hclose⟩

theorem fieldsText_head (field : String × Document φ) (fields : List (String × Document φ)) :
    ∃ tail, fieldsText F (field :: fields) = quotation :: tail := by
  cases fields with
  | nil => exact ⟨_, rfl⟩
  | cons other fields => exact ⟨_, rfl⟩

theorem scanValue_array {fuel : Nat} {x : Document φ} {xs : List (Document φ)} (h : x.Readable F)
    (hitems : scanItems F fuel (itemsText F (x :: xs) ++ rest) = some (x :: xs, rest)) :
    scanValue F (fuel + 1) ('\x5b' :: (itemsText F (x :: xs) ++ rest)) =
      some (.array (x :: xs), rest) := by
  have hhead : ∃ c tail, itemsText F (x :: xs) = c :: tail ∧ isSpace c = false ∧ c ≠ '\x5d' :=
    itemsText_head h
  obtain ⟨c, tail, htext, hspace, hclose⟩ := hhead
  rw [htext, List.cons_append] at hitems ⊢
  rw [scanValue, if_neg (by decide), if_neg (by decide), if_pos rfl, skip_cons hspace]
  split
  · next heq => exact absurd (List.cons.inj heq).1 hclose
  · rw [hitems]
    rfl

theorem scanValue_object {fuel : Nat} {field : String × Document φ} {fields : List (String × Document φ)}
    (hfields : scanFields F fuel (fieldsText F (field :: fields) ++ rest) =
      some (field :: fields, rest)) :
    scanValue F (fuel + 1) ('\x7b' :: (fieldsText F (field :: fields) ++ rest)) =
      some (.object (field :: fields), rest) := by
  obtain ⟨tail, htext⟩ := fieldsText_head (F := F) field fields
  rw [htext, List.cons_append] at hfields ⊢
  rw [scanValue, if_neg (by decide), if_pos rfl, skip_cons (by decide)]
  split
  · next heq => exact absurd (List.cons.inj heq).1 (by decide)
  · rw [hfields]
    rfl

theorem scanFields_name {fuel : Nat} (name : String) {x : Document φ} (h : x.Readable F)
    (hvalue : scanValue F fuel (x.text F ++ rest) = some (x, rest)) :
    scanFields F (fuel + 1) (quote name ++ ':' :: (x.text F ++ rest)) =
      match skip rest with
      | '\x7d' :: rest => some ([(name, x)], rest)
      | ',' :: rest => (scanFields F fuel (skip rest)).map fun p => ((name, x) :: p.1, p.2)
      | _ => none := by
  have hstring := scanString_escaped name.toList (':' :: (x.text F ++ rest))
  simp only [quote, List.cons_append, List.append_assoc, List.nil_append]
  rw [scanFields, if_pos rfl, hstring]
  simp only [skip_cons (c := ':') rfl, Document.skip_text h, hvalue, String.ofList_toList]

mutual

/-- A value before a closed rest is read back. -/
theorem scanValue_text : ∀ (x : Document φ) (fuel : Nat) (rest : List Char), x.Readable F →
    Closed rest → (x.text F).length ≤ fuel →
    scanValue F fuel (x.text F ++ rest) = some (x, rest)
  | x, 0, rest, h, _, hfuel => by
    obtain ⟨c, tail, htext, -⟩ := x.text_head h
    simp [htext] at hfuel
  | .null, fuel + 1, rest, _, _, _ => by
    simp [Document.text, scanValue, scanToken, behind, quotation]
  | .bool true, fuel + 1, rest, _, _, _ => by
    simp [Document.text, scanValue, scanToken, behind, quotation]
  | .bool false, fuel + 1, rest, _, _, _ => by
    simp [Document.text, scanValue, scanToken, behind, quotation]
  | .int n, fuel + 1, rest, h, hrest, _ => by
    have hnumber := number_append hrest (number_intText n)
    obtain ⟨c, tail, htext, hhead⟩ := number_head hnumber
    rw [Document.text, htext, scanValue, if_neg (ne_of_head hhead rfl (by decide)),
      if_neg (ne_of_head hhead rfl (by decide)), if_neg (ne_of_head hhead rfl (by decide)), ← htext,
      scanToken_number hnumber, if_neg (by decide), readInt_intText h]
    rfl
  | .float x, fuel + 1, rest, h, hrest, _ => by
    have hnumber := number_append hrest h.1
    obtain ⟨c, tail, htext, hhead⟩ := number_head hnumber
    rw [Document.text, htext, scanValue, if_neg (ne_of_head hhead rfl (by decide)),
      if_neg (ne_of_head hhead rfl (by decide)), if_neg (ne_of_head hhead rfl (by decide)), ← htext,
      scanToken_number hnumber, if_pos rfl, h.2]
  | .str s, fuel + 1, rest, _, _, _ => by
    have hstring := scanString_escaped s.toList rest
    simp [Document.text, quote, scanValue, hstring]
  | .array [], fuel + 1, rest, _, _, _ => by
    simp [Document.text, itemsText, scanValue, skip, isSpace, quotation]
  | .array (x :: xs), fuel + 1, rest, h, _, hfuel => by
    have hitems := scanItems_text (x :: xs) fuel rest (List.cons_ne_nil x xs) h
      (by simpa [Document.text] using hfuel)
    exact scanValue_array h.1 hitems
  | .object [], fuel + 1, rest, _, _, _ => by
    simp [Document.text, fieldsText, scanValue, skip, isSpace, quotation]
  | .object (field :: fields), fuel + 1, rest, h, _, hfuel => by
    have hfields := scanFields_text (field :: fields) fuel rest (List.cons_ne_nil field fields) h
      (by simpa [Document.text] using hfuel)
    exact scanValue_object hfields

theorem scanItems_text : ∀ (xs : List (Document φ)) (fuel : Nat) (rest : List Char), xs ≠ [] →
    ItemsReadable F xs → (itemsText F xs).length ≤ fuel →
    scanItems F fuel (itemsText F xs ++ rest) = some (xs, rest)
  | [], _, _, hne, _, _ => absurd rfl hne
  | [x], 0, rest, _, _, hfuel => by simp [itemsText] at hfuel
  | x :: y :: xs, 0, rest, _, _, hfuel => by simp [itemsText] at hfuel
  | [x], fuel + 1, rest, _, h, hfuel => by
    have hvalue := scanValue_text x fuel ('\x5d' :: rest) h.1 (closed_cons rfl)
      (by simpa [itemsText] using hfuel)
    simp only [itemsText, List.append_assoc, List.cons_append, List.nil_append, scanItems, hvalue,
      skip_cons (c := '\x5d') rfl]
  | x :: y :: xs, fuel + 1, rest, _, h, hfuel => by
    simp only [itemsText, List.length_append, List.length_cons] at hfuel
    have hvalue := scanValue_text x fuel (',' :: (itemsText F (y :: xs) ++ rest)) h.1
      (closed_cons rfl) (by omega)
    have hitems := scanItems_text (y :: xs) fuel rest (List.cons_ne_nil y xs) h.2 (by omega)
    have hhead : ∃ c tail, itemsText F (y :: xs) = c :: tail ∧ isSpace c = false ∧ c ≠ '\x5d' :=
      itemsText_head h.2.1
    obtain ⟨c, tail, htext, hspace, -⟩ := hhead
    have hskip : skip (itemsText F (y :: xs) ++ rest) = itemsText F (y :: xs) ++ rest := by
      rw [htext]
      exact skip_cons hspace
    simp only [itemsText, List.append_assoc, List.cons_append, scanItems, hvalue,
      skip_cons (c := ',') rfl, hskip, hitems, Option.map_some]

theorem scanFields_text : ∀ (fields : List (String × Document φ)) (fuel : Nat) (rest : List Char),
    fields ≠ [] → FieldsReadable F fields → (fieldsText F fields).length ≤ fuel →
    scanFields F fuel (fieldsText F fields ++ rest) = some (fields, rest)
  | [], _, _, hne, _, _ => absurd rfl hne
  | [(name, x)], 0, rest, _, _, hfuel => by simp [fieldsText] at hfuel
  | (name, x) :: field :: fields, 0, rest, _, _, hfuel => by simp [fieldsText] at hfuel
  | [(name, x)], fuel + 1, rest, _, h, hfuel => by
    simp only [fieldsText, List.length_append, List.length_cons] at hfuel
    have hvalue := scanValue_text x fuel ('\x7d' :: rest) h.1 (closed_cons rfl) (by omega)
    have hname := scanFields_name name h.1 hvalue
    simp only [skip_cons (c := '\x7d') rfl] at hname
    simpa [fieldsText] using hname
  | (name, x) :: field :: fields, fuel + 1, rest, _, h, hfuel => by
    simp only [fieldsText, List.length_append, List.length_cons] at hfuel
    have hvalue := scanValue_text x fuel (',' :: (fieldsText F (field :: fields) ++ rest)) h.1
      (closed_cons rfl) (by omega)
    have hfields := scanFields_text (field :: fields) fuel rest (List.cons_ne_nil field fields) h.2
      (by omega)
    obtain ⟨tail, htext⟩ := fieldsText_head (F := F) field fields
    have hskip : skip (fieldsText F (field :: fields) ++ rest) =
        fieldsText F (field :: fields) ++ rest := by
      rw [htext]
      exact skip_cons (by decide)
    have hname := scanFields_name name h.1 hvalue
    simp only [skip_cons (c := ',') rfl, hskip, hfields, Option.map_some] at hname
    simpa [fieldsText] using hname

end

/-- What was written is read back. -/
theorem loads_text {x : Document φ} (h : x.Readable F) : loads F (x.text F) = some x := by
  have hvalue := scanValue_text x (2 * (x.text F).length + 2) [] h (by simp [Closed]) (by omega)
  have hskip : skip (x.text F ++ []) = x.text F ++ [] := x.skip_text h
  rw [List.append_nil] at hvalue hskip
  rw [loads, hskip, hvalue]
  simp [skip]

end Values

section Fields

variable {φ : Type} {F : FloatText φ} {fields : List (String × Document φ)} {name : String} {x : Document φ}

/-- A field of a dictionary. -/
def get (fields : List (String × Document φ)) (name : String) : Option (Document φ) :=
  fields.reverse.lookup name

/-- The fields in the order of their names. -/
def sortFields (fields : List (String × Document φ)) : List (String × Document φ) :=
  fields.insertionSort fun p q => p.1 ≤ q.1

/-- `json.dumps` with `sort_keys=True`, of a dictionary with no other among its values. -/
def writeObject (F : FloatText φ) (fields : List (String × Document φ)) : List Char :=
  (Document.object (sortFields fields)).text F

theorem itemsReadable_iff {xs : List (Document φ)} :
    ItemsReadable F xs ↔ ∀ x ∈ xs, x.Readable F := by
  induction xs with
  | nil => simp [ItemsReadable]
  | cons y xs ih => simp [ItemsReadable, ih]

theorem fieldsReadable_iff : FieldsReadable F fields ↔ ∀ p ∈ fields, p.2.Readable F := by
  induction fields with
  | nil => simp [FieldsReadable]
  | cons p fields ih => simp [FieldsReadable, ih]

theorem mem_sortFields {p : String × Document φ} : p ∈ sortFields fields ↔ p ∈ fields :=
  List.mem_insertionSort _

theorem names_sortFields :
    ((sortFields fields).map Prod.fst).Perm (fields.map Prod.fst) :=
  (List.perm_insertionSort _ fields).map Prod.fst

theorem get_of_mem (hnames : (fields.map Prod.fst).Nodup) (hmem : (name, x) ∈ fields) :
    get fields name = some x := by
  have hnames' : (fields.reverse.map Prod.fst).Nodup := by simpa using hnames
  have hmem' : (name, x) ∈ fields.reverse := List.mem_reverse.mpr hmem
  unfold get
  generalize fields.reverse = fields at hnames' hmem'
  induction fields with
  | nil => simp at hmem'
  | cons p fields ih =>
    obtain ⟨other, y⟩ := p
    rw [List.map_cons, List.nodup_cons] at hnames'
    rcases List.mem_cons.mp hmem' with heq | hrest
    · simp [Prod.mk.inj heq]
    · have hne : name ≠ other := by
        rintro rfl
        exact hnames'.1 (List.mem_map.mpr ⟨(name, x), hrest, rfl⟩)
      have hother : (name == other) = false := by simpa using hne
      rw [List.lookup_cons, hother]
      exact ih hnames'.2 hrest

theorem get_of_notMem (hname : name ∉ fields.map Prod.fst) : get fields name = none := by
  have hname' : name ∉ fields.reverse.map Prod.fst := by simpa using hname
  unfold get
  generalize fields.reverse = fields at hname'
  induction fields with
  | nil => rfl
  | cons p fields ih =>
    obtain ⟨other, y⟩ := p
    rw [List.map_cons, List.mem_cons, not_or] at hname'
    have hother : (name == other) = false := by simpa using hname'.1
    rw [List.lookup_cons, hother]
    exact ih hname'.2

theorem get_sortFields (hnames : (fields.map Prod.fst).Nodup) (name : String) :
    get (sortFields fields) name = get fields name := by
  by_cases hname : name ∈ fields.map Prod.fst
  · obtain ⟨p, hp, rfl⟩ := List.mem_map.mp hname
    rw [get_of_mem hnames hp]
    exact get_of_mem (names_sortFields.nodup_iff.mpr hnames) (mem_sortFields.mpr hp)
  · rw [get_of_notMem hname, get_of_notMem (mt names_sortFields.mem_iff.mp hname)]

/-- A dictionary is read back, in the order in which it was written. -/
theorem loads_writeObject (h : ∀ p ∈ fields, p.2.Readable F) :
    loads F (writeObject F fields) = some (.object (sortFields fields)) :=
  loads_text (x := .object (sortFields fields))
    (fieldsReadable_iff.mpr fun p hp => h p (mem_sortFields.mp hp))

end Fields

end YtdlBot.Framework.Json
