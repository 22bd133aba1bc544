import Mathlib.Data.List.Basic

/-!
# Header fields

Header mappings in insertion order, the lookup that ignores case, and the texts that are read
from header values: the decimal numbers of `\d+` and of `int`, and the form of `Content-Range`.
-/

namespace YtdlBot.Transport

/-- A mapping of header names to values, in insertion order. -/
abbrev Headers := List (String × String)

/-- `str.lower` as far as ASCII words can tell: besides the ASCII letters only the Kelvin sign
becomes an ASCII letter. -/
def lowerChar (c : Char) : Char := if c.toNat = 0x212A then 'k' else c.toLower

def lower (s : String) : List Char := s.toList.map lowerChar

/-- `str.isspace` of one character. -/
def isSpace (c : Char) : Bool :=
  let n := c.toNat
  (0x09 ≤ n && n ≤ 0x0D) || (0x1C ≤ n && n ≤ 0x20) || n == 0x85 || n == 0xA0 || n == 0x1680 ||
    (0x2000 ≤ n && n ≤ 0x200A) || n == 0x2028 || n == 0x2029 || n == 0x202F || n == 0x205F ||
    n == 0x3000

/-- `str.strip`. -/
def strip (cs : List Char) : List Char :=
  ((cs.dropWhile isSpace).reverse.dropWhile isSpace).reverse

/-- `_header`: the first field of that name. -/
def header (headers : Headers) (name : String) : Option String :=
  (headers.find? fun field => lower field.1 = lower name).map Prod.snd

/-- `{**headers, name: value}`. -/
def setField (headers : Headers) (name value : String) : Headers :=
  if headers.any (fun field => field.1 = name) then
    headers.map fun field => if field.1 = name then (name, value) else field
  else headers ++ [(name, value)]

/-- The fields whose names, in lower case, are not among `names`. -/
def without (headers : Headers) (names : List String) : Headers :=
  headers.filter fun field => names.all fun name => lower field.1 ≠ lower name

section Fields

variable {headers : Headers} {name value : String}

theorem header_cons (field : String × String) (headers : Headers) (name : String) :
    header (field :: headers) name =
      if lower field.1 = lower name then some field.2 else header headers name := by
  unfold header
  rw [List.find?_cons]
  by_cases h : lower field.1 = lower name
  · simp [h]
  · simp [h]

theorem header_append_of_absent {other : Headers}
    (h : ∀ field ∈ headers, lower field.1 ≠ lower name) :
    header (headers ++ other) name = header other name := by
  induction headers with
  | nil => rfl
  | cons field headers ih =>
    have hfirst := h field List.mem_cons_self
    rw [List.cons_append, header_cons, if_neg hfirst]
    exact ih fun field' hfield => h field' (List.mem_cons_of_mem _ hfield)

/-- No field has the name in another case. -/
def Sole (headers : Headers) (name : String) : Prop :=
  ∀ field ∈ headers, lower field.1 = lower name → field.1 = name

theorem absent_without {names : List String} (name : String) (hname : name ∈ names) :
    ∀ field ∈ without headers names, lower field.1 ≠ lower name := by
  intro field hfield
  have hkept := (List.mem_filter.mp hfield).2
  have hall := List.all_eq_true.mp hkept name hname
  simpa using hall

theorem sole_setField {other : String} (h : Sole headers name)
    (hother : lower other = lower name → other = name) :
    Sole (setField headers other value) name := by
  intro field hfield hlower
  unfold setField at hfield
  split at hfield
  · obtain ⟨field', hfield', rfl⟩ := List.mem_map.mp hfield
    by_cases hsame : field'.1 = other
    · rw [if_pos hsame] at hlower ⊢
      exact hother hlower
    · rw [if_neg hsame] at hlower ⊢
      exact h field' hfield' hlower
  · rcases List.mem_append.mp hfield with hfield | hfield
    · exact h field hfield hlower
    · obtain rfl := List.mem_singleton.mp hfield
      exact hother hlower

theorem header_setField_other {other : String} (hother : lower other ≠ lower name) :
    header (setField headers other value) name = header headers name := by
  unfold setField
  split
  · rename_i hpresent
    clear hpresent
    induction headers with
    | nil => rfl
    | cons field headers ih =>
      rw [List.map_cons, header_cons, header_cons, ih]
      by_cases hsame : field.1 = other
      · rw [if_pos hsame, hsame, if_neg hother, if_neg hother]
      · rw [if_neg hsame]
  · clear * - hother
    induction headers with
    | nil =>
      rw [List.nil_append, header_cons, if_neg hother]
    | cons field headers ih =>
      rw [List.cons_append, header_cons, header_cons, ih]

theorem header_setField (h : Sole headers name) (value : String) :
    header (setField headers name value) name = some value := by
  unfold setField
  split
  · rename_i hpresent
    obtain ⟨field, hfield, hname⟩ := List.any_eq_true.mp hpresent
    induction headers with
    | nil => cases hfield
    | cons field' headers ih =>
      rw [List.map_cons, header_cons]
      by_cases hfirst : field'.1 = name
      · rw [if_pos hfirst, if_pos rfl]
      · have hlower : lower field'.1 ≠ lower name := fun hlower =>
          hfirst (h field' List.mem_cons_self hlower)
        have hrest : field ∈ headers := by
          rcases List.mem_cons.mp hfield with rfl | hrest
          · exact absurd (by simpa using hname) hfirst
          · exact hrest
        rw [if_neg hfirst, if_neg hlower]
        exact ih (fun x hx => h x (List.mem_cons_of_mem _ hx))
          (List.any_eq_true.mpr ⟨field, hrest, hname⟩) hrest
  · rename_i hfresh
    rw [header_append_of_absent, header_cons, if_pos rfl]
    intro field hfield hlower
    apply hfresh
    exact List.any_eq_true.mpr ⟨field, hfield, by simpa using h field hfield hlower⟩

end Fields

/-- The zeros of the decimal digits of Unicode; nine digits follow each of them. -/
def digitZeros : List Nat :=
  [0x30, 0x660, 0x6F0, 0x7C0, 0x966, 0x9E6, 0xA66, 0xAE6, 0xB66, 0xBE6, 0xC66, 0xCE6, 0xD66,
    0xDE6, 0xE50, 0xED0, 0xF20, 0x1040, 0x1090, 0x17E0, 0x1810, 0x1946, 0x19D0, 0x1A80, 0x1A90,
    0x1B50, 0x1BB0, 0x1C40, 0x1C50, 0xA620, 0xA8D0, 0xA900, 0xA9D0, 0xA9F0, 0xAA50, 0xABF0,
    0xFF10, 0x104A0, 0x10D30, 0x11066, 0x110F0, 0x11136, 0x111D0, 0x112F0, 0x11450, 0x114D0,
    0x11650, 0x116C0, 0x11730, 0x118E0, 0x11950, 0x11C50, 0x11D50, 0x11DA0, 0x11F50, 0x16A60,
    0x16AC0, 0x16B50, 0x1D7CE, 0x1D7D8, 0x1D7E2, 0x1D7EC, 0x1D7F6, 0x1E140, 0x1E2F0, 0x1E4F0,
    0x1E950, 0x1FBF0]

/-- The value of a decimal digit. -/
def digit (c : Char) : Option Nat :=
  (digitZeros.find? fun d => d ≤ c.toNat ∧ c.toNat < d + 10).map fun d => c.toNat - d

/-- `\d`. -/
def isDigit (c : Char) : Bool := (digit c).isSome

/-- The number that a text of digits writes. -/
def digitsValue (cs : List Char) : Nat := cs.foldl (fun n c => 10 * n + (digit c).getD 0) 0

/-- `sys.int_info.default_max_str_digits`. -/
def maxStrDigits : Nat := 4300

/-- `int` of a text of digits; `none` is its `ValueError`. -/
def intOfDigits (cs : List Char) : Option Nat :=
  if cs.length ≤ maxStrDigits then some (digitsValue cs) else none

/-- `(\d+)` and the character `mark` after it: the digits and the rest. -/
def digitsUntil (mark : Char) (cs : List Char) : Option (List Char × List Char) :=
  match cs.dropWhile isDigit with
  | [] => none
  | c :: rest =>
    if c = mark ∧ cs.takeWhile isDigit ≠ [] then some (cs.takeWhile isDigit, rest) else none

/-- The groups of `re.fullmatch(r"bytes (\d+)-(\d+)/(\d+)", value)`. -/
def contentRange (value : List Char) : Option (List Char × List Char × List Char) :=
  if "bytes ".toList.isPrefixOf value then
    (digitsUntil '-' (value.drop 6)).bind fun start =>
      (digitsUntil '/' start.2).bind fun stop =>
        if stop.2 ≠ [] ∧ stop.2.all isDigit then some (start.1, stop.1, stop.2) else none
  else none

section Digits

theorem digitsUntil_append {mark : Char} {ds rest : List Char} (hmark : isDigit mark = false)
    (hds : ∀ c ∈ ds, isDigit c = true) (hne : ds ≠ []) :
    digitsUntil mark (ds ++ mark :: rest) = some (ds, rest) := by
  have htake : (ds ++ mark :: rest).takeWhile isDigit = ds := by
    rw [List.takeWhile_append_of_pos hds, List.takeWhile_cons, hmark]
    simp
  have hdrop : (ds ++ mark :: rest).dropWhile isDigit = mark :: rest := by
    rw [List.dropWhile_append_of_pos hds, List.dropWhile_cons, hmark]
    simp
  unfold digitsUntil
  rw [hdrop, htake]
  simp [hne]

/-- What is written in the form of `Content-Range` is read back. -/
theorem contentRange_written {start stop total : List Char}
    (hstart : ∀ c ∈ start, isDigit c = true) (hstop : ∀ c ∈ stop, isDigit c = true)
    (htotal : ∀ c ∈ total, isDigit c = true) (hne : start ≠ [] ∧ stop ≠ [] ∧ total ≠ []) :
    contentRange ("bytes ".toList ++ (start ++ '-' :: (stop ++ '/' :: total))) =
      some (start, stop, total) := by
  have hdash : isDigit '-' = false := by decide
  have hslash : isDigit '/' = false := by decide
  have hdrop : ("bytes ".toList ++ (start ++ '-' :: (stop ++ '/' :: total))).drop 6 =
      start ++ '-' :: (stop ++ '/' :: total) := rfl
  have hpre : "bytes ".toList.isPrefixOf
      ("bytes ".toList ++ (start ++ '-' :: (stop ++ '/' :: total))) = true := by
    rw [List.isPrefixOf_iff_prefix]
    exact List.prefix_append _ _
  unfold contentRange
  rw [if_pos hpre, hdrop, digitsUntil_append hdash hstart hne.1, Option.bind_some]
  rw [digitsUntil_append hslash hstop hne.2.1, Option.bind_some]
  rw [if_pos ⟨hne.2.2, List.all_eq_true.mpr htotal⟩]

theorem intOfDigits_eq_some {cs : List Char} {n : Nat} (h : intOfDigits cs = some n) :
    cs.length ≤ maxStrDigits ∧ digitsValue cs = n := by
  obtain ⟨hle, heq⟩ := Option.ite_none_right_eq_some.mp h
  exact ⟨hle, Option.some.inj heq⟩

theorem digitsValue_replicate_zero (n : Nat) : digitsValue (List.replicate n '0') = 0 := by
  induction n with
  | zero => rfl
  | succ n ih => exact ih

end Digits

end YtdlBot.Transport
