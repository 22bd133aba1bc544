import Mathlib.Data.List.Sort

/-!
# JSON objects as text

`json.dumps` with `sort_keys=True` and `separators=(",", ":")`, of objects whose values are scalars
and lists of scalars. The text determines the object up to the order of its fields. The proofs read
the text from the left: a part of it that is followed by a closed rest is determined by the whole.
-/

namespace YtdlBot.Framework.Json

def quotation : Char := '\x22'

def backslash : Char := '\x5c'

section Strings

/-- `\uXXXX` -/
def unicodeEscape (n : Nat) : List Char :=
  [backslash, 'u', Nat.digitChar (n / 4096 % 16), Nat.digitChar (n / 256 % 16),
    Nat.digitChar (n / 16 % 16), Nat.digitChar (n % 16)]

/-- The letters that stand for characters after a backslash. -/
def shortEscapes : List (Nat × Char) :=
  [(0x22, quotation), (0x5c, backslash), (0x08, 'b'), (0x0c, 'f'), (0x0a, 'n'), (0x0d, 'r'),
    (0x09, 't')]

def shortEscape (c : Char) : Option Char :=
  (shortEscapes.find? fun p => p.1 == c.toNat).map Prod.snd

/-- `py_encode_basestring_ascii`, one character. -/
def escapeChar (c : Char) : List Char :=
  match shortEscape c with
  | some x => [backslash, x]
  | none =>
    if 0x20 ≤ c.toNat ∧ c.toNat ≤ 0x7e then [c]
    else if c.toNat < 0x10000 then unicodeEscape c.toNat
    else
      let n := c.toNat - 0x10000
      unicodeEscape (0xd800 + n / 0x400) ++ unicodeEscape (0xdc00 + n % 0x400)

def quote (s : String) : List Char :=
  quotation :: (s.toList.flatMap escapeChar ++ [quotation])

variable {n m : Nat} {c d : Char} {r t : List Char}

theorem digitChar_injective :
    ∀ a < 16, ∀ b < 16, Nat.digitChar a = Nat.digitChar b → a = b := by decide

theorem unicodeEscape_append (hn : n < 0x10000) (hm : m < 0x10000)
    (h : unicodeEscape n ++ r = unicodeEscape m ++ t) : n = m ∧ r = t := by
  simp only [unicodeEscape, List.cons_append, List.nil_append, List.cons.injEq, true_and] at h
  obtain ⟨h₃, h₂, h₁, h₀, hrest⟩ := h
  have e₃ := digitChar_injective _ (Nat.mod_lt _ (by decide)) _ (Nat.mod_lt _ (by decide)) h₃
  have e₂ := digitChar_injective _ (Nat.mod_lt _ (by decide)) _ (Nat.mod_lt _ (by decide)) h₂
  have e₁ := digitChar_injective _ (Nat.mod_lt _ (by decide)) _ (Nat.mod_lt _ (by decide)) h₁
  have e₀ := digitChar_injective _ (Nat.mod_lt _ (by decide)) _ (Nat.mod_lt _ (by decide)) h₀
  exact ⟨by omega, hrest⟩

theorem eq_of_toNat (h : c.toNat = d.toNat) : c = d := Char.toNat_inj.mp h

/-- The four shapes of an escaped character. -/
inductive Escaped (c : Char) : List Char → Prop where
  | short {x : Char} (hx : x ≠ 'u') (hc : shortEscape c = some x) : Escaped c [backslash, x]
  | plain (hc : c ≠ quotation) (hc' : c ≠ backslash) : Escaped c [c]
  | unit (hc : c.toNat < 0x10000) : Escaped c (unicodeEscape c.toNat)
  | pair (hc : 0x10000 ≤ c.toNat) : Escaped c
      (unicodeEscape (0xd800 + (c.toNat - 0x10000) / 0x400) ++
        unicodeEscape (0xdc00 + (c.toNat - 0x10000) % 0x400))

theorem mem_shortEscapes {x : Char} (h : shortEscape c = some x) : (c.toNat, x) ∈ shortEscapes := by
  obtain ⟨p, hp, rfl⟩ := Option.map_eq_some_iff.mp h
  have hcode : p.1 = c.toNat := by simpa using List.find?_some hp
  rw [← hcode]
  exact List.mem_of_find?_eq_some hp

theorem shortEscape_ne {x : Char} (h : shortEscape c = some x) : x ≠ 'u' := by
  have hnone : ∀ p ∈ shortEscapes, p.2 ≠ 'u' := by decide
  exact hnone _ (mem_shortEscapes h)

theorem shortEscape_injective {x : Char} (hc : shortEscape c = some x)
    (hd : shortEscape d = some x) : c = d := by
  have hcodes : ∀ p ∈ shortEscapes, ∀ q ∈ shortEscapes, p.2 = q.2 → p.1 = q.1 := by decide
  exact eq_of_toNat (hcodes _ (mem_shortEscapes hc) _ (mem_shortEscapes hd) rfl)

theorem escaped_escapeChar (c : Char) : Escaped c (escapeChar c) := by
  unfold escapeChar
  cases hshort : shortEscape c with
  | some x => exact .short (shortEscape_ne hshort) hshort
  | none =>
    dsimp only
    split_ifs with hplain hunit
    · refine .plain ?_ ?_
      · rintro rfl
        cases hshort
      · rintro rfl
        cases hshort
    · exact .unit hunit
    · exact .pair (Nat.le_of_not_lt hunit)

theorem toNat_lt (c : Char) : c.toNat < 0x110000 := by
  rcases c.valid with h | h
  · exact Nat.lt_trans h (by decide)
  · exact h.2

theorem not_surrogate (c : Char) : ¬ (0xd800 ≤ c.toNat ∧ c.toNat < 0xe000) := by
  have hvalid := c.valid
  simp only [UInt32.isValidChar, Nat.isValidChar] at hvalid
  change ¬ (0xd800 ≤ c.val.toNat ∧ c.val.toNat < 0xe000)
  omega

theorem escapeChar_append (h : escapeChar c ++ r = escapeChar d ++ t) : c = d ∧ r = t := by
  have hc := escaped_escapeChar c
  have hd := escaped_escapeChar d
  have hlt := toNat_lt c
  have hlt' := toNat_lt d
  generalize escapeChar c = x at h hc
  generalize escapeChar d = y at h hd
  cases hc with
  | short hx hc =>
    cases hd with
    | short hy hd =>
      simp only [List.cons_append, List.nil_append, List.cons.injEq, true_and] at h
      exact ⟨shortEscape_injective hc (h.1 ▸ hd), h.2⟩
    | plain hq hb => exact absurd (List.cons.inj h).1.symm hb
    | unit hd => exact absurd (List.cons.inj (List.cons.inj h).2).1 hx
    | pair hd => exact absurd (List.cons.inj (List.cons.inj h).2).1 hx
  | plain hq hb =>
    cases hd with
    | short hy hd => exact absurd (List.cons.inj h).1 hb
    | plain hq' hb' => exact List.cons.inj h
    | unit hd => exact absurd (List.cons.inj h).1 hb
    | pair hd => exact absurd (List.cons.inj h).1 hb
  | unit hc =>
    cases hd with
    | short hy hd => exact absurd (List.cons.inj (List.cons.inj h).2).1.symm hy
    | plain hq hb => exact absurd (List.cons.inj h).1.symm hb
    | unit hd =>
      obtain ⟨hn, hrest⟩ := unicodeEscape_append hc hd h
      exact ⟨eq_of_toNat hn, hrest⟩
    | pair hd =>
      rw [List.append_assoc] at h
      obtain ⟨hn, -⟩ := unicodeEscape_append hc (by omega) h
      exact absurd ⟨by omega, by omega⟩ (not_surrogate c)
  | pair hc =>
    cases hd with
    | short hy hd => exact absurd (List.cons.inj (List.cons.inj h).2).1.symm hy
    | plain hq hb => exact absurd (List.cons.inj h).1.symm hb
    | unit hd =>
      rw [List.append_assoc] at h
      obtain ⟨hn, -⟩ := unicodeEscape_append (by omega) hd h
      exact absurd ⟨by omega, by omega⟩ (not_surrogate d)
    | pair hd =>
      rw [List.append_assoc, List.append_assoc] at h
      obtain ⟨hhigh, h⟩ := unicodeEscape_append (by omega) (by omega) h
      obtain ⟨hlow, hrest⟩ := unicodeEscape_append (by omega) (by omega) h
      exact ⟨eq_of_toNat (by omega), hrest⟩

theorem escapeChar_ne_quotation (c : Char) (r : List Char) :
    escapeChar c ++ r ≠ quotation :: t := by
  have hc := escaped_escapeChar c
  generalize escapeChar c = x at hc
  intro h
  cases hc with
  | short hx hc => exact absurd (List.cons.inj h).1 (by decide)
  | plain hq hb => exact hq (List.cons.inj h).1
  | unit hc => exact absurd (List.cons.inj h).1 (by decide)
  | pair hc => exact absurd (List.cons.inj h).1 (by decide)

theorem escaped_append {cs ds : List Char}
    (h : cs.flatMap escapeChar ++ quotation :: r = ds.flatMap escapeChar ++ quotation :: t) :
    cs = ds ∧ r = t := by
  induction cs generalizing ds with
  | nil =>
    cases ds with
    | nil => exact ⟨rfl, (List.cons.inj h).2⟩
    | cons d ds =>
      rw [List.flatMap_cons, List.append_assoc] at h
      exact absurd h.symm (escapeChar_ne_quotation d _)
  | cons c cs ih =>
    cases ds with
    | nil =>
      rw [List.flatMap_cons, List.append_assoc] at h
      exact absurd h (escapeChar_ne_quotation c _)
    | cons d ds =>
      rw [List.flatMap_cons, List.flatMap_cons, List.append_assoc, List.append_assoc] at h
      obtain ⟨rfl, htail⟩ := escapeChar_append h
      obtain ⟨rfl, hrest⟩ := ih htail
      exact ⟨rfl, hrest⟩

theorem quote_append {s s' : String} (h : quote s ++ r = quote s' ++ t) : s = s' ∧ r = t := by
  simp only [quote, List.cons_append, List.append_assoc, List.cons.injEq, true_and,
    List.nil_append] at h
  obtain ⟨hs, hrest⟩ := escaped_append h
  exact ⟨String.toList_inj.mp hs, hrest⟩

end Strings

section Scalars

/-- The characters of numbers and of `null`, `true` and `false`. -/
def isTokenChar (c : Char) : Bool := c.isAlphanum || c == '.' || c == '+' || c == '-'

def isFloatChar (c : Char) : Bool := c.isDigit || c == '.' || c == '+' || c == '-' || c == 'e'

/-- A finite float, known by its `repr`. -/
structure FiniteFloat where
  repr : String
  chars : repr.toList.all isFloatChar = true
  /-- A float never reads as an integer. -/
  pointed : repr.toList.any (fun c => c == '.' || c == 'e') = true
deriving DecidableEq

inductive Scalar where
  | null
  | bool (b : Bool)
  | int (n : Int)
  | float (x : FiniteFloat)
  | str (s : String)
deriving DecidableEq

def intText : Int → List Char
  | .ofNat n => Nat.toDigits 10 n
  | .negSucc n => '-' :: Nat.toDigits 10 (n + 1)

def Scalar.text : Scalar → List Char
  | .null => ['n', 'u', 'l', 'l']
  | .bool true => ['t', 'r', 'u', 'e']
  | .bool false => ['f', 'a', 'l', 's', 'e']
  | .int n => intText n
  | .float x => x.repr.toList
  | .str s => quote s

/-- What may follow a token: nothing, or a character that is in no token. -/
def Closed (r : List Char) : Prop := ∀ c ∈ r.head?, isTokenChar c = false

variable {r t : List Char} {x y : Scalar} {n m : Int}

theorem token_append {t u s : List Char} (ht : ∀ c ∈ t, isTokenChar c = true)
    (hu : ∀ c ∈ u, isTokenChar c = true) (hr : Closed r) (hs : Closed s)
    (h : t ++ r = u ++ s) : t = u ∧ r = s := by
  have hempty : ∀ {a : List Char} {c : Char} {b : List Char}, Closed a → isTokenChar c = true →
      a ≠ c :: b := by
    rintro a c b ha hc rfl
    rw [ha c rfl] at hc
    cases hc
  induction t generalizing u with
  | nil =>
    cases u with
    | nil => exact ⟨rfl, h⟩
    | cons c u => exact absurd h (hempty hr (hu c List.mem_cons_self))
  | cons c t ih =>
    cases u with
    | nil => exact absurd h.symm (hempty hs (ht c List.mem_cons_self))
    | cons d u =>
      obtain ⟨rfl, htail⟩ := List.cons.inj h
      obtain ⟨rfl, hrest⟩ := ih (fun c hc => ht c (List.mem_cons_of_mem _ hc))
        (fun c hc => hu c (List.mem_cons_of_mem _ hc)) htail
      exact ⟨rfl, hrest⟩

theorem toDigits_injective {a b : Nat} (h : Nat.toDigits 10 a = Nat.toDigits 10 b) : a = b := by
  rw [← Nat.ofDigitChars_ten_toDigits (n := a), h, Nat.ofDigitChars_ten_toDigits]

theorem isDigit_of_mem {a : Nat} {c : Char} (h : c ∈ Nat.toDigits 10 a) : c.isDigit = true :=
  Nat.isDigit_of_mem_toDigits (by decide) (by decide) h

theorem intText_injective (h : intText n = intText m) : n = m := by
  have hsign : ∀ {a : Nat} {l : List Char}, Nat.toDigits 10 a ≠ '-' :: l := by
    intro a l h
    have hdigit := isDigit_of_mem (a := a) (h ▸ List.mem_cons_self)
    exact absurd hdigit (by decide)
  cases n with
  | ofNat a =>
    cases m with
    | ofNat b => exact congrArg Int.ofNat (toDigits_injective h)
    | negSucc b => exact absurd h hsign
  | negSucc a =>
    cases m with
    | ofNat b => exact absurd h.symm hsign
    | negSucc b =>
      have hab := toDigits_injective (List.cons.inj h).2
      exact congrArg Int.negSucc (Nat.succ.inj hab)

theorem intText_char {c : Char} (h : c ∈ intText n) : c.isDigit = true ∨ c = '-' := by
  cases n with
  | ofNat a => exact .inl (isDigit_of_mem h)
  | negSucc a =>
    rcases List.mem_cons.mp h with h | h
    · exact .inr h
    · exact .inl (isDigit_of_mem h)

theorem isTokenChar_text (hx : ∀ s, x ≠ .str s) : ∀ c ∈ x.text, isTokenChar c = true := by
  cases x with
  | null => simp [Scalar.text, isTokenChar]
  | bool b => cases b <;> simp [Scalar.text, isTokenChar]
  | int n =>
    intro c hc
    rcases intText_char hc with h | rfl
    · simp [isTokenChar, Char.isAlphanum, h]
    · rfl
  | float x =>
    intro c hc
    have hchar := List.all_eq_true.mp x.chars c hc
    simp only [isFloatChar, Bool.or_eq_true, beq_iff_eq] at hchar
    rcases hchar with (((h | rfl) | rfl) | rfl) | rfl
    · simp [isTokenChar, Char.isAlphanum, h]
    all_goals rfl
  | str s => exact absurd rfl (hx s)

/-- Which kind of token a text is. -/
def kind (t : List Char) : Nat :=
  if t.head? = some 'n' then 0
  else if t.head? = some 't' then 1
  else if t.head? = some 'f' then 2
  else if t.any (fun c => c == '.' || c == 'e') then 3
  else 4

theorem kind_int : kind (intText n) = 4 := by
  have hhead : ∀ c, (intText n).head? = some c → c.isDigit = true ∨ c = '-' :=
    fun c hc => intText_char (List.mem_of_mem_head? hc)
  have hletter : ∀ c : Char, c.isDigit = false → c ≠ '-' → (intText n).head? ≠ some c := by
    intro c hdigit hminus h
    rcases hhead c h with h | h
    · rw [hdigit] at h
      cases h
    · exact hminus h
  have hany : (intText n).any (fun c => c == '.' || c == 'e') = false := by
    rw [List.any_eq_false]
    intro c hc
    rcases intText_char hc with h | rfl
    · have hdot : c ≠ '.' := by
        rintro rfl
        cases h
      have he : c ≠ 'e' := by
        rintro rfl
        cases h
      simp [hdot, he]
    · decide
  simp [kind, hletter 'n' rfl (by decide), hletter 't' rfl (by decide), hletter 'f' rfl (by decide),
    hany]

theorem kind_float (x : FiniteFloat) : kind x.repr.toList = 3 := by
  have hletter : ∀ c : Char, isFloatChar c = false → x.repr.toList.head? ≠ some c := by
    intro c hfloat h
    have hchar := List.all_eq_true.mp x.chars c (List.mem_of_mem_head? h)
    rw [hfloat] at hchar
    cases hchar
  simp [kind, hletter 'n' rfl, hletter 't' rfl, hletter 'f' rfl, x.pointed]

def Scalar.kind : Scalar → Nat
  | .null => 0
  | .bool true => 1
  | .bool false => 2
  | .float _ => 3
  | .int _ => 4
  | .str _ => 5

theorem kind_text (hx : ∀ s, x ≠ .str s) : kind x.text = x.kind := by
  cases x with
  | null => decide
  | bool b => cases b <;> decide
  | int n => exact kind_int
  | float x => exact kind_float x
  | str s => exact absurd rfl (hx s)

theorem token_injective (hx : ∀ s, x ≠ .str s) (hy : ∀ s, y ≠ .str s) (h : x.text = y.text) :
    x = y := by
  have hkind : x.kind = y.kind := by rw [← kind_text hx, h, kind_text hy]
  cases x with
  | str s => exact absurd rfl (hx s)
  | null => cases y <;> first | rfl | cases hkind | (rename_i b; cases b <;> cases hkind)
  | bool b =>
    cases y with
    | bool b' => cases b <;> cases b' <;> first | rfl | cases hkind
    | _ => cases b <;> cases hkind
  | int n =>
    cases y with
    | int m => rw [intText_injective h]
    | bool b => cases b <;> cases hkind
    | _ => cases hkind
  | float x =>
    cases y with
    | float y =>
      obtain ⟨repr, _, _⟩ := x
      obtain ⟨repr', _, _⟩ := y
      obtain rfl : repr = repr' := String.toList_inj.mp h
      rfl
    | bool b => cases b <;> cases hkind
    | _ => cases hkind

theorem Scalar.text_ne_nil (x : Scalar) : x.text ≠ [] := by
  intro h
  cases x with
  | str s => cases h
  | null => cases h
  | bool b => cases b <;> cases h
  | int n =>
    cases n with
    | ofNat n => exact Nat.toDigits_ne_nil h
    | negSucc n => cases h
  | float x =>
    have hkind := kind_float x
    rw [show x.repr.toList = [] from h] at hkind
    cases hkind

theorem token_ne (hx : ∀ s, x ≠ .str s) {c : Char} (hc : isTokenChar c = false) :
    x.text ++ r ≠ c :: t := by
  intro h
  cases htext : x.text with
  | nil => exact x.text_ne_nil htext
  | cons d l =>
    rw [htext] at h
    have hd := isTokenChar_text hx d (by rw [htext]; exact List.mem_cons_self)
    rw [(List.cons.inj h).1, hc] at hd
    cases hd

theorem Scalar.text_append (hr : Closed r) (ht : Closed t) (h : x.text ++ r = y.text ++ t) :
    x = y ∧ r = t := by
  by_cases hx : ∃ s, x = .str s
  · obtain ⟨s, rfl⟩ := hx
    by_cases hy : ∃ s, y = .str s
    · obtain ⟨s', rfl⟩ := hy
      obtain ⟨rfl, hrest⟩ := quote_append h
      exact ⟨rfl, hrest⟩
    · exact absurd h.symm (token_ne (fun s' h' => hy ⟨s', h'⟩) rfl)
  · have hx' : ∀ s, x ≠ .str s := fun s h' => hx ⟨s, h'⟩
    by_cases hy : ∃ s, y = .str s
    · obtain ⟨s', rfl⟩ := hy
      exact absurd h (token_ne hx' rfl)
    · have hy' : ∀ s, y ≠ .str s := fun s h' => hy ⟨s, h'⟩
      obtain ⟨htext, hrest⟩ := token_append (isTokenChar_text hx') (isTokenChar_text hy') hr ht h
      exact ⟨token_injective hx' hy' htext, hrest⟩

end Scalars

section Sequences

variable {α : Type} {f : α → List Char} {close : Char} {xs ys : List α} {r t : List Char}

/-- The items after the first one. -/
def tailText (f : α → List Char) (xs : List α) : List Char := xs.flatMap fun x => ',' :: f x

/-- Items with commas between them. -/
def joined (f : α → List Char) : List α → List Char
  | [] => []
  | x :: xs => f x ++ tailText f xs

/-- Each item before a closed rest is read back, and none begins like the end of the sequence. -/
structure Readable (f : α → List Char) (close : Char) : Prop where
  append : ∀ {x y r t}, Closed r → Closed t → f x ++ r = f y ++ t → x = y ∧ r = t
  ne_close : ∀ {x r t}, f x ++ r ≠ close :: t
  closed : isTokenChar close = false
  close_ne : close ≠ ','

theorem closed_cons {c : Char} (hc : isTokenChar c = false) : Closed (c :: r) := by
  rintro d hd
  obtain rfl := Option.some.inj hd
  exact hc

theorem Readable.closed_tail (hf : Readable f close) (xs : List α) :
    Closed (tailText f xs ++ close :: r) := by
  cases xs with
  | nil => exact closed_cons hf.closed
  | cons x xs => exact closed_cons rfl

theorem Readable.tailText_append (hf : Readable f close)
    (h : tailText f xs ++ close :: r = tailText f ys ++ close :: t) : xs = ys ∧ r = t := by
  induction xs generalizing ys with
  | nil =>
    cases ys with
    | nil => exact ⟨rfl, (List.cons.inj h).2⟩
    | cons y ys => exact absurd (List.cons.inj h).1 hf.close_ne
  | cons x xs ih =>
    cases ys with
    | nil => exact absurd (List.cons.inj h).1.symm hf.close_ne
    | cons y ys =>
      simp only [tailText, List.flatMap_cons, List.cons_append, List.append_assoc, List.cons.injEq,
        true_and] at h
      obtain ⟨rfl, htail⟩ := hf.append (hf.closed_tail xs) (hf.closed_tail ys) h
      obtain ⟨rfl, hrest⟩ := ih htail
      exact ⟨rfl, hrest⟩

theorem Readable.joined_append (hf : Readable f close)
    (h : joined f xs ++ close :: r = joined f ys ++ close :: t) : xs = ys ∧ r = t := by
  cases xs with
  | nil =>
    cases ys with
    | nil => exact ⟨rfl, (List.cons.inj h).2⟩
    | cons y ys =>
      rw [joined, joined, List.append_assoc] at h
      exact absurd h.symm hf.ne_close
  | cons x xs =>
    cases ys with
    | nil =>
      rw [joined, joined, List.append_assoc] at h
      exact absurd h hf.ne_close
    | cons y ys =>
      rw [joined, joined, List.append_assoc, List.append_assoc] at h
      obtain ⟨rfl, htail⟩ := hf.append (hf.closed_tail xs) (hf.closed_tail ys) h
      obtain ⟨rfl, hrest⟩ := hf.tailText_append htail
      exact ⟨rfl, hrest⟩

end Sequences

inductive Value where
  | scalar (x : Scalar)
  | array (xs : List Scalar)
deriving DecidableEq

section Objects

variable {v w : Value} {r t : List Char}

def Value.text : Value → List Char
  | .scalar x => x.text
  | .array xs => '\x5b' :: (joined Scalar.text xs ++ ['\x5d'])

def fieldText (p : String × Value) : List Char := quote p.1 ++ ':' :: p.2.text

/-- The fields in the order of their keys. -/
def sorted (fields : List (String × Value)) : List (String × Value) :=
  fields.insertionSort fun p q => p.1 ≤ q.1

def dumps (fields : List (String × Value)) : String :=
  String.ofList ('\x7b' :: (joined fieldText (sorted fields) ++ ['\x7d']))

theorem Scalar.text_ne_bracket (x : Scalar) {c : Char} (hc : isTokenChar c = false)
    (hq : c ≠ quotation) : x.text ++ r ≠ c :: t := by
  intro h
  by_cases hx : ∃ s, x = .str s
  · obtain ⟨s, rfl⟩ := hx
    exact hq (List.cons.inj h).1.symm
  · exact token_ne (fun s h' => hx ⟨s, h'⟩) hc h

theorem readable_scalar : Readable Scalar.text '\x5d' where
  append := Scalar.text_append
  ne_close := Scalar.text_ne_bracket _ rfl (by decide)
  closed := rfl
  close_ne := by decide

/-- A value before a closed rest is read back. -/
theorem Value.text_append (hr : Closed r) (ht : Closed t) (h : v.text ++ r = w.text ++ t) :
    v = w ∧ r = t := by
  cases v with
  | scalar x =>
    cases w with
    | scalar y =>
      obtain ⟨rfl, hrest⟩ := Scalar.text_append hr ht h
      exact ⟨rfl, hrest⟩
    | array ys => exact absurd h (Scalar.text_ne_bracket x rfl (by decide))
  | array xs =>
    cases w with
    | scalar y => exact absurd h.symm (Scalar.text_ne_bracket y rfl (by decide))
    | array ys =>
      simp only [Value.text, List.cons_append, List.append_assoc, List.nil_append, List.cons.injEq,
        true_and] at h
      obtain ⟨rfl, hrest⟩ := readable_scalar.joined_append h
      exact ⟨rfl, hrest⟩

end Objects

end YtdlBot.Framework.Json
