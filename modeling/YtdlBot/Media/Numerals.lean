import YtdlBot.Media.Times

/-!
# What `float` reads

The grammar of `float`, each part of it as what is written, and the reader of that part. The texts
that it reads as finite numbers are the numerals, with spaces around them and underscores between
their digits.
-/

namespace YtdlBot.Media.Times

open Framework.Doubles Framework.Percent Transport

section Grammar

inductive Sign where
  | none
  | plus
  | minus

def Sign.write : Sign → List Char
  | none => []
  | plus => ['+']
  | minus => ['-']

def Sign.negative : Sign → Bool
  | minus => true
  | _ => false

structure Exponent where
  letter : Char
  sign : Sign
  digits : List Char
  isLetter : letter = 'e' ∨ letter = 'E'
  isDigits : digits.all Char.isDigit = true
  nonempty : digits ≠ []

def Exponent.write (e : Exponent) : List Char := e.letter :: (e.sign.write ++ e.digits)

def Exponent.value (e : Exponent) : ℤ :=
  if e.sign.negative then -digitsValue e.digits else digitsValue e.digits

/-- A number without a sign. `fraction` is what comes after the point, where there is one. -/
structure Numeral where
  whole : List Char
  fraction : Option (List Char)
  exponent : Option Exponent
  isDigits : (whole ++ fraction.getD []).all Char.isDigit = true
  nonempty : whole ++ fraction.getD [] ≠ []

def writeFraction : Option (List Char) → List Char
  | none => []
  | some digits => '.' :: digits

def writeExponent : Option Exponent → List Char
  | none => []
  | some e => e.write

def exponentValue : Option Exponent → ℤ
  | none => 0
  | some e => e.value

def Numeral.write (n : Numeral) : List Char :=
  n.whole ++ (writeFraction n.fraction ++ writeExponent n.exponent)

def Numeral.value (n : Numeral) : ℚ :=
  digitsValue (n.whole ++ n.fraction.getD []) *
    (10 : ℚ) ^ (exponentValue n.exponent - (n.fraction.getD []).length : ℤ)

/-- `body` is `text` without the spaces around it. -/
def Surrounds (text body : List Char) : Prop :=
  ∃ left right, text = left ++ (body ++ right) ∧ left.all isAsciiSpace = true ∧
    right.all isAsciiSpace = true ∧ (∀ c ∈ body.head?, isAsciiSpace c = false) ∧
    ∀ c ∈ body.getLast?, isAsciiSpace c = false

/-- Every underscore stands between two digits. -/
def Underscored (body : List Char) : Prop :=
  ∀ before after, body = before ++ '_' :: after →
    (∃ c ∈ before.getLast?, c.isDigit = true) ∧ ∃ c ∈ after.head?, c.isDigit = true

end Grammar

section Parts

variable {text digits : List Char}

/-- No sign begins the text. -/
def Unsigned (text : List Char) : Prop := ∀ c ∈ text.head?, c ≠ '+' ∧ c ≠ '-'

theorem splitSign_unsigned (h : Unsigned text) : splitSign text = (false, text) := by
  unfold splitSign
  split
  · exact absurd rfl (h '+' rfl).1
  · exact absurd rfl (h '-' rfl).2
  · rfl

theorem splitSign_write (s : Sign) (h : Unsigned text) :
    splitSign (s.write ++ text) = (s.negative, text) := by
  cases s with
  | none => exact splitSign_unsigned h
  | plus => rfl
  | minus => rfl

theorem exists_sign (text : List Char) :
    ∃ (s : Sign) (rest : List Char), text = s.write ++ rest ∧
      splitSign text = (s.negative, rest) := by
  unfold splitSign
  split
  · exact ⟨.plus, _, rfl, rfl⟩
  · exact ⟨.minus, _, rfl, rfl⟩
  · exact ⟨.none, _, rfl, rfl⟩

theorem unsigned_digits (rest : List Char) (h : digits.all Char.isDigit = true) (hne : digits ≠ []) :
    Unsigned (digits ++ rest) := by
  obtain ⟨c, digits, rfl⟩ := List.exists_cons_of_ne_nil hne
  intro d hd
  obtain rfl : c = d := Option.some.inj hd
  have hc := List.all_eq_true.mp h c List.mem_cons_self
  constructor
  · rintro rfl
    exact absurd hc (by decide)
  · rintro rfl
    exact absurd hc (by decide)

theorem scientific_write (e : Option Exponent) :
    scientific (writeExponent e) = some (exponentValue e) := by
  cases e with
  | none => rfl
  | some e =>
    have hunsigned : Unsigned e.digits := by
      have h := unsigned_digits [] e.isDigits e.nonempty
      rwa [List.append_nil] at h
    rw [writeExponent, Exponent.write, scientific, splitSign_write e.sign hunsigned]
    exact if_pos ⟨e.isLetter, e.nonempty, e.isDigits⟩

theorem scientific_eq_some {e : ℤ} :
    scientific text = some e ↔ ∃ x, text = writeExponent x ∧ exponentValue x = e := by
  constructor
  · intro h
    cases text with
    | nil => exact ⟨none, rfl, Option.some.inj h⟩
    | cons c rest =>
      obtain ⟨s, digits, rfl, hsplit⟩ := exists_sign rest
      rw [scientific, hsplit] at h
      dsimp only at h
      by_cases hexponent : (c = 'e' ∨ c = 'E') ∧ digits ≠ [] ∧ digits.all Char.isDigit = true
      · obtain ⟨hletter, hne, hdigits⟩ := hexponent
        rw [if_pos ⟨hletter, hne, hdigits⟩] at h
        exact ⟨some ⟨c, s, digits, hletter, hdigits, hne⟩, rfl, Option.some.inj h⟩
      · rw [if_neg hexponent] at h
        cases h
  · rintro ⟨x, rfl, rfl⟩
    exact scientific_write x

/-- No digit and no point begins the text. -/
def Stops (text : List Char) : Prop := ∀ c ∈ text.head?, c.isDigit = false ∧ c ≠ '.'

theorem stops_exponent (e : Option Exponent) : Stops (writeExponent e) := by
  cases e with
  | none => simp [Stops, writeExponent]
  | some e =>
    intro c hc
    obtain rfl : e.letter = c := Option.some.inj hc
    rcases e.isLetter with h | h
    · simp [h]
    · simp [h]

theorem takeWhile_digits (rest : List Char) (h : digits.all Char.isDigit = true)
    (hrest : ∀ c ∈ rest.head?, c.isDigit = false) :
    (digits ++ rest).takeWhile Char.isDigit = digits ∧
      (digits ++ rest).dropWhile Char.isDigit = rest := by
  have hall := List.all_eq_true.mp h
  rw [List.takeWhile_append_of_pos hall, List.dropWhile_append_of_pos hall]
  cases rest with
  | nil => simp
  | cons c rest =>
    have hc := hrest c rfl
    simp [hc]

theorem splitPoint_write {whole rest : List Char} {fraction : Option (List Char)}
    (h : (whole ++ fraction.getD []).all Char.isDigit = true) (hrest : Stops rest) :
    splitPoint (whole ++ (writeFraction fraction ++ rest)) = (whole, fraction.getD [], rest) := by
  rw [List.all_append, Bool.and_eq_true] at h
  obtain ⟨hwhole, hfraction⟩ := h
  cases fraction with
  | none =>
    obtain ⟨htake, hdrop⟩ := takeWhile_digits rest hwhole fun c hc => (hrest c hc).1
    rw [writeFraction, List.nil_append, splitPoint, htake, hdrop]
    split
    · next rest' => exact absurd rfl (hrest '.' rfl).2
    · rfl
  | some fraction =>
    obtain ⟨htake, hdrop⟩ := takeWhile_digits ('.' :: (fraction ++ rest)) hwhole (by simp)
    obtain ⟨htake', hdrop'⟩ := takeWhile_digits rest hfraction fun c hc => (hrest c hc).1
    rw [Option.getD_some] at htake' hdrop'
    rw [writeFraction, List.cons_append, splitPoint, htake, hdrop]
    show (whole, (fraction ++ rest).takeWhile Char.isDigit,
      (fraction ++ rest).dropWhile Char.isDigit) = _
    rw [htake', hdrop', Option.getD_some]

theorem exists_fraction (text : List Char) : ∃ whole fraction rest,
    text = whole ++ (writeFraction fraction ++ rest) ∧
      (whole ++ fraction.getD []).all Char.isDigit = true ∧
      splitPoint text = (whole, fraction.getD [], rest) := by
  have hsplit := List.takeWhile_append_dropWhile (p := Char.isDigit) (l := text)
  unfold splitPoint
  split
  · next rest hrest =>
    refine ⟨text.takeWhile Char.isDigit, some (rest.takeWhile Char.isDigit),
      rest.dropWhile Char.isDigit, ?_, by simp, rfl⟩
    rw [writeFraction, List.cons_append, List.takeWhile_append_dropWhile, ← hrest, hsplit]
  · exact ⟨text.takeWhile Char.isDigit, none, text.dropWhile Char.isDigit, hsplit.symm, by simp, rfl⟩

theorem decimal_eq_some {negative : Bool} {d : Double} :
    decimal negative text = some d ↔
      ∃ n : Numeral, text = n.write ∧ d = .ofRat (signed negative n.value) := by
  constructor
  · intro h
    obtain ⟨whole, fraction, rest, htext, hdigits, hsplit⟩ := exists_fraction text
    rw [decimal, hsplit] at h
    dsimp only at h
    split at h
    · cases h
    · next hne =>
      obtain ⟨e, hscientific, rfl⟩ := Option.map_eq_some_iff.mp h
      obtain ⟨x, rfl, rfl⟩ := scientific_eq_some.mp hscientific
      exact ⟨⟨whole, fraction, x, hdigits, hne⟩, htext, rfl⟩
  · rintro ⟨n, rfl, rfl⟩
    rw [decimal, Numeral.write, splitPoint_write n.isDigits (stops_exponent n.exponent)]
    dsimp only
    rw [if_neg n.nonempty, scientific_write]
    rfl

end Parts

section Spaces

variable {text body : List Char}

theorem dropWhile_space (h : ∀ c ∈ body.head?, isAsciiSpace c = false) :
    body.dropWhile isAsciiSpace = body := by
  cases body with
  | nil => rfl
  | cons c body => rw [List.dropWhile_cons_of_neg (by simp [h c rfl])]

theorem head_dropWhile_space (text : List Char) :
    ∀ c ∈ (text.dropWhile isAsciiSpace).head?, isAsciiSpace c = false := by
  intro c hc
  have h := List.head?_dropWhile_not isAsciiSpace text
  rwa [Option.mem_def.mp hc] at h

theorem surrounds_strip (text : List Char) : Surrounds text (stripAscii text) := by
  have hleft := List.takeWhile_append_dropWhile (p := isAsciiSpace) (l := text)
  have hhead := head_dropWhile_space text
  generalize hrest : text.dropWhile isAsciiSpace = rest at hleft hhead
  have hright := congrArg List.reverse
    (List.takeWhile_append_dropWhile (p := isAsciiSpace) (l := rest.reverse))
  rw [List.reverse_append, List.reverse_reverse] at hright
  refine ⟨text.takeWhile isAsciiSpace, (rest.reverse.takeWhile isAsciiSpace).reverse, ?_, by simp,
    by simp, ?_, ?_⟩
  · rw [stripAscii, hrest, hright, hleft]
  · intro c hc
    refine hhead c ?_
    rw [stripAscii, hrest] at hc
    rw [← hright, List.head?_append, Option.mem_def.mp hc]
    rfl
  · intro c hc
    rw [stripAscii, List.getLast?_reverse] at hc
    exact head_dropWhile_space _ c hc

theorem strip_eq (h : Surrounds text body) : stripAscii text = body := by
  obtain ⟨left, right, rfl, hleft, hright, hhead, hlast⟩ := h
  rw [stripAscii, List.dropWhile_append_of_pos (List.all_eq_true.mp hleft)]
  cases body with
  | nil =>
    have hempty : right.dropWhile isAsciiSpace = [] := by simpa using hright
    simp [hempty]
  | cons c body =>
    have hspaces : ∀ d ∈ right.reverse, isAsciiSpace d = true :=
      fun d hd => List.all_eq_true.mp hright d (List.mem_reverse.mp hd)
    have hfront : (c :: body ++ right).dropWhile isAsciiSpace = c :: body ++ right :=
      dropWhile_space hhead
    have hback : (c :: body).reverse.dropWhile isAsciiSpace = (c :: body).reverse :=
      dropWhile_space (by rwa [List.head?_reverse])
    rw [hfront, List.reverse_append, List.dropWhile_append_of_pos hspaces, hback,
      List.reverse_reverse]

end Spaces

section Underscores

theorem isDigit_underscore : '_'.isDigit = false := by decide

theorem underscoresValid_iff {body : List Char} {previous : Char} :
    underscoresValid previous body = true ↔
      (previous = '_' → ∃ c ∈ body.head?, c.isDigit = true) ∧
      ∀ before after, body = before ++ '_' :: after →
        (∃ c ∈ (previous :: before).getLast?, c.isDigit = true) ∧
          ∃ c ∈ after.head?, c.isDigit = true := by
  induction body generalizing previous with
  | nil => simp [underscoresValid]
  | cons c rest ih =>
    -- an underscore of the text is its first character or is behind it
    have hsplit : (∀ before after, c :: rest = before ++ '_' :: after →
        (∃ d ∈ (previous :: before).getLast?, d.isDigit = true) ∧
          ∃ d ∈ after.head?, d.isDigit = true) ↔
        (c = '_' → previous.isDigit = true ∧ ∃ d ∈ rest.head?, d.isDigit = true) ∧
        ∀ before after, rest = before ++ '_' :: after →
          (∃ d ∈ (c :: before).getLast?, d.isDigit = true) ∧
            ∃ d ∈ after.head?, d.isDigit = true := by
      constructor
      · intro h
        refine ⟨?_, fun before after hrest => ?_⟩
        · rintro rfl
          obtain ⟨⟨d, hd, hdigit⟩, hafter⟩ := h [] rest rfl
          obtain rfl : previous = d := Option.some.inj hd
          exact ⟨hdigit, hafter⟩
        · have hlater := h (c :: before) after (by rw [hrest, List.cons_append])
          rwa [List.getLast?_cons_cons] at hlater
      · rintro ⟨hfirst, hlater⟩ before after h
        cases before with
        | nil =>
          obtain ⟨rfl, rfl⟩ := List.cons.inj h
          exact ⟨⟨previous, rfl, (hfirst rfl).1⟩, (hfirst rfl).2⟩
        | cons d before =>
          obtain ⟨rfl, hrest⟩ := List.cons.inj h
          rw [List.getLast?_cons_cons]
          exact hlater before after hrest
    rw [hsplit, underscoresValid, Bool.and_eq_true, ih]
    by_cases hc : c = '_'
    · subst hc
      have hprevious : previous.isDigit = true → previous ≠ '_' := by
        rintro hdigit rfl
        exact absurd hdigit (by decide)
      simp [isDigit_underscore]
      tauto
    · simp [hc]
      tauto

theorem underscoresValid_start {body : List Char} :
    underscoresValid '\x00' body = true ↔ Underscored body := by
  have hlast : ∀ before : List Char, (∃ c ∈ ('\x00' :: before).getLast?, c.isDigit = true) ↔
      ∃ c ∈ before.getLast?, c.isDigit = true := by
    intro before
    cases before with
    | nil => simp
    | cons c before => rw [List.getLast?_cons_cons]
  have hzero : ¬ '\x00' = '_' := by decide
  simp only [underscoresValid_iff, hzero, false_imp_iff, true_and, hlast, Underscored]

end Underscores

section Reading

variable {text value : List Char} {q : ℚ}

theorem Numeral.write_head (n : Numeral) : ∃ c rest, n.write = c :: rest ∧
    (c.isDigit = true ∨ c = '.') := by
  have hdigits := n.isDigits
  unfold Numeral.write
  cases hwhole : n.whole with
  | cons c whole =>
    rw [hwhole] at hdigits
    exact ⟨c, _, rfl, .inl (List.all_eq_true.mp hdigits c List.mem_cons_self)⟩
  | nil =>
    cases hfraction : n.fraction with
    | none => exact absurd (by simp [hwhole, hfraction]) n.nonempty
    | some fraction => exact ⟨'.', _, rfl, .inr rfl⟩

theorem Numeral.unsigned_write (n : Numeral) : Unsigned n.write := by
  obtain ⟨c, rest, hwrite, hc⟩ := n.write_head
  intro d hd
  rw [hwrite] at hd
  obtain rfl : c = d := Option.some.inj hd
  rcases hc with hc | rfl
  · constructor
    · rintro rfl
      exact absurd hc (by decide)
    · rintro rfl
      exact absurd hc (by decide)
  · decide

theorem Numeral.write_not_word (n : Numeral) {word : List Char} (first : Char)
    (hword : word.head? = some first) (hletter : ¬ Plain first) :
    n.write.map Char.toLower ≠ word := by
  obtain ⟨c, rest, hwrite, hc⟩ := n.write_head
  have hplain : Plain c := hc.imp_right .inl
  rintro rfl
  rw [hwrite, List.map_cons, List.head?_cons, toLower_plain hplain, Option.some.injEq] at hword
  exact hletter (hword ▸ hplain)

theorem number_eq_finite : number text = some (.finite q) ↔
    ∃ (s : Sign) (n : Numeral), text = s.write ++ n.write ∧
      Double.ofRat (signed s.negative n.value) = .finite q := by
  constructor
  · intro h
    obtain ⟨s, rest, rfl, hsplit⟩ := exists_sign text
    rw [number, hsplit] at h
    dsimp only at h
    split_ifs at h with hinfinite hnan
    · cases h
    · cases h
    · obtain ⟨n, rfl, hvalue⟩ := decimal_eq_some.mp h
      exact ⟨s, n, rfl, hvalue.symm⟩
  · rintro ⟨s, n, rfl, hvalue⟩
    have hinfinite : ¬ (n.write.map Char.toLower = "inf".toList ∨
        n.write.map Char.toLower = "infinity".toList) := by
      rintro (hword | hword)
      · exact n.write_not_word 'i' rfl (by simp [Plain]) hword
      · exact n.write_not_word 'i' rfl (by simp [Plain]) hword
    have hnan : n.write.map Char.toLower ≠ "nan".toList :=
      n.write_not_word 'n' rfl (by simp [Plain])
    rw [number, splitSign_write s n.unsigned_write]
    dsimp only
    rw [if_neg hinfinite, if_neg hnan]
    exact decimal_eq_some.mpr ⟨n, rfl, hvalue.symm⟩

/-- `float` reads a numeral with an optional sign, spaces around it and underscores between its
digits, and rounds it. -/
theorem float_eq_finite : float value = some (.finite q) ↔
    ∃ (body : List Char) (s : Sign) (n : Numeral), Surrounds (value.map ascii) body ∧
      Underscored body ∧ body.filter (· ≠ '_') = s.write ++ n.write ∧
      Double.ofRat (signed s.negative n.value) = .finite q := by
  constructor
  · intro h
    rw [float] at h
    split at h
    · next hvalid =>
      obtain ⟨s, n, hwrite, hvalue⟩ := number_eq_finite.mp h
      exact ⟨_, s, n, surrounds_strip _, underscoresValid_start.mp hvalid, hwrite, hvalue⟩
    · cases h
  · rintro ⟨body, s, n, hsurrounds, hunderscored, hwrite, hvalue⟩
    rw [float, strip_eq hsurrounds, if_pos (underscoresValid_start.mpr hunderscored)]
    exact number_eq_finite.mpr ⟨s, n, hwrite, hvalue⟩

/-- What a clip time reads as, by the grammar of `float` and by the groups. -/
theorem reads_iff : Reads value q ↔
    (∃ (body : List Char) (s : Sign) (n : Numeral), Surrounds (value.map ascii) body ∧
      Underscored body ∧ body.filter (· ≠ '_') = s.write ++ n.write ∧
      Double.ofRat (signed s.negative n.value) = .finite q) ∧ 0 ≤ q ∨
    ∃ groups, value.map lowerChar = write groups ∧ sum (.finite 0) groups = .finite q ∧ 0 < q := by
  rw [Reads, float_eq_finite]

end Reading

end YtdlBot.Media.Times
