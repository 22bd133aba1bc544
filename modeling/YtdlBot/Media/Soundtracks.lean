import YtdlBot.Media.YtDlp

/-!
# Soundtracks

Where the candidates of yt-dlp take their sound from: the requested language, or the original track
on YouTube. A video with a sound of its own passes as its own choice where it is equal to a chosen
format, so equality keeps what the choice looks at.
-/

namespace YtdlBot.Media.YtDlp

open Framework Framework.Doubles Framework.Urls
open Gallery (GalleryError get)
open MediaCache (MediaRequest)

section Equality

variable {repr : Value → String} {U : Unicode} {fields others : Format} {name : String}
  {value other : Value}

theorem equalFields_lookup (h : equalFields fields others = true)
    (hvalue : fields.lookup name = some value) :
    ∃ other, others.lookup name = some other ∧ equal value other = true := by
  induction fields with
  | nil => simp at hvalue
  | cons field fields ih =>
    obtain ⟨name', value'⟩ := field
    rw [equalFields, Bool.and_eq_true] at h
    rw [List.lookup_cons] at hvalue
    by_cases hname : name = name'
    · subst hname
      simp only [beq_self_eq_true, Option.some.injEq] at hvalue
      subst hvalue
      cases hother : others.lookup name with
      | none => simp [hother] at h
      | some other => exact ⟨other, rfl, by simpa [hother] using h.1⟩
    · simp only [beq_eq_false_iff_ne.mpr hname] at hvalue
      exact ih h.2 hvalue

theorem equal_cases (h : equal value other = true) :
    (value = .null ∧ other = .null) ∨ (∃ text, value = .str text ∧ other = .str text) ∨
    (∃ as bs, value = .array as ∧ other = .array bs ∧ equalAll as bs = true) ∨
    (∃ fields others, value = .object fields ∧ other = .object others ∧
      fields.length = others.length ∧ equalFields fields others = true) ∨
    ∃ d, numeric value = some d ∧ numeric other = some d := by
  cases value <;> cases other <;> simp_all [equal, numeric]

theorem equal_str {text : String} (h : equal (.str text) other = true) : other = .str text := by
  cases other <;> simp_all [equal, numeric]

theorem truthy_of_numeric {d : Double} (h : numeric value = some d) :
    truthy value = decide (d ≠ .finite 0) := by
  cases value with
  | bool b =>
    obtain rfl := Option.some.inj h
    cases b <;> simp [truthy]
  | int n =>
    obtain rfl := Option.some.inj h
    simp [truthy]
  | float x =>
    obtain rfl := Option.some.inj h
    simp [truthy]
  | null => simp [numeric] at h
  | str text => simp [numeric] at h
  | array values => simp [numeric] at h
  | object fields => simp [numeric] at h

theorem equal_truthy (h : equal value other = true) : truthy other = truthy value := by
  rcases equal_cases h with ⟨rfl, rfl⟩ | ⟨text, rfl, rfl⟩ | ⟨as, bs, rfl, rfl, hall⟩ |
    ⟨fields, others, rfl, rfl, hlength, -⟩ | ⟨d, hvalue, hother⟩
  · rfl
  · rfl
  · cases as <;> cases bs <;> simp_all [equalAll, truthy]
  · cases fields <;> cases others <;> simp_all [truthy]
  · rw [truthy_of_numeric hvalue, truthy_of_numeric hother]

theorem equal_isText {text : String} (h : equal value other = true) :
    isText other text = isText value text := by
  rcases equal_cases h with ⟨rfl, rfl⟩ | ⟨text, rfl, rfl⟩ | ⟨as, bs, rfl, rfl, -⟩ |
    ⟨fields, others, rfl, rfl, -⟩ | ⟨d, hvalue, hother⟩
  · rfl
  · rfl
  · rfl
  · rfl
  · cases value <;> cases other <;> simp_all [numeric, isText]

theorem equalFields_get (name : String) (h : equalFields fields others = true) :
    get fields name = .null ∨ equal (get fields name) (get others name) = true := by
  cases hvalue : fields.lookup name with
  | none => simp [Gallery.get, hvalue]
  | some value =>
    obtain ⟨other, hother, hequal⟩ := equalFields_lookup h hvalue
    right
    simpa [Gallery.get, hvalue, hother] using hequal

theorem equalFields_codec (h : equalFields fields others = true)
    (hcodec : (codec repr fields name).isSome) : (codec repr others name).isSome := by
  simp only [codec, Option.isSome_ite] at hcodec ⊢
  rcases equalFields_get name h with hnull | hequal
  · simp [hnull, truthy] at hcodec
  · rwa [equal_truthy hequal, equal_isText hequal]

theorem anyField_of_mem (hmem : (name, value) ∈ fields)
    (hmention : (U.lower name.toList).tails.any ("original".toList.isPrefixOf ·) = true ∨
      mentionsOriginal U value = true) : mentionsOriginal.anyField U fields = true := by
  induction fields with
  | nil => simp at hmem
  | cons field fields ih =>
    rw [mentionsOriginal.anyField, Bool.or_eq_true, Bool.or_eq_true]
    rcases List.mem_cons.mp hmem with rfl | hrest
    · exact .inl hmention
    · exact .inr (ih hrest)

mutual

theorem mentionsOriginal_of_equal : ∀ value other, equal value other = true →
    mentionsOriginal U value = true → mentionsOriginal U other = true
  | .str text, other, h, hmention => equal_str h ▸ hmention
  | .array as, .array bs, h, hmention =>
    mentionsOriginal_of_equalAll as bs (by simpa [equal] using h) hmention
  | .object fields, .object others, h, hmention =>
    mentionsOriginal_of_equalFields fields others (by simp_all [equal]) hmention

theorem mentionsOriginal_of_equalAll : ∀ as bs, equalAll as bs = true →
    mentionsOriginal.any U as = true → mentionsOriginal.any U bs = true
  | a :: as, b :: bs, h, hmention => by
    rw [equalAll, Bool.and_eq_true] at h
    rw [mentionsOriginal.any, Bool.or_eq_true] at hmention ⊢
    rcases hmention with hfirst | hrest
    · exact .inl (mentionsOriginal_of_equal a b h.1 hfirst)
    · exact .inr (mentionsOriginal_of_equalAll as bs h.2 hrest)

theorem mentionsOriginal_of_equalFields : ∀ fields others, equalFields fields others = true →
    mentionsOriginal.anyField U fields = true → mentionsOriginal.anyField U others = true
  | (name, value) :: fields, others, h, hmention => by
    rw [equalFields, Bool.and_eq_true] at h
    rw [mentionsOriginal.anyField, Bool.or_eq_true, Bool.or_eq_true] at hmention
    rcases hmention with hfirst | hrest
    · cases hother : others.lookup name with
      | none => simp [hother] at h
      | some other =>
        have hequal : equal value other = true := by simpa [hother] using h.1
        have hmem : (name, other) ∈ others := by
          obtain ⟨before, after, rfl, -⟩ := List.lookup_eq_some_iff.mp hother
          simp
        exact anyField_of_mem hmem (hfirst.imp id (mentionsOriginal_of_equal value other hequal))
    · exact mentionsOriginal_of_equalFields fields others h.2 hrest

end

end Equality

section Originals

variable {repr : Value → String} {U : Unicode} {fields others fmt : Format} {value other : Value}

theorem atLeastTen_number {d : Double} {found : Option Double} (hnumeric : numeric value = some d)
    (hnumber : number value = .ok found) : atLeastTen found = atLeastTen (some d) := by
  cases value with
  | bool b =>
    obtain rfl := Except.ok.inj hnumber
    rw [hnumeric.symm]
    rfl
  | int n =>
    obtain rfl := Option.some.inj hnumeric
    cases hr : toDouble (n : ℚ) with
    | none => simp [number, hr] at hnumber
    | some r =>
      simp only [number, hr, Except.ok.injEq] at hnumber
      subst hnumber
      have hten : ((10 : ℕ) : ℚ) ≤ r ↔ ((10 : ℕ) : ℤ) ≤ n :=
        le_toDouble_iff (by decide) (by norm_num) hr
      have hless : r < 10 ↔ (n : ℚ) < 10 := by
        rw [← not_le, ← not_le]
        exact not_congr (by exact_mod_cast hten)
      simp [atLeastTen, less, hless]
  | float x =>
    obtain rfl := Except.ok.inj hnumber
    rw [hnumeric.symm]
    rfl
  | null => simp [numeric] at hnumeric
  | str text => simp [numeric] at hnumeric
  | array values => simp [numeric] at hnumeric
  | object fields => simp [numeric] at hnumeric

theorem equal_atLeastTen {found found' : Option Double} (h : equal value other = true)
    (hvalue : number value = .ok found) (hother : number other = .ok found')
    (hten : atLeastTen found = true) : atLeastTen found' = true := by
  rcases equal_cases h with ⟨rfl, rfl⟩ | ⟨text, rfl, rfl⟩ | ⟨as, bs, rfl, rfl, -⟩ |
    ⟨fields, others, rfl, rfl, -⟩ | ⟨d, hd, hd'⟩
  · cases hvalue.symm.trans hother
    exact hten
  · cases hvalue.symm.trans hother
    exact hten
  · cases hvalue
    simp [atLeastTen, less] at hten
  · cases hvalue
    simp [atLeastTen, less] at hten
  · rw [atLeastTen_number hd' hother, ← atLeastTen_number hd hvalue]
    exact hten

theorem isOriginal_of_equal {marked : Bool} (h : equalFields fields others = true)
    (hfields : isOriginal U fields = .ok true) (hothers : isOriginal U others = .ok marked) :
    marked = true := by
  obtain ⟨found, hfound, hmark⟩ := bind_eq_ok hfields
  obtain ⟨found', hfound', hmark'⟩ := bind_eq_ok hothers
  obtain rfl := Except.ok.inj hmark'
  have hmark := Except.ok.inj hmark
  rw [Bool.or_eq_true] at hmark ⊢
  rcases hmark with hten | hmention
  · rcases equalFields_get "language_preference" h with hnull | hequal
    · rw [hnull] at hfound
      cases hfound
      simp [atLeastTen, less] at hten
    · exact .inl (equal_atLeastTen hequal hfound hfound' hten)
  · rcases equalFields_get "format_note" h with hnull | hequal
    · simp [hnull, mentionsOriginal] at hmention
    · exact .inr (mentionsOriginal_of_equal _ _ hequal hmention)

end Originals

section Selection

variable {repr : Value → String} {U : Unicode} {request : MediaRequest} {info fmt video : Format}
  {found audio : List Format}

/-- A format that is listed in the extraction. -/
def Entry (info fmt : Format) : Prop :=
  ∃ values, info.lookup "formats" = some (.array values) ∧ .object fmt ∈ values

/-- A format over HTTP; an extraction that lists none is one itself. -/
def HttpFormat (info fmt : Format) : Prop :=
  downloadable fmt = .ok true ∧
    (Entry info fmt ∨ fmt = info ∧ ∀ other, Entry info other → downloadable other ≠ .ok true)

/-- The language that is requested, or the original track on YouTube if it can be told. -/
structure Chosen (repr : Value → String) (U : Unicode) (request : MediaRequest)
    (Offered : Format → Prop) (fmt : Format) : Prop where
  language : ∀ language, given request.audioLanguage = some language →
    get fmt "language" = .str language
  original : request.platform = "youtube" → given request.audioLanguage = none →
    (∃ other, Offered other ∧ (codec repr other "acodec").isSome ∧
      isOriginal U other = .ok true) → isOriginal U fmt = .ok true

theorem mem_keep {α ε : Type} {test : α → Except ε Bool} {xs ys : List α}
    (h : keep test xs = .ok ys) (y : α) : y ∈ ys ↔ y ∈ xs ∧ test y = .ok true := by
  induction xs generalizing ys with
  | nil =>
    obtain rfl := Except.ok.inj h
    simp
  | cons x xs ih =>
    obtain ⟨kept, hkept, h⟩ := bind_eq_ok h
    obtain ⟨rest, hrest, h⟩ := bind_eq_ok h
    obtain rfl := Except.ok.inj h
    cases kept with
    | true =>
      simp only [if_true, List.mem_cons, ih hrest]
      constructor
      · rintro (rfl | hy)
        · exact ⟨.inl rfl, hkept⟩
        · exact ⟨.inr hy.1, hy.2⟩
      · rintro ⟨rfl | hy, htest⟩
        · exact .inl rfl
        · exact .inr ⟨hy, htest⟩
    | false =>
      simp only [Bool.false_eq_true, if_false, List.mem_cons, ih hrest]
      constructor
      · exact fun hy => ⟨.inr hy.1, hy.2⟩
      · rintro ⟨rfl | hy, htest⟩
        · simp [hkept] at htest
        · exact ⟨hy, htest⟩

theorem keep_total {α ε : Type} {test : α → Except ε Bool} {xs ys : List α}
    (h : keep test xs = .ok ys) {x : α} (hx : x ∈ xs) : ∃ kept, test x = .ok kept := by
  induction xs generalizing ys with
  | nil => simp at hx
  | cons y xs ih =>
    obtain ⟨kept, hkept, h⟩ := bind_eq_ok h
    obtain ⟨rest, hrest, -⟩ := bind_eq_ok h
    rcases List.mem_cons.mp hx with rfl | hmem
    · exact ⟨kept, hkept⟩
    · exact ih hrest hmem

theorem mem_entries (h : entries info = .ok found) : fmt ∈ found ↔ Entry info fmt := by
  unfold entries at h
  split at h
  · rename_i hlookup
    obtain rfl := Except.ok.inj h
    simp [Entry, hlookup]
  · rename_i hlookup
    obtain rfl := Except.ok.inj h
    simp [Entry, hlookup]
  · rename_i hlookup
    obtain rfl := Except.ok.inj h
    simp [Entry, hlookup]
  · rename_i values hlookup
    have hentry : Entry info fmt ↔ .object fmt ∈ values := by simp [Entry, hlookup]
    rw [hentry]
    constructor
    · intro hmem
      obtain ⟨value, hvalue, hdictionary⟩ := mem_of_mapM_eq_ok h hmem
      cases value <;> simp_all [dictionary]
    · intro hmem
      obtain ⟨other, hother, hdictionary⟩ := mapM_value_of_mem h hmem
      exact Except.ok.inj hdictionary ▸ hother
  · cases h

theorem mem_formats (h : formats info = .ok found) : fmt ∈ found ↔ HttpFormat info fmt := by
  obtain ⟨listed, hlisted, h⟩ := bind_eq_ok h
  obtain ⟨http, hhttp, h⟩ := bind_eq_ok h
  split_ifs at h with hsome
  · obtain rfl := Except.ok.inj h
    rw [mem_keep hhttp, mem_entries hlisted]
    obtain ⟨first, hfirst⟩ := List.exists_mem_of_ne_nil _ hsome
    rw [mem_keep hhttp, mem_entries hlisted] at hfirst
    constructor
    · exact fun hfmt => ⟨hfmt.2, .inl hfmt.1⟩
    · rintro ⟨hdownloadable, hentry | ⟨-, hnone⟩⟩
      · exact ⟨hentry, hdownloadable⟩
      · exact absurd hfirst.2 (hnone first hfirst.1)
  · rw [mem_keep h, List.mem_singleton]
    have hnone : ∀ other, Entry info other → downloadable other ≠ .ok true := by
      intro other hentry hdownloadable
      have hmem := (mem_keep hhttp other).mpr ⟨(mem_entries hlisted).mpr hentry, hdownloadable⟩
      exact hsome (List.ne_nil_of_mem hmem)
    constructor
    · exact fun hfmt => ⟨hfmt.2, .inr ⟨hfmt.1, hnone⟩⟩
    · rintro ⟨hdownloadable, hentry | ⟨rfl, -⟩⟩
      · exact absurd hdownloadable (hnone fmt hentry)
      · exact ⟨rfl, hdownloadable⟩

theorem isText_iff {value : Value} {text : String} :
    isText value text = true ↔ value = .str text := by
  cases value <;> simp [isText]

/-- Formats that are equal to a sound are as good as it. -/
theorem sounds_spec (h : sounds repr U request found = .ok audio) :
    ∀ sound ∈ audio, (sound ∈ found ∧ (codec repr sound "acodec").isSome ∧
        Chosen repr U request (· ∈ found) sound) ∧
      ∀ fmt ∈ found, equalFields sound fmt = true → Chosen repr U request (· ∈ found) fmt := by
  intro sound hsound
  unfold sounds at h
  dsimp only at h
  split at h
  · rename_i language hlanguage
    obtain rfl := Except.ok.inj h
    simp only [List.mem_filter, isText_iff] at hsound
    obtain ⟨⟨hfound, hcodec⟩, htext⟩ := hsound
    have hchosen : ∀ fmt, get fmt "language" = .str language →
        Chosen repr U request (· ∈ found) fmt := by
      intro fmt hfmt
      refine ⟨?_, by simp [hlanguage]⟩
      rintro other hother
      rw [hlanguage, Option.some.injEq] at hother
      exact hother ▸ hfmt
    refine ⟨⟨hfound, hcodec, hchosen sound htext⟩, ?_⟩
    intro fmt _ hequal
    rcases equalFields_get "language" hequal with hnull | hlanguages
    · simp [hnull] at htext
    · rw [htext] at hlanguages
      exact hchosen fmt (equal_str hlanguages)
  · rename_i hlanguage
    have hnone : ∀ (fmt : Format) (language : String), given request.audioLanguage = some language →
        get fmt "language" = .str language := by
      intro fmt language hsome
      rw [hlanguage] at hsome
      cases hsome
    split_ifs at h with hyoutube
    · obtain ⟨original, horiginal, h⟩ := bind_eq_ok h
      obtain rfl := Except.ok.inj h
      split_ifs at hsound with hsome
      · obtain ⟨haudio, hmarked⟩ := (mem_keep horiginal sound).mp hsound
        obtain ⟨hfound, hcodec⟩ := List.mem_filter.mp haudio
        refine ⟨⟨hfound, hcodec, hnone sound, fun _ _ _ => hmarked⟩, ?_⟩
        intro fmt hfmt hequal
        obtain ⟨marked, hmark⟩ := keep_total horiginal
          (List.mem_filter.mpr ⟨hfmt, equalFields_codec hequal hcodec⟩)
        obtain rfl := isOriginal_of_equal hequal hmarked hmark
        exact ⟨hnone fmt, fun _ _ _ => hmark⟩
      · obtain ⟨hfound, hcodec⟩ := List.mem_filter.mp hsound
        have hchosen : ∀ fmt, Chosen repr U request (· ∈ found) fmt := by
          intro fmt
          refine ⟨hnone fmt, ?_⟩
          rintro - - ⟨other, hother, hbearing, hmarked⟩
          have hmem := (mem_keep horiginal other).mpr
            ⟨List.mem_filter.mpr ⟨hother, hbearing⟩, hmarked⟩
          exact absurd (List.ne_nil_of_mem hmem) hsome
        exact ⟨⟨hfound, hcodec, hchosen sound⟩, fun fmt _ _ => hchosen fmt⟩
    · obtain rfl := Except.ok.inj h
      obtain ⟨hfound, hcodec⟩ := List.mem_filter.mp hsound
      have hchosen : ∀ fmt, Chosen repr U request (· ∈ found) fmt :=
        fun fmt => ⟨hnone fmt, fun hplatform => absurd hplatform hyoutube⟩
      exact ⟨⟨hfound, hcodec, hchosen sound⟩, fun fmt _ _ => hchosen fmt⟩

theorem mem_sortSounds {sorted : List Format} (h : sortSounds audio = .ok sorted)
    (hfmt : fmt ∈ sorted) : fmt ∈ audio := by
  obtain ⟨keyed, hkeyed, h⟩ := bind_eq_ok h
  obtain rfl := Except.ok.inj h
  obtain ⟨pair, hpair, rfl⟩ := List.mem_map.mp hfmt
  rw [List.mem_insertionSort] at hpair
  obtain ⟨sound, hsound, hkey⟩ := mem_of_mapM_eq_ok hkeyed hpair
  obtain ⟨key, -, rfl⟩ := map_eq_ok hkey
  exact hsound

theorem source_audioCodec {made : MediaSource Double} (h : source repr U info fmt = .ok made) :
    made.audioCodec = codec repr fmt "acodec" := by
  unfold source at h
  dsimp only at h
  split at h
  · cases h
  · obtain ⟨_, -, h⟩ := bind_eq_ok h
    obtain ⟨_, -, h⟩ := bind_eq_ok h
    obtain ⟨_, -, h⟩ := bind_eq_ok h
    obtain ⟨_, -, h⟩ := bind_eq_ok h
    obtain rfl := Except.ok.inj h
    rfl

theorem candidate_sources {primary : Format} {sound : Option Format}
    {made : MediaCandidate Double} (h : candidate repr U request info primary sound = .ok made) :
    (primary :: sound.toList).mapM (source repr U info) = .ok made.sources := by
  unfold candidate at h
  obtain ⟨sources, hsources, h⟩ := bind_eq_ok h
  dsimp only at h
  obtain ⟨_, -, h⟩ := bind_eq_ok h
  obtain ⟨_, -, h⟩ := bind_eq_ok h
  obtain ⟨_, -, h⟩ := bind_eq_ok h
  obtain rfl := Except.ok.inj h
  exact hsources

/-- The sources are made of formats over HTTP; there is a sound among them, and what has a sound is
a chosen format. -/
def SoundFrom (repr : Value → String) (U : Unicode) (request : MediaRequest) (info : Format)
    (Offered : Format → Prop) (sources : List (MediaSource Double)) : Prop :=
  (∃ made ∈ sources, made.audioCodec ≠ none) ∧
  ∀ made ∈ sources, ∃ fmt, HttpFormat info fmt ∧ source repr U info fmt = .ok made ∧
    (made.audioCodec ≠ none → Chosen repr U request Offered fmt)

variable {Offered : Format → Prop} {sources : List (MediaSource Double)}

theorem soundFrom_alone (h : [fmt].mapM (source repr U info) = .ok sources)
    (hhttp : HttpFormat info fmt) (hcodec : (codec repr fmt "acodec").isSome)
    (hchosen : Chosen repr U request Offered fmt) :
    SoundFrom repr U request info Offered sources := by
  constructor
  · obtain ⟨made, hmade, hsource⟩ := mapM_value_of_mem h List.mem_cons_self
    exact ⟨made, hmade, by simpa [source_audioCodec hsource, Option.isSome_iff_ne_none] using hcodec⟩
  · intro made hmade
    obtain ⟨fmt', hfmt, hsource⟩ := mem_of_mapM_eq_ok h hmade
    obtain rfl := List.mem_singleton.mp hfmt
    exact ⟨fmt', hhttp, hsource, fun _ => hchosen⟩

theorem soundFrom_pair (h : [video, fmt].mapM (source repr U info) = .ok sources)
    (hvideo : HttpFormat info video) (hsilent : codec repr video "acodec" = none)
    (hhttp : HttpFormat info fmt) (hcodec : (codec repr fmt "acodec").isSome)
    (hchosen : Chosen repr U request Offered fmt) :
    SoundFrom repr U request info Offered sources := by
  constructor
  · obtain ⟨made, hmade, hsource⟩ := mapM_value_of_mem h (List.mem_cons_of_mem _ List.mem_cons_self)
    exact ⟨made, hmade, by simpa [source_audioCodec hsource, Option.isSome_iff_ne_none] using hcodec⟩
  · intro made hmade
    obtain ⟨fmt', hfmt, hsource⟩ := mem_of_mapM_eq_ok h hmade
    rcases List.mem_cons.mp hfmt with rfl | hrest
    · have hnone : made.audioCodec = none := source_audioCodec hsource ▸ hsilent
      exact ⟨fmt', hvideo, hsource, fun hsound => absurd hnone hsound⟩
    · obtain rfl := List.mem_singleton.mp hrest
      exact ⟨fmt', hhttp, hsource, fun _ => hchosen⟩

end Selection

section Results

variable {repr : Value → String} {U : Unicode} {request : MediaRequest} {info : Format}
  {made : MediaCandidate Double}

/-- What a list of sounds promises about each of them, and about videos that are equal to one. -/
structure Selected (repr : Value → String) (U : Unicode) (request : MediaRequest) (info : Format)
    (audio : List Format) : Prop where
  http : ∀ sound ∈ audio, HttpFormat info sound
  codec : ∀ sound ∈ audio, (codec repr sound "acodec").isSome
  chosen : ∀ sound ∈ audio, Chosen repr U request (HttpFormat info) sound
  equal : ∀ sound ∈ audio, ∀ fmt, HttpFormat info fmt → equalFields sound fmt = true →
    Chosen repr U request (HttpFormat info) fmt

theorem selected_sounds {found audio sorted : List Format} (hfound : formats info = .ok found)
    (haudio : sounds repr U request found = .ok audio) (hsorted : sortSounds audio = .ok sorted) :
    Selected repr U request info sorted := by
  have hoffered : (· ∈ found) = HttpFormat info := funext fun _ => propext (mem_formats hfound)
  have hspec := sounds_spec haudio
  rw [hoffered] at hspec
  constructor
  · exact fun sound hsound =>
      (mem_formats hfound).mp (hspec sound (mem_sortSounds hsorted hsound)).1.1
  · exact fun sound hsound => (hspec sound (mem_sortSounds hsorted hsound)).1.2.1
  · exact fun sound hsound => (hspec sound (mem_sortSounds hsorted hsound)).1.2.2
  · exact fun sound hsound fmt hfmt =>
      (hspec sound (mem_sortSounds hsorted hsound)).2 fmt ((mem_formats hfound).mpr hfmt)

theorem soundFrom_audioCandidates {audio : List Format} {all : List (MediaCandidate Double)}
    (hselected : Selected repr U request info audio)
    (h : audioCandidates repr U request info audio = .ok all) (hmade : made ∈ all) :
    SoundFrom repr U request info (HttpFormat info) made.sources := by
  obtain ⟨found, hfound, h⟩ := bind_eq_ok h
  obtain rfl := Except.ok.inj h
  obtain ⟨sound, hsound, hcandidate⟩ := mem_of_mapM_eq_ok hfound (List.mem_filter.mp hmade).1
  exact soundFrom_alone (candidate_sources hcandidate) (hselected.http sound hsound)
    (hselected.codec sound hsound) (hselected.chosen sound hsound)

theorem soundFrom_videoCandidates {audio : List Format} {video : Format}
    {all : List (MediaCandidate Double)} (hkind : request.kind ≠ .animation)
    (hselected : Selected repr U request info audio) (hvideo : HttpFormat info video)
    (h : videoCandidates repr U request info audio video = .ok all) (hmade : made ∈ all) :
    SoundFrom repr U request info (HttpFormat info) made.sources := by
  unfold videoCandidates at h
  split at h
  · obtain rfl := Except.ok.inj h
    simp at hmade
  obtain ⟨width, -, h⟩ := bind_eq_ok h
  obtain ⟨height, -, h⟩ := bind_eq_ok h
  split at h
  · obtain rfl := Except.ok.inj h
    simp at hmade
  split at h
  · rename_i hequal
    obtain ⟨alone, halone, h⟩ := bind_eq_ok h
    obtain rfl := Except.ok.inj h
    obtain rfl := List.mem_singleton.mp hmade
    obtain ⟨sound, hsound, hsame⟩ := List.any_eq_true.mp (hequal.resolve_left hkind)
    simp only [equal, Bool.and_eq_true] at hsame
    have hfields := hsame.2
    exact soundFrom_alone (candidate_sources halone) hvideo
      (equalFields_codec hfields (hselected.codec sound hsound))
      (hselected.equal sound hsound video hvideo hfields)
  split at h
  · rename_i hsilent
    obtain ⟨sound, hsound, hcandidate⟩ := mem_of_mapM_eq_ok h hmade
    obtain ⟨hsound, -⟩ := List.mem_filter.mp hsound
    exact soundFrom_pair (candidate_sources hcandidate) hvideo hsilent
      (hselected.http sound hsound) (hselected.codec sound hsound) (hselected.chosen sound hsound)
  · obtain rfl := Except.ok.inj h
    simp at hmade

/-- The sound of every candidate is the requested or the original one. -/
theorem sound_selected {all : List (MediaCandidate Double)}
    (h : candidates repr U request info = .ok all) (hkind : request.kind ≠ .animation) :
    ∀ made ∈ all, SoundFrom repr U request info (HttpFormat info) made.sources := by
  intro made hmade
  unfold candidates at h
  split at h
  · cases h
  obtain ⟨found, hfound, h⟩ := bind_eq_ok h
  obtain ⟨audio, haudio, h⟩ := bind_eq_ok h
  obtain ⟨sorted, hsorted, h⟩ := bind_eq_ok h
  have hselected := selected_sounds hfound haudio hsorted
  split at h
  · exact soundFrom_audioCandidates hselected h hmade
  · obtain ⟨built, hbuilt, h⟩ := bind_eq_ok h
    obtain rfl := Except.ok.inj h
    rw [List.mem_insertionSort] at hmade
    obtain ⟨group, hgroup, hmade⟩ := List.mem_flatten.mp hmade
    obtain ⟨video, hvideo, hcandidates⟩ := mem_of_mapM_eq_ok hbuilt hgroup
    exact soundFrom_videoCandidates hkind hselected ((mem_formats hfound).mp hvideo) hcandidates
      hmade

end Results

section Examples

/-- A YouTube video in any language. -/
def anyLanguage : MediaRequest where
  canonicalUrl := "https://www.youtube.com/watch?v=dQw4w9WgXcQ"
  platform := "youtube"
  mediaId := "dQw4w9WgXcQ"
  kind := .video
  quality := ⟨none⟩
  audioFormat := none
  audioLanguage := none
  clip := ⟨none, none⟩
  albumSelection := []
  watermarkAllowed := true
  callerScope := "public"
  authScope := "public"
  isExact := true
  outputVariant := none
  deadline := none

def dubbed : Format :=
  [("format_id", .str "18"), ("url", .str "https://cdn.example/18"), ("vcodec", .str "avc1"),
    ("acodec", .str "mp4a"), ("language", .str "de")]

def silent : Format :=
  [("format_id", .str "136"), ("url", .str "https://cdn.example/136"), ("vcodec", .str "avc1"),
    ("acodec", .str "none")]

/-- The original track, over this protocol. -/
def originalOver (protocol : String) : Format :=
  [("format_id", .str "140"), ("url", .str "https://cdn.example/140"), ("vcodec", .str "none"),
    ("acodec", .str "mp4a"), ("language", .str "en"), ("format_note", .str "Original, low"),
    ("protocol", .str protocol)]

def extraction (protocol : String) : Format :=
  [("formats", .array [.object dubbed, .object silent, .object (originalOver protocol)])]

def plain (formatId : String) (videoCodec audioCodec : Option String) : MediaSource Double :=
  ⟨formatId, "https://cdn.example/" ++ formatId, videoCodec, audioCodec, none, none, none, [], none,
    none⟩

def ofSources (candidateId : String) (sources : List (MediaSource Double)) (language : String)
    (container muxMode : Option String) : MediaCandidate Double where
  candidateId := candidateId
  url := anyLanguage.canonicalUrl
  width := none
  height := none
  hasVideo := true
  hasAudio := true
  audioFormats := ["mp4a"]
  audioLanguages := [language]
  container := container
  filesizeBytes := none
  durationSeconds := none
  sources := sources
  complete := true
  muxMode := muxMode
  refresh := some ⟨"ytdlp", anyLanguage.mediaId, candidateId, 1⟩
  provider := some "ytdlp"
  mediaId := some anyLanguage.mediaId
  kind := some .video
  items := []
  authScope := "public"
  watermarkFree := none

theorem candidates_https :
    candidates (fun _ => "") .ascii anyLanguage (extraction "https") =
      .ok [ofSources "136+140" [plain "136" (some "avc1") none, plain "140" none (some "mp4a")]
        "en" none (some "copy")] := by
  decide +kernel

theorem candidates_hls :
    candidates (fun _ => "") .ascii anyLanguage (extraction "m3u8_native") =
      .ok [ofSources "18" [plain "18" (some "avc1") (some "mp4a")] "de" none none] := by
  decide +kernel

theorem sound_selected_dub :
    SoundFrom (fun _ => "") .ascii anyLanguage (extraction "https") (HttpFormat (extraction "https"))
      [plain "136" (some "avc1") none, plain "140" none (some "mp4a")] :=
  sound_selected candidates_https (by decide) _ (List.mem_singleton.mpr rfl)

/-- An original track that comes in segments only is not taken. -/
theorem dub_selected :
    ¬ ∀ repr U request info all, candidates repr U request info = .ok all →
      request.kind ≠ .animation →
      ∀ made ∈ all, SoundFrom repr U request info (Entry info) made.sources := by
  intro h
  have hsound := h (fun _ => "") .ascii anyLanguage (extraction "m3u8_native") _ candidates_hls
    (by decide) _ (List.mem_singleton.mpr rfl)
  obtain ⟨fmt, hhttp, hsource, hchosen⟩ := hsound.2 _ (List.mem_singleton.mpr rfl)
  have hentries : ∀ other, Entry (extraction "m3u8_native") other ↔
      other = dubbed ∨ other = silent ∨ other = originalOver "m3u8_native" := by
    simp [Entry, extraction]
  have hdubbed : downloadable dubbed = .ok true := by decide +kernel
  obtain ⟨hdownloadable, hentry | ⟨-, hnone⟩⟩ := hhttp
  · rcases (hentries fmt).mp hentry with rfl | rfl | rfl
    · have hmarked := (hchosen (by decide)).original rfl (by decide)
        ⟨originalOver "m3u8_native", (hentries _).mpr (.inr (.inr rfl)), by decide +kernel,
          by decide +kernel⟩
      exact absurd hmarked (by decide +kernel)
    · exact absurd hsource (by decide +kernel)
    · exact absurd hdownloadable (by decide +kernel)
  · exact hnone dubbed ((hentries _).mpr (.inl rfl)) hdubbed

end Examples

end YtdlBot.Media.YtDlp
