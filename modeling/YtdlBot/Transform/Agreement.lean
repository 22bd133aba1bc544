import Mathlib
import YtdlBot.Framework.Fallible
import YtdlBot.Transform.Validation

/-!
# Plans and checks

The check of a clip is written apart from its plan, with tables and durations of its own. What a
plan writes passes exactly where the two agree.
-/

namespace YtdlBot.Transform

open Framework Media

section Rounding

variable {τ : Type} [Field τ] [LinearOrder τ] [IsStrictOrderedRing τ] [FloorRing τ]

theorem abs_roundHalfEven (x : τ) : |(roundHalfEven x : τ) - x| ≤ 1 / 2 := by
  have hfloor := Int.floor_le x
  have hnext := Int.lt_floor_add_one x
  unfold roundHalfEven
  split_ifs with hlow hhigh heven
  · rw [abs_le]
    constructor <;> linarith
  · push_cast
    rw [abs_le]
    constructor <;> linarith
  · rw [abs_le]
    constructor <;> linarith
  · push_cast
    rw [abs_le]
    constructor <;> linarith

/-- An argument is off by half a microsecond at most. -/
theorem abs_formatSeconds (value : τ) : |(formatSeconds value).value - value| ≤ 1 / 2000000 := by
  unfold formatSeconds
  split_ifs with hwhole
  · simp [Numeral.value, hwhole]
  · have hround := abs_le.mp (abs_roundHalfEven (value * 1000000))
    simp only [Numeral.value]
    rw [abs_le]
    constructor
    · rw [le_sub_iff_add_le, le_div_iff₀ (by norm_num)]
      linarith
    · rw [sub_le_iff_le_add, div_le_iff₀ (by norm_num)]
      linarith

theorem formatSeconds_nonneg {value : τ} (h : 0 ≤ value) : 0 ≤ ((formatSeconds value).value : τ) := by
  have hround : 0 ≤ roundHalfEven (value * 1000000) := by
    have hfloor : 0 ≤ ⌊value * 1000000⌋ := Int.floor_nonneg.mpr (by linarith)
    unfold roundHalfEven
    split_ifs <;> omega
  unfold formatSeconds
  split_ifs with hwhole
  · simpa [Numeral.value, hwhole] using h
  · simp only [Numeral.value]
    exact div_nonneg (Int.cast_nonneg hround) (by norm_num)

end Rounding

section Options

variable {name : String}

theorem option_append {before rest : List Arg} (h : .flag name ∉ before) :
    option name (before ++ rest) = option name rest := by
  induction before with
  | nil => rfl
  | cons arg before ih =>
    rw [List.mem_cons, not_or] at h
    rw [List.cons_append, option, if_neg (Ne.symm h.1), ih h.2]

theorem option_framed {maxBytes : Nat} {inputs : List String} {output : String} {options : List Arg}
    (h : name ∈ ["-ss", "-t", "-c:v", "-c:a"]) : option name (framed maxBytes inputs output options) =
      option name (options ++ [.flag "-fs", .number maxBytes, .path output]) := by
  have hinputs : .flag name ∉ inputs.flatMap fun path => [Arg.flag "-i", .path path] := by
    intro hmem
    obtain ⟨path, -, hpath⟩ := List.mem_flatMap.mp hmem
    simp only [List.mem_cons, Arg.flag.injEq, reduceCtorEq, List.not_mem_nil, or_self, or_false] at hpath
    subst hpath
    revert h
    decide
  unfold framed
  rw [List.append_assoc, List.append_assoc, option_append, option_append hinputs]
  simp only [List.mem_cons, Arg.flag.injEq, reduceCtorEq, List.not_mem_nil, false_or, or_false, not_or]
  refine ⟨?_, ?_, ?_, ?_⟩ <;> rintro rfl <;> revert h <;> decide

end Options

section Plans

variable {τ : Type} [Field τ] [LinearOrder τ] [FloorRing τ] {isalnum : Char → Bool} {maxBytes : Nat}
  {inputs : List String} {outputName : String → String} {request : MediaRequest τ}
  {candidate : MediaCandidate τ} {command : List Arg}

/-- Where a clip begins, as its plan says. -/
def seek (request : MediaRequest τ) : τ :=
  match request.clip.startSeconds with
  | none => 0
  | some start => if 0 < start then (formatSeconds start).value else 0

/-- How long a plan lets its output be. -/
def limit (request : MediaRequest τ) (candidate : MediaCandidate τ) : Option τ :=
  if candidate.muxMode = some "mute-mp4" then
    some (match request.clip.endSeconds with
      | none => 60
      | some finish => min 60 (finish - request.clip.start))
  else request.clip.endSeconds.map fun finish => finish - request.clip.start

def limitArguments : Option τ → List Arg
  | none => []
  | some duration => [.flag "-t", .seconds (formatSeconds duration)]

theorem clipped_eq {clipped : List Arg}
    (h : (if candidate.muxMode.getD "copy" = "mute-mp4" then animationClipArguments request
      else clipArguments request) = .ok clipped) :
    clipped = seekArguments request ++ limitArguments (limit request candidate) ∧
      ∀ duration ∈ limit request candidate, 0 < duration := by
  have hmute : candidate.muxMode.getD "copy" = "mute-mp4" ↔ candidate.muxMode = some "mute-mp4" := by
    cases candidate.muxMode with
    | none => simp
    | some mode => simp
  unfold limit
  by_cases hmode : candidate.muxMode = some "mute-mp4"
  · rw [if_pos (hmute.mpr hmode), animationClipArguments] at h
    rw [if_pos hmode]
    split_ifs at h with hempty
    obtain rfl := Except.ok.inj h
    exact ⟨rfl, fun duration hduration => Option.some.inj hduration ▸ not_le.mp hempty⟩
  · rw [if_neg (mt hmute.mp hmode), clipArguments] at h
    rw [if_neg hmode]
    cases hend : request.clip.endSeconds with
    | none =>
      rw [hend] at h
      obtain rfl := Except.ok.inj h
      simp [limitArguments]
    | some finish =>
      rw [hend] at h
      dsimp only at h
      split_ifs at h with hempty
      obtain rfl := Except.ok.inj h
      refine ⟨rfl, fun duration hduration => ?_⟩
      obtain rfl := Option.some.inj hduration
      exact not_le.mp hempty

theorem plan_spec
    (hplan : transformPlan isalnum maxBytes inputs outputName request candidate = .ok (some command))
    (hmode : candidate.muxMode ∈ [none, some "copy", some "mute-mp4"])
    (hclip : clipRequested request = true) :
    ∃ output extension, command = framed maxBytes inputs output
        ((seekArguments request ++ limitArguments (limit request candidate)) ++
          streamArguments inputs request candidate (candidate.muxMode.getD "copy") extension) ∧
      (∀ duration ∈ limit request candidate, 0 < duration) ∧
      (candidate.muxMode ≠ some "mute-mp4" → extension = "." ++ containerName candidate) := by
  have hmp3 : candidate.muxMode ≠ some "extract-mp3" := by
    intro heq
    rw [heq] at hmode
    revert hmode
    decide
  unfold transformPlan at hplan
  dsimp only at hplan
  rw [if_neg (by simp [hclip])] at hplan
  rw [if_neg hmp3] at hplan
  split at hplan
  · cases hplan
  split at hplan
  · cases hplan
  split at hplan
  · cases hplan
  obtain ⟨extension, hextension, hplan⟩ := bind_eq_ok hplan
  obtain ⟨command', hcommand, hplan⟩ := bind_eq_ok hplan
  obtain rfl := Option.some.inj (Except.ok.inj hplan)
  unfold buildTransformCommand at hcommand
  obtain ⟨clipped, hclipped, hframed⟩ := bind_eq_ok hcommand
  obtain ⟨rfl, hpositive⟩ := clipped_eq hclipped
  refine ⟨outputName extension, extension, (Except.ok.inj hframed).symm, hpositive, ?_⟩
  intro hmute
  rw [if_neg hmute, candidateExtension] at hextension
  split_ifs at hextension
  exact (Except.ok.inj hextension).symm

variable {output mode extension : String}

omit [FloorRing τ] in
theorem notMem_streams {name : String} (h : name ∈ ["-ss", "-t"]) :
    .flag name ∉ streamArguments inputs request candidate mode extension := by
  simp only [List.mem_cons, List.not_mem_nil, or_false] at h
  unfold streamArguments reencodeArguments
  rcases h with rfl | rfl <;> split_ifs <;> simp

theorem seekArguments_eq (request : MediaRequest τ) : (seekArguments request = [] ∧ seek request = 0) ∨
    ∃ start, seekArguments request = [.flag "-ss", .seconds start] ∧ seek request = start.value := by
  unfold seekArguments seek
  cases request.clip.startSeconds with
  | none => exact .inl ⟨rfl, rfl⟩
  | some start =>
    dsimp only
    split_ifs
    · exact .inr ⟨_, rfl, rfl⟩
    · exact .inl ⟨rfl, rfl⟩

/-- How much of a source of some length a plan lets pass. -/
def plannedLength (request : MediaRequest τ) (candidate : MediaCandidate τ) (sourceLength : τ) : τ :=
  match limit request candidate with
  | none => max 0 (sourceLength - seek request)
  | some duration => min (formatSeconds duration).value (max 0 (sourceLength - seek request))

theorem cutDuration_framed (sourceLength : τ) :
    cutDuration (framed maxBytes inputs output
        ((seekArguments request ++ limitArguments (limit request candidate)) ++
          streamArguments inputs request candidate mode extension)) sourceLength =
      plannedLength request candidate sourceLength := by
  have hstreams : ∀ name ∈ ["-ss", "-t"], option name
      (streamArguments inputs request candidate mode extension ++
        [.flag "-fs", .number maxBytes, .path output]) = none := by
    intro name hname
    rw [option_append (notMem_streams hname)]
    simp only [List.mem_cons, List.not_mem_nil, or_false] at hname
    rcases hname with rfl | rfl <;> simp [option]
  have hss := hstreams "-ss" (by simp)
  have ht := hstreams "-t" (by simp)
  unfold cutDuration secondsOption plannedLength
  rw [option_framed (by simp), option_framed (by simp)]
  simp only [List.append_assoc]
  rcases seekArguments_eq request with ⟨hseek, hvalue⟩ | ⟨start, hseek, hvalue⟩
  · rw [hseek, hvalue]
    cases limit request candidate with
    | none => simp [limitArguments, hss, ht]
    | some duration => simp [limitArguments, option, hss]
  · rw [hseek, hvalue]
    cases limit request candidate with
    | none => simp [limitArguments, option, ht]
    | some duration => simp [limitArguments, option]

end Plans

section Durations

variable {τ : Type} [Field τ] [LinearOrder τ] [IsStrictOrderedRing τ] [FloorRing τ]
  {request : MediaRequest τ} {candidate : MediaCandidate τ} {item : MediaItem τ} {sourceLength : τ}

/-- A clip does not end after its source, or what is missing then is tolerated. -/
def EndsInTime (request : MediaRequest τ) (candidate : MediaCandidate τ) (sourceLength : τ) : Prop :=
  ∀ finish ∈ request.clip.endSeconds, sourceLength < finish →
    capped candidate (finish - request.clip.start) - max 0 (sourceLength - seek request) ≤
      tolerance (capped candidate (finish - request.clip.start))

theorem abs_seek (request : MediaRequest τ) : |seek request - request.clip.start| ≤ 1 / 2000000 := by
  have hnonneg := request.clip.start_nonneg
  unfold seek ClipInterval.start
  cases hstart : request.clip.startSeconds with
  | none => simp
  | some start =>
    dsimp only [Option.getD_some]
    split_ifs with hpositive
    · exact abs_formatSeconds start
    · have hzero : start = 0 := le_antisymm (not_lt.mp hpositive) (hnonneg start hstart)
      simp [hzero]

theorem abs_left (hstart : request.clip.start < sourceLength) :
    |max 0 (sourceLength - seek request) - (sourceLength - request.clip.start)| ≤ 1 / 2000000 := by
  have hseek := abs_le.mp (abs_seek request)
  rw [abs_le]
  rcases le_total 0 (sourceLength - seek request) with h | h
  · rw [max_eq_right h]
    constructor <;> linarith
  · rw [max_eq_left h]
    constructor <;> linarith

omit [IsStrictOrderedRing τ] [FloorRing τ] in
theorem le_tolerance (expected : τ) : 3 / 2 ≤ tolerance expected := le_max_left _ _

omit [IsStrictOrderedRing τ] [FloorRing τ] in
theorem validateDuration_iff {probe : Probe τ} {actual expected : τ} (hnonneg : 0 ≤ actual)
    (hactual : probe.duration = some actual)
    (hexpected : expectedDuration request candidate item = some expected) :
    validateDuration request candidate item probe = .ok () ↔
      |actual - expected| ≤ tolerance expected := by
  unfold validateDuration probeDuration
  rw [hexpected, hactual]
  simp only [Option.filter_some, decide_eq_true hnonneg, if_true, Option.any_some]
  split_ifs with hclose hclip
  · simpa using hclose
  · simpa using hclose
  · simpa using hclose

theorem plannedLength_nonneg (hpositive : ∀ duration ∈ limit request candidate, 0 < duration) :
    0 ≤ plannedLength request candidate sourceLength := by
  unfold plannedLength
  split
  · exact le_max_left _ _
  · rename_i duration hlimit
    exact le_min (formatSeconds_nonneg (hpositive duration hlimit).le) (le_max_left _ _)

theorem open_clip (hend : request.clip.endSeconds = none)
    (hstart : request.clip.start < sourceLength) :
    |plannedLength request candidate sourceLength -
      capped candidate (sourceLength - request.clip.start)| ≤ 1 / 2000000 := by
  have hleft := abs_left hstart
  unfold plannedLength limit capped
  by_cases hmute : candidate.muxMode = some "mute-mp4"
  · rw [if_pos hmute, if_pos hmute, hend, min_comm (sourceLength - _)]
    exact (abs_min_sub_min_le_max _ _ _ _).trans (max_le (abs_formatSeconds 60) hleft)
  · rw [if_neg hmute, if_neg hmute, hend]
    exact hleft

omit [IsStrictOrderedRing τ] [FloorRing τ] in
theorem closed_clip {finish : τ} (hend : request.clip.endSeconds = some finish)
    (hpositive : ∀ duration ∈ limit request candidate, 0 < duration) :
    0 < finish - request.clip.start ∧
      limit request candidate = some (capped candidate (finish - request.clip.start)) := by
  unfold limit at hpositive ⊢
  unfold capped
  by_cases hmute : candidate.muxMode = some "mute-mp4"
  · simp only [if_pos hmute, hend] at hpositive ⊢
    exact ⟨(lt_min_iff.mp (hpositive _ rfl)).2, by rw [min_comm]⟩
  · simp only [if_neg hmute, hend, Option.map_some] at hpositive ⊢
    exact ⟨hpositive _ rfl, trivial⟩

/-- The check of the duration passes what a plan writes exactly if the clip ends in time. -/
theorem duration_agrees {probe : Probe τ}
    (hprobe : probe.duration = some (plannedLength request candidate sourceLength))
    (hpositive : ∀ duration ∈ limit request candidate, 0 < duration)
    (hdeclared : ∀ duration ∈ declaredDuration candidate item, duration = sourceLength)
    (hstart : request.clip.start < sourceLength) :
    validateDuration request candidate item probe = .ok () ↔
      EndsInTime request candidate sourceLength := by
  have hnonneg : 0 ≤ plannedLength request candidate sourceLength :=
    plannedLength_nonneg hpositive
  cases hend : request.clip.endSeconds with
  | none =>
    have hintime : EndsInTime request candidate sourceLength := by
      intro finish hfinish
      rw [hend] at hfinish
      cases hfinish
    refine iff_of_true ?_ hintime
    cases hduration : declaredDuration candidate item with
    | none =>
      unfold validateDuration expectedDuration
      rw [hend, hduration]
      rfl
    | some duration =>
      obtain rfl := hdeclared duration hduration
      have hclose : |plannedLength request candidate duration -
          capped candidate (duration - request.clip.start)| ≤ 1 / 2000000 := open_clip hend hstart
      have hexpected : expectedDuration request candidate item =
          some (capped candidate (duration - request.clip.start)) := by
        unfold expectedDuration
        rw [hend, hduration]
        simp only [Option.map_some, max_eq_right (sub_nonneg.mpr hstart.le)]
      refine (validateDuration_iff hnonneg hprobe hexpected).mpr (hclose.trans ?_)
      linarith [le_tolerance (capped candidate (duration - request.clip.start))]
  | some finish =>
    obtain ⟨hlong, hlimit⟩ := closed_clip hend hpositive
    have hexpected : expectedDuration request candidate item =
        some (capped candidate (finish - request.clip.start)) := by
      unfold expectedDuration
      rw [hend]
      simp only [Option.map_some, max_eq_right hlong.le]
    have hcut : plannedLength request candidate sourceLength =
        min (formatSeconds (capped candidate (finish - request.clip.start))).value
          (max 0 (sourceLength - seek request)) := by
      rw [plannedLength, hlimit]
    have hround := abs_le.mp (abs_formatSeconds (capped candidate (finish - request.clip.start)))
    have hleft := abs_le.mp (abs_left hstart)
    have htolerance := le_tolerance (capped candidate (finish - request.clip.start))
    rw [validateDuration_iff hnonneg hprobe hexpected, abs_le]
    constructor
    · rintro ⟨hlow, -⟩ finish' hfinish' -
      obtain rfl := Option.some.inj (hend.symm.trans hfinish')
      have hcutle : plannedLength request candidate sourceLength ≤
          max 0 (sourceLength - seek request) := hcut ▸ min_le_right _ _
      linarith
    · intro hintime
      have hmissing : capped candidate (finish - request.clip.start) -
          max 0 (sourceLength - seek request) ≤
            tolerance (capped candidate (finish - request.clip.start)) := by
        rcases lt_or_ge sourceLength finish with hlate | hearly
        · exact hintime finish hend hlate
        · have hcapped : capped candidate (finish - request.clip.start) ≤
              finish - request.clip.start := by
            unfold capped
            split_ifs
            · exact min_le_left _ _
            · exact le_refl _
          linarith
      constructor
      · rw [hcut]
        rcases min_choice (formatSeconds (capped candidate (finish - request.clip.start))).value
          (max 0 (sourceLength - seek request)) with h | h
        · rw [h]
          linarith
        · rw [h]
          linarith
      · have hcutle := hcut ▸ min_le_left
          (formatSeconds (capped candidate (finish - request.clip.start))).value
          (max 0 (sourceLength - seek request))
        linarith

end Durations

section Codecs

variable {τ : Type} {candidate : MediaCandidate τ} {item : MediaItem τ}

/-- The containers of plan and check fall into one row of their tables; an animation is muted, so no
source may declare a sound, and its picture is that of the first source. -/
def CodecsAgree (candidate : MediaCandidate τ) (item : MediaItem τ) : Prop :=
  if candidate.muxMode = some "mute-mp4" then
    (∀ source ∈ candidate.sources, declaredCodec source.audioCodec = none) ∧
      ∀ source ∈ candidate.sources, declaredCodec source.videoCodec ≠ none →
        ∃ first ∈ candidate.sources.head?, declaredCodec first.videoCodec ≠ none
  else if candidate.hasVideo then
    (containerName candidate = "webm" ↔ checkedContainer candidate item = "webm") ∧
      (containerName candidate = "gif" ↔ checkedContainer candidate item = "gif")
  else
    (containerName candidate = "flac" ↔ checkedContainer candidate item = "flac") ∧
      (containerName candidate = "ogg" ∨ containerName candidate = "opus" ↔
        checkedContainer candidate item = "ogg" ∨ checkedContainer candidate item = "opus") ∧
      (containerName candidate = "wav" ↔ checkedContainer candidate item = "wav")

theorem normalizeCodec_word : ∀ word ∈ ["h264", "vp9", "gif", "opus", "aac", "flac", "pcm_s16le"],
    normalizeCodec word = word := by
  decide +kernel

/-- The encoders for a container write what the check's table has for that container. -/
theorem reencoded_streams (candidate : MediaCandidate τ) {rest : List Arg}
    (hrest : option "-c:v" rest = none ∧ option "-c:a" rest = none) (container : String) :
    option "-c:v" (reencodeArguments candidate ("." ++ container) ++ rest) ≠ some (.value "copy") ∧
      (encodedStream (option "-c:v" (reencodeArguments candidate ("." ++ container) ++ rest)),
        encodedStream (option "-c:a" (reencodeArguments candidate ("." ++ container) ++ rest))) =
      transcodedCodecs candidate container := by
  have hdot : ∀ word, "." ++ container = "." ++ word ↔ container = word :=
    fun word => String.append_right_inj _
  have hflac : ("." ++ container = ".flac") ↔ container = "flac" := hdot "flac"
  have hogg : ("." ++ container = ".ogg") ↔ container = "ogg" := hdot "ogg"
  have hopus : ("." ++ container = ".opus") ↔ container = "opus" := hdot "opus"
  have hwav : ("." ++ container = ".wav") ↔ container = "wav" := hdot "wav"
  have hwebm : ("." ++ container = ".webm") ↔ container = "webm" := hdot "webm"
  have hgif : ("." ++ container = ".gif") ↔ container = "gif" := hdot "gif"
  unfold reencodeArguments transcodedCodecs
  simp only [hflac, hogg, hopus, hwav, hwebm, hgif]
  cases candidate.hasVideo with
  | false =>
    simp only [Bool.false_eq_true, not_false_eq_true, if_true]
    split_ifs <;> simp [option, encodedStream, encodedCodec, hrest]
  | true =>
    simp only [not_true_eq_false, if_false]
    cases candidate.hasAudio with
    | false => split_ifs <;> simp [option, encodedStream, encodedCodec, hrest]
    | true => split_ifs <;> simp [option, encodedStream, encodedCodec, hrest]

/-- The rows of the tables. -/
def soundCodec (container : String) : String :=
  if container = "flac" then "flac"
  else if container = "ogg" ∨ container = "opus" then "opus"
  else if container = "wav" then "pcm_s16le"
  else "aac"

def pictureCodec (container : String) : String :=
  if container = "webm" then "vp9" else if container = "gif" then "gif" else "h264"

theorem soundCodec_cases (container : String) :
    (soundCodec container = "flac" ↔ container = "flac") ∧
      (soundCodec container = "opus" ↔ container = "ogg" ∨ container = "opus") ∧
      (soundCodec container = "pcm_s16le" ↔ container = "wav") ∧
      soundCodec container ∈ ["flac", "opus", "pcm_s16le", "aac"] := by
  unfold soundCodec
  split_ifs with hflac hopus hwav
  · subst hflac
    decide
  · rcases hopus with rfl | rfl <;> decide
  · subst hwav
    decide
  · simp [hflac, hopus, hwav]

theorem pictureCodec_cases (container : String) :
    (pictureCodec container = "vp9" ↔ container = "webm") ∧
      (pictureCodec container = "gif" ↔ container = "gif") ∧
      pictureCodec container ∈ ["vp9", "gif", "h264"] := by
  unfold pictureCodec
  split_ifs with hwebm hgif
  · subst hwebm
    decide
  · subst hgif
    decide
  · simp [hwebm, hgif]

theorem soundCodec_eq_iff (c c' : String) : soundCodec c = soundCodec c' ↔
    (c' = "flac" ↔ c = "flac") ∧ (c' = "ogg" ∨ c' = "opus" ↔ c = "ogg" ∨ c = "opus") ∧
      (c' = "wav" ↔ c = "wav") := by
  obtain ⟨hflac, hopus, hwav, hmem⟩ := soundCodec_cases c
  obtain ⟨hflac', hopus', hwav', hmem'⟩ := soundCodec_cases c'
  rw [← hflac, ← hflac', ← hopus, ← hopus', ← hwav, ← hwav']
  constructor
  · intro heq
    simp only [heq, true_and]
  · rintro ⟨h, h', h''⟩
    simp only [List.mem_cons, List.not_mem_nil, or_false] at hmem hmem'
    rcases hmem' with heq | heq | heq | heq
    · rw [heq, h.mp heq]
    · rw [heq, h'.mp heq]
    · rw [heq, h''.mp heq]
    · simp only [heq, String.reduceEq, false_iff] at h h' h''
      simpa [h, h', h'', heq] using hmem

theorem pictureCodec_eq_iff (c c' : String) : pictureCodec c = pictureCodec c' ↔
    (c' = "webm" ↔ c = "webm") ∧ (c' = "gif" ↔ c = "gif") := by
  obtain ⟨hwebm, hgif, hmem⟩ := pictureCodec_cases c
  obtain ⟨hwebm', hgif', hmem'⟩ := pictureCodec_cases c'
  rw [← hwebm, ← hwebm', ← hgif, ← hgif']
  constructor
  · intro heq
    simp only [heq, true_and]
  · rintro ⟨h, h'⟩
    simp only [List.mem_cons, List.not_mem_nil, or_false] at hmem hmem'
    rcases hmem' with heq | heq | heq
    · rw [heq, h.mp heq]
    · rw [heq, h'.mp heq]
    · simp only [heq, String.reduceEq, false_iff] at h h'
      simpa [h, h', heq] using hmem

theorem checkCodecs_nil (actual : List String) (error : String) : checkCodecs [] actual error = .ok () := by
  simp [checkCodecs]

theorem checkCodecs_singleton (expected actual error : String) :
    checkCodecs [expected] [actual] error = .ok () ↔ expected = actual := by
  simp [checkCodecs]

theorem transcodedCodecs_sound (h : candidate.hasVideo = false) (container : String) :
    transcodedCodecs candidate container = ([], [soundCodec container]) := by
  simp [transcodedCodecs, h, soundCodec]

/-- The sound that is written beside a picture. -/
def soundBeside (candidate : MediaCandidate τ) (picture : String) : List String :=
  if ¬ candidate.hasAudio ∨ picture = "gif" then [] else if picture = "vp9" then ["opus"] else ["aac"]

theorem transcodedCodecs_picture (h : candidate.hasVideo = true) (container : String) :
    transcodedCodecs candidate container =
      ([pictureCodec container], soundBeside candidate (pictureCodec container)) := by
  unfold transcodedCodecs pictureCodec soundBeside
  cases candidate.hasAudio with
  | false => split_ifs <;> simp_all
  | true => split_ifs <;> simp_all

theorem checkCodecs_soundBeside (picture error : String) :
    checkCodecs (soundBeside candidate picture)
      ((soundBeside candidate picture).map normalizeCodec) error = .ok () := by
  have hopus := normalizeCodec_word "opus" (by decide)
  have haac := normalizeCodec_word "aac" (by decide)
  unfold soundBeside
  split_ifs <;> simp [checkCodecs, hopus, haac]

/-- What is written for one container passes the check for another exactly if the two are in one row. -/
theorem transcoded_agree (hmute : candidate.muxMode ≠ some "mute-mp4") (error error' : String) :
    (checkCodecs (transcodedCodecs candidate (checkedContainer candidate item)).1
        ((transcodedCodecs candidate (containerName candidate)).1.map normalizeCodec) error = .ok () ∧
      checkCodecs (transcodedCodecs candidate (checkedContainer candidate item)).2
        ((transcodedCodecs candidate (containerName candidate)).2.map normalizeCodec) error' = .ok ()) ↔
      CodecsAgree candidate item := by
  unfold CodecsAgree
  rw [if_neg hmute]
  generalize containerName candidate = written
  generalize checkedContainer candidate item = checked
  cases hvideo : candidate.hasVideo with
  | false =>
    have hsound : normalizeCodec (soundCodec written) = soundCodec written := by
      have hmem := (soundCodec_cases written).2.2.2
      refine normalizeCodec_word _ ?_
      simp only [List.mem_cons, List.not_mem_nil, or_false] at hmem ⊢
      tauto
    simp only [transcodedCodecs_sound hvideo, List.map_nil, List.map_cons, checkCodecs_nil, true_and,
      checkCodecs_singleton, hsound, Bool.false_eq_true, if_false]
    exact soundCodec_eq_iff checked written
  | true =>
    have hpicture : normalizeCodec (pictureCodec written) = pictureCodec written := by
      have hmem := (pictureCodec_cases written).2.2
      refine normalizeCodec_word _ ?_
      simp only [List.mem_cons, List.not_mem_nil, or_false] at hmem ⊢
      tauto
    simp only [transcodedCodecs_picture hvideo, List.map_nil, List.map_cons, checkCodecs_singleton,
      hpicture, if_true, ← pictureCodec_eq_iff checked written]
    refine and_iff_left_of_imp fun heq => ?_
    rw [heq]
    exact checkCodecs_soundBeside _ _

theorem both_ok {ε : Type} {x y : Except ε Unit} :
    (do x; y) = .ok () ↔ x = .ok () ∧ y = .ok () := by
  cases x with
  | error error => exact ⟨fun h => (nomatch h), fun h => (nomatch h.1)⟩
  | ok u => exact ⟨fun h => ⟨rfl, h⟩, fun h => h.2⟩

variable [Field τ] [LinearOrder τ] {request : MediaRequest τ}

/-- What follows the encoders in a command. -/
def closing (maxBytes : Nat) (output container : String) : List Arg :=
  [.flag "-f", .value (ffmpegFormat ("." ++ container)), .flag "-fs", .number maxBytes, .path output]

theorem reencoded_option {maxBytes : Nat} {inputs : List String} {output mode name container : String}
    {clipped : List Arg} (hclipped : .flag name ∉ clipped) (hname : name ∈ ["-c:v", "-c:a"])
    (hclip : clipRequested request = true) (hmode : mode ≠ "mute-mp4" ∧ mode ≠ "extract-mp3") :
    option name (framed maxBytes inputs output
        (clipped ++ streamArguments inputs request candidate mode ("." ++ container))) =
      option name (reencodeArguments candidate ("." ++ container) ++
        closing maxBytes output container) := by
  have hmaps : .flag name ∉ if inputs.length = 2 then
      [Arg.flag "-map", .value "0:v:0", .flag "-map", .value "1:a:0"]
      else [.flag "-map", .value "0"] := by
    simp only [List.mem_cons, List.not_mem_nil, or_false] at hname
    rcases hname with rfl | rfl <;> split_ifs <;> simp
  have hlisted : name ∈ ["-ss", "-t", "-c:v", "-c:a"] :=
    List.mem_cons_of_mem _ (List.mem_cons_of_mem _ hname)
  rw [option_framed hlisted, List.append_assoc, option_append hclipped, streamArguments,
    if_neg hmode.2, if_neg hmode.1, if_pos hclip, List.append_assoc, List.append_assoc,
    option_append hmaps]
  rfl

theorem closing_options (maxBytes : Nat) (output container : String) :
    option "-c:v" (closing maxBytes output container) = none ∧
      option "-c:a" (closing maxBytes output container) = none := by
  simp [closing, option]

theorem reencoded_agrees {probe : Probe τ} {command : List Arg} {sourceLength : τ} {maxBytes : Nat}
    {output : String} (hmute : candidate.muxMode ≠ some "mute-mp4")
    (hmp3 : candidate.muxMode ≠ some "extract-mp3") (hclip : clipRequested request = true)
    (hoption : ∀ name ∈ ["-c:v", "-c:a"], option name command =
      option name (reencodeArguments candidate ("." ++ containerName candidate) ++
        closing maxBytes output (containerName candidate)))
    (h : Produced candidate command sourceLength probe) (itemIndex : Nat) :
    validateStreamCodecs request candidate probe itemIndex (checkedContainer candidate item) = .ok () ↔
      CodecsAgree candidate item := by
  obtain ⟨hcopy, hcodecs⟩ := reencoded_streams candidate
    (closing_options maxBytes output (containerName candidate)) (containerName candidate)
  have hvideo := h.encoded
  have haudio := h.audio
  rw [hoption "-c:v" (by simp)] at hvideo
  rw [hoption "-c:a" (by simp)] at haudio
  rw [← transcoded_agree hmute "final video codec does not match" "final audio codec does not match",
    ← both_ok, validateStreamCodecs, if_neg hmp3, hvideo hcopy, haudio, ← hcodecs]
  simp only [hclip, hmute, ne_eq, not_false_eq_true, and_self, if_true]

omit [Field τ] [LinearOrder τ] in
theorem declaredCodecs_eq_nil {codec : MediaSource τ → Option String} {sources : List (MediaSource τ)} :
    declaredCodecs codec sources = [] ↔ ∀ source ∈ sources, declaredCodec (codec source) = none := by
  simp [declaredCodecs, List.filterMap_eq_nil_iff]

theorem dropWhile_replicate (n : Nat) :
    (List.replicate (n + 1) 'z').dropWhile Transport.isSpace = List.replicate (n + 1) 'z' := by
  have hspace : Transport.isSpace 'z' = false := by decide
  rw [List.replicate_succ, List.dropWhile_cons_of_neg (by simp [hspace])]

theorem normalizeCodec_replicate (n : Nat) :
    normalizeCodec (String.ofList (List.replicate (n + 1) 'z')) =
      String.ofList (List.replicate (n + 1) 'z') := by
  have hstrip : Transport.strip (List.replicate (n + 1) 'z') = List.replicate (n + 1) 'z' := by
    rw [Transport.strip, dropWhile_replicate, List.reverse_replicate, dropWhile_replicate,
      List.reverse_replicate]
  have hlower : Transport.lowerChar 'z' = 'z' := by decide
  have hdot : ('z' != '.') = true := by decide
  have hother : ∀ word : String, word.toList.head? ≠ some 'z' →
      String.ofList (List.replicate (n + 1) 'z') ≠ word := by
    rintro word hhead rfl
    rw [String.toList_ofList, List.replicate_succ] at hhead
    exact hhead rfl
  unfold normalizeCodec
  simp only [String.toList_ofList, hstrip, List.map_replicate, hlower, List.takeWhile_replicate, hdot,
    if_true]
  rw [if_neg (hother _ (by decide)), if_neg (hother _ (by decide)), if_neg, if_neg (hother _ (by decide)),
    if_neg (hother _ (by decide))]
  exact not_or.mpr ⟨hother _ (by decide), hother _ (by decide)⟩

theorem exists_fresh (codecs : List String) : ∃ codec, normalizeCodec codec ∉ codecs := by
  have hinjective : Function.Injective fun n => String.ofList (List.replicate (n + 1) 'z') := by
    intro m n h
    have hlength := congrArg (fun s => s.toList.length) h
    simpa using hlength
  obtain ⟨n, hn⟩ := (Set.infinite_range_of_injective hinjective).exists_notMem_finset codecs.toFinset
  obtain ⟨⟨m, rfl⟩, hfresh⟩ := hn
  refine ⟨String.ofList (List.replicate (m + 1) 'z'), ?_⟩
  rw [normalizeCodec_replicate]
  simpa using hfresh

omit [Field τ] [LinearOrder τ] in
theorem sources_in_view (hitems : candidate.items.length ≤ 1) :
    (if candidate.items ≠ [] ∧ candidate.sources.length = candidate.items.length then
      (candidate.sources.drop 0).take 1 else candidate.sources) = candidate.sources := by
  split_ifs with h
  · rw [List.drop_zero, List.take_of_length_le (h.2.trans_le hitems)]
  · rfl

theorem muted_checks (hmute : candidate.muxMode = some "mute-mp4") (hitems : candidate.items.length ≤ 1)
    {probe : Probe τ} {codec container : String} (hvideo : probe.video = [codec])
    (haudio : probe.audio = []) :
    validateStreamCodecs request candidate probe 0 container = .ok () ↔
      (declaredCodecs (·.videoCodec) candidate.sources ≠ [] →
        normalizeCodec codec ∈ declaredCodecs (·.videoCodec) candidate.sources) ∧
      declaredCodecs (·.audioCodec) candidate.sources = [] := by
  unfold validateStreamCodecs
  rw [if_neg (by rw [hmute]; decide), both_ok, hvideo, haudio]
  simp only [hmute, ne_eq, not_true_eq_false, and_false, if_false, sources_in_view hitems]
  refine and_congr ?_ ?_
  · unfold checkCodecs
    by_cases hnone : declaredCodecs (·.videoCodec) candidate.sources = []
    · simp [hnone]
    · simp [hnone]
  · unfold checkCodecs
    by_cases hnone : declaredCodecs (·.audioCodec) candidate.sources = []
    · simp [hnone]
    · simp [hnone]

omit [Field τ] [LinearOrder τ] in
theorem mem_declaredCodecs {codec : MediaSource τ → Option String} {source : MediaSource τ}
    {sources : List (MediaSource τ)} {declared : String} (hsource : source ∈ sources)
    (hdeclared : declaredCodec (codec source) = some declared) :
    normalizeCodec declared ∈ declaredCodecs codec sources :=
  List.mem_filterMap.mpr ⟨source, hsource, by rw [hdeclared, Option.map_some]⟩

/-- Outputs of a muted candidate pass the check of the codecs exactly if its sources declare no sound,
and no picture that the first does not declare. -/
theorem muted_agrees (request : MediaRequest τ) (item : MediaItem τ)
    (hmute : candidate.muxMode = some "mute-mp4") (hitems : candidate.items.length ≤ 1)
    (container : String) :
    (∀ codec probe, (∀ source ∈ candidate.sources.head?, ∀ declared ∈ declaredCodec source.videoCodec,
        normalizeCodec codec = normalizeCodec declared) → probe.video = [codec] → probe.audio = [] →
      validateStreamCodecs request candidate (probe : Probe τ) 0 container = .ok ()) ↔
      CodecsAgree candidate item := by
  unfold CodecsAgree
  rw [if_pos hmute]
  constructor
  · intro hall
    have hpasses := fun codec hcodec => (muted_checks hmute hitems rfl rfl).mp
      (hall codec ⟨[codec], [], [], none⟩ hcodec rfl rfl)
    -- an undeclared picture may be anything
    obtain ⟨fresh, hfresh⟩ := exists_fresh (declaredCodecs (·.videoCodec) candidate.sources)
    cases hfirst : candidate.sources.head? with
    | none => simp [List.head?_eq_none_iff.mp hfirst]
    | some first =>
      cases hdeclared : declaredCodec first.videoCodec with
      | none =>
        obtain ⟨hpicture, hsilent⟩ := hpasses fresh fun source hsource declared hdeclared' => by
          obtain rfl := Option.some.inj (hfirst.symm.trans hsource)
          rw [hdeclared] at hdeclared'
          cases hdeclared'
        have hnone : declaredCodecs (·.videoCodec) candidate.sources = [] := by
          by_contra hsome
          exact hfresh (hpicture hsome)
        refine ⟨declaredCodecs_eq_nil.mp hsilent, fun source hsource hsome => ?_⟩
        exact absurd (declaredCodecs_eq_nil.mp hnone source hsource) hsome
      | some declared =>
        obtain ⟨-, hsilent⟩ := hpasses declared fun source hsource declared' hdeclared' => by
          obtain rfl := Option.some.inj (hfirst.symm.trans hsource)
          rw [Option.some.inj (hdeclared.symm.trans hdeclared')]
        refine ⟨declaredCodecs_eq_nil.mp hsilent, fun _ _ _ => ⟨first, rfl, ?_⟩⟩
        rw [hdeclared]
        exact Option.some_ne_none declared
  · rintro ⟨hsilent, hpicture⟩ codec probe hcodec hvideo haudio
    refine (muted_checks hmute hitems hvideo haudio).mpr ⟨?_, declaredCodecs_eq_nil.mpr hsilent⟩
    intro hsome
    have hexists : ∃ source ∈ candidate.sources, declaredCodec source.videoCodec ≠ none := by
      by_contra hnone
      push Not at hnone
      exact hsome (declaredCodecs_eq_nil.mpr hnone)
    obtain ⟨source, hsource, hdeclares⟩ := hexists
    obtain ⟨first, hfirst, hdeclared⟩ := hpicture source hsource hdeclares
    obtain ⟨declared, hdeclared⟩ := Option.ne_none_iff_exists'.mp hdeclared
    rw [hcodec first hfirst declared hdeclared]
    exact mem_declaredCodecs (List.mem_of_mem_head? hfirst) hdeclared

end Codecs

section Sounds

variable {τ : Type} {candidate : MediaCandidate τ}

/-- The sound of what a plan writes. -/
def writtenSound (candidate : MediaCandidate τ) : List String :=
  if candidate.muxMode = some "mute-mp4" then []
  else (transcodedCodecs candidate (containerName candidate)).2

/-- A plan writes no sound: it mutes, or re-encodes a picture that is to have none. -/
def Silent (candidate : MediaCandidate τ) : Prop :=
  candidate.muxMode = some "mute-mp4" ∨
    candidate.hasVideo = true ∧ (candidate.hasAudio = false ∨ containerName candidate = "gif")

theorem soundBeside_eq_nil (container : String) :
    soundBeside candidate (pictureCodec container) = [] ↔
      candidate.hasAudio = false ∨ container = "gif" := by
  rw [← (pictureCodec_cases container).2.1]
  unfold soundBeside
  split_ifs with hnone
  · simpa using hnone
  · simpa [not_or] using hnone
  · simpa [not_or] using hnone

theorem writtenSound_eq_nil : writtenSound candidate = [] ↔ Silent candidate := by
  unfold writtenSound Silent
  by_cases hmute : candidate.muxMode = some "mute-mp4"
  · simp [hmute]
  · rw [if_neg hmute]
    cases hvideo : candidate.hasVideo with
    | false => simp [transcodedCodecs_sound hvideo, hmute]
    | true => simp [transcodedCodecs_picture hvideo, soundBeside_eq_nil, hmute]

theorem mp3_notMem_writtenSound : "mp3" ∉ (writtenSound candidate).map normalizeCodec := by
  have hwords : ∀ word ∈ ["flac", "opus", "pcm_s16le", "aac"], normalizeCodec word ≠ "mp3" := by
    decide +kernel
  intro hmp3
  obtain ⟨word, hword, heq⟩ := List.mem_map.mp hmp3
  refine hwords word ?_ heq
  unfold writtenSound at hword
  split_ifs at hword with hmute
  · simp at hword
  · cases hvideo : candidate.hasVideo with
    | false =>
      rw [transcodedCodecs_sound hvideo] at hword
      obtain rfl := List.mem_singleton.mp hword
      exact (soundCodec_cases _).2.2.2
    | true =>
      rw [transcodedCodecs_picture hvideo, soundBeside] at hword
      split_ifs at hword
      · simp at hword
      · simp [List.mem_singleton.mp hword]
      · simp [List.mem_singleton.mp hword]

variable [Field τ] [LinearOrder τ] {request : MediaRequest τ} {item : MediaItem τ} {probe : Probe τ}

def Mp3Requested (request : MediaRequest τ) : Prop :=
  request.kind = .audio ∧ request.audioFormat = some "mp3"

theorem validateAudioFormat_iff (haudio : probe.audio = writtenSound candidate) :
    validateAudioFormat request probe = .ok () ↔ ¬ Mp3Requested request := by
  have hmp3 : (probe.audio.map normalizeCodec).contains "mp3" = false := by
    rw [haudio, ← Bool.not_eq_true, List.contains_iff_mem]
    exact mp3_notMem_writtenSound
  unfold validateAudioFormat Mp3Requested
  simp only [hmp3, Bool.false_eq_true, and_false, not_false_eq_true, and_true]
  split_ifs with hrequested
  · simp [hrequested]
  · simp only [hrequested, not_false_eq_true]

theorem validateAnimation_iff {actual : τ} (hactual : probe.duration = some actual)
    (hnonneg : 0 ≤ actual) :
    validateAnimation item probe = .ok () ↔
      (item.kind = .animation → probe.audio = [] ∧ actual ≤ animationLimit) := by
  have hlong : ((probeDuration probe).all fun duration => animationLimit < duration) =
      decide (animationLimit < actual) := by
    rw [probeDuration, hactual, Option.filter_some, decide_eq_true hnonneg, if_pos rfl, Option.all_some]
  unfold validateAnimation
  rw [hlong]
  split_ifs with hkind hsound hexceeds
  · simp [hkind, hsound]
  · simp [hkind, not_le.mpr (of_decide_eq_true hexceeds)]
  · simp only [hkind, forall_const, true_iff]
    exact ⟨not_not.mp hsound, not_lt.mp fun h => hexceeds (decide_eq_true h)⟩
  · simp [hkind]

variable [FloorRing τ]

/-- An animation is written without sound and not longer than the check lets it be. -/
def AnimationFits (request : MediaRequest τ) (candidate : MediaCandidate τ) (item : MediaItem τ)
    (sourceLength : τ) : Prop :=
  item.kind = .animation →
    Silent candidate ∧ plannedLength request candidate sourceLength ≤ animationLimit

end Sounds

section Acceptance

variable {τ : Type} [Field τ] [LinearOrder τ] [IsStrictOrderedRing τ] [FloorRing τ]

omit [IsStrictOrderedRing τ] in
theorem clipped_flags {request : MediaRequest τ} {candidate : MediaCandidate τ} :
    ∀ name ∈ ["-c:v", "-c:a"],
      .flag name ∉ seekArguments request ++ limitArguments (limit request candidate) := by
  intro name hname
  have hlimit : .flag name ∉ limitArguments (limit request candidate) := by
    simp only [List.mem_cons, List.not_mem_nil, or_false] at hname
    cases limit request candidate <;> rcases hname with rfl | rfl <;> simp [limitArguments]
  simp only [List.mem_cons, List.not_mem_nil, or_false] at hname
  rw [List.mem_append, not_or]
  refine ⟨?_, hlimit⟩
  rcases seekArguments_eq request with ⟨hseek, -⟩ | ⟨start, hseek, -⟩
  · simp [hseek]
  · rcases hname with rfl | rfl <;> simp [hseek]

omit [IsStrictOrderedRing τ] in
theorem muted_options {maxBytes : Nat} {inputs : List String} {output extension : String}
    {request : MediaRequest τ} {candidate : MediaCandidate τ} :
    option "-c:v" (framed maxBytes inputs output
        ((seekArguments request ++ limitArguments (limit request candidate)) ++
          streamArguments inputs request candidate "mute-mp4" extension)) = some (.value "copy") ∧
      option "-c:a" (framed maxBytes inputs output
        ((seekArguments request ++ limitArguments (limit request candidate)) ++
          streamArguments inputs request candidate "mute-mp4" extension)) = none := by
  rw [option_framed (by simp), option_framed (by simp), List.append_assoc,
    option_append (clipped_flags _ (by simp)), option_append (clipped_flags _ (by simp))]
  simp [streamArguments, option]

omit [Field τ] [LinearOrder τ] [IsStrictOrderedRing τ] [FloorRing τ] in
theorem exists_first_codec (candidate : MediaCandidate τ) : ∃ codec, ∀ source ∈ candidate.sources.head?,
    ∀ declared ∈ declaredCodec source.videoCodec, normalizeCodec codec = normalizeCodec declared := by
  cases hfirst : candidate.sources.head?.bind fun source => declaredCodec source.videoCodec with
  | none =>
    refine ⟨"h264", fun source hsource declared hdeclared => ?_⟩
    rw [hsource, Option.bind_some, hdeclared] at hfirst
    cases hfirst
  | some codec =>
    refine ⟨codec, fun source hsource declared hdeclared => ?_⟩
    rw [hsource, Option.bind_some, hdeclared] at hfirst
    rw [Option.some.inj hfirst]

variable {request : MediaRequest τ} {candidate : MediaCandidate τ} {item : MediaItem τ}
  {command : List Arg} {sourceLength : τ} {checked : Probe τ → Prop} {P : Prop}

omit [IsStrictOrderedRing τ] [FloorRing τ] in
theorem muted_accepted (hmute : candidate.muxMode = some "mute-mp4")
    (hitems : candidate.items.length ≤ 1) (hcopy : option "-c:v" command = some (.value "copy"))
    (hsilent : option "-c:a" command = none)
    (hchecked : ∀ probe, Produced candidate command sourceLength probe → (checked probe ↔ P))
    (container : String) :
    (∀ probe, Produced candidate command sourceLength probe →
      validateStreamCodecs request candidate probe 0 container = .ok () ∧ checked probe) ↔
        CodecsAgree candidate item ∧ P := by
  have hagrees := muted_agrees request item hmute hitems container
  have hproduced : ∀ codec formatNames, (∀ source ∈ candidate.sources.head?, ∀ declared ∈
      declaredCodec source.videoCodec, normalizeCodec codec = normalizeCodec declared) →
      Produced candidate command sourceLength
        ⟨[codec], [], formatNames, some (cutDuration command sourceLength)⟩ :=
    fun codec _ hcodec => ⟨fun hne => absurd hcopy hne, fun _ => ⟨codec, rfl, hcodec⟩,
      by rw [hsilent]; rfl, rfl⟩
  constructor
  · intro hall
    refine ⟨hagrees.mp ?_, ?_⟩
    · rintro codec ⟨video, audio, formatNames, duration⟩ hcodec rfl rfl
      exact (hall _ (hproduced codec formatNames hcodec)).1
    · obtain ⟨codec, hcodec⟩ := exists_first_codec candidate
      exact (hchecked _ (hproduced codec [] hcodec)).mp (hall _ (hproduced codec [] hcodec)).2
  · rintro ⟨hagree, hp⟩ probe hprobe
    obtain ⟨codec, hvideo, hcodec⟩ := hprobe.copied hcopy
    have haudio : probe.audio = [] := by
      rw [hprobe.audio, hsilent]
      rfl
    exact ⟨hagrees.mpr hagree codec probe hcodec hvideo haudio, (hchecked probe hprobe).mpr hp⟩

omit [IsStrictOrderedRing τ] [FloorRing τ] in
theorem reencoded_accepted (hencoded : option "-c:v" command ≠ some (.value "copy"))
    (hcodecs : ∀ probe, Produced candidate command sourceLength probe →
      (validateStreamCodecs request candidate probe 0 (checkedContainer candidate item) = .ok () ↔
        CodecsAgree candidate item))
    (hchecked : ∀ probe, Produced candidate command sourceLength probe → (checked probe ↔ P)) :
    (∀ probe, Produced candidate command sourceLength probe →
      validateStreamCodecs request candidate probe 0 (checkedContainer candidate item) = .ok () ∧
        checked probe) ↔ CodecsAgree candidate item ∧ P := by
  constructor
  · intro hall
    have hproduced : Produced candidate command sourceLength ⟨encodedStream (option "-c:v" command),
        encodedStream (option "-c:a" command), [], some (cutDuration command sourceLength)⟩ :=
      ⟨fun _ => rfl, fun hcopy => absurd hcopy hencoded, rfl, rfl⟩
    exact ⟨(hcodecs _ hproduced).mp (hall _ hproduced).1, (hchecked _ hproduced).mp (hall _ hproduced).2⟩
  · rintro ⟨hagree, hp⟩ probe hprobe
    exact ⟨(hcodecs probe hprobe).mpr hagree, (hchecked probe hprobe).mpr hp⟩

omit [IsStrictOrderedRing τ] [FloorRing τ] in
theorem length_items (h : expectedItems request candidate = [item]) : candidate.items.length ≤ 1 := by
  unfold expectedItems at h
  split_ifs at h with hitems
  · rw [h, List.length_singleton]
  · simp [not_not.mp hitems]

/-- A clip of a candidate with one item, whose source lasts `sourceLength`, and the command of its
plan. -/
structure ClipPlan (isalnum : Char → Bool) (maxBytes : Nat) (inputs : List String)
    (outputName : String → String) (request : MediaRequest τ) (candidate : MediaCandidate τ)
    (item : MediaItem τ) (command : List Arg) (sourceLength : τ) : Prop where
  items : expectedItems request candidate = [item]
  mode : candidate.muxMode ∈ [none, some "copy", some "mute-mp4"]
  clip : clipRequested request = true
  plan : transformPlan isalnum maxBytes inputs outputName request candidate = .ok (some command)
  declared : ∀ duration ∈ declaredDuration candidate item, duration = sourceLength
  start : request.clip.start < sourceLength

/-- The checks of the codecs and the duration pass all that a command may write. -/
def Accepted (request : MediaRequest τ) (candidate : MediaCandidate τ) (item : MediaItem τ)
    (command : List Arg) (sourceLength : τ) : Prop :=
  ∀ probe, Produced candidate command sourceLength probe →
    validateTransformed request candidate item 0 probe = .ok ()

omit [IsStrictOrderedRing τ] [FloorRing τ] in
theorem validateTransformed_iff {probe : Probe τ} {itemIndex : Nat} :
    validateTransformed request candidate item itemIndex probe = .ok () ↔
      validateStreamCodecs request candidate probe itemIndex (checkedContainer candidate item) =
          .ok () ∧
        validateDuration request candidate item probe = .ok () ∧
          validateAudioFormat request probe = .ok () ∧ validateAnimation item probe = .ok () := by
  unfold validateTransformed
  simp only [both_ok]
  tauto

/-- The output of a clip is accepted exactly if the tables agree on the containers, the clip ends in
time, no MP3 is asked for, and an animation fits. -/
theorem plan_accepted_iff {isalnum : Char → Bool} {maxBytes : Nat} {inputs : List String}
    {outputName : String → String}
    (h : ClipPlan isalnum maxBytes inputs outputName request candidate item command sourceLength) :
    Accepted request candidate item command sourceLength ↔
      CodecsAgree candidate item ∧ EndsInTime request candidate sourceLength ∧
        ¬ Mp3Requested request ∧ AnimationFits request candidate item sourceLength := by
  obtain ⟨output, extension, rfl, hpositive, hextension⟩ := plan_spec h.plan h.mode h.clip
  -- the checks that do not go by the declared codecs
  have hchecked : ∀ probe : Probe τ,
      probe.duration = some (plannedLength request candidate sourceLength) →
      probe.audio = writtenSound candidate →
      ((validateDuration request candidate item probe = .ok () ∧
          validateAudioFormat request probe = .ok () ∧ validateAnimation item probe = .ok ()) ↔
        EndsInTime request candidate sourceLength ∧ ¬ Mp3Requested request ∧
          AnimationFits request candidate item sourceLength) := by
    intro probe hduration haudio
    have hnonneg : 0 ≤ plannedLength request candidate sourceLength :=
      plannedLength_nonneg hpositive
    rw [duration_agrees hduration hpositive h.declared h.start, validateAudioFormat_iff haudio,
      validateAnimation_iff hduration hnonneg, haudio, writtenSound_eq_nil, AnimationFits]
  unfold Accepted
  simp only [validateTransformed_iff]
  by_cases hmute : candidate.muxMode = some "mute-mp4"
  · have hsound : writtenSound candidate = [] := if_pos hmute
    rw [hmute, Option.getD_some]
    refine muted_accepted hmute (length_items h.items) muted_options.1 muted_options.2 ?_ _
    intro probe hprobe
    refine hchecked probe ?_ ?_
    · rw [hprobe.duration, cutDuration_framed]
    · rw [hprobe.audio, muted_options.2, hsound]
      rfl
  · have hmode : candidate.muxMode.getD "copy" ≠ "mute-mp4" ∧
        candidate.muxMode.getD "copy" ≠ "extract-mp3" := by
      have hlisted := h.mode
      simp only [List.mem_cons, List.not_mem_nil, or_false] at hlisted
      rcases hlisted with h | h | h
      · simp [h]
      · simp [h]
      · exact absurd h hmute
    have hmp3 : candidate.muxMode ≠ some "extract-mp3" := by
      intro heq
      exact hmode.2 (by rw [heq, Option.getD_some])
    obtain rfl := hextension hmute
    have hoption : ∀ name ∈ ["-c:v", "-c:a"], option name (framed maxBytes inputs output
        ((seekArguments request ++ limitArguments (limit request candidate)) ++
          streamArguments inputs request candidate (candidate.muxMode.getD "copy")
            ("." ++ containerName candidate))) =
        option name (reencodeArguments candidate ("." ++ containerName candidate) ++
          closing maxBytes output (containerName candidate)) :=
      fun name hname => reencoded_option (clipped_flags name hname) hname h.clip hmode
    have hstreams := reencoded_streams candidate
      (closing_options maxBytes output (containerName candidate)) (containerName candidate)
    refine reencoded_accepted ?_ (fun probe hprobe => ?_) fun probe hprobe => hchecked probe ?_ ?_
    · rw [hoption "-c:v" (by simp)]
      exact hstreams.1
    · exact reencoded_agrees hmute hmp3 h.clip hoption hprobe 0
    · rw [hprobe.duration, cutDuration_framed]
    · rw [hprobe.audio, hoption "-c:a" (by simp), writtenSound, if_neg hmute, ← hstreams.2]

end Acceptance

section Examples

/-- A clip from the tenth second on. -/
def clipUntil (finish : ℚ) (h : 10 ≤ finish) : MediaRequest ℚ where
  mediaId := "m"
  kind := .video
  clip :=
    { startSeconds := some 10
      endSeconds := some finish
      start_nonneg := by rintro start ⟨⟩; norm_num
      end_nonneg := by rintro finish' ⟨⟩; linarith
      ordered := by rintro start ⟨⟩ finish' ⟨⟩; exact h }
  audioFormat := none

/-- A minute of film, as a progressive stream. -/
def film (muxMode : String) (hasAudio : Bool) : MediaCandidate ℚ where
  candidateId := "18"
  url := "https://v/18"
  width := some 640
  height := some 360
  hasVideo := true
  hasAudio := hasAudio
  audioFormats := []
  audioLanguages := []
  container := some "mp4"
  filesizeBytes := none
  durationSeconds := some 60
  sources := [⟨"18", "https://v/18", some "avc1.42001E", some "mp4a.40.2", some "mp4", none, none, [],
    none, none⟩]
  complete := true
  muxMode := some muxMode
  refresh := none
  provider := some "ytdlp"
  mediaId := some "m"
  kind := some .video
  items := []
  authScope := "public"
  watermarkFree := none

def planOf (request : MediaRequest ℚ) (candidate : MediaCandidate ℚ) : List Arg :=
  match transformPlan Char.isAlphanum 1000 ["in"] id request candidate with
  | .ok (some command) => command
  | _ => []

theorem film_plan (finish : ℚ) (h : 10 ≤ finish) (muxMode : String) (hasAudio : Bool)
    (hmode : some muxMode ∈ [none, some "copy", some "mute-mp4"])
    (hplan : transformPlan Char.isAlphanum 1000 ["in"] id (clipUntil finish h) (film muxMode hasAudio) =
      .ok (some (planOf (clipUntil finish h) (film muxMode hasAudio)))) :
    ClipPlan Char.isAlphanum 1000 ["in"] id (clipUntil finish h) (film muxMode hasAudio)
      (candidateItem (clipUntil finish h) (film muxMode hasAudio))
        (planOf (clipUntil finish h) (film muxMode hasAudio)) 60 where
  items := rfl
  mode := hmode
  clip := rfl
  plan := hplan
  declared := by
    rintro duration ⟨⟩
    rfl
  start := by
    show (10 : ℚ) < 60
    norm_num

/-- A clip that ends in time is accepted. -/
theorem plan_accepted_in_time : Accepted (clipUntil 30 (by norm_num)) (film "copy" true)
    (candidateItem (clipUntil 30 (by norm_num)) (film "copy" true))
      (planOf (clipUntil 30 (by norm_num)) (film "copy" true)) 60 := by
  have hplan := film_plan 30 (by norm_num) "copy" true (by decide) (by decide +kernel)
  refine (plan_accepted_iff hplan).mpr ⟨?_, ?_, ?_, ?_⟩
  · unfold CodecsAgree
    decide +kernel
  · rintro finish ⟨⟩ hlate
    exact absurd hlate (by norm_num)
  · rintro ⟨hkind, -⟩
    cases hkind
  · intro hkind
    cases hkind

/-- A clip that goes on after its source, and an animation of a film with sound. -/
theorem plan_rejected :
    (ClipPlan Char.isAlphanum 1000 ["in"] id (clipUntil 100 (by norm_num)) (film "copy" true)
        (candidateItem (clipUntil 100 (by norm_num)) (film "copy" true))
          (planOf (clipUntil 100 (by norm_num)) (film "copy" true)) 60 ∧
      ¬ Accepted (clipUntil 100 (by norm_num)) (film "copy" true)
        (candidateItem (clipUntil 100 (by norm_num)) (film "copy" true))
          (planOf (clipUntil 100 (by norm_num)) (film "copy" true)) 60) ∧
    (ClipPlan Char.isAlphanum 1000 ["in"] id (clipUntil 30 (by norm_num)) (film "mute-mp4" false)
        (candidateItem (clipUntil 30 (by norm_num)) (film "mute-mp4" false))
          (planOf (clipUntil 30 (by norm_num)) (film "mute-mp4" false)) 60 ∧
      ¬ Accepted (clipUntil 30 (by norm_num)) (film "mute-mp4" false)
        (candidateItem (clipUntil 30 (by norm_num)) (film "mute-mp4" false))
          (planOf (clipUntil 30 (by norm_num)) (film "mute-mp4" false)) 60) := by
  refine ⟨⟨film_plan _ _ _ _ (by decide) (by decide +kernel), ?_⟩,
    ⟨film_plan _ _ _ _ (by decide) (by decide +kernel), ?_⟩⟩
  · intro haccepted
    have hpasses := haccepted ⟨["h264"], ["aac"], [], some 50⟩ ⟨fun _ => by decide +kernel,
      fun hcopy => absurd hcopy (by decide +kernel), by decide +kernel, by decide +kernel⟩
    revert hpasses
    decide +kernel
  · intro haccepted
    have hpasses := haccepted ⟨["h264"], [], [], some 20⟩ ⟨fun hencoded => absurd (by decide +kernel) hencoded,
      fun _ => ⟨"h264", rfl, by rintro source ⟨⟩ declared ⟨⟩; decide +kernel⟩, by decide +kernel,
      by decide +kernel⟩
    revert hpasses
    decide +kernel

end Examples

end YtdlBot.Transform
