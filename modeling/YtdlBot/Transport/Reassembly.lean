import YtdlBot.Transport.RangeResponse

/-!
# Reassembly of ranges

What an iteration that ends normally has yielded, which responses end it with `DownloadFailed`,
how many further ranges it asks for and how often each response is closed. The one gap is a
number too long for `int`, whose `ValueError` is not turned into `DownloadFailed`.
-/

namespace YtdlBot.Transport.RangeResponse

open Framework

/-- The range a response declares: first byte, last byte and total. -/
def declared (r : Response) : Option (Nat × Nat × Nat) :=
  if r.statusCode = 206 then
    (rangeGroups r).map fun g => (digitsValue g.1, digitsValue g.2.1, digitsValue g.2.2)
  else none

/-- `r` declares the range from `offset` to `stop` of the medium that `first` began. -/
structure Fits (first r : Response) (offset stop total : Nat) : Prop where
  declared : declared r = some (offset, stop, total)
  within : offset ≤ stop ∧ stop < total
  total : ∃ start last, RangeResponse.declared first = some (start, last, total)
  etag : ∀ e, header first.headers "etag" = some e → header r.headers "etag" = some e
  modified : ∀ m, header first.headers "last-modified" = some m →
    header r.headers "last-modified" = some m

/-- The parts declare, in order and without gap or overlap, the bytes from `start` to `stop`, and
each body has the declared length. -/
def Covers (first : Response) (total : Nat) : Nat → List Part → Nat → Prop
  | start, [], stop => start = stop
  | start, p :: ps, stop =>
    ∃ last, Fits first p.response start last total ∧ p.body.length = last + 1 - start ∧
      Covers first total (last + 1) ps stop

def bodies (ps : List Part) : List UInt8 := (ps.map Part.body).flatten

/-- So far nothing is wrong with a response at `offset` and its body. -/
def Sound (first : Response) (offset : Nat) (p : Part) : Prop :=
  ∃ stop total, Fits first p.response offset stop total ∧ p.body.length ≤ stop + 1 - offset ∧
    (p.complete = true → p.body.length = stop + 1 - offset)

/-- Range reassembly is exact. -/
structure Reassembled (first : Response) (s : RangeResponse) : Prop where
  finished : s.phase = .ended .finished →
    ∃ start last total, declared first = some (start, last, total) ∧
      Covers first total 0 s.opened total ∧ s.yielded = bodies s.opened
  refused : ∀ before p after, s.opened = before ++ p :: after →
    ¬ Sound first (bodies before).length p →
    ∃ message, s.phase = .ended (.failed (.downloadFailed message))
  requests : ∀ total, s.total = some total → s.requests.length < total
  closed : s.closed = true → ∀ p ∈ s.opened, p.closes = 1

/-- `_range` gets as far as the conversion of a number too long for `int`, in a response that
does not continue the medium at `offset`. -/
structure Unreadable (first : Response) (offset : Nat) (r : Response) : Prop where
  plain : ¬ encoded r
  status : r.statusCode = 206
  etag : ¬ validatorChanged (header first.headers "etag") r "etag"
  modified : ¬ validatorChanged (header first.headers "last-modified") r "last-modified"
  overlong : ∃ g, rangeGroups r = some g ∧ (maxStrDigits < g.1.length ∨
    maxStrDigits < g.2.1.length ∨ maxStrDigits < g.2.2.length)
  misfit : ¬ ∃ stop total, Fits first r offset stop total

section Coverage

variable {first : Response} {total a b c : Nat} {p : Part} {ps qs : List Part}

theorem covers_append : Covers first total a (ps ++ qs) c ↔
    ∃ b, Covers first total a ps b ∧ Covers first total b qs c := by
  induction ps generalizing a with
  | nil =>
    constructor
    · intro h
      exact ⟨a, rfl, h⟩
    · rintro ⟨b, rfl, h⟩
      exact h
  | cons p ps ih =>
    constructor
    · rintro ⟨last, hfits, hlength, h⟩
      obtain ⟨b, hps, hqs⟩ := ih.mp h
      exact ⟨b, ⟨last, hfits, hlength, hps⟩, hqs⟩
    · rintro ⟨b, ⟨last, hfits, hlength, hps⟩, hqs⟩
      exact ⟨last, hfits, hlength, ih.mpr ⟨b, hps, hqs⟩⟩

@[simp] theorem bodies_append : bodies (ps ++ qs) = bodies ps ++ bodies qs := by
  simp [bodies]

@[simp] theorem bodies_singleton : bodies [p] = p.body := by
  simp [bodies]

theorem covers_length (h : Covers first total a ps b) : a + (bodies ps).length = b := by
  induction ps generalizing a with
  | nil => exact h
  | cons p ps ih =>
    obtain ⟨last, hfits, hlength, hrest⟩ := h
    have hwithin := hfits.within
    have htail := ih hrest
    have hsplit : (bodies (p :: ps)).length = p.body.length + (bodies ps).length := by
      simp [bodies]
    omega

theorem covers_count (h : Covers first total a ps b) : a + ps.length ≤ b := by
  induction ps generalizing a with
  | nil => exact Nat.le_of_eq h
  | cons p ps ih =>
    obtain ⟨last, hfits, -, hrest⟩ := h
    have hwithin := hfits.within
    have htail := ih hrest
    rw [List.length_cons]
    omega

theorem covers_sound {before after : List Part}
    (h : Covers first total 0 (before ++ p :: after) c) :
    Sound first (bodies before).length p := by
  obtain ⟨b, hbefore, last, hfits, hlength, -⟩ := covers_append.mp h
  have hoffset := covers_length hbefore
  rw [Nat.zero_add] at hoffset
  rw [hoffset]
  exact ⟨last, total, hfits, Nat.le_of_eq hlength, fun _ => hlength⟩

theorem Sound.readable {offset : Nat} (h : Sound first offset p) :
    ¬ Unreadable first offset p.response := by
  intro hbad
  obtain ⟨stop, total, hfits, -⟩ := h
  exact hbad.misfit ⟨stop, total, hfits⟩

end Coverage

section Range

variable {s : RangeResponse} {first r : Response} {offset : Nat}

/-- What the stream remembers is what its first response said. -/
structure Remembers (first : Response) (s : RangeResponse) : Prop where
  etag : s.etag = header first.headers "etag"
  modified : s.modified = header first.headers "last-modified"
  total : ∀ total, s.total = some total →
    ∃ start last, declared first = some (start, last, total)

theorem declared_eq {g : List Char × List Char × List Char} (hstatus : r.statusCode = 206)
    (hgroups : rangeGroups r = some g) :
    declared r = some (digitsValue g.1, digitsValue g.2.1, digitsValue g.2.2) := by
  unfold declared
  rw [if_pos hstatus, hgroups, Option.map_some]

theorem kept_of_not_changed {validator : Option String} {name : String}
    (h : ¬ validatorChanged validator r name) (e : String) (he : validator = some e) :
    header r.headers name = some e := by
  by_contra hne
  exact h ⟨by simp [he], by rwa [he]⟩

theorem not_changed (hs : Remembers first s) (hfirst : s.total = none → r = first)
    (h : ¬ (s.total ≠ none ∧ (validatorChanged s.etag r "etag" ∨
      validatorChanged s.modified r "last-modified"))) :
    ¬ validatorChanged (header first.headers "etag") r "etag" ∧
      ¬ validatorChanged (header first.headers "last-modified") r "last-modified" := by
  by_cases htotal : s.total = none
  · obtain rfl := hfirst htotal
    exact ⟨fun hc => hc.2 rfl, fun hc => hc.2 rfl⟩
  · rw [← hs.etag, ← hs.modified]
    exact not_or.mp fun hc => h ⟨htotal, hc⟩

theorem range_ok {start stop total : Nat} (hs : Remembers first s)
    (hfirst : s.total = none → r = first) (h : s.range r offset = .ok (start, stop, total)) :
    start = offset ∧ Fits first r offset stop total ∧ ∀ t, s.total = some t → t = total := by
  unfold range at h
  split at h
  · cases h
  split at h
  · cases h
  rename_i hchanged
  split at h
  · cases h
  rename_i d e f hgroups
  split at h
  · cases h
  rename_i hstatus
  split at h
  case h_2 => cases h
  rename_i start' stop' total' hstart hstop htotal
  split at h
  · cases h
  rename_i hok
  simp only [Except.ok.injEq, Prod.mk.injEq] at h
  obtain ⟨rfl, rfl, rfl⟩ := h
  push Not at hok
  obtain ⟨rfl, hwithin, -, hsame⟩ := hok
  obtain ⟨hetag, hmodified⟩ := not_changed hs hfirst hchanged
  have hdeclared : declared r = some (start', stop', total') := by
    rw [declared_eq (not_not.mp hstatus) hgroups, (intOfDigits_eq_some hstart).2,
      (intOfDigits_eq_some hstop).2, (intOfDigits_eq_some htotal).2]
  have htotal' : ∀ t, s.total = some t → t = total' := by
    intro t ht
    have h := hsame (by simp [ht])
    rw [ht] at h
    exact Option.some.inj h
  refine ⟨rfl, ⟨hdeclared, hwithin, ?_, kept_of_not_changed hetag,
    kept_of_not_changed hmodified⟩, htotal'⟩
  cases ht : s.total with
  | none =>
    obtain rfl := hfirst ht
    exact ⟨_, _, hdeclared⟩
  | some t =>
    obtain rfl := htotal' t ht
    exact hs.total t ht

theorem range_error {failure : Failure} (hs : Remembers first s)
    (hfirst : s.total = none → r = first) (h : s.range r offset = .error failure) :
    ((∃ message, failure = .downloadFailed message) ∧ ¬ Unreadable first offset r) ∨
    (failure = .valueError ∧
      ((∃ stop total, Fits first r offset stop total) ∨ Unreadable first offset r)) := by
  unfold range at h
  split at h
  · rename_i hencoded
    cases h
    exact .inl ⟨⟨_, rfl⟩, fun hbad => hbad.plain hencoded⟩
  rename_i hplain
  split at h
  · rename_i hchanged
    cases h
    refine .inl ⟨⟨_, rfl⟩, fun hbad => ?_⟩
    rw [hs.etag, hs.modified] at hchanged
    rcases hchanged.2 with hetag | hmodified
    · exact hbad.etag hetag
    · exact hbad.modified hmodified
  rename_i hchanged
  split at h
  · rename_i hgroups
    cases h
    refine .inl ⟨⟨_, rfl⟩, fun hbad => ?_⟩
    obtain ⟨g, hg, -⟩ := hbad.overlong
    rw [hgroups] at hg
    cases hg
  rename_i d e f hgroups
  split at h
  · rename_i hstatus
    cases h
    exact .inl ⟨⟨_, rfl⟩, fun hbad => hstatus hbad.status⟩
  rename_i hstatus
  split at h
  · rename_i start stop total hstart hstop htotal
    split at h
    case isFalse => cases h
    cases h
    refine .inl ⟨⟨_, rfl⟩, fun hbad => ?_⟩
    obtain ⟨g, hg, hlong⟩ := hbad.overlong
    rw [hgroups, Option.some.injEq] at hg
    obtain rfl := hg
    have hd := (intOfDigits_eq_some hstart).1
    have he := (intOfDigits_eq_some hstop).1
    have hf := (intOfDigits_eq_some htotal).1
    simp only at hlong
    omega
  · rename_i hnone
    cases h
    refine .inr ⟨rfl, ?_⟩
    by_cases hfits : ∃ stop total, Fits first r offset stop total
    · exact .inl hfits
    · obtain ⟨hetag, hmodified⟩ := not_changed hs hfirst hchanged
      refine .inr ⟨hplain, not_not.mp hstatus, hetag, hmodified, ⟨_, hgroups, ?_⟩, hfits⟩
      by_contra hshort
      simp only [not_or, Nat.not_lt] at hshort
      obtain ⟨hd, he, hf⟩ := hshort
      exact hnone _ _ _ (if_pos hd) (if_pos he) (if_pos hf)

end Range

section Runs

variable {s s' : RangeResponse} {first : Response} {p : Part}

/-- The last response opened, under the way the iteration went on. -/
def Verdict (first : Response) (phase : Phase) (offset : Nat) (p : Part) : Prop :=
  Sound first offset p ∨
    ((∃ message, phase = .ended (.failed (.downloadFailed message))) ∧
      ¬ Unreadable first offset p.response) ∨
    (phase = .ended (.failed .valueError) ∧ Unreadable first offset p.response)

/-- The responses before the last one cover an interval, and the last one has its verdict. -/
def Judged (first : Response) (s : RangeResponse) : Prop :=
  ∃ before last offset total, s.opened = before ++ Option.toList last ∧
    (∀ p, s.active = some p → last = some p) ∧ Covers first total 0 before offset ∧
    ∀ p, last = some p → Verdict first s.phase offset p

/-- What is true at each point of the iteration. -/
def Stage (first : Response) (s : RangeResponse) : Prop :=
  match s.phase with
  | .fresh =>
    s.active = some ⟨first, [], false, 0⟩ ∧ s.earlier = [] ∧ s.yielded = [] ∧ s.requests = [] ∧
      ∃ stop total, s.total = some total ∧ Fits first first 0 stop total
  | .passing => False
  | .reading start stop total received =>
    s.total = some total ∧ s.yielded = bodies s.opened ∧ s.requests.length = s.earlier.length ∧
      Covers first total 0 s.earlier start ∧
      ∃ p, s.active = some p ∧ p.complete = false ∧ p.body.length = received ∧
        received ≤ stop + 1 - start ∧ Fits first p.response start stop total
  | .closing offset total =>
    s.total = some total ∧ s.yielded = bodies s.opened ∧
      s.requests.length + 1 = s.earlier.length ∧ s.active = none ∧
      Covers first total 0 s.earlier offset ∧ offset ≤ total
  | .opening offset =>
    s.yielded = bodies s.opened ∧ s.requests.length = s.earlier.length ∧ s.active = none ∧
      ∃ total, s.total = some total ∧ Covers first total 0 s.earlier offset
  | .ended .finished =>
    s.yielded = bodies s.opened ∧ s.active = none ∧
      ∃ total, s.total = some total ∧ Covers first total 0 s.earlier total
  | .ended _ => Judged first s

structure Inv (first : Response) (s : RangeResponse) : Prop where
  status : s.statusCode = 206
  remembers : Remembers first s
  stage : Stage first s
  requests : ∀ total, s.total = some total → s.requests.length < total
  closes : (∀ p ∈ s.earlier, p.closes = 1) ∧ ∀ p, s.active = some p → p.closes = 0
  closed : s.closed = true → s.active = none ∧ ∃ ending, s.phase = .ended ending

/-- At every point of a run the responses before the last one are sound. -/
theorem Stage.judged (h : Stage first s) : Judged first s := by
  have hlast : ∀ {p : Part} {offset total : Nat}, s.active = some p →
      Covers first total 0 s.earlier offset → Sound first offset p → Judged first s := by
    intro p offset total hactive hcovers hsound
    refine ⟨s.earlier, some p, offset, total, by rw [opened, hactive], ?_, hcovers, ?_⟩
    · intro q hq
      rw [← hactive, hq]
    · intro q hq
      obtain rfl := Option.some.inj hq
      exact .inl hsound
  have hnone : ∀ {offset total : Nat}, s.active = none →
      Covers first total 0 s.earlier offset → Judged first s := by
    intro offset total hactive hcovers
    refine ⟨s.earlier, none, offset, total, by rw [opened, hactive], ?_, hcovers, ?_⟩
    · intro q hq
      rw [hactive] at hq
      cases hq
    · intro q hq
      cases hq
  unfold Stage at h
  split at h
  · obtain ⟨hactive, hearlier, -, -, stop, total, -, hfits⟩ := h
    have hcovers : Covers first total 0 s.earlier 0 := by rw [hearlier]; rfl
    exact hlast hactive hcovers ⟨stop, total, hfits, Nat.zero_le _, fun hc => by cases hc⟩
  · cases h
  · obtain ⟨-, -, -, hcovers, p, hactive, hopen, hlength, hle, hfits⟩ := h
    refine hlast hactive hcovers ⟨_, _, hfits, hlength ▸ hle, fun hc => ?_⟩
    rw [hopen] at hc
    cases hc
  · obtain ⟨-, -, -, hactive, hcovers, -⟩ := h
    exact hnone hactive hcovers
  · obtain ⟨-, -, hactive, total, -, hcovers⟩ := h
    exact hnone hactive hcovers
  · obtain ⟨-, hactive, total, -, hcovers⟩ := h
    exact hnone hactive hcovers
  · exact h

theorem stage_ended {ending : Ending} (hphase : s.phase = .ended ending)
    (hending : ending ≠ .finished) : Stage first s ↔ Judged first s := by
  unfold Stage
  rw [hphase]
  cases ending with
  | finished => exact absurd rfl hending
  | failed failure => rfl
  | abandoned => rfl

theorem stage_of_eq (h : Stage first s) (hs' : s' = { s with closed := s'.closed }) :
    Stage first s' := by
  rw [hs']
  exact h

theorem Judged.interrupted (h : Judged first s) (hrunning : ∀ ending, s.phase ≠ .ended ending)
    (phase : Phase) : Judged first { s with phase := phase } := by
  obtain ⟨before, last, offset, total, hsplit, hactive, hcovers, hverdict⟩ := h
  refine ⟨before, last, offset, total, hsplit, hactive, hcovers, ?_⟩
  intro p hp
  rcases hverdict p hp with hsound | ⟨⟨message, hphase⟩, -⟩ | ⟨hphase, -⟩
  · exact .inl hsound
  · exact absurd hphase (hrunning _)
  · exact absurd hphase (hrunning _)

theorem Judged.closeActive (h : Judged first s) : Judged first s.closeActive := by
  unfold RangeResponse.closeActive
  split
  · exact h
  · rename_i p hp
    obtain ⟨before, last, offset, total, hsplit, hactive, hcovers, hverdict⟩ := h
    obtain rfl := hactive p hp
    have hbefore : s.earlier = before := by
      rw [opened, hp] at hsplit
      exact List.append_cancel_right hsplit
    refine ⟨before, some { p with closes := p.closes + 1 }, offset, total, ?_, ?_, hcovers, ?_⟩
    · simp [opened, hbefore]
    · intro q hq
      cases hq
    · intro q hq
      obtain rfl := Option.some.inj hq
      exact hverdict p rfl

theorem closes_closeActive
    (h : (∀ p ∈ s.earlier, p.closes = 1) ∧ ∀ p, s.active = some p → p.closes = 0) :
    s.closeActive.active = none ∧ ∀ p ∈ s.closeActive.earlier, p.closes = 1 := by
  unfold RangeResponse.closeActive
  split
  · rename_i hnone
    exact ⟨hnone, h.1⟩
  · rename_i p hp
    refine ⟨rfl, ?_⟩
    intro q hq
    rcases List.mem_append.mp hq with hq | hq
    · exact h.1 q hq
    · obtain rfl := List.mem_singleton.mp hq
      have hopen := h.2 p hp
      show p.closes + 1 = 1
      omega

theorem Inv.running (h : Inv first s) (hrunning : ∀ ending, s.phase ≠ .ended ending) :
    s.closed = false := by
  by_contra hclosed
  obtain ⟨-, ending, hphase⟩ := h.closed (by simpa using hclosed)
  exact hrunning ending hphase

theorem Inv.moved (h : Inv first s) (hrunning : ∀ ending, s.phase ≠ .ended ending)
    {active : Option Part} {earlier : List Part} {yielded : List UInt8} {phase : Phase}
    (hcloses : (∀ p ∈ earlier, p.closes = 1) ∧ ∀ p, active = some p → p.closes = 0)
    (hstage : Stage first
      { s with active := active, earlier := earlier, yielded := yielded, phase := phase }) :
    Inv first
      { s with active := active, earlier := earlier, yielded := yielded, phase := phase } := by
  constructor
  case status => exact h.status
  case remembers => exact ⟨h.remembers.etag, h.remembers.modified, h.remembers.total⟩
  case stage => exact hstage
  case requests => exact h.requests
  case closes => exact hcloses
  case closed =>
    intro hclosed
    have hopen := h.running hrunning
    cases hopen.symm.trans hclosed

theorem verdict_range {r : Response} {offset : Nat} {failure : Failure} (hs : Remembers first s)
    (hfirst : s.total = none → r = first) (hrange : s.range r offset = .error failure) :
    Verdict first (.ended (.failed failure)) offset ⟨r, [], false, 0⟩ := by
  rcases range_error hs hfirst hrange with ⟨⟨message, rfl⟩, hreadable⟩ | ⟨rfl, hrest⟩
  · exact .inr (.inl ⟨⟨message, rfl⟩, hreadable⟩)
  · rcases hrest with ⟨stop, total, hfits⟩ | hbad
    · exact .inl ⟨stop, total, hfits, Nat.zero_le _, fun hc => by cases hc⟩
    · exact .inr (.inr ⟨rfl, hbad⟩)

theorem stage_enter {r : Response} {offset total : Nat} (hs : Remembers first s)
    (htotal : s.total = some total) (hyielded : s.yielded = bodies s.opened)
    (hrequests : s.requests.length = s.earlier.length)
    (hcovers : Covers first total 0 s.earlier offset)
    (hactive : s.active = some ⟨r, [], false, 0⟩) : Stage first (s.enter r offset) := by
  have hfirst : s.total = none → r = first := by
    intro hnone
    rw [hnone] at htotal
    cases htotal
  unfold enter
  split
  · rename_i start stop total' hrange
    obtain ⟨rfl, hfits, hsame⟩ := range_ok hs hfirst hrange
    obtain rfl := hsame total htotal
    exact ⟨htotal, hyielded, hrequests, hcovers, _, hactive, rfl, rfl, Nat.zero_le _, hfits⟩
  · rename_i failure hrange
    have hjudged : Judged first { s with phase := .ended (.failed failure) } := by
      refine ⟨s.earlier, some ⟨r, [], false, 0⟩, offset, total, ?_, ?_, hcovers, ?_⟩
      · show s.earlier ++ s.active.toList = _
        rw [hactive]
      · intro q hq
        exact hactive.symm.trans hq
      · intro q hq
        obtain rfl := Option.some.inj hq
        exact verdict_range hs hfirst hrange
    exact hjudged

theorem remembers_unchecked (first : Response) (rangeSize : Int) : Remembers first (unchecked rangeSize first) := by
  refine ⟨rfl, rfl, ?_⟩
  intro total htotal
  cases htotal

theorem inv_init {rangeSize : Int} (hstatus : first.statusCode = 206) :
    Inv first (init rangeSize first) := by
  have hs := remembers_unchecked first rangeSize
  have hcloses : (∀ p ∈ (unchecked rangeSize first).earlier, p.closes = 1) ∧
      ∀ p, (unchecked rangeSize first).active = some p → p.closes = 0 := by
    refine ⟨fun p hp => absurd hp List.not_mem_nil, ?_⟩
    intro p hp
    obtain rfl := Option.some.inj hp
    rfl
  unfold init
  dsimp only
  rw [if_pos hstatus]
  split
  · rename_i start stop total hrange
    obtain ⟨rfl, hfits, -⟩ := range_ok hs (fun _ => rfl) hrange
    have hwithin := hfits.within
    constructor
    case status => exact hstatus
    case remembers =>
      refine ⟨rfl, rfl, ?_⟩
      intro t ht
      obtain rfl := Option.some.inj ht
      exact hfits.total
    case stage => exact ⟨rfl, rfl, rfl, rfl, stop, total, rfl, hfits⟩
    case requests =>
      intro t ht
      obtain rfl := Option.some.inj ht
      show 0 < total
      omega
    case closes => exact hcloses
    case closed =>
      intro hclosed
      cases hclosed
  · rename_i failure hrange
    constructor
    case status => exact hstatus
    case remembers => exact ⟨hs.etag, hs.modified, hs.total⟩
    case stage =>
      have hjudged : Judged first
          { unchecked rangeSize first with phase := .ended (.failed failure) } := by
        refine ⟨[], some ⟨first, [], false, 0⟩, 0, 0, rfl, fun p hp => hp, rfl, ?_⟩
        intro p hp
        obtain rfl := Option.some.inj hp
        exact verdict_range hs (fun _ => rfl) hrange
      exact hjudged
    case requests =>
      intro t ht
      cases ht
    case closes => exact hcloses
    case closed =>
      intro hclosed
      cases hclosed

theorem closes_some {q : Part} (hq : q.closes = 0) :
    ∀ p, some q = some p → p.closes = 0 := by
  intro p hp
  obtain rfl := Option.some.inj hp
  exact hq

theorem judged_refused {start stop total : Nat} {message : String}
    (hcovers : Covers first total 0 s.earlier start) (hactive : s.active = some p)
    (hfits : Fits first p.response start stop total)
    (hphase : s.phase = .ended (.failed (.downloadFailed message))) : Judged first s := by
  refine ⟨s.earlier, some p, start, total, by rw [opened, hactive], ?_, hcovers, ?_⟩
  · intro q hq
    exact hactive.symm.trans hq
  · intro q hq
    obtain rfl := Option.some.inj hq
    exact .inr (.inl ⟨⟨message, hphase⟩, fun hbad => hbad.misfit ⟨stop, total, hfits⟩⟩)

theorem inv_chunk (h : Inv first s) {start stop total received : Nat} {bytes : List UInt8}
    (hphase : s.phase = .reading start stop total received) (hp : s.active = some p) :
    Inv first (s.chunk p bytes) := by
  have hrunning : ∀ ending, s.phase ≠ .ended ending := by simp [hphase]
  have hstage := h.stage
  unfold Stage at hstage
  rw [hphase] at hstage
  obtain ⟨htotal, hyielded, hrequests, hcovers, q, hq, hincomplete, hlength, hle, hfits⟩ := hstage
  obtain rfl := Option.some.inj (hp.symm.trans hq)
  have hcloses := closes_some (q := { p with body := p.body ++ bytes }) (h.closes.2 p hp)
  have hwithin := hfits.within
  unfold chunk
  rw [hphase]
  dsimp only
  split
  · have hjudged := judged_refused
      (s := { s with
        active := some { p with body := p.body ++ bytes }
        phase := .ended (.failed (.downloadFailed "media range exceeded declared bytes")) })
      hcovers rfl hfits rfl
    exact h.moved hrunning ⟨h.closes.1, hcloses⟩ hjudged
  · rename_i hroom
    have hgrown : s.yielded ++ bytes =
        bodies (s.earlier ++ [{ p with body := p.body ++ bytes }]) := by
      rw [hyielded, opened, hp]
      simp
    refine h.moved hrunning ⟨h.closes.1, hcloses⟩ ⟨htotal, hgrown, hrequests, hcovers, _, rfl,
      hincomplete, ?_, by omega, hfits⟩
    show (p.body ++ bytes).length = received + bytes.length
    rw [List.length_append, hlength]

theorem inv_bodyEnd (h : Inv first s) {start stop total received : Nat}
    (hphase : s.phase = .reading start stop total received) (hp : s.active = some p) :
    Inv first (s.bodyEnd p) := by
  have hrunning : ∀ ending, s.phase ≠ .ended ending := by simp [hphase]
  have hstage := h.stage
  unfold Stage at hstage
  rw [hphase] at hstage
  obtain ⟨htotal, hyielded, hrequests, hcovers, q, hq, hincomplete, hlength, hle, hfits⟩ := hstage
  obtain rfl := Option.some.inj (hp.symm.trans hq)
  have hzero := h.closes.2 p hp
  have hwithin := hfits.within
  unfold bodyEnd
  rw [hphase]
  dsimp only
  split
  · have hjudged := judged_refused
      (s := { s with
        active := some { p with complete := true }
        phase := .ended (.failed (.downloadFailed "media range was truncated")) })
      hcovers rfl hfits rfl
    exact h.moved hrunning
      ⟨h.closes.1, closes_some (q := { p with complete := true }) hzero⟩ hjudged
  · rename_i hwhole
    have hfull : p.body.length = stop + 1 - start := by
      have hreceived := not_not.mp hwhole
      omega
    have hread : s.yielded = bodies
        (s.earlier ++ [{ p with complete := true, closes := p.closes + 1 }] ++ []) := by
      rw [hyielded, opened, hp]
      simp
    have hcloses : ∀ q ∈ s.earlier ++ [{ p with complete := true, closes := p.closes + 1 }],
        q.closes = 1 := by
      intro q hq
      rcases List.mem_append.mp hq with hq | hq
      · exact h.closes.1 q hq
      · obtain rfl := List.mem_singleton.mp hq
        show p.closes + 1 = 1
        omega
    have hcount : s.requests.length + 1 = (s.earlier ++
        [{ p with complete := true, closes := p.closes + 1 }]).length := by
      rw [List.length_append, List.length_singleton, hrequests]
    exact h.moved hrunning ⟨hcloses, fun q hq => by cases hq⟩ ⟨htotal, hread, hcount, rfl,
      covers_append.mpr ⟨start, hcovers, stop, hfits, hfull, rfl⟩, by omega⟩

theorem inv_responseClosed (h : Inv first s) {offset total : Nat}
    (hphase : s.phase = .closing offset total) (interval : Int × Int) :
    (total ≤ offset → Inv first { s with phase := .ended .finished }) ∧
    (offset < total →
      Inv first { s with requests := s.requests ++ [interval], phase := .opening offset }) := by
  have hrunning : ∀ ending, s.phase ≠ .ended ending := by simp [hphase]
  have hstage := h.stage
  unfold Stage at hstage
  rw [hphase] at hstage
  obtain ⟨htotal, hyielded, hrequests, hactive, hcovers, hle⟩ := hstage
  constructor
  · intro hdone
    obtain rfl : offset = total := by omega
    exact h.moved hrunning h.closes ⟨hyielded, hactive, offset, htotal, hcovers⟩
  · intro hmore
    have hcount := covers_count hcovers
    have hopen := h.running hrunning
    have hasked : (s.requests ++ [interval]).length = s.earlier.length := by
      rw [List.length_append, List.length_singleton, hrequests]
    constructor
    case status => exact h.status
    case remembers => exact ⟨h.remembers.etag, h.remembers.modified, h.remembers.total⟩
    case stage => exact ⟨hyielded, hasked, hactive, total, htotal, hcovers⟩
    case requests =>
      intro t ht
      obtain rfl := Option.some.inj (htotal.symm.trans ht)
      show (s.requests ++ [interval]).length < total
      omega
    case closes => exact h.closes
    case closed =>
      intro hclosed
      cases hopen.symm.trans hclosed

theorem inv_close (h : Inv first s) {ending : Ending} (hphase : s.phase = .ended ending) :
    Inv first { s.closeActive with closed := true } := by
  obtain ⟨hnone, hcloses⟩ := closes_closeActive h.closes
  constructor
  case status => exact (closeActive_statusCode s).trans h.status
  case remembers =>
    refine ⟨(closeActive_etag s).trans h.remembers.etag,
      (closeActive_modified s).trans h.remembers.modified, ?_⟩
    intro total htotal
    exact h.remembers.total total ((closeActive_total s).symm.trans htotal)
  case stage =>
    by_cases hending : ending = .finished
    · have hstage := h.stage
      unfold Stage at hstage
      rw [hphase, hending] at hstage
      have hsame : s.closeActive = s := by
        unfold closeActive
        rw [hstage.2.1]
      rw [hsame]
      exact stage_of_eq h.stage rfl
    · have hjudged := ((stage_ended hphase hending).mp h.stage).closeActive
      have hphase' := (closeActive_phase s).trans hphase
      exact stage_of_eq ((stage_ended hphase' hending).mpr hjudged) rfl
  case requests =>
    intro total htotal
    rw [show ({ s.closeActive with closed := true } : RangeResponse).requests = s.requests from
      closeActive_requests s]
    exact h.requests total ((closeActive_total s).symm.trans htotal)
  case closes => exact ⟨hcloses, fun p hp => by cases hnone.symm.trans hp⟩
  case closed => exact fun _ => ⟨hnone, ending, (closeActive_phase s).trans hphase⟩

theorem Inv.not_passing (h : Inv first s) : s.phase ≠ .passing := by
  intro hphase
  have hstage := h.stage
  unfold Stage at hstage
  rw [hphase] at hstage
  exact hstage

/-- `_range` decides how the iteration goes on with the response it holds. -/
theorem inv_enter (h : Inv first s) (hrunning : ∀ ending, s.phase ≠ .ended ending)
    {active : Option Part} (hactive : ∀ p, active = some p → p.closes = 0) {r : Response}
    {offset : Nat} (hstage : Stage first (enter { s with active := active } r offset)) :
    Inv first (enter { s with active := active } r offset) := by
  unfold enter at hstage ⊢
  split
  · rename_i hrange
    rw [hrange] at hstage
    exact h.moved hrunning ⟨h.closes.1, hactive⟩ hstage
  · rename_i hrange
    rw [hrange] at hstage
    exact h.moved hrunning ⟨h.closes.1, hactive⟩ hstage

theorem inv_start (h : Inv first s) (hphase : s.phase = .fresh) (hp : s.active = some p) :
    Inv first (s.enter p.response 0) := by
  have hstage := h.stage
  unfold Stage at hstage
  rw [hphase] at hstage
  obtain ⟨hactive, hearlier, hyielded, hrequests, stop, total, htotal, hfits⟩ := hstage
  obtain rfl := Option.some.inj (hp.symm.trans hactive)
  have hcovers : Covers first total 0 s.earlier 0 := by rw [hearlier]; rfl
  have hcount : s.requests.length = s.earlier.length := by rw [hrequests, hearlier]; rfl
  have hempty : s.yielded = bodies s.opened := by
    rw [hyielded, opened, hearlier, hactive]
    rfl
  exact inv_enter h (by simp [hphase]) h.closes.2
    (stage_enter h.remembers htotal hempty hcount hcovers hactive)

theorem inv_opened (h : Inv first s) {offset : Nat} {r : Response}
    (hphase : s.phase = .opening offset) :
    Inv first (enter { s with active := some ⟨r, [], false, 0⟩ } r offset) := by
  have hstage := h.stage
  unfold Stage at hstage
  rw [hphase] at hstage
  obtain ⟨hyielded, hrequests, hactive, total, htotal, hcovers⟩ := hstage
  have hremembers : Remembers first { s with active := some ⟨r, [], false, 0⟩ } :=
    ⟨h.remembers.etag, h.remembers.modified, h.remembers.total⟩
  have hunread : s.yielded = bodies (s.earlier ++ [⟨r, [], false, 0⟩]) := by
    rw [hyielded, opened, hactive]
    simp
  exact inv_enter h (by simp [hphase]) (closes_some rfl)
    (stage_enter hremembers htotal hunread hrequests hcovers rfl)

theorem inv_step {a : Action} (h : Inv first s) (hs : s.step a = some s') : Inv first s' := by
  cases a with
  | start =>
    simp only [step] at hs
    split at hs
    case h_2 => cases hs
    rename_i p hphase hp
    rw [if_neg (not_not.mpr h.status)] at hs
    obtain rfl := Option.some.inj hs
    exact inv_start h hphase hp
  | chunk bytes =>
    simp only [step] at hs
    split at hs
    · rename_i p hphase hp
      exact absurd hphase h.not_passing
    · rename_i p start stop total received hphase hp
      obtain rfl := Option.some.inj hs
      exact inv_chunk h hphase hp
    · cases hs
  | bodyEnd =>
    simp only [step] at hs
    split at hs
    · rename_i p hphase hp
      exact absurd hphase h.not_passing
    · rename_i p start stop total received hphase hp
      obtain rfl := Option.some.inj hs
      exact inv_bodyEnd h hphase hp
    · cases hs
  | responseClosed =>
    simp only [step] at hs
    split at hs
    case h_2 => cases hs
    rename_i offset total hphase
    split at hs
    · rename_i hdone
      obtain rfl := Option.some.inj hs
      exact (inv_responseClosed h hphase (0, 0)).1 hdone
    · rename_i hmore
      obtain rfl := Option.some.inj hs
      exact (inv_responseClosed h hphase _).2 (Nat.lt_of_not_le hmore)
  | opened response =>
    simp only [step] at hs
    split at hs
    case h_2 => cases hs
    rename_i offset hphase
    obtain rfl := Option.some.inj hs
    exact inv_opened h hphase
  | fail =>
    simp only [step] at hs
    split at hs
    · cases hs
    · cases hs
    · rename_i hfresh hended
      obtain rfl := Option.some.inj hs
      have hjudged := h.stage.judged.interrupted hended (.ended (.failed .raised))
      exact h.moved hended h.closes hjudged
  | close =>
    simp only [step] at hs
    split at hs
    · cases hs
    · cases hs
    · rename_i ending hphase
      obtain rfl := Option.some.inj hs
      exact inv_close h hphase
    · rename_i hclosing hopening hended
      obtain rfl := Option.some.inj hs
      have hjudged := h.stage.judged.interrupted hended (.ended .abandoned)
      exact inv_close (h.moved hended h.closes hjudged) rfl

theorem inv_run {rangeSize : Int} {as : List Action} (hstatus : first.statusCode = 206)
    (hr : machine.run (init rangeSize first) as = some s) : Inv first s :=
  machine.invariant (fun _ _ _ h hs => inv_step h hs) (inv_init hstatus) hr

/-- The last response decides whether everything opened is sound. -/
theorem Judged.opened (h : Judged first s) {before after : List Part}
    (hsplit : s.opened = before ++ p :: after) :
    Sound first (bodies before).length p ∨
      Verdict first s.phase (bodies before).length p := by
  obtain ⟨whole, last, offset, total, hopened, -, hcovers, hverdict⟩ := h
  rw [hopened] at hsplit
  cases last with
  | none =>
    rw [Option.toList_none, List.append_nil] at hsplit
    rw [hsplit] at hcovers
    exact .inl (covers_sound hcovers)
  | some q =>
    rw [Option.toList_some] at hsplit
    rcases List.eq_nil_or_concat after with rfl | ⟨rest, z, rfl⟩
    · obtain ⟨rfl, hq⟩ := List.append_inj' hsplit rfl
      obtain rfl := List.singleton_inj.mp hq
      have hoffset := covers_length hcovers
      rw [Nat.zero_add] at hoffset
      exact .inr (hoffset ▸ hverdict q rfl)
    · rw [List.concat_eq_append, ← List.cons_append, ← List.append_assoc] at hsplit
      obtain ⟨rfl, -⟩ := List.append_inj' hsplit rfl
      exact .inl (covers_sound hcovers)

/-- Reassembly is exact unless an overlong number is converted in a response that does not
continue the medium. -/
theorem reassembled_iff (rangeSize : Int) (first : Response) (as : List Action)
    (s : RangeResponse) (hstatus : first.statusCode = 206)
    (hr : machine.run (init rangeSize first) as = some s) :
    Reassembled first s ↔ ∀ before p after, s.opened = before ++ p :: after →
      ¬ Unreadable first (bodies before).length p.response := by
  have h := inv_run hstatus hr
  have hjudged := h.stage.judged
  constructor
  · intro hexact before p after hsplit hbad
    have hunsound : ¬ Sound first (bodies before).length p := fun hsound => hsound.readable hbad
    obtain ⟨message, hphase⟩ := hexact.refused before p after hsplit hunsound
    rcases hjudged.opened hsplit with hsound | hsound | ⟨-, hreadable⟩ | ⟨hphase', -⟩
    · exact hunsound hsound
    · exact hunsound hsound
    · exact hreadable hbad
    · rw [hphase] at hphase'
      cases hphase'
  · intro hreadable
    constructor
    case finished =>
      intro hphase
      have hstage := h.stage
      unfold Stage at hstage
      rw [hphase] at hstage
      obtain ⟨hyielded, hactive, total, htotal, hcovers⟩ := hstage
      obtain ⟨start, last, hdeclared⟩ := h.remembers.total total htotal
      have hopened : s.opened = s.earlier := by simp [opened, hactive]
      exact ⟨start, last, total, hdeclared, hopened.symm ▸ hcovers, hyielded⟩
    case refused =>
      intro before p after hsplit hunsound
      rcases hjudged.opened hsplit with hsound | hsound | ⟨hphase, -⟩ | ⟨-, hbad⟩
      · exact absurd hsound hunsound
      · exact absurd hsound hunsound
      · exact hphase
      · exact absurd hbad (hreadable before p after hsplit)
    case requests => exact h.requests
    case closed =>
      intro hclosed p hp
      obtain ⟨hactive, -⟩ := h.closed hclosed
      rw [opened, hactive, Option.toList_none, List.append_nil] at hp
      exact h.closes.1 p hp

/-- The first of two bytes. -/
def firstByte : Response := ⟨206, [("Content-Range", "bytes 0-0/2"), ("ETag", "v")]⟩

theorem reassembled_iff_firstByte :
    ∃ s, machine.run (init 1 firstByte) [.start, .chunk [7], .bodyEnd, .responseClosed] = some s ∧
      (Reassembled firstByte s ↔ ∀ before p after, s.opened = before ++ p :: after →
        ¬ Unreadable firstByte (bodies before).length p.response) :=
  ⟨_, rfl, reassembled_iff 1 firstByte [.start, .chunk [7], .bodyEnd, .responseClosed] _ rfl rfl⟩

/-- More zeros than `int` converts. -/
def overlongZeros : List Char := List.replicate (maxStrDigits + 1) '0'

/-- The first byte again, its position written with too many zeros. -/
def overlong : Response :=
  ⟨206, [("Content-Range",
    String.ofList ("bytes ".toList ++ (overlongZeros ++ '-' :: ("0".toList ++ '/' :: "2".toList)))),
    ("ETag", "v")]⟩

theorem rangeGroups_overlong :
    rangeGroups overlong = some (overlongZeros, "0".toList, "2".toList) := by
  have hdigits : ∀ c ∈ overlongZeros, isDigit c = true := by
    intro c hc
    obtain rfl := List.eq_of_mem_replicate hc
    decide
  have hne : overlongZeros ≠ [] := List.replicate_succ_ne_nil
  have hstop : "0".toList.all isDigit = true := rfl
  have htotal : "2".toList.all isDigit = true := rfl
  have hvalue : header overlong.headers "content-range" = some (String.ofList
      ("bytes ".toList ++ (overlongZeros ++ '-' :: ("0".toList ++ '/' :: "2".toList)))) := rfl
  unfold rangeGroups
  rw [hvalue, Option.getD_some, String.toList_ofList]
  exact contentRange_written hdigits (List.all_eq_true.mp hstop) (List.all_eq_true.mp htotal)
    ⟨hne, by decide, by decide⟩

theorem range_overlong {offset : Nat} (hetag : s.etag = some "v") (hmodified : s.modified = none) :
    s.range overlong offset = .error .valueError := by
  have hplain : ¬ encoded overlong := by
    rintro ⟨encoding, hencoding, -⟩
    cases hencoding
  have hkept : ¬ (s.total ≠ none ∧ (validatorChanged s.etag overlong "etag" ∨
      validatorChanged s.modified overlong "last-modified")) := by
    rintro ⟨-, hchanged | hchanged⟩
    · exact hchanged.2 hetag.symm
    · exact hchanged.1 hmodified
  have hzeros : intOfDigits overlongZeros = none := by
    unfold intOfDigits overlongZeros
    rw [List.length_replicate, if_neg (Nat.not_succ_le_self _)]
  unfold range
  rw [if_neg hplain, if_neg hkept, rangeGroups_overlong]
  have hstatus : ¬ overlong.statusCode ≠ 206 := not_not.mpr rfl
  dsimp only
  rw [if_neg hstatus, hzeros]

/-- The conversion raises `ValueError` in the middle of the iteration. -/
theorem overlong_not_refused :
    ∃ s, machine.run (init 1 firstByte)
        [.start, .chunk [7], .bodyEnd, .responseClosed, .opened overlong] = some s ∧
      ¬ Reassembled firstByte s := by
  obtain ⟨t, hr, hphase, hearlier, hetag, hmodified⟩ :
      ∃ t, machine.run (init 1 firstByte) [.start, .chunk [7], .bodyEnd, .responseClosed] = some t ∧
        t.phase = .opening 1 ∧ t.earlier = [⟨firstByte, [7], true, 1⟩] ∧ t.etag = some "v" ∧
        t.modified = none :=
    ⟨_, rfl, rfl, rfl, rfl, rfl⟩
  have hrange : range { t with active := some ⟨overlong, [], false, 0⟩ } overlong 1 =
      .error .valueError := range_overlong hetag hmodified
  have hstep : t.step (.opened overlong) = some
      { t with active := some ⟨overlong, [], false, 0⟩, phase := .ended (.failed .valueError) } := by
    simp only [step, hphase]
    unfold enter
    rw [← hphase, hrange]
  refine ⟨_, (@Machine.run_append_eq_some _ _ machine _ _ [.start, .chunk [7], .bodyEnd, .responseClosed] _).mpr
      ⟨t, hr, machine.run_cons_eq_some.mpr ⟨_, hstep, rfl⟩⟩, ?_⟩
  intro hexact
  have hunsound : ¬ Sound firstByte (bodies [⟨firstByte, [7], true, 1⟩]).length
      ⟨overlong, [], false, 0⟩ := by
    rintro ⟨stop, total, hfits, -⟩
    have hdeclared := hfits.declared
    rw [declared_eq rfl rangeGroups_overlong, Option.some.injEq, Prod.mk.injEq] at hdeclared
    have hzero : digitsValue overlongZeros = 0 := digitsValue_replicate_zero _
    cases hzero.symm.trans hdeclared.1
  have hopened : opened
      { t with active := some ⟨overlong, [], false, 0⟩, phase := .ended (.failed .valueError) } =
      [⟨firstByte, [7], true, 1⟩] ++ ⟨overlong, [], false, 0⟩ :: [] := by
    rw [opened, hearlier]
    rfl
  obtain ⟨message, hended⟩ := hexact.refused _ _ _ hopened hunsound
  cases hended

end Runs

end YtdlBot.Transport.RangeResponse
