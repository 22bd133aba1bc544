import Mathlib.Data.List.Lex
import YtdlBot.Framework.Machine
import YtdlBot.Media.YtDlp

/-!
# Resolutions of Shorts

The order of the candidates of a default Shorts request, and the attempts of `materialize` as a
machine: the first two candidates may race, the others come one after another, and one attempt may
refresh its candidate and download that instead.
-/

namespace YtdlBot.Media.Resolutions

open Framework
open MediaCache (MediaRequest)
open Materialize (shortEdge isSmall youtubeShortDefaultVariant)

section Order

/-- 720 comes first, then 1080, what is between them, what is above and what is below. -/
def band (edge : Int) : Nat :=
  if edge = 720 then 0
  else if edge = 1080 then 1
  else if 720 < edge ∧ edge < 1080 then 2
  else if 1080 < edge then 3
  else 4

/-- Candidates with the one edge are preferred to candidates with the other: the higher edge, and
above 1080 the nearer one. -/
def Before (edge other : Int) : Prop :=
  band edge < band other ∨
    band edge = band other ∧ (if band edge = 3 then edge < other else other < edge)

instance (edge other : Int) : Decidable (Before edge other) :=
  inferInstanceAs (Decidable (_ ∨ _))

theorem before_irrefl (edge : Int) : ¬ Before edge edge := by
  simp [Before]

variable {τ : Type}

/-- The first of two candidates may be attempted first. -/
def InOrder (first second : MediaCandidate τ) : Prop :=
  ¬ Before (shortEdge second) (shortEdge first)

/-- A default request for a Short. -/
def DefaultShort (request : MediaRequest) : Prop :=
  request.platform = "youtube" ∧ request.outputVariant = some youtubeShortDefaultVariant ∧
    request.quality.maxEdge = none

end Order

section Sorting

open YtDlp
open Framework.Doubles Framework.Urls

variable {repr : Value → String} {U : Unicode} {request : MediaRequest} {info : Format}
  {all : List (MediaCandidate Double)} {a b made : MediaCandidate Double}

/-- The first two numbers of the key. -/
def bandKey (edge : Int) : Int × Int :=
  (if edge = 720 then 4
    else if edge = 1080 then 3
    else if 720 < edge ∧ edge < 1080 then 2
    else if 1080 < edge then 1
    else 0, if edge ≤ 1080 then edge else -edge)

theorem band_cases (edge : Int) :
    (edge = 720 ∧ band edge = 0 ∧ bandKey edge = (4, edge)) ∨
    (edge = 1080 ∧ band edge = 1 ∧ bandKey edge = (3, edge)) ∨
    (720 < edge ∧ edge < 1080 ∧ band edge = 2 ∧ bandKey edge = (2, edge)) ∨
    (1080 < edge ∧ band edge = 3 ∧ bandKey edge = (1, -edge)) ∨
    (edge < 720 ∧ band edge = 4 ∧ bandKey edge = (0, edge)) := by
  unfold band bandKey
  split_ifs <;> simp <;> omega

theorem bandKey_lt {edge other : Int} (h : Before other edge) :
    (bandKey edge).1 < (bandKey other).1 ∨
      (bandKey edge).1 = (bandKey other).1 ∧ (bandKey edge).2 < (bandKey other).2 := by
  unfold Before at h
  rcases band_cases edge with ⟨h₁, hb, hk⟩ | ⟨h₁, hb, hk⟩ | ⟨h₁, h₂, hb, hk⟩ | ⟨h₁, hb, hk⟩ |
      ⟨h₁, hb, hk⟩ <;>
    rcases band_cases other with ⟨h₁', hb', hk'⟩ | ⟨h₁', hb', hk'⟩ | ⟨h₁', h₂', hb', hk'⟩ |
        ⟨h₁', hb', hk'⟩ | ⟨h₁', hb', hk'⟩ <;>
      simp [hb, hb', hk, hk'] at h ⊢ <;> omega

theorem candidateSortKey_short (hshort : DefaultShort request) :
    ∃ rest, candidateSortKey U request a =
      (bandKey (shortEdge a)).1 :: (bandKey (shortEdge a)).2 :: rest := by
  obtain ⟨hplatform, hvariant, hquality⟩ := hshort
  simp only [candidateSortKey, hplatform, hvariant, hquality, and_self, if_true]
  exact ⟨_, rfl⟩

/-- The key is larger where the resolution comes earlier. -/
theorem candidateSortKey_lt (hshort : DefaultShort request)
    (h : Before (shortEdge b) (shortEdge a)) :
    candidateSortKey U request a < candidateSortKey U request b := by
  obtain ⟨rest, hkey⟩ := candidateSortKey_short (U := U) (a := a) hshort
  obtain ⟨rest', hkey'⟩ := candidateSortKey_short (U := U) (a := b) hshort
  rw [hkey, hkey', List.cons_lt_cons_iff, List.cons_lt_cons_iff]
  rcases bandKey_lt h with hlt | ⟨heq, hlt⟩
  · exact .inl hlt
  · exact .inr ⟨heq, .inl hlt⟩

theorem shortEdge_audio {primary : Format} {sound : Option Format} (haudio : request.kind = .audio)
    (h : candidate repr U request info primary sound = .ok made) : shortEdge made = 0 := by
  unfold candidate at h
  obtain ⟨sources, -, h⟩ := bind_eq_ok h
  obtain ⟨width, hwidth, h⟩ := bind_eq_ok h
  obtain ⟨height, hheight, h⟩ := bind_eq_ok h
  obtain ⟨duration, -, h⟩ := bind_eq_ok h
  obtain rfl := Except.ok.inj h
  simp only [shownEdge, haudio, if_true, Except.ok.injEq] at hwidth hheight
  subst hwidth hheight
  rfl

theorem audioCandidates_inOrder {audio : List Format} (haudio : request.kind = .audio)
    (h : audioCandidates repr U request info audio = .ok all) : all.Pairwise InOrder := by
  obtain ⟨found, hfound, h⟩ := bind_eq_ok h
  obtain rfl := Except.ok.inj h
  apply List.Pairwise.filter
  have hedge : ∀ made ∈ found, shortEdge made = 0 := by
    intro made hmade
    obtain ⟨sound, -, hcandidate⟩ := mem_of_mapM_eq_ok hfound hmade
    exact shortEdge_audio haudio hcandidate
  apply List.pairwise_of_forall_mem_list
  intro a ha b hb
  rw [InOrder, hedge a ha, hedge b hb]
  exact before_irrefl 0

theorem candidates_inOrder (hshort : DefaultShort request)
    (h : candidates repr U request info = .ok all) : all.Pairwise InOrder := by
  unfold candidates at h
  split at h
  · cases h
  obtain ⟨found, -, h⟩ := bind_eq_ok h
  obtain ⟨audio, -, h⟩ := bind_eq_ok h
  obtain ⟨sorted, -, h⟩ := bind_eq_ok h
  split at h
  · rename_i haudio
    exact audioCandidates_inOrder haudio h
  · obtain ⟨built, -, h⟩ := bind_eq_ok h
    obtain rfl := Except.ok.inj h
    have htotal : Std.Total fun a b =>
        ¬ candidateSortKey U request a < candidateSortKey U request b :=
      ⟨fun a b => by simpa using le_total _ _⟩
    have htrans : IsTrans (MediaCandidate Double) fun a b =>
        ¬ candidateSortKey U request a < candidateSortKey U request b :=
      ⟨fun a b c hab hbc => not_lt.mpr ((not_lt.mp hbc).trans (not_lt.mp hab))⟩
    refine (List.pairwise_insertionSort _ _).imp ?_
    intro a b hab hbefore
    exact hab (candidateSortKey_lt hshort hbefore)

end Sorting

section Attempts

/-- Where the attempt at a candidate is. -/
inductive Stage where
  | waiting
  /-- The first download, at this short edge. -/
  | downloading (edge : Int)
  | refreshing
  /-- The download of the refreshed candidate. -/
  | downloadingAgain (edge : Int)
  /-- The attempt raised a `MaterializationError`. -/
  | failed
  /-- The attempt returned an item, was cancelled or raised another exception. -/
  | ended
deriving DecidableEq

def Stage.edge : Stage → Option Int
  | .downloading edge | .downloadingAgain edge => some edge
  | _ => none

def Stage.active : Stage → Bool
  | .downloading _ | .refreshing | .downloadingAgain _ => true
  | _ => false

/-- Where `materialize` is, behind the validation. -/
inductive Phase where
  /-- `_race_small` awaits the first two attempts. -/
  | racing
  /-- The race has ended, and its attempts are cancelled and joined. -/
  | leaving
  /-- The loop over the candidates, at this one. -/
  | trying (position : Nat)
  | closed
deriving DecidableEq

structure State where
  stages : Nat → Stage
  phase : Phase
  refreshAttempted : Bool
  /-- The deadline has passed. -/
  expired : Bool
  /-- Every download so far, with its candidate and its short edge. -/
  downloads : List (Nat × Int)

inductive Action (τ : Type) where
  | start (position : Nat)
  /-- A download raises a `MaterializationError`; the attempt may go on with a refresh. -/
  | downloadFailed (position : Nat) (refreshes : Bool)
  | refreshFailed (position : Nat)
  | refreshed (position : Nat) (fresh : MediaCandidate τ)
  /-- An attempt returns, is cancelled or raises another exception. -/
  | finished (position : Nat)
  | expire
  /-- Both attempts of the race have failed. -/
  | raceLost
  /-- The race has a winner or an exception, or its time is up. -/
  | raceEnds
  | joined
  /-- The loop goes on with the next candidate. -/
  | next
  /-- The loop ends without an item. -/
  | stop

variable {τ : Type}

def State.set (s : State) (position : Nat) (stage : Stage) : State :=
  { s with stages := Function.update s.stages position stage }

/-- A download starts. -/
def State.download (s : State) (position : Nat) (stage : Stage) (edge : Int) : State :=
  { s.set position stage with downloads := s.downloads ++ [(position, edge)] }

/-- The first two candidates race. -/
def raced (request : MediaRequest) : List (MediaCandidate τ) → Bool
  | first :: second :: _ =>
    isSmall first && isSmall second &&
      (request.outputVariant ≠ some youtubeShortDefaultVariant ||
        shortEdge first = shortEdge second)
  | _ => false

def State.init (request : MediaRequest) (safe : List (MediaCandidate τ)) : State where
  stages := fun _ => .waiting
  phase := if raced request safe then .racing else .trying 0
  refreshAttempted := false
  expired := false
  downloads := []

/-- The candidate at this position may be started. -/
def State.mayStart (s : State) (position : Nat) : Bool :=
  match s.phase with
  | .racing => position < 2
  | .trying current => position = current && !s.expired
  | _ => false

variable (maxBytes : Int) (request : MediaRequest) (safe : List (MediaCandidate τ))

def step (s : State) : Action τ → Option State
  | .start position =>
    match safe[position]? with
    | some candidate =>
      if s.mayStart position ∧ s.stages position = .waiting then
        some (s.download position (.downloading (shortEdge candidate)) (shortEdge candidate))
      else none
    | none => none
  | .downloadFailed position false =>
    if (s.stages position).edge.isSome then some (s.set position .failed) else none
  | .downloadFailed position true =>
    match s.stages position with
    | .downloading _ =>
      if s.refreshAttempted then none
      else some { s.set position .refreshing with refreshAttempted := true }
    | _ => none
  | .refreshFailed position =>
    if s.stages position = .refreshing then some (s.set position .failed) else none
  | .refreshed position fresh =>
    match safe[position]? with
    | some original =>
      if s.stages position = .refreshing ∧ (∃ descriptor ∈ original.refresh,
          Materialize.validateRefreshedCandidate request original descriptor fresh = .ok ()) ∧
          Materialize.checkDeclaredSize maxBytes fresh = .ok () then
        some (s.download position (.downloadingAgain (shortEdge fresh)) (shortEdge fresh))
      else none
    | none => none
  | .finished position =>
    if (s.stages position).active then
      match s.phase with
      | .trying _ => some { s.set position .ended with phase := .closed }
      | _ => some (s.set position .ended)
    else none
  | .expire => some { s with expired := true }
  | .raceLost =>
    if s.phase = .racing ∧ s.stages 0 = .failed ∧ s.stages 1 = .failed then
      some { s with phase := .trying 2 }
    else none
  | .raceEnds =>
    if s.phase = .racing ∧ (s.expired ∨ s.stages 0 = .ended ∨ s.stages 1 = .ended) then
      some { s with phase := .leaving }
    else none
  | .joined =>
    -- without a winner the deadline has passed, and the loop would not start
    if s.phase = .leaving ∧ !(s.stages 0).active ∧ !(s.stages 1).active then
      some { s with phase := .closed }
    else none
  | .next =>
    match s.phase with
    | .trying position =>
      if s.stages position = .failed then some { s with phase := .trying (position + 1) } else none
    | _ => none
  | .stop =>
    match s.phase with
    | .trying position =>
      if safe.length ≤ position ∨ s.expired ∧ s.stages position = .waiting then
        some { s with phase := .closed }
      else none
    | _ => none

def machine : Machine State (Action τ) := ⟨step maxBytes request safe⟩

/-- A refreshed candidate has the short edge of the candidate that it replaces. -/
def KeepsEdge : Action τ → Prop
  | .refreshed position fresh =>
    ∀ original, safe[position]? = some original → shortEdge fresh = shortEdge original
  | _ => True

end Attempts

section Runs

variable {τ : Type} {maxBytes : Int} {request : MediaRequest} {safe : List (MediaCandidate τ)}
  {s s' : State} {position : Nat} {stage : Stage}

/-- The short edge of the candidate at a position. -/
def edgeAt (safe : List (MediaCandidate τ)) (position : Nat) : Option Int :=
  safe[position]?.map shortEdge

/-- Every candidate with an earlier edge has failed. -/
def EarlierFailed (safe : List (MediaCandidate τ)) (s : State) (edge : Int) : Prop :=
  ∀ position other, edgeAt safe position = some other → Before other edge →
    s.stages position = .failed

/-- What the phase says about the attempts. -/
def PhaseInv (request : MediaRequest) (safe : List (MediaCandidate τ)) (s : State) : Prop :=
  match s.phase with
  | .racing | .leaving => raced request safe = true ∧ ∀ position, 2 ≤ position →
      s.stages position = .waiting
  | .trying current => (∀ position < current, s.stages position = .failed) ∧
      ∀ position, current < position → s.stages position = .waiting
  | .closed => ∀ position, (s.stages position).active = false

structure Inv (request : MediaRequest) (safe : List (MediaCandidate τ)) (s : State) : Prop where
  edges : ∀ position edge, (s.stages position).edge = some edge → edgeAt safe position = some edge
  downloads : ∀ download ∈ s.downloads, edgeAt safe download.1 = some download.2 ∧
    EarlierFailed safe s download.2
  started : ∀ position, (s.stages position).active = true →
    ∃ edge, (position, edge) ∈ s.downloads
  phase : PhaseInv request safe s

theorem inv_init : Inv request safe (State.init request safe) := by
  refine ⟨by simp [State.init, Stage.edge], by simp [State.init], by simp [State.init, Stage.active],
    ?_⟩
  unfold PhaseInv State.init
  by_cases hraced : raced request safe = true <;> simp [hraced]

theorem active_of_edge {edge : Int} (h : stage.edge = some edge) : stage.active = true := by
  cases stage <;> simp_all [Stage.edge, Stage.active]

theorem EarlierFailed.set {edge : Int} (h : EarlierFailed safe s edge)
    (hfailed : s.stages position ≠ .failed) : EarlierFailed safe (s.set position stage) edge := by
  intro other otherEdge hedge hbefore
  have hother := h other otherEdge hedge hbefore
  have hne : other ≠ position := by
    rintro rfl
    exact hfailed hother
  simpa [State.set, hne] using hother

theorem PhaseInv.set (h : PhaseInv request safe s) (hactive : (s.stages position).active = true) :
    PhaseInv request safe (s.set position stage) := by
  have hne : ∀ other, s.stages other = .waiting ∨ s.stages other = .failed → other ≠ position := by
    rintro other hother rfl
    rcases hother with hwaiting | hfailed <;> simp_all [Stage.active]
  unfold PhaseInv State.set at *
  dsimp only
  split at h
  · refine ⟨h.1, fun other hother => ?_⟩
    rw [Function.update_of_ne (hne other (.inl (h.2 other hother)))]
    exact h.2 other hother
  · refine ⟨h.1, fun other hother => ?_⟩
    rw [Function.update_of_ne (hne other (.inl (h.2 other hother)))]
    exact h.2 other hother
  · refine ⟨fun other hother => ?_, fun other hother => ?_⟩
    · rw [Function.update_of_ne (hne other (.inr (h.1 other hother)))]
      exact h.1 other hother
    · rw [Function.update_of_ne (hne other (.inl (h.2 other hother)))]
      exact h.2 other hother
  · rw [h position] at hactive
    cases hactive

theorem Inv.set (hs : Inv request safe s) (hfailed : s.stages position ≠ .failed)
    (hedge : ∀ edge, stage.edge = some edge → edgeAt safe position = some edge)
    (hstarted : stage.active = true → ∃ edge, (position, edge) ∈ s.downloads)
    (hphase : PhaseInv request safe (s.set position stage)) :
    Inv request safe (s.set position stage) := by
  refine ⟨?_, ?_, ?_, hphase⟩
  · intro other edge hother
    by_cases hne : other = position
    · subst hne
      exact hedge edge (by simpa [State.set] using hother)
    · exact hs.edges other edge (by simpa [State.set, hne] using hother)
  · intro download hdownload
    obtain ⟨hat, hearlier⟩ := hs.downloads download hdownload
    exact ⟨hat, hearlier.set hfailed⟩
  · intro other hother
    by_cases hne : other = position
    · subst hne
      exact hstarted (by simpa [State.set] using hother)
    · exact hs.started other (by simpa [State.set, hne] using hother)

theorem Inv.setActive (hs : Inv request safe s) (hactive : (s.stages position).active = true)
    (hedge : ∀ edge, stage.edge = some edge → edgeAt safe position = some edge) :
    Inv request safe (s.set position stage) := by
  apply hs.set _ hedge (fun _ => hs.started position hactive) (hs.phase.set hactive)
  intro h
  simp [h, Stage.active] at hactive

theorem Inv.record {edge : Int} (hs : Inv request safe s) (hedge : edgeAt safe position = some edge)
    (hearlier : EarlierFailed safe s edge) :
    Inv request safe { s with downloads := s.downloads ++ [(position, edge)] } := by
  refine ⟨hs.edges, ?_, ?_, hs.phase⟩
  · intro download hdownload
    rcases List.mem_append.mp hdownload with hold | hnew
    · exact hs.downloads download hold
    · obtain rfl := List.mem_singleton.mp hnew
      exact ⟨hedge, hearlier⟩
  · intro other hactive
    obtain ⟨edge', hmem⟩ := hs.started other hactive
    exact ⟨edge', List.mem_append_left _ hmem⟩

theorem Inv.move {phase : Phase} (hs : Inv request safe s)
    (hphase : PhaseInv request safe { s with phase := phase }) :
    Inv request safe { s with phase := phase } :=
  ⟨hs.edges, hs.downloads, hs.started, hphase⟩

theorem lt_of_before {edge otherEdge : Int} {first second : Nat}
    (hsorted : safe.Pairwise InOrder) (hfirst : edgeAt safe first = some otherEdge)
    (hsecond : edgeAt safe second = some edge) (hbefore : Before otherEdge edge) :
    first < second := by
  obtain ⟨a, ha, rfl⟩ := Option.map_eq_some_iff.mp hfirst
  obtain ⟨b, hb, rfl⟩ := Option.map_eq_some_iff.mp hsecond
  obtain ⟨hfirstlt, rfl⟩ := List.getElem?_eq_some_iff.mp ha
  obtain ⟨hsecondlt, rfl⟩ := List.getElem?_eq_some_iff.mp hb
  rcases Nat.lt_trichotomy first second with hlt | rfl | hgt
  · exact hlt
  · exact absurd hbefore (before_irrefl _)
  · exact absurd hbefore (List.pairwise_iff_getElem.mp hsorted _ _ hsecondlt hfirstlt hgt)

theorem raced_edges {edge otherEdge : Int} (hshort : DefaultShort request)
    (hraced : raced request safe = true) (hfirst : edgeAt safe 0 = some edge)
    (hsecond : edgeAt safe 1 = some otherEdge) : edge = otherEdge := by
  match safe, hraced with
  | first :: second :: _, hraced =>
    simp only [raced, hshort.2.1, Bool.and_eq_true, Bool.or_eq_true, decide_eq_true_eq] at hraced
    have hsame : shortEdge first = shortEdge second := hraced.2.resolve_left (by simp)
    simp only [edgeAt, List.getElem?_cons_zero, List.getElem?_cons_succ, Option.map_some,
      Option.some.injEq] at hfirst hsecond
    omega

theorem earlierFailed_of_mayStart {edge : Int} (hshort : DefaultShort request)
    (hsorted : safe.Pairwise InOrder) (hs : Inv request safe s)
    (hstart : s.mayStart position = true) (hedge : edgeAt safe position = some edge) :
    EarlierFailed safe s edge := by
  intro other otherEdge hother hbefore
  have hlt := lt_of_before hsorted hother hedge hbefore
  have hphase := hs.phase
  unfold State.mayStart at hstart
  unfold PhaseInv at hphase
  split at hstart
  · rename_i hracing
    simp only [hracing, decide_eq_true_eq] at hphase hstart
    obtain ⟨rfl, rfl⟩ : other = 0 ∧ position = 1 := by omega
    cases raced_edges hshort hphase.1 hother hedge
    exact absurd hbefore (before_irrefl _)
  · rename_i current htrying
    simp only [htrying, Bool.and_eq_true, decide_eq_true_eq] at hphase hstart
    exact hphase.1 other (hstart.1 ▸ hlt)
  · cases hstart

theorem inv_start (hshort : DefaultShort request) (hsorted : safe.Pairwise InOrder)
    (hs : Inv request safe s) (h : step maxBytes request safe s (.start position) = some s') :
    Inv request safe s' := by
  simp only [step] at h
  split at h
  · rename_i candidate hcandidate
    simp only [Option.ite_none_right_eq_some, Option.some.injEq] at h
    obtain ⟨⟨hstart, hwaiting⟩, rfl⟩ := h
    have hedge : edgeAt safe position = some (shortEdge candidate) := by simp [edgeAt, hcandidate]
    have hrecorded := hs.record hedge (earlierFailed_of_mayStart hshort hsorted hs hstart hedge)
    apply hrecorded.set
    · simp [hwaiting]
    · simp [Stage.edge, hedge]
    · exact fun _ => ⟨_, List.mem_append_right _ List.mem_cons_self⟩
    · have hphase := hs.phase
      unfold State.mayStart at hstart
      unfold PhaseInv State.set at *
      dsimp only
      split at hstart
      · rename_i hracing
        simp only [hracing, decide_eq_true_eq] at hphase hstart ⊢
        refine ⟨hphase.1, fun other hother => ?_⟩
        rw [Function.update_of_ne (by omega)]
        exact hphase.2 other hother
      · rename_i current htrying
        simp only [htrying, Bool.and_eq_true, decide_eq_true_eq] at hphase hstart ⊢
        obtain ⟨rfl, -⟩ := hstart
        refine ⟨fun other hother => ?_, fun other hother => ?_⟩
        · rw [Function.update_of_ne (by omega)]
          exact hphase.1 other hother
        · rw [Function.update_of_ne (by omega)]
          exact hphase.2 other hother
      · cases hstart
  · cases h

theorem inv_refreshed {fresh : MediaCandidate τ} (hs : Inv request safe s)
    (hkeeps : KeepsEdge safe (.refreshed position fresh))
    (h : step maxBytes request safe s (.refreshed position fresh) = some s') :
    Inv request safe s' := by
  simp only [step] at h
  split at h
  · rename_i original horiginal
    simp only [Option.ite_none_right_eq_some, Option.some.injEq] at h
    obtain ⟨⟨hrefreshing, -⟩, rfl⟩ := h
    have hactive : (s.stages position).active = true := by simp [hrefreshing, Stage.active]
    have hedge : edgeAt safe position = some (shortEdge fresh) := by
      simp [edgeAt, horiginal, hkeeps original horiginal]
    -- the first download has been checked when it started
    obtain ⟨edge, hmem⟩ := hs.started position hactive
    obtain ⟨hat, hearlier⟩ := hs.downloads _ hmem
    obtain rfl := Option.some.inj (hat.symm.trans hedge)
    exact (hs.record hedge hearlier).setActive hactive (by simp [Stage.edge, hedge])
  · cases h

theorem trying_current {current other : Nat} (h : PhaseInv request safe s)
    (htrying : s.phase = .trying current) (hactive : (s.stages other).active = true) :
    other = current := by
  simp only [PhaseInv, htrying] at h
  rcases Nat.lt_trichotomy other current with hlt | heq | hgt
  · simp [h.1 other hlt, Stage.active] at hactive
  · exact heq
  · simp [h.2 other hgt, Stage.active] at hactive

theorem inv_finished (hs : Inv request safe s)
    (h : step maxBytes request safe s (.finished position) = some s') : Inv request safe s' := by
  simp only [step, Option.ite_none_right_eq_some] at h
  obtain ⟨hactive, h⟩ := h
  have hset : Inv request safe (s.set position .ended) := hs.setActive hactive (by simp [Stage.edge])
  split at h
  · rename_i current htrying
    obtain rfl := Option.some.inj h
    apply hset.move
    intro other
    rw [Bool.eq_false_iff]
    intro hother
    have hne : other ≠ position := by
      rintro rfl
      simp [State.set, Stage.active] at hother
    simp only [State.set, Function.update_of_ne hne] at hother
    have hcurrent := trying_current hs.phase htrying hother
    exact hne (hcurrent.trans (trying_current hs.phase htrying hactive).symm)
  · obtain rfl := Option.some.inj h
    exact hset

theorem inv_step {action : Action τ} (hshort : DefaultShort request)
    (hsorted : safe.Pairwise InOrder) (hs : Inv request safe s) (hkeeps : KeepsEdge safe action)
    (h : step maxBytes request safe s action = some s') : Inv request safe s' := by
  cases action with
  | start position => exact inv_start hshort hsorted hs h
  | downloadFailed position refreshes =>
    cases refreshes with
    | false =>
      simp only [step, Option.ite_none_right_eq_some, Option.some.injEq] at h
      obtain ⟨hedge, rfl⟩ := h
      obtain ⟨edge, hedge⟩ := Option.isSome_iff_exists.mp hedge
      exact hs.setActive (active_of_edge hedge) (by simp [Stage.edge])
    | true =>
      simp only [step] at h
      split at h
      · rename_i edge hdownloading
        simp only [Option.ite_none_left_eq_some, Option.some.injEq] at h
        obtain ⟨-, rfl⟩ := h
        have hset : Inv request safe (s.set position .refreshing) :=
          hs.setActive (by simp [hdownloading, Stage.active]) (by simp [Stage.edge])
        exact ⟨hset.edges, hset.downloads, hset.started, hset.phase⟩
      · cases h
  | refreshFailed position =>
    simp only [step, Option.ite_none_right_eq_some, Option.some.injEq] at h
    obtain ⟨hrefreshing, rfl⟩ := h
    exact hs.setActive (by simp [hrefreshing, Stage.active]) (by simp [Stage.edge])
  | refreshed position fresh => exact inv_refreshed hs hkeeps h
  | finished position => exact inv_finished hs h
  | expire =>
    obtain rfl := Option.some.inj h
    exact ⟨hs.edges, hs.downloads, hs.started, hs.phase⟩
  | raceLost =>
    simp only [step, Option.ite_none_right_eq_some, Option.some.injEq] at h
    obtain ⟨⟨hracing, hfirst, hsecond⟩, rfl⟩ := h
    have hphase := hs.phase
    simp only [PhaseInv, hracing] at hphase
    apply hs.move
    refine ⟨fun other hother => ?_, fun other hother => hphase.2 other (by omega)⟩
    obtain rfl | rfl : other = 0 ∨ other = 1 := by omega
    · exact hfirst
    · exact hsecond
  | raceEnds =>
    simp only [step, Option.ite_none_right_eq_some, Option.some.injEq] at h
    obtain ⟨⟨hracing, -⟩, rfl⟩ := h
    have hphase := hs.phase
    simp only [PhaseInv, hracing] at hphase
    exact hs.move hphase
  | joined =>
    simp only [step, Option.ite_none_right_eq_some, Option.some.injEq] at h
    obtain ⟨⟨hleaving, hfirst, hsecond⟩, rfl⟩ := h
    have hphase := hs.phase
    simp only [PhaseInv, hleaving] at hphase
    apply hs.move
    intro other
    by_cases hother : 2 ≤ other
    · simp [hphase.2 other hother, Stage.active]
    · obtain rfl | rfl : other = 0 ∨ other = 1 := by omega
      · simpa using hfirst
      · simpa using hsecond
  | next =>
    simp only [step] at h
    split at h
    · rename_i current htrying
      simp only [Option.ite_none_right_eq_some, Option.some.injEq] at h
      obtain ⟨hfailed, rfl⟩ := h
      have hphase := hs.phase
      simp only [PhaseInv, htrying] at hphase
      apply hs.move
      refine ⟨fun other hother => ?_, fun other hother => hphase.2 other (by omega)⟩
      rcases Nat.lt_succ_iff_lt_or_eq.mp hother with hlt | rfl
      · exact hphase.1 other hlt
      · exact hfailed
    · cases h
  | stop =>
    simp only [step] at h
    split at h
    · rename_i current htrying
      simp only [Option.ite_none_right_eq_some, Option.some.injEq] at h
      obtain ⟨hstop, rfl⟩ := h
      apply hs.move
      intro other
      rw [Bool.eq_false_iff]
      intro hactive
      obtain rfl := trying_current hs.phase htrying hactive
      rcases hstop with hlong | ⟨-, hwaiting⟩
      · obtain ⟨edge, hmem⟩ := hs.started other hactive
        have hat := (hs.downloads _ hmem).1
        simp [edgeAt, List.getElem?_eq_none hlong] at hat
      · simp [hwaiting, Stage.active] at hactive
    · cases h

theorem inv_run {actions : List (Action τ)} (hshort : DefaultShort request)
    (hsorted : safe.Pairwise InOrder) (hkeeps : ∀ action ∈ actions, KeepsEdge safe action)
    (h : (machine maxBytes request safe).run (State.init request safe) actions = some s) :
    Inv request safe s := by
  apply Machine.invariant_of_admits _ _ inv_init (Machine.admits_of_forall _ hkeeps _) h
  intro s action s' hs hkeep hstep
  exact inv_step hshort hsorted hs hkeep hstep

/-- Downloads that go on at the same time have one short edge. -/
theorem Inv.one_edge {position other : Nat} {edge otherEdge : Int} (hshort : DefaultShort request)
    (hs : Inv request safe s) (hedge : (s.stages position).edge = some edge)
    (hother : (s.stages other).edge = some otherEdge) : edge = otherEdge := by
  have hat := hs.edges position edge hedge
  have hat' := hs.edges other otherEdge hother
  have hactive := active_of_edge hedge
  have hactive' := active_of_edge hother
  have hphase := hs.phase
  have hraced : raced request safe = true → (∀ position, 2 ≤ position →
      s.stages position = .waiting) → edge = otherEdge := by
    intro hraced hwaiting
    have hsmall : ∀ position, (s.stages position).active = true → position = 0 ∨ position = 1 := by
      intro position hactive
      by_contra hlarge
      simp [hwaiting position (by omega), Stage.active] at hactive
    rcases hsmall position hactive with rfl | rfl <;> rcases hsmall other hactive' with rfl | rfl
    · exact Option.some.inj (hat.symm.trans hat')
    · exact raced_edges hshort hraced hat hat'
    · exact (raced_edges hshort hraced hat' hat).symm
    · exact Option.some.inj (hat.symm.trans hat')
  cases hcase : s.phase with
  | racing =>
    simp only [PhaseInv, hcase] at hphase
    exact hraced hphase.1 hphase.2
  | leaving =>
    simp only [PhaseInv, hcase] at hphase
    exact hraced hphase.1 hphase.2
  | trying current =>
    obtain rfl := trying_current hs.phase hcase hactive
    obtain rfl := trying_current hs.phase hcase hactive'
    exact Option.some.inj (hat.symm.trans hat')
  | closed =>
    simp only [PhaseInv, hcase] at hphase
    simp [hphase position] at hactive

theorem validateAll_sublist {urls : Nat → Except Materialize.Failure Unit} {position : Nat}
    {listed : List (MediaCandidate τ)} {found : List (Nat × MediaCandidate τ)}
    {errors : List Materialize.Failure}
    (h : Materialize.validateAll maxBytes urls position listed = .ok (found, errors)) :
    (found.map Prod.snd).Sublist listed := by
  induction listed generalizing position found errors with
  | nil =>
    cases h
    exact List.Sublist.refl _
  | cons candidate listed ih =>
    unfold Materialize.validateAll at h
    split at h
    · obtain ⟨⟨rest, kept⟩, hrest, h⟩ := bind_eq_ok h
      cases h
      exact (ih hrest).cons_cons candidate
    · split at h
      · obtain ⟨⟨rest, kept⟩, hrest, h⟩ := bind_eq_ok h
        cases h
        exact (ih hrest).cons candidate
      · cases h

/-- What the order of resolutions asks of the attempts. -/
structure OneAfterAnother (safe : List (MediaCandidate τ)) (s : State) : Prop where
  earlier : ∀ download ∈ s.downloads, EarlierFailed safe s download.2
  alone : ∀ position other edge otherEdge, (s.stages position).edge = some edge →
    (s.stages other).edge = some otherEdge → edge = otherEdge

/-- Candidates of Shorts come by resolution, and resolutions are attempted one after another as
long as refreshed candidates keep theirs. -/
theorem resolutions_in_order (hshort : DefaultShort request) :
    (∀ repr U info all, YtDlp.candidates repr U request info = .ok all → all.Pairwise InOrder) ∧
    ∀ maxBytes urls (listed : List (MediaCandidate τ)) found errors actions s,
      listed.Pairwise InOrder →
      Materialize.validateAll maxBytes urls 0 listed = .ok (found, errors) →
      (machine maxBytes request (found.map Prod.snd)).run
        (State.init request (found.map Prod.snd)) actions = some s →
      (∀ action ∈ actions, KeepsEdge (found.map Prod.snd) action) →
      OneAfterAnother (found.map Prod.snd) s := by
  refine ⟨fun repr U info all h => candidates_inOrder hshort h, ?_⟩
  intro maxBytes urls listed found errors actions s hlisted hvalid hrun hkeeps
  have hs := inv_run hshort (hlisted.sublist (validateAll_sublist hvalid)) hkeeps hrun
  exact ⟨fun download hdownload => (hs.downloads download hdownload).2,
    fun _ _ _ _ hedge hother => hs.one_edge hshort hedge hother⟩

end Runs

section Examples

open YtDlp
open Framework.Doubles

def aShort : MediaRequest where
  canonicalUrl := "https://www.youtube.com/shorts/dQw4w9WgXcQ"
  platform := "youtube"
  mediaId := "dQw4w9WgXcQ"
  kind := .video
  quality := ⟨none⟩
  audioFormat := none
  audioLanguage := none
  clip := ⟨none, none⟩
  albumSelection := []
  watermarkAllowed := true
  callerScope := "public"
  authScope := "public"
  isExact := true
  outputVariant := some youtubeShortDefaultVariant
  deadline := none

/-- A format with picture and sound. -/
def muxed (formatId : String) (edge : Int) : Format :=
  [("format_id", .str formatId), ("url", .str ("https://cdn.example/" ++ formatId)),
    ("vcodec", .str "avc1"), ("acodec", .str "mp4a"), ("width", .int edge), ("height", .int 1920),
    ("filesize", .int 1000)]

/-- The candidate of such a format. -/
def ofMuxed (formatId : String) (edge : Int) : MediaCandidate Double where
  candidateId := formatId
  url := aShort.canonicalUrl
  width := some edge
  height := some 1920
  hasVideo := true
  hasAudio := true
  audioFormats := ["mp4a"]
  audioLanguages := []
  container := none
  filesizeBytes := some 1000
  durationSeconds := none
  sources := [⟨formatId, "https://cdn.example/" ++ formatId, some "avc1", some "mp4a", none,
    some 1000, none, [], none, none⟩]
  complete := true
  muxMode := none
  refresh := some ⟨"ytdlp", aShort.mediaId, formatId, 1⟩
  provider := some "ytdlp"
  mediaId := some aShort.mediaId
  kind := some .video
  items := []
  authScope := "public"
  watermarkFree := none

theorem candidates_muxed :
    candidates (fun _ => "") .ascii aShort
        [("formats", .array [.object (muxed "22" 1080), .object (muxed "18" 720)])] =
      .ok [ofMuxed "18" 720, ofMuxed "22" 1080] := by
  decide +kernel

/-- Two variants at 720. -/
def listed : List (MediaCandidate Double) := [ofMuxed "18" 720, ofMuxed "19" 720]

/-- The first of two racing candidates fails and is refreshed; the second one is still downloaded. -/
def refreshing (edge : Int) : List (Action Double) :=
  [.start 0, .start 1, .downloadFailed 0 true, .refreshed 0 (ofMuxed "18" edge)]

theorem validateAll_listed : Materialize.validateAll 2000 (fun _ => .ok ()) 0 listed =
    .ok ([(0, ofMuxed "18" 720), (1, ofMuxed "19" 720)], []) := by
  decide +kernel

theorem run_refreshing (edge : Int) (h : edge = 720 ∨ edge = 1080) :
    ∃ s, (machine 2000 aShort listed).run (State.init aShort listed) (refreshing edge) = some s ∧
      s.stages 0 = .downloadingAgain edge ∧ s.stages 1 = .downloading 720 := by
  have hrun : ((machine 2000 aShort listed).run (State.init aShort listed) (refreshing edge)).map
      (fun s => (s.stages 0, s.stages 1)) = some (.downloadingAgain edge, .downloading 720) := by
    rcases h with rfl | rfl <;> decide +kernel
  obtain ⟨s, hs, hstages⟩ := Option.map_eq_some_iff.mp hrun
  obtain ⟨hfirst, hsecond⟩ := Prod.mk.inj hstages
  exact ⟨s, hs, hfirst, hsecond⟩

theorem aShort_default : DefaultShort aShort := ⟨rfl, rfl, rfl⟩

theorem resolutions_in_order_refreshing :
    [ofMuxed "18" 720, ofMuxed "22" 1080].Pairwise InOrder ∧
    ∃ s, (machine 2000 aShort listed).run (State.init aShort listed) (refreshing 720) = some s ∧
      OneAfterAnother listed s := by
  refine ⟨(@resolutions_in_order Double aShort aShort_default).1 _ _ _ _ candidates_muxed, ?_⟩
  obtain ⟨s, hrun, -⟩ := run_refreshing 720 (.inl rfl)
  have hsame : listed.Pairwise InOrder := by
    simp [listed, InOrder, Before, shortEdge, ofMuxed]
  have hkeeps : ∀ action ∈ refreshing 720, KeepsEdge listed action := by
    simp [refreshing, KeepsEdge, listed]
  exact ⟨s, hrun, (resolutions_in_order aShort_default).2 2000 _ listed _ _ _ s hsame
    validateAll_listed hrun hkeeps⟩

/-- A refreshed variant comes back at 1080, and is downloaded beside the other one. -/
theorem resolutions_mixed :
    ¬ ∀ (request : MediaRequest), DefaultShort request →
      ∀ maxBytes urls (listed : List (MediaCandidate Double)) found errors actions s,
        listed.Pairwise InOrder →
        Materialize.validateAll maxBytes urls 0 listed = .ok (found, errors) →
        (machine maxBytes request (found.map Prod.snd)).run
          (State.init request (found.map Prod.snd)) actions = some s →
        OneAfterAnother (found.map Prod.snd) s := by
  intro h
  obtain ⟨s, hrun, hfirst, hsecond⟩ := run_refreshing 1080 (.inr rfl)
  have hsame : listed.Pairwise InOrder := by
    simp [listed, InOrder, Before, shortEdge, ofMuxed]
  have horder := h aShort aShort_default 2000 _ listed _ _ _ s hsame validateAll_listed hrun
  exact absurd (horder.alone 0 1 1080 720 (by simp [hfirst, Stage.edge])
    (by simp [hsecond, Stage.edge])) (by decide)

end Examples

end YtdlBot.Media.Resolutions
