import YtdlBot.Materialization.Release
import YtdlBot.Materialization.RouteAttempt

/-!
# The exits of the fallback loop

The factory and the route attempts end, and leave no item behind, unless the publication of the
finished item is cut off.
-/

namespace YtdlBot.Materialization.Fallback

open Framework
open Media (MediaCandidate)
open MediaCache (MediaRequest)

section Offers

open Media.Materialize (Offered materialize World attempt_spec materialize_spec)

variable {τ : Type} [LE τ] [DecidableLE τ] [Zero τ] {P : Media.Gallery.Python τ}
  {request : MediaRequest} {candidates : List (MediaCandidate τ)}

/-- What a provider refreshes goes by the name of the candidate it replaces. -/
theorem key_of_offered {a : Media.Materialize.Attempt τ} {candidate offered : MediaCandidate τ}
    (h : Offered P request a candidate offered) : key offered = key candidate := by
  rcases h with rfl | ⟨descriptor, -, -, hvalid⟩
  · rfl
  · unfold Media.Materialize.validateRefreshedCandidate at hvalid
    dsimp only at hvalid
    split_ifs at hvalid with hchecks
    simp only [Bool.and_eq_true, decide_eq_true_eq] at hchecks
    obtain ⟨⟨⟨hidentity, -⟩, -⟩, -⟩ := hchecks
    simp [key, hidentity]

/-- The item of a call goes by the name of a candidate that was offered to it. -/
theorem key_mem_of_materialize {maxBytes : Int} {world : World τ}
    {item : Media.Materialize.MaterializedItem τ}
    (h : materialize P maxBytes request candidates world = .ok item) :
    key item.candidate ∈ candidates.map key := by
  obtain ⟨candidate, hcandidate, position, hattempt⟩ := materialize_spec h
  obtain ⟨hoffered, -⟩ := attempt_spec hattempt
  rw [key_of_offered hoffered]
  exact List.mem_map_of_mem hcandidate

end Offers

namespace State

variable {τ : Type} {c : Settings} {s s' : State τ} {a : Action τ} {error : Error}

/-- The factory has ended. -/
def Ended (s : State τ) : Prop := ∃ result, s.phase = .ended result

theorem step_ended (h : s.Ended) : s.step c a = none := by
  obtain ⟨result, hphase⟩ := h
  cases a <;> simp [step, hphase]

theorem inv_step (h : s.Inv c) (hstep : s.step c a = some s') : s'.Inv c := by
  by_cases hcut : a.cutOff
  · obtain ⟨item, error, -, rfl⟩ := step_cutOff hstep hcut
    exact ⟨h.covered, trivial⟩
  · exact inv_move h (move_of_step hstep hcut)

theorem rank_step (h : s.Inv c) (hstep : s.step c a = some s') : s'.rank c < s.rank c := by
  by_cases hcut : a.cutOff
  · obtain ⟨item, error, hphase, rfl⟩ := step_cutOff hstep hcut
    refine rank_within ⟨rfl, le_refl _, rfl, le_refl _⟩ (by simp [started, hphase]) ?_
    simp [hphase, weight, ends]
  · exact rank_move h (move_of_step hstep hcut)

theorem progress (h : ¬ s.Ended) : ∃ a s', s.step c a = some s' := by
  have hsome : ∃ a, (s.step c a).isSome := by
    cases hphase : s.phase with
    | resolving => exact ⟨.resolved (.error .cancelled), by simp [step, hphase]⟩
    | racing => exact ⟨.raced (.error .cancelled), by simp [step, hphase]⟩
    | materializing candidates => exact ⟨.materialized (.error .cancelled), by simp [step, hphase]⟩
    | validating item => exact ⟨.validated none, by simp [step, hphase]⟩
    | releasing item error =>
      exact ⟨.released (.ok ()) true, by simp [step, hphase, awaitPreservingCancellation]⟩
    | awaitingPrefetch error =>
      exact ⟨.prefetched [] [] (.error .cancelled), by simp [step, hphase]⟩
    | reserving error => exact ⟨.reserved [] (.error .cancelled), by simp [step, hphase]⟩
    | joining outcome => exact ⟨.joined false, by simp [step, hphase]⟩
    | releasingValid error =>
      exact ⟨.released (.ok ()) true, by simp [step, hphase, awaitPreservingCancellation]⟩
    | storing item => exact ⟨.stored none, by simp [step, hphase]⟩
    | discarding error =>
      exact ⟨.released (.ok ()) true, by simp [step, hphase, awaitPreservingCancellation]⟩
    | publishing item => exact ⟨.published .stored true, by simp [step, hphase]⟩
    | ended result => exact absurd ⟨result, hphase⟩ h
  obtain ⟨a, ha⟩ := hsome
  exact ⟨a, Option.isSome_iff_exists.mp ha⟩

theorem inv_run {resolved : Option (ResolvedMedia τ)} {as : List (Action τ)}
    (hrun : (machine τ c).run (initial c resolved) as = some s) : s.Inv c :=
  (machine τ c).invariant (fun _ _ _ h hstep => inv_step h hstep) (inv_initial resolved) hrun

theorem ends_initial (resolved : Option (ResolvedMedia τ)) :
    (machine τ c).Ends State.Ended (initial c resolved) where
  finite run hstart := by
    refine Machine.finite_of_measure (machine τ c) (I := Inv c) (rank c) wellFounded_lt
      (fun _ _ _ h hstep => inv_step h hstep) (fun _ _ _ h hstep => rank_step h hstep) run ?_
    rw [hstart]
    exact inv_initial resolved
  progress _ _ _ hended := progress hended

/-- A factory that has ended has left no item behind just if its publication was not cut off. -/
theorem disposed_iff {as : List (Action τ)} {t : State τ} (h : s.Owned)
    (hrun : (machine τ c).run s as = some t) (hended : t.Ended) :
    t.Disposed ↔ (machine τ c).Admits (fun _ a => ¬ a.cutOff) s as := by
  induction as generalizing s with
  | nil =>
    obtain rfl := Option.some.inj hrun
    obtain ⟨result, hphase⟩ := hended
    rw [Owned, hphase] at h
    exact iff_of_true h trivial
  | cons a as ih =>
    obtain ⟨s', hstep, hrun⟩ := (machine τ c).run_cons_eq_some.mp hrun
    by_cases hcut : a.cutOff
    · obtain ⟨item, error, hphase, rfl⟩ := step_cutOff hstep hcut
      have hstuck : as = [] := by
        cases as with
        | nil => rfl
        | cons next as =>
          obtain ⟨s'', hnext, -⟩ := (machine τ c).run_cons_eq_some.mp hrun
          have hnone : (s.ends (.error error)).step c next = none := step_ended ⟨_, rfl⟩
          exact absurd (hnone.symm.trans hnext) (by simp)
      subst hstuck
      obtain rfl := Option.some.inj hrun
      exact iff_of_false (not_disposed h hphase) fun hadmits => hadmits.1 hcut
    · have howned := owned_move h (move_of_step hstep hcut)
      rw [ih howned hrun]
      exact ⟨(machine τ c).admits_cons hstep hcut, fun hadmits => hadmits.2 s' hstep⟩

end State

/-- What has been tried along a run: no reserve comes from one provider twice, but for one early
re-resolve on TikTok, and what has been rejected is not offered again. -/
structure Frugal {τ : Type} (c : Settings) (s : State τ) : Prop where
  reserves : s.reserves.Nodup
  refetched : s.refetched.length ≤ 1
  tiktok : s.refetched ≠ [] → c.request.platform = "tiktok"
  rejected : c.request.platform ≠ "tiktok" → s.history.Pairwise NotAgain

namespace State

variable {τ : Type} {c : Settings} {s : State τ}

theorem frugal_of_inv (h : s.Inv c) : Frugal c s := by
  have honce := h.covered.once
  have hretried := Bool.toNat_le s.retriedTiktokCheap
  refine ⟨h.covered.nodup, by omega, ?_, h.covered.ordered⟩
  intro hrefetched
  apply h.covered.tiktok
  have hpositive := List.length_pos_iff.mpr hrefetched
  cases hr : s.retriedTiktokCheap with
  | true => rfl
  | false =>
    rw [hr, Bool.toNat_false] at honce
    omega

end State

/-- The factory and the route attempts end, whatever their awaits end with. They try nothing twice,
and every item is passed on or released once, unless the publication is cut off. -/
theorem fallback_exits {τ : Type} (c : Settings) (resolved : Option (ResolvedMedia τ)) :
    (machine τ c).Ends State.Ended (State.initial c resolved) ∧
      (∀ as s, (machine τ c).run (State.initial c resolved) as = some s → Frugal c s ∧
        (s.Ended → (s.Disposed ↔
          (machine τ c).Admits (fun _ a => ¬ a.cutOff) (State.initial c resolved) as))) ∧
      (RouteAttempt.machine τ c.request).Ends RouteAttempt.State.Ended RouteAttempt.State.initial ∧
      ∀ as s, (RouteAttempt.machine τ c.request).run RouteAttempt.State.initial as = some s →
        s.history.Pairwise NotAgain ∧ (s.Ended → s.Disposed) := by
  refine ⟨State.ends_initial resolved, ?_, RouteAttempt.State.ends_initial, ?_⟩
  · intro as s hrun
    exact ⟨State.frugal_of_inv (State.inv_run hrun),
      State.disposed_iff (State.owned_initial resolved) hrun⟩
  · intro as s hrun
    obtain ⟨hordered, hitem⟩ := RouteAttempt.State.inv_run hrun
    refine ⟨hordered, ?_⟩
    rintro ⟨result, hphase⟩
    rw [hphase] at hitem
    exact hitem

section Shorts

def plainCandidate (provider candidateId : String) : MediaCandidate Int where
  candidateId := candidateId
  url := "https://video"
  width := none
  height := none
  hasVideo := true
  hasAudio := true
  audioFormats := []
  audioLanguages := []
  container := none
  filesizeBytes := none
  durationSeconds := none
  sources := []
  complete := true
  muxMode := none
  refresh := none
  provider := some provider
  mediaId := none
  kind := some .video
  items := []
  authScope := "public"
  watermarkFree := none

def shortRequest : MediaRequest where
  canonicalUrl := "https://youtube/shorts/7"
  platform := "youtube"
  mediaId := "7"
  kind := .video
  quality := ⟨none⟩
  audioFormat := none
  audioLanguage := none
  clip := ⟨none, none⟩
  albumSelection := []
  watermarkAllowed := false
  callerScope := "public"
  authScope := "public"
  isExact := false
  outputVariant := some youtubeShortDefaultVariant
  deadline := none

def shortSettings : Settings := ⟨shortRequest, [⟨"ytdlp", true⟩], false⟩

def shortResolved : ResolvedMedia Int :=
  ⟨[], [plainCandidate "ytdlp" "18", plainCandidate "ytdlp" "22"], some "ytdlp", ["ytdlp"]⟩

/-- The first artifact is rejected, the second one is published. -/
def secondFormat : List (Action Int) :=
  [.materialized (.ok (plainCandidate "ytdlp" "18")),
    .validated (some ⟨.artifactValidation, "no audio"⟩), .released (.ok ()) false,
    .materialized (.ok (plainCandidate "ytdlp" "22")), .validated none, .stored none,
    .published .stored false]

theorem fallback_exits_short :
    ∃ s : State Int, (machine Int shortSettings).run
        (State.initial shortSettings (some shortResolved)) secondFormat = some s ∧
      s.result = some 1 ∧ s.released = [0] ∧ Frugal shortSettings s ∧ s.Disposed := by
  have hrun : ((machine Int shortSettings).run
      (State.initial shortSettings (some shortResolved)) secondFormat).map
        (fun s => (s.phase, s.released)) =
      some (.ended (.ok ⟨1, plainCandidate "ytdlp" "22"⟩), [0]) := by decide +kernel
  obtain ⟨s, hs, hend⟩ := Option.map_eq_some_iff.mp hrun
  obtain ⟨hphase, hreleased⟩ := Prod.mk.inj hend
  obtain ⟨-, hall, -⟩ := fallback_exits shortSettings (some shortResolved)
  obtain ⟨hfrugal, hdisposed⟩ := hall _ s hs
  refine ⟨s, hs, ?_, hreleased, hfrugal, (hdisposed ⟨_, hphase⟩).mpr (by decide +kernel)⟩
  rw [State.result, hphase]

/-- The factory is cancelled while it publishes over an item of the same key. -/
def cutOffPublication : List (Action Int) :=
  [.materialized (.ok (plainCandidate "ytdlp" "18")), .validated none, .stored none,
    .published .present true]

theorem fallback_item_lost :
    ¬ ∀ (as : List (Action Int)) (s : State Int), (machine Int shortSettings).run
      (State.initial shortSettings (some shortResolved)) as = some s → s.Ended → s.Disposed := by
  intro hall
  have hrun : ((machine Int shortSettings).run
      (State.initial shortSettings (some shortResolved)) cutOffPublication).map
        (fun s => (s.phase, s.returned, s.released, s.published)) =
      some (.ended (.error .cancelled), 1, [], []) := by decide +kernel
  obtain ⟨s, hs, hend⟩ := Option.map_eq_some_iff.mp hrun
  simp only [Prod.mk.injEq] at hend
  obtain ⟨hphase, hreturned, hreleased, hpublished⟩ := hend
  have hitem := hall _ s hs ⟨_, hphase⟩ 0 (by simp [hreturned])
  simp [State.result, hphase, hreleased, hpublished] at hitem

/-- So it happens when user 1 starts a second flight before the first one has published. -/
example : ((Pipeline.machine Nat Unit).run Pipeline.initial
    [.register 5, .join 0, .start 0, .complete 0, .cancel 0, .beginPublish 0, .unsubscribe 0,
      .register 5, .join 1, .publish 0, .finish 0 true, .unwound 0, .return 0, .releaseUser 0,
      .start 1, .complete 1, .beginPublish 1, .cancel 1, .unsubscribe 1, .publish 1,
      .finish 1 true, .unwound 1, .return 1, .releaseUser 1]).map
        (fun s => (s.released, s.materializedReady 5 |>.isSome, s.factories 1)) =
    some ([0], false, .published) := by decide +kernel

end Shorts

end YtdlBot.Materialization.Fallback
