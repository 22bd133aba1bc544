import Mathlib.Data.List.Induction
import Mathlib.Order.Monotone.Basic
import YtdlBot.Race.CircuitBreaker

/-!
# When a circuit opens

Outcomes may be recorded in any order, as long as the clock does not run backwards. The failures that
a circuit keeps are those of the last 60 s since a probe has succeeded.
-/

namespace YtdlBot.Race

variable {τ : Type}

/-- A call of the breaker. -/
inductive Event where
  | acquire (route : Route)
  | release (route : Route)
  | success (route : Route)
  | failure (route : Route) (kind : FailureKind)
  | resetConfiguration
deriving DecidableEq

/-- The route that an event is about. -/
def Event.route : Event → Option Route
  | .acquire route | .release route | .success route | .failure route _ => some route
  | .resetConfiguration => none

section Events

variable [LinearOrder τ] [Add τ] [Sub τ] [OfNat τ 60] [OfNat τ 300]

/-- The circuits after a call at some time. -/
def record (circuits : Route → Circuit τ) : τ × Event → Route → Circuit τ
  | (now, .acquire route) =>
    Function.update circuits route ((circuits route).tryAcquire now).2
  | (_, .release route) => Function.update circuits route (circuits route).release
  | (_, .success route) => Function.update circuits route (circuits route).recordSuccess
  | (now, .failure route kind) =>
    Function.update circuits route ((circuits route).recordFailure kind now)
  | (_, .resetConfiguration) => fun route => { circuits route with disabled := false }

def after (circuits : Route → Circuit τ) (events : List (τ × Event)) : Route → Circuit τ :=
  events.foldl record circuits

/-- The transient failures of a route since the last success of a probe. -/
def sinceProbe (route : Route) : (Route → Circuit τ) → List τ → List (τ × Event) → List τ
  | _, seen, [] => seen
  | circuits, seen, event :: events =>
    let seen := match event with
      | (_, .success found) =>
        if found = route ∧ (circuits route).probeInflight then [] else seen
      | (now, .failure found .transient) => if found = route then seen ++ [now] else seen
      | _ => seen
    sinceProbe route (record circuits event) seen events

end Events

section Window

variable [LinearOrder τ]

theorem dropWhile_eq_filter {times : List τ} (h : times.Pairwise (· ≤ ·)) (start : τ) :
    times.dropWhile (fun t => decide (t < start)) = times.filter fun t => decide (start ≤ t) := by
  induction times with
  | nil => rfl
  | cons t times ih =>
    obtain ⟨hfirst, hrest⟩ := List.pairwise_cons.mp h
    by_cases hlt : t < start
    · simp [hlt, not_le.mpr hlt, ih hrest]
    · have hall : ∀ u ∈ times, start ≤ u := fun u hu => (not_lt.mp hlt).trans (hfirst u hu)
      simpa [hlt, not_lt.mp hlt] using (List.filter_eq_self.mpr (by simpa using hall)).symm

variable [Sub τ] [OfNat τ 60]

/-- What a circuit keeps of the failures seen: from any later time on, the window holds the same. -/
structure Window (now : τ) (kept seen : List τ) : Prop where
  ordered : kept.Pairwise (· ≤ ·)
  past : ∀ t ∈ kept, t ≤ now
  noted : ∀ t ∈ seen, t ≤ now
  same : ∀ later, now ≤ later →
    kept.filter (fun t => decide (later - 60 ≤ t)) = seen.filter fun t => decide (later - 60 ≤ t)

variable {now later : τ} {kept seen : List τ}

theorem Window.empty (now : τ) : Window now [] [] := by
  constructor <;> simp

theorem Window.advance (h : Window now kept seen) (hle : now ≤ later) : Window later kept seen where
  ordered := h.ordered
  past t ht := (h.past t ht).trans hle
  noted t ht := (h.noted t ht).trans hle
  same t ht := h.same t (hle.trans ht)

theorem Window.append (hsub : Monotone fun t : τ => t - 60) (h : Window now kept seen) :
    Window now (kept.dropWhile (fun t => decide (t < now - 60)) ++ [now]) (seen ++ [now]) where
  ordered := by
    rw [dropWhile_eq_filter h.ordered]
    refine List.pairwise_append.mpr ⟨h.ordered.filter _, List.pairwise_singleton _ _, ?_⟩
    intro t ht u hu
    rw [List.mem_singleton.mp hu]
    exact h.past t (List.mem_of_mem_filter ht)
  past t ht := by
    rcases List.mem_append.mp ht with ht | ht
    · exact h.past t ((List.dropWhile_sublist _).mem ht)
    · rw [List.mem_singleton.mp ht]
  noted t ht := by
    rcases List.mem_append.mp ht with ht | ht
    · exact h.noted t ht
    · rw [List.mem_singleton.mp ht]
  same later hle := by
    have hwindow : now - 60 ≤ later - 60 := hsub hle
    have hkept : (kept.filter fun t => decide (now - 60 ≤ t)).filter
        (fun t => decide (later - 60 ≤ t)) = kept.filter fun t => decide (later - 60 ≤ t) := by
      rw [List.filter_filter]
      refine List.filter_congr fun t _ => ?_
      by_cases ht : later - 60 ≤ t
      · simp [ht, hwindow.trans ht]
      · simp [ht]
    rw [dropWhile_eq_filter h.ordered, List.filter_append, List.filter_append, hkept,
      h.same later hle]

end Window

section Results

variable [LinearOrder τ] [Add τ] [Sub τ] [OfNat τ 60] [OfNat τ 300]
  {circuits : Route → Circuit τ} {route : Route} {now : τ} {seen : List τ}

theorem after_append (events later : List (τ × Event)) :
    after circuits (events ++ later) = after (after circuits events) later :=
  List.foldl_append

theorem record_other {event : Event} (hroute : event.route ≠ some route)
    (hreset : event ≠ .resetConfiguration) : record circuits (now, event) route = circuits route := by
  cases event with
  | resetConfiguration => exact absurd rfl hreset
  | _ found =>
    have hne : route ≠ found := by
      rintro rfl
      exact hroute rfl
    simp [record, hne]

theorem window_record (hsub : Monotone fun t : τ => t - 60) (event : Event)
    (h : Window now (circuits route).failures seen) :
    Window now (record circuits (now, event) route).failures
      (sinceProbe route circuits seen [(now, event)]) := by
  by_cases hroute : event.route = some route
  · cases event with
    | resetConfiguration => cases hroute
    | acquire found =>
      obtain rfl := Option.some.inj hroute
      simp only [record, sinceProbe, Function.update_self, Circuit.tryAcquire]
      split_ifs <;> exact h
    | release found =>
      obtain rfl := Option.some.inj hroute
      simpa [record, sinceProbe, Circuit.release] using h
    | success found =>
      obtain rfl := Option.some.inj hroute
      simp only [record, sinceProbe, Function.update_self, Circuit.recordSuccess, true_and]
      split
      · exact Window.empty now
      · exact h
    | failure found kind =>
      obtain rfl := Option.some.inj hroute
      cases kind with
      | transient =>
        simpa [record, sinceProbe, Circuit.recordFailure, Circuit.recentFailures] using
          h.append hsub
      | _ => simpa [record, sinceProbe, Circuit.recordFailure] using h
  · by_cases hreset : event = .resetConfiguration
    · subst hreset
      exact h
    · rw [record_other hroute hreset]
      cases event with
      | success found =>
        have hne : found ≠ route := fun heq => hroute (heq ▸ rfl)
        simpa [sinceProbe, hne] using h
      | failure found kind =>
        have hne : found ≠ route := fun heq => hroute (heq ▸ rfl)
        cases kind <;> simpa [sinceProbe, hne] using h
      | _ => exact h

theorem sinceProbe_append (events later : List (τ × Event)) :
    sinceProbe route circuits seen (events ++ later) =
      sinceProbe route (after circuits events) (sinceProbe route circuits seen events) later := by
  induction events generalizing circuits seen with
  | nil => rfl
  | cons event events ih => exact ih

def closed : Route → Circuit τ := fun _ => .default

/-- The window is kept along every run of the clock. -/
theorem window_after (hsub : Monotone fun t : τ => t - 60) (route : Route)
    {events : List (τ × Event)} (hclock : (events.map Prod.fst).Pairwise (· ≤ ·))
    (hpast : ∀ event ∈ events, event.1 ≤ now) :
    Window now (after closed events route).failures (sinceProbe route closed [] events) := by
  induction events using List.reverseRecOn generalizing now with
  | nil => exact Window.empty now
  | append_singleton events event ih =>
    rw [List.map_append, List.pairwise_append] at hclock
    obtain ⟨hordered, -, hlast⟩ := hclock
    have hwindow : Window event.1 (after closed events route).failures
        (sinceProbe route closed [] events) :=
      ih hordered fun earlier hearlier => hlast _ (List.mem_map_of_mem hearlier) _ (by simp)
    rw [after_append, sinceProbe_append]
    exact (window_record hsub event.2 hwindow).advance (hpast event (by simp))

theorem disabled_after {events : List (τ × Event)} (h : (circuits route).disabled = true)
    (hreset : .resetConfiguration ∉ events.map Prod.snd) :
    (after circuits events route).disabled = true := by
  induction events generalizing circuits with
  | nil => exact h
  | cons event events ih =>
    obtain ⟨now, event⟩ := event
    simp only [List.map_cons, List.mem_cons, not_or] at hreset
    refine ih ?_ hreset.2
    by_cases hroute : event.route = some route
    · cases event with
      | resetConfiguration => cases hroute
      | acquire found =>
        obtain rfl := Option.some.inj hroute
        simp [record, Circuit.tryAcquire, Circuit.isAvailable, h]
      | release found =>
        obtain rfl := Option.some.inj hroute
        simpa [record, Circuit.release] using h
      | success found =>
        obtain rfl := Option.some.inj hroute
        simp only [record, Function.update_self, Circuit.recordSuccess]
        split <;> exact h
      | failure found kind =>
        obtain rfl := Option.some.inj hroute
        cases kind <;> simp [record, Circuit.recordFailure, h]
    · rw [record_other hroute (Ne.symm hreset.1)]
      exact h

theorem after_others {events : List (τ × Event)}
    (hroute : ∀ event ∈ events, event.2.route ≠ some route ∧ event.2 ≠ .resetConfiguration) :
    after circuits events route = circuits route := by
  induction events generalizing circuits with
  | nil => rfl
  | cons event events ih =>
    obtain ⟨hfirst, hrest⟩ := List.forall_mem_cons.mp hroute
    exact (ih hrest).trans (record_other hfirst.1 hfirst.2)

/-- Outside a probe a transient failure opens the circuit as the third of its window. -/
theorem openUntil_recordFailure {c : Circuit τ} (hprobe : c.probeInflight = false) :
    (c.recordFailure .transient now).openUntil =
      if 3 ≤ (c.recentFailures now).length then some (now + 300) else c.openUntil := by
  simp [Circuit.recordFailure, Circuit.recentFailures, hprobe]

omit [Add τ] [Sub τ] [OfNat τ 60] [OfNat τ 300] in
theorem isAvailable_monotone {c : Circuit τ} {t t' : τ} (hle : t ≤ t') (h : c.isAvailable t = true) :
    c.isAvailable t' = true := by
  simp only [Circuit.isAvailable, Bool.and_eq_true, Option.all_eq_true, decide_eq_true_eq] at h ⊢
  exact ⟨h.1, fun u hu => (h.2 u hu).trans hle⟩

/-- A circuit opens with the third transient failure within 60 s, and not before. Failures of the
credentials or the configuration disable it until that is reset. Between the events of its route an
available circuit stays available. -/
theorem circuit_opening (hsub : Monotone fun t : τ => t - 60) (events : List (τ × Event))
    (route : Route) (hclock : (events.map Prod.fst).Pairwise (· ≤ ·)) :
    (∀ now, (∀ event ∈ events, event.1 ≤ now) →
      (after closed events route).probeInflight = false →
      (after closed (events ++ [(now, .failure route .transient)]) route).openUntil =
        if 3 ≤ ((sinceProbe route closed [] events).filter
            fun t => decide (now - 60 ≤ t ∧ t ≤ now)).length + 1 then some (now + 300)
        else (after closed events route).openUntil) ∧
      (∀ now kind later t, kind = .auth ∨ kind = .config →
        .resetConfiguration ∉ later.map Prod.snd →
        (after closed (events ++ (now, .failure route kind) :: later) route).isAvailable t = false) ∧
      (∀ now, (after closed (events ++ [(now, .resetConfiguration)]) route).disabled = false) ∧
      ∀ between t t', t ≤ t' →
        (∀ event ∈ between, event.2.route ≠ some route ∧ event.2 ≠ .resetConfiguration) →
        (after closed events route).isAvailable t = true →
        (after closed (events ++ between) route).isAvailable t' = true := by
  refine ⟨?_, ?_, ?_, ?_⟩
  · intro now hpast hprobe
    have hwindow := window_after hsub route hclock hpast
    have hrecent : ((sinceProbe route closed [] events).filter
        fun t => decide (now - 60 ≤ t ∧ t ≤ now)).length + 1 =
        ((after closed events route).recentFailures now).length := by
      have hupper : (sinceProbe route closed [] events).filter
          (fun t => decide (now - 60 ≤ t ∧ t ≤ now)) =
          (sinceProbe route closed [] events).filter fun t => decide (now - 60 ≤ t) :=
        List.filter_congr fun t ht => by simp [hwindow.noted t ht]
      rw [hupper, ← hwindow.same now le_rfl, ← dropWhile_eq_filter hwindow.ordered]
      simp [Circuit.recentFailures]
    rw [after_append, hrecent, ← openUntil_recordFailure hprobe]
    simp [after, record]
  · intro now kind later t hkind hreset
    have hdisabled : (record (after closed events) (now, .failure route kind) route).disabled =
        true := by
      rcases hkind with rfl | rfl <;> simp [record, Circuit.recordFailure]
    rw [after_append]
    have hlater := disabled_after hdisabled hreset
    simp only [after, List.foldl_cons] at hlater ⊢
    simp [Circuit.isAvailable, hlater]
  · intro now
    rw [after_append]
    rfl
  · intro between t t' hle hothers havailable
    rw [after_append, after_others hothers]
    exact isAvailable_monotone hle havailable

end Results

/-- Two failures in the window and one before it do not open the circuit; another one does. -/
theorem circuit_opening_third :
    let route := ("ytdlp", "youtube")
    let events : List (Int × Event) :=
      [(0, .failure route .transient), (61, .failure route .transient)]
    (after closed (events ++ [(61, .failure route .transient)]) route).openUntil = none ∧
      (after closed (events ++ [(61, .failure route .transient)] ++
        [(121, .failure route .transient)]) route).openUntil = some 421 ∧
      (after closed (events ++ (61, .failure route .auth) :: [(500, .success route)])
        route).isAvailable 1000 = false ∧
      (after closed (events ++ [(70, .success ("ytdlp", "vk"))]) route).isAvailable 80 = true := by
  intro route events
  have hsub : Monotone fun t : Int => t - 60 := fun a b hab => Int.sub_le_sub_right hab 60
  obtain ⟨hopens, hdisables, -, hstays⟩ := circuit_opening hsub events route (by decide)
  obtain ⟨hthird, -⟩ := circuit_opening hsub (events ++ [(61, .failure route .transient)]) route
    (by decide)
  refine ⟨?_, ?_, hdisables 61 .auth [(500, .success route)] 1000 (.inl rfl) (by decide),
    hstays [(70, .success ("ytdlp", "vk"))] 61 80 (by decide) (by decide) (by decide)⟩
  · rw [hopens 61 (by decide) (by decide)]
    decide
  · rw [hthird 121 (by decide) (by decide)]
    decide

end YtdlBot.Race
