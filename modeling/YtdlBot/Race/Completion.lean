import YtdlBot.Race.Attempts

/-!
# What holds of every run of a race

Fresh routes come before retries, the heap keeps its order against the sleeping workers, and the
counter of pending workers ends a race only when every route had its turn.
-/

namespace YtdlBot.Race.Candidates

open Framework

variable {κ : Type}

section Fresh

variable {c : Settings κ} {s s' : State κ}

/-- No first attempt is queued. -/
def NoFresh (s : State κ) : Prop := ∀ e ∈ s.cheap, e.attemptNumber ≠ 0

theorem Move.cheap (hmove : Move c s s') : ∀ e ∈ s'.cheap, e ∈ s.cheap ∨ e.attemptNumber ≠ 0 := by
  intro e he
  cases hmove with
  | ticked | expired | resumed | aborted | left | turned | nextHeavy | admitted | skipped | failed
  | settled | ended | dropped => exact .inl he
  | popped hw hmay hcheap hpop => exact .inl (heappop_subset hpop he)
  | pushed hw =>
    rcases List.mem_cons.mp he with rfl | hold
    · exact .inr (Nat.succ_ne_zero _)
    · exact .inl hold

theorem NoFresh.move (h : NoFresh s) (hmove : Move c s s') : NoFresh s' := by
  intro e he
  rcases hmove.cheap e he with hold | hretry
  · exact h e hold
  · exact hretry

/-- A retry that a worker has, or has started, comes after the fresh routes. -/
structure FreshFirst (s : State κ) : Prop where
  held : ∀ (w : Nat) (p : Phase κ) b job, s.workers[w]? = some p → p.claim = some (b, job) →
    job.attemptNumber ≠ 0 → NoFresh s
  admitted : ∀ a ∈ s.admitted, a.job.attemptNumber ≠ 0 → NoFresh s

theorem FreshFirst.initial (c : Settings κ) : FreshFirst (State.initial c) := by
  refine ⟨fun w p b job hw hclaim => ?_, fun _ ha => (nomatch ha)⟩
  rw [List.eq_of_mem_replicate (List.mem_of_getElem? hw)] at hclaim
  cases hclaim

/-- A popped retry was due before every fresh route. -/
theorem noFresh_of_popped {e : Entry} {rest : List Entry} (hsound : Sound c s)
    (hpop : heappop s.cheap = some (e, rest)) (hretry : e.attemptNumber ≠ 0) :
    ∀ e' ∈ rest, e'.attemptNumber ≠ 0 := by
  intro e' he' hfresh
  have hstart := (hsound.heap e' (heappop_subset hpop he')).fresh hfresh
  have hlater := (hsound.heap e (heappop_mem hpop)).retry hretry
  have hle := heappop_le hpop e' he'
  rw [hstart] at hle
  exact absurd hlater (not_lt.mpr hle)

theorem FreshFirst.set (h : FreshFirst s) (hmove : Move c s s') {w : Nat} {p q : Phase κ}
    (hw : s.workers[w]? = some p) (hworkers : s'.workers = s.workers.set w q)
    (hadmitted : ∀ a ∈ s'.admitted, a ∈ s.admitted ∨ ∃ b, p.claim = some (b, a.job))
    (hq : ∀ b job, q.claim = some (b, job) → job.attemptNumber ≠ 0 → NoFresh s') :
    FreshFirst s' := by
  refine ⟨fun w' p' b job hw' hclaim hretry => ?_, fun a ha hretry => ?_⟩
  · rw [hworkers] at hw'
    rcases replaced_cases hw hw' with ⟨rfl, rfl⟩ | ⟨-, hold⟩
    · exact hq b job hclaim hretry
    · exact (h.held w' p' b job hold hclaim hretry).move hmove
  · rcases hadmitted a ha with hold | ⟨b, hclaim⟩
    · exact (h.admitted a hold hretry).move hmove
    · exact (h.held w p b a.job hw hclaim hretry).move hmove

theorem FreshFirst.move (h : FreshFirst s) (hsound : Sound c s) (hmove : Move c s s') :
    FreshFirst s' := by
  have hstep := hmove
  cases hmove with
  | ticked | expired | resumed | aborted | left => exact ⟨h.held, h.admitted⟩
  | turned hw hmay hturn =>
    refine h.set hstep hw rfl (fun a ha => .inl ha) fun b job hclaim hretry => ?_
    obtain ⟨hclaim', -⟩ := hturn.claim_of hclaim
    exact (h.held _ _ b job hw hclaim' hretry).move hstep
  | popped hw hmay hcheap hpop =>
    refine h.set hstep hw rfl (fun a ha => .inl ha) fun b job hclaim hretry => ?_
    obtain ⟨rfl, rfl⟩ := Prod.mk.inj (Option.some.inj hclaim)
    exact noFresh_of_popped hsound hpop hretry
  | nextHeavy hw =>
    refine h.set hstep hw rfl (fun a ha => .inl ha) fun b job hclaim hretry => ?_
    obtain ⟨rfl, rfl⟩ := Prod.mk.inj (Option.some.inj hclaim)
    exact absurd rfl hretry
  | @admitted w job hw =>
    refine h.set hstep hw rfl (fun a ha => ?_) fun b job' hclaim hretry => ?_
    · rcases List.mem_append.mp ha with hold | hnew
      · exact .inl hold
      · obtain rfl := List.mem_singleton.mp hnew
        exact .inr ⟨false, rfl⟩
    · obtain ⟨rfl, rfl⟩ := Prod.mk.inj (Option.some.inj hclaim)
      exact (h.held w _ false job hw rfl hretry).move hstep
  | @failed w job error available hw =>
    refine h.set hstep hw rfl (fun a ha => .inl ha) fun b job' hclaim hretry => ?_
    cases hdelay : retryOf c job error s.finished.isSome available s.now with
    | none =>
      rw [hdelay] at hclaim
      cases hclaim
    | some delay =>
      rw [hdelay] at hclaim
      obtain ⟨rfl, rfl⟩ := Prod.mk.inj (Option.some.inj hclaim)
      exact (h.held w _ true job hw rfl hretry).move hstep
  | skipped hw | settled hw | pushed hw | ended hw | dropped hw =>
    exact h.set hstep hw rfl (fun a ha => .inl ha) fun b job hclaim => nomatch hclaim

end Fresh

section Order

variable {c : Settings κ} {s s' : State κ}

/-- A cheap worker is about to look at the heap. -/
def Looking (c : Settings κ) (s : State κ) : Prop :=
  s.finished = none ∧ ∃ w, s.running = some w ∧ s.workers[w]? = some .head ∧ w ≠ c.heavyWorker

/-- A popped entry, before its time. -/
def Phase.waitsFor : Phase κ → Option Entry
  | .due e | .sleeping e => some e
  | _ => none

/-- Until the deadline no worker waits longer than the heap does. -/
structure Ordered (c : Settings κ) (s : State κ) : Prop where
  waiting : s.now < c.deadline → ∀ (w : Nat) (p : Phase κ) e, s.workers[w]? = some p →
    p.waitsFor = some e → (∀ e' ∈ s.cheap.tail, e.readyAt ≤ e'.readyAt) ∧
      (Looking c s ∨ ∀ e' ∈ s.cheap, e.readyAt ≤ e'.readyAt)
  retrying : ∀ (w : Nat) job delay, s.workers[w]? = some (.returned job (some delay)) → s.finished = none

theorem Ordered.initial (c : Settings κ) : Ordered c (State.initial c) := by
  have hcreated : ∀ {w : Nat} {p : Phase κ}, (State.initial c).workers[w]? = some p →
      p = .created := fun hw => List.eq_of_mem_replicate (List.mem_of_getElem? hw)
  refine ⟨fun _ w p e hw hwaits => ?_, fun w job delay hw => ?_⟩
  · rw [hcreated hw] at hwaits
    cases hwaits
  · cases hcreated hw

theorem not_looking {w : Nat} {p : Phase κ} (hw : s.workers[w]? = some p)
    (hmay : s.running = none ∨ s.running = some w) (hp : p ≠ .head ∨ w = c.heavyWorker) :
    ¬ Looking c s := by
  rintro ⟨-, w', hrunning, hhead, hcheap⟩
  rcases hmay with hnone | hsome
  · rw [hnone] at hrunning
    cases hrunning
  · obtain rfl := Option.some.inj (hsome.symm.trans hrunning)
    rcases hp with hp | hp
    · exact hp (Option.some.inj (hw.symm.trans hhead))
    · exact hcheap hp

theorem not_looking_of_idle (h : s.running = none) : ¬ Looking c s := by
  rintro ⟨-, w, hrunning, -⟩
  rw [h] at hrunning
  cases hrunning

theorem Ordered.le (h : Ordered c s) (htime : s.now < c.deadline) (hlook : ¬ Looking c s) {w : Nat}
    {p : Phase κ} {e : Entry} (hw : s.workers[w]? = some p) (hwaits : p.waitsFor = some e) :
    ∀ e' ∈ s.cheap, e.readyAt ≤ e'.readyAt :=
  (h.waiting htime w p e hw hwaits).2.resolve_left hlook

theorem Ordered.set (h : Ordered c s) (hsolo : Solo s) {w : Nat} {p q : Phase κ}
    (hw : s.workers[w]? = some p) (hmay : s.running = none ∨ s.running = some w)
    (hworkers : s'.workers = s.workers.set w q) (hnow : s'.now = s.now) (hcheap : s'.cheap = s.cheap)
    (hlook : s.now < c.deadline → (¬ Looking c s ∨ s.cheap = []))
    (hq : ∀ e, q.waitsFor = some e → p.waitsFor = some e)
    (hretry : ∀ job delay, q = .returned job (some delay) → s'.finished = none) : Ordered c s' := by
  have hall : s.now < c.deadline → ∀ {w' : Nat} {p' : Phase κ} {e : Entry},
      s.workers[w']? = some p' → p'.waitsFor = some e → ∀ e' ∈ s.cheap, e.readyAt ≤ e'.readyAt := by
    intro htime w' p' e hw' hwaits
    rcases hlook htime with hnot | hempty
    · exact h.le htime hnot hw' hwaits
    · rw [hempty]
      exact fun _ he => absurd he List.not_mem_nil
  refine ⟨fun htime w' p' e hw' hwaits => ?_, fun w' job delay hw' => ?_⟩
  · rw [hnow] at htime
    rw [hworkers] at hw'
    rw [hcheap]
    have hle : ∀ e' ∈ s.cheap, e.readyAt ≤ e'.readyAt := by
      rcases replaced_cases hw hw' with ⟨rfl, rfl⟩ | ⟨-, hold⟩
      · exact hall htime hw (hq e hwaits)
      · exact hall htime hold hwaits
    exact ⟨fun e' he' => hle e' (List.mem_of_mem_tail he'), .inr hle⟩
  · rw [hworkers] at hw'
    rcases replaced_cases hw hw' with ⟨rfl, rfl⟩ | ⟨hne, hold⟩
    · exact hretry job delay rfl
    · exact absurd (hsolo.others hmay hne hold) Bool.false_ne_true

theorem Turn.waits_of {w : Nat} {p q : Phase κ} {answers : List (Nat × List κ)} {e : Entry}
    (h : Turn c s w p q answers) (hwaits : q.waitsFor = some e) : p.waitsFor = some e := by
  cases h with
  | sleep => exact hwaits
  | start | delay | delayed | woken | resolved | answered | failed | ready | late | again | next =>
    cases hwaits

theorem Turn.ne_head {w : Nat} {p q : Phase κ} {answers : List (Nat × List κ)}
    (h : Turn c s w p q answers) : p ≠ .head := by
  cases h <;> exact fun heq => nomatch heq

theorem Ordered.ticked (h : Ordered c s) {now : Rat} (hnow : s.now ≤ now) :
    Ordered c { s with now := now } :=
  ⟨fun htime => h.waiting (lt_of_le_of_lt hnow htime), h.retrying⟩

theorem Ordered.idle (h : Ordered c s) (hsolo : Solo s) (hidle : s.running = none)
    (hworkers : s'.workers = s.workers) (hnow : s'.now = s.now) (hcheap : s'.cheap = s.cheap) :
    Ordered c s' := by
  refine ⟨fun htime w p e hw hwaits => ?_, fun w job delay hw => ?_⟩
  · rw [hnow] at htime
    rw [hworkers] at hw
    rw [hcheap]
    exact ⟨(h.waiting htime w p e hw hwaits).1,
      .inr (h.le htime (not_looking_of_idle hidle) hw hwaits)⟩
  · rw [hworkers] at hw
    have hrunning := hsolo w _ hw rfl
    rw [hidle] at hrunning
    cases hrunning

theorem Ordered.move (h : Ordered c s) (hsolo : Solo s) (hmove : Move c s s') : Ordered c s' := by
  cases hmove with
  | ticked hnow => exact h.ticked hnow
  | expired hidle | resumed hidle | aborted hidle => exact h.idle hsolo hidle.1 rfl rfl rfl
  | left hmain hended =>
    refine ⟨fun htime w p e hw hwaits => ?_, fun w job delay hw => ?_⟩
    · obtain rfl := hended p (List.mem_of_getElem? hw)
      cases hwaits
    · cases hended _ (List.mem_of_getElem? hw)
  | turned hw hmay hturn =>
    refine h.set hsolo hw hmay.running rfl rfl rfl
      (fun _ => .inl (not_looking hw hmay.running (.inl hturn.ne_head)))
      (fun e hwaits => hturn.waits_of hwaits) fun job delay heq => ?_
    subst heq
    cases hturn
  | @popped w e rest hw hmay hcheap hpop hopen htime =>
    refine ⟨fun _ w' p' e' hw' hwaits => ?_, fun w' job delay hw' => ?_⟩
    · have hle : ∀ other ∈ rest, e'.readyAt ≤ other.readyAt := by
        rcases replaced_cases hw hw' with ⟨rfl, rfl⟩ | ⟨-, hold⟩
        · obtain rfl := Option.some.inj hwaits
          exact heappop_le hpop
        · exact heappop_tail hpop (h.waiting htime w' p' e' hold hwaits).1
      exact ⟨fun other hother => hle other (List.mem_of_mem_tail hother), .inr hle⟩
    · rcases replaced_cases hw hw' with ⟨-, heq⟩ | ⟨-, hold⟩
      · cases heq
      · exact h.retrying w' job delay hold
  | nextHeavy hw hmay hheavy =>
    exact h.set hsolo hw (.inr hmay) rfl rfl rfl
      (fun _ => .inl (not_looking hw (.inr hmay) (.inr hheavy)))
      (fun e hwaits => nomatch hwaits) fun job delay heq => nomatch heq
  | admitted hw hmay =>
    exact h.set hsolo hw (.inr hmay) rfl rfl rfl
      (fun _ => .inl (not_looking hw (.inr hmay) (.inl fun heq => nomatch heq)))
      (fun e hwaits => nomatch hwaits) fun job delay heq => nomatch heq
  | skipped hw hmay | settled hw hmay =>
    exact h.set hsolo hw (.inr hmay) rfl rfl rfl
      (fun _ => .inl (not_looking hw (.inr hmay) (.inl fun heq => nomatch heq)))
      (fun e hwaits => nomatch hwaits) fun job delay heq => nomatch heq
  | failed hw hmay =>
    refine h.set hsolo hw (.inr hmay) rfl rfl rfl
      (fun _ => .inl (not_looking hw (.inr hmay) (.inl fun heq => nomatch heq)))
      (fun e hwaits => nomatch hwaits) fun job delay heq => ?_
    obtain ⟨-, -, hopen, -⟩ := retryOf_sound (Phase.returned.inj heq).2
    exact Option.not_isSome_iff_eq_none.mp (ne_true_of_eq_false hopen)
  | @pushed w job delay hw hmay hcheap =>
    have hlook : ¬ Looking c s := not_looking hw (.inr hmay) (.inl fun heq => nomatch heq)
    have hopen : s.finished = none := h.retrying w job delay hw
    refine ⟨fun htime w' p' e hw' hwaits => ?_, fun w' job' delay' hw' => hopen⟩
    rcases replaced_cases hw hw' with ⟨-, rfl⟩ | ⟨-, hold⟩
    · cases hwaits
    · refine ⟨h.le htime hlook hold hwaits, .inl ⟨hopen, w, rfl, ?_, hcheap⟩⟩
      exact getElem?_replaced_self hw
  | @ended w p hw hmay hends =>
    refine h.set hsolo hw hmay rfl rfl rfl (fun htime => ?_) (fun e hwaits => nomatch hwaits)
      fun job delay heq => nomatch heq
    cases hends with
    | noHeavy hheavy => exact .inl (not_looking hw hmay (.inr hheavy))
    | noCheap hcheap hempty => exact .inr hempty
    | late hcheap hover =>
      rcases hover with hdone | hlate
      · refine .inl fun hlook => ?_
        rw [hlook.1] at hdone
        cases hdone
      · exact absurd htime (not_lt.mpr hlate)
    | decided => exact .inl (not_looking hw hmay (.inl fun heq => nomatch heq))
    | cancelled hmain hidle => exact .inl (not_looking_of_idle hidle)
  | dropped hw hmay =>
    exact h.set hsolo hw (.inl hmay) rfl rfl rfl (fun _ => .inl (not_looking_of_idle hmay))
      (fun e hwaits => nomatch hwaits) fun job delay heq => nomatch heq

end Order

section Completion

variable {c : Settings κ} {s s' : State κ}

/-- Every worker of a kind is through only when its routes are. -/
structure Drained (c : Settings κ) (s : State κ) : Prop where
  cheap : (∀ (w : Nat) (p : Phase κ), w ≠ c.heavyWorker → s.workers[w]? = some p → p = .ended) →
    s.cheap = []
  heavy : (∀ p : Phase κ, s.workers[c.heavyWorker]? = some p → p = .ended) → s.heavyLeft = []

theorem Drained.initial (c : Settings κ) : Drained c (State.initial c) := by
  have hcreated : ∀ {w : Nat}, w < c.cheapCount + (if c.heavyRoutes = [] then 0 else 1) →
      (State.initial c).workers[w]? = some .created := by
    intro w hw
    simp only [State.initial, List.getElem?_replicate]
    exact if_pos hw
  refine ⟨fun hall => ?_, fun hall => ?_⟩
  · by_contra hne
    have hroutes : c.cheapRoutes ≠ [] := fun hnil => hne (by simp [State.initial, hnil])
    have hpos : 0 < c.cheapRoutes.length := List.length_pos_of_ne_nil hroutes
    have hcount : 0 < c.cheapCount := by
      unfold Settings.cheapCount
      omega
    cases hall 0 _ (Nat.ne_of_lt hcount) (hcreated (by omega))
  · by_contra hne
    have hroutes : c.heavyRoutes ≠ [] := hne
    cases hall _ (hcreated (by rw [if_neg hroutes]; exact Nat.lt_succ_self _))

theorem Drained.set (h : Drained c s) {w : Nat} {p q : Phase κ} (hw : s.workers[w]? = some p)
    (hworkers : s'.workers = s.workers.set w q)
    (hcheap : if w = c.heavyWorker then s'.cheap = s.cheap else q ≠ .ended ∨ s'.cheap = [])
    (hheavy : if w = c.heavyWorker then q ≠ .ended ∨ s'.heavyLeft = []
      else s'.heavyLeft = s.heavyLeft) : Drained c s' := by
  have hself : s'.workers[w]? = some q := by
    rw [hworkers]
    exact getElem?_replaced_self hw
  have hother : ∀ {w' : Nat}, w' ≠ w → s'.workers[w']? = s.workers[w']? := by
    intro w' hne
    rw [hworkers]
    exact (getElem?_replaced hw).trans (if_neg hne)
  by_cases hlane : w = c.heavyWorker
  · rw [if_pos hlane] at hcheap hheavy
    refine ⟨fun hall => ?_, fun hall => ?_⟩
    · rw [hcheap]
      refine h.cheap fun w' p' hne hw' => hall w' p' hne ?_
      rw [hother (fun heq => hne (heq.trans hlane))]
      exact hw'
    · rw [← hlane] at hall
      exact hheavy.resolve_left fun hne => hne (hall q hself)
  · rw [if_neg hlane] at hcheap hheavy
    refine ⟨fun hall => ?_, fun hall => ?_⟩
    · exact hcheap.resolve_left fun hne => hne (hall w q hlane hself)
    · rw [hheavy]
      refine h.heavy fun p' hp' => hall p' ?_
      rw [hother (fun heq => hlane heq.symm)]
      exact hp'

theorem Drained.enter (h : Drained c s) {w : Nat} {p q : Phase κ} (hw : s.workers[w]? = some p)
    (hworkers : s'.workers = s.workers.set w q) (hq : q ≠ .ended)
    (hcheap : w = c.heavyWorker → s'.cheap = s.cheap)
    (hheavy : w ≠ c.heavyWorker → s'.heavyLeft = s.heavyLeft) : Drained c s' := by
  refine h.set hw hworkers ?_ ?_
  · split
    next hlane => exact hcheap hlane
    · exact .inl hq
  · split
    · exact .inl hq
    next hlane => exact hheavy hlane

theorem Turn.not_ended {w : Nat} {p q : Phase κ} {answers : List (Nat × List κ)}
    (h : Turn c s w p q answers) : p ≠ .ended ∧ q ≠ .ended := by
  cases h <;> exact ⟨fun heq => (nomatch heq), fun heq => nomatch heq⟩

theorem Drained.move (h : Drained c s) (hopen : s.finished = none) (htime : s.now < c.deadline)
    (hmain : ∀ r, s.main ≠ .leaving r) (hmove : Move c s s') : Drained c s' := by
  have hnot : ∀ {q : Phase κ}, q.awaiting = false → q ≠ .ended := by
    intro q hq heq
    rw [heq] at hq
    cases hq
  cases hmove with
  | ticked | expired | resumed | aborted | left => exact ⟨h.cheap, h.heavy⟩
  | turned hw hmay hturn =>
    exact h.enter hw rfl hturn.not_ended.2 (fun _ => rfl) fun _ => rfl
  | popped hw hmay hcheap =>
    exact h.enter hw rfl (hnot rfl) (fun hheavy => absurd hheavy hcheap) fun _ => rfl
  | nextHeavy hw hmay hheavy =>
    exact h.enter hw rfl (hnot rfl) (fun _ => rfl) fun hcheap => absurd hheavy hcheap
  | admitted hw => exact h.enter hw rfl (fun heq => nomatch heq) (fun _ => rfl) fun _ => rfl
  | skipped hw | failed hw | settled hw =>
    exact h.enter hw rfl (hnot rfl) (fun _ => rfl) fun _ => rfl
  | pushed hw hmay hcheap =>
    exact h.enter hw rfl (hnot rfl) (fun hheavy => absurd hheavy hcheap) fun _ => rfl
  | ended hw hmay hends =>
    cases hends with
    | noHeavy hheavy hleft =>
      refine h.set hw rfl ?_ ?_
      · rw [if_pos hheavy]
        rfl
      · rw [if_pos hheavy]
        exact .inr hleft
    | noCheap hcheap hempty =>
      refine h.set hw rfl ?_ ?_
      · rw [if_neg hcheap]
        exact .inr hempty
      · rw [if_neg hcheap]
        rfl
    | late hcheap hover =>
      rcases hover with hdone | hlate
      · rw [hopen] at hdone
        cases hdone
      · exact absurd htime (not_lt.mpr hlate)
    | decided hdone =>
      rw [hopen] at hdone
      cases hdone
    | cancelled hleaving => exact absurd hleaving (hmain _)
  | dropped hw hmay hleaving => exact absurd hleaving (hmain _)

/-- The places of a route that wait for an admission. -/
def turn (i : Nat) (admitted : Bool) (job : Job) : Nat := if admitted then 0 else place i true job

/-- How often a route has had its turn or has it still before it. -/
def State.turns (s : State κ) (i : Nat) : Nat :=
  tally (fun j => if j = i then 1 else 0) s.unavailable + potential (place i true) (turn i) s

/-- No route is lost before its turn. -/
theorem turns_le (i : Nat) (hopen : s.finished = none) (htime : s.now < c.deadline)
    (hmain : ∀ r, s.main ≠ .leaving r) (hmove : Move c s s') : s.turns i ≤ s'.turns i := by
  have hset : ∀ {w : Nat} {p q : Phase κ}, s.workers[w]? = some p →
      tally (Phase.weight (turn i)) (s.workers.set w q) + p.weight (turn i) =
        tally (Phase.weight (turn i)) s.workers + q.weight (turn i) :=
    fun hw => tally_replaced hw
  cases hmove with
  | ticked | expired | resumed | aborted | left => exact le_refl _
  | @turned w p q answers hw hmay hturn =>
    have hworkers := hset (q := q) hw
    have hle : p.weight (turn i) ≤ q.weight (turn i) := by
      cases hturn with
      | late hlate => exact absurd ⟨hopen, htime⟩ hlate
      | @next job retry => cases retry <;> exact le_refl _
      | start | delay | delayed | woken | resolved | answered | failed | sleep | ready | again =>
        exact le_refl _
    simp only [State.turns, potential, State.enter]
    omega
  | @popped w e rest hw hmay hcheap hpop =>
    have hworkers := hset (q := .due e) hw
    have hheap : tally (fun e : Entry => turn i false e.job) s.cheap =
        tally (fun e : Entry => turn i false e.job) (e :: rest) := tally_perm (heappop_perm hpop)
    rw [tally_cons] at hheap
    simp only [Phase.weight, Phase.claim] at hworkers
    simp only [State.turns, potential, State.enter]
    omega
  | @nextHeavy w j rest hw hmay hheavy hleft =>
    have hworkers := hset (q := .admitting ⟨j, 0⟩) hw
    simp only [Phase.weight, Phase.claim] at hworkers
    simp only [State.turns, potential, State.enter, hleft, tally_cons]
    omega
  | @admitted w job hw =>
    have hworkers := hset (q := .resolving job none) hw
    have hadmitted : turn i false job = place i true job := rfl
    simp only [Phase.weight, Phase.claim] at hworkers
    simp only [State.turns, potential, State.startAttempt, State.wait, tally_joined]
    omega
  | @skipped w job hw =>
    have hworkers := hset (q := .returned job none) hw
    have hskipped : turn i false job = if job.route = i then 1 else 0 := rfl
    simp only [Phase.weight, Phase.claim] at hworkers
    simp only [State.turns, potential, State.enter, tally_joined]
    omega
  | @failed w job error available hw =>
    have hworkers := hset (q := .returned job
      (retryOf c job error s.finished.isSome available s.now)) hw
    have hheld : Phase.weight (turn i) (.failed job error : Phase κ) = 0 := rfl
    simp only [State.turns, potential, State.fail, State.go]
    omega
  | @settled w job candidates hw =>
    have hworkers := hset (q := .returned job none) hw
    have hheld : Phase.weight (turn i) (.answered job candidates) = 0 := rfl
    simp only [State.turns, potential, State.settle, State.go]
    omega
  | @pushed w job delay hw =>
    have hworkers := hset (q := .head) hw
    have hheld : Phase.weight (turn i) (.returned job (some delay) : Phase κ) = 0 := rfl
    simp only [State.turns, potential, State.push, State.go, tally_cons]
    omega
  | @ended w p hw hmay hends =>
    have hworkers := hset (q := .ended) hw
    have hheld : p.weight (turn i) = 0 := by
      cases hends with
      | noHeavy | noCheap | late => rfl
      | decided hdone =>
        rw [hopen] at hdone
        cases hdone
      | cancelled hleaving => exact absurd hleaving (hmain _)
    simp only [State.turns, potential, State.finish]
    omega
  | dropped hw hmay hleaving => exact absurd hleaving (hmain _)

theorem finish_finished (s : State κ) (w : Nat) : (s.finish w).finished = s.finished ∨
    (s.finished = none ∧ s.pending - 1 = 0 ∧ (s.finish w).finished = some .nobody) := by
  by_cases hlast : s.pending - 1 = 0 ∧ s.finished.isNone = true
  · exact .inr ⟨Option.isNone_iff_eq_none.mp hlast.2, hlast.1, if_pos hlast⟩
  · exact .inl (if_neg hlast)

theorem settle_finished (c : Settings κ) (s : State κ) (w : Nat) (job : Job) (candidates : List κ) :
    (s.settle c w job candidates).finished = s.finished ∨
      (s.finished = none ∧ ∃ x, (s.settle c w job candidates).finished = some (.winner x)) := by
  simp only [State.settle, State.go]
  split
  · exact .inl rfl
  · split
    next hopen => exact .inr ⟨Option.isNone_iff_eq_none.mp hopen.1, _, rfl⟩
    · exact .inl rfl

theorem Move.finished (hmove : Move c s s') : s'.finished = s.finished ∨ s.finished = none := by
  have hor : ∀ v : Verdict κ, s.finished.or (some v) = s.finished ∨ s.finished = none := by
    intro v
    cases s.finished with
    | none => exact .inr rfl
    | some v' => exact .inl rfl
  cases hmove with
  | ticked | turned | popped | nextHeavy | admitted | skipped | failed | pushed | dropped | resumed
  | left => exact .inl rfl
  | expired | aborted => exact hor _
  | @settled w job candidates =>
    exact (settle_finished c s w job candidates).imp_right fun hset => hset.1
  | @ended w => exact (finish_finished s w).imp_right fun hset => hset.1

theorem Move.now (hmove : Move c s s') : s.now ≤ s'.now := by
  cases hmove with
  | ticked hnow => exact hnow
  | turned | popped | nextHeavy | admitted | skipped | failed | settled | pushed | ended | dropped
  | expired | resumed | aborted | left => exact le_refl _

/-- What `race_candidates` does with the result. -/
structure Concluded (c : Settings κ) (s : State κ) : Prop where
  leaving : ∀ r, s.main = .leaving r → s.finished.isSome = true
  uncancelled : s.main ≠ .leaving true → s.main ≠ .raised → s.finished ≠ some .cancelled
  returned : s.main = .returned → s.finished.isSome = true ∨ c.count = 0 ∨ c.deadline ≤ c.started

theorem Concluded.initial (c : Settings κ) : Concluded c (State.initial c) := by
  refine ⟨fun r hr => ?_, fun _ _ heq => (nomatch heq), fun hreturned => .inr ?_⟩
  · simp only [State.initial] at hr
    split at hr <;> cases hr
  · by_contra hnone
    simp only [State.initial, if_neg hnone] at hreturned
    cases hreturned

theorem Concluded.of_finished (h : Concluded c s) (hmain : s'.main = s.main)
    (hfinished : s'.finished = s.finished ∨ ∃ v, v ≠ .cancelled ∧ s'.finished = some v) :
    Concluded c s' := by
  rcases hfinished with hsame | ⟨v, hv, hset⟩
  · refine ⟨?_, ?_, ?_⟩
    · rw [hmain, hsame]
      exact h.leaving
    · rw [hmain, hsame]
      exact h.uncancelled
    · rw [hmain, hsame]
      exact h.returned
  · refine ⟨fun _ _ => ?_, fun _ _ heq => ?_, fun _ => .inl ?_⟩
    · rw [hset]
      rfl
    · exact hv (Option.some.inj (hset.symm.trans heq))
    · rw [hset]
      rfl

theorem Concluded.move (h : Concluded c s) (hmove : Move c s s') : Concluded c s' := by
  cases hmove with
  | ticked | turned | popped | nextHeavy | admitted | skipped | failed | pushed | dropped =>
    exact h.of_finished rfl (.inl rfl)
  | expired =>
    refine h.of_finished rfl ?_
    cases s.finished with
    | none => exact .inr ⟨.nobody, fun heq => (nomatch heq), rfl⟩
    | some v => exact .inl rfl
  | @settled w job candidates =>
    refine h.of_finished rfl ((settle_finished c s w job candidates).imp_right ?_)
    rintro ⟨-, x, hset⟩
    exact ⟨.winner x, fun heq => (nomatch heq), hset⟩
  | @ended w =>
    refine h.of_finished rfl ((finish_finished s w).imp_right ?_)
    rintro ⟨-, -, hset⟩
    exact ⟨.nobody, fun heq => (nomatch heq), hset⟩
  | resumed hidle hdone =>
    refine ⟨fun _ _ => hdone, fun _ _ => ?_, fun heq => nomatch heq⟩
    exact h.uncancelled (by rw [hidle.2]; exact fun heq => nomatch heq)
      (by rw [hidle.2]; exact fun heq => nomatch heq)
  | aborted hidle =>
    refine ⟨fun _ _ => ?_, fun hmain => absurd rfl hmain, fun heq => nomatch heq⟩
    cases s.finished <;> rfl
  | @left cancelled hmain hended =>
    have hdone := h.leaving cancelled hmain
    cases cancelled with
    | false =>
      refine ⟨fun r heq => (nomatch heq), fun _ _ => ?_, fun _ => .inl hdone⟩
      exact h.uncancelled (by rw [hmain]; exact fun heq => nomatch heq)
        (by rw [hmain]; exact fun heq => nomatch heq)
    | true => exact ⟨fun r heq => (nomatch heq), fun _ hmain => absurd rfl hmain,
        fun heq => nomatch heq⟩

/-- A worker that has not ended. -/
def Phase.live : Phase κ → Nat
  | .ended => 0
  | _ => 1

theorem live_of_ne {p : Phase κ} (hp : p ≠ .ended) : p.live = 1 := by
  cases p <;> first | rfl | exact absurd rfl hp

theorem Ends.not_ended {w : Nat} {p : Phase κ} (h : Ends c s w p) (hopen : s.finished = none)
    (hmain : ∀ r, s.main ≠ .leaving r) : p ≠ .ended := by
  cases h with
  | noHeavy | noCheap | late => exact fun heq => nomatch heq
  | decided hdone =>
    rw [hopen] at hdone
    cases hdone
  | cancelled hleaving => exact absurd hleaving (hmain _)

/-- While there is no result, the counter counts the workers. -/
def Counted (s : State κ) : Prop := s.pending = tally Phase.live s.workers

theorem Counted.initial (c : Settings κ) : Counted (State.initial c) := by
  have hall : ∀ n, tally Phase.live (List.replicate n (.created : Phase κ)) = n := by
    intro n
    induction n with
    | zero => rfl
    | succ n ih =>
      rw [List.replicate_succ, tally_cons, ih]
      exact Nat.add_comm 1 n
  exact (hall _).symm

theorem Counted.enter (h : Counted s) {w : Nat} {p q : Phase κ} (hw : s.workers[w]? = some p)
    (hworkers : s'.workers = s.workers.set w q) (hpending : s'.pending = s.pending)
    (hp : p ≠ .ended) (hq : q ≠ .ended) : Counted s' := by
  have hset := tally_replaced (w := Phase.live) (b := q) hw
  have hlive := live_of_ne hp
  have hlive' := live_of_ne hq
  unfold Counted at *
  rw [hworkers, hpending]
  omega

theorem Counted.move (h : Counted s) (hmain : ∀ r, s.main ≠ .leaving r) (hopen : s.finished = none)
    (hmove : Move c s s') : Counted s' := by
  cases hmove with
  | ticked | expired | resumed | aborted | left => exact h
  | turned hw hmay hturn => exact h.enter hw rfl rfl hturn.not_ended.1 hturn.not_ended.2
  | popped hw | nextHeavy hw | admitted hw | skipped hw | failed hw | settled hw | pushed hw =>
    exact h.enter hw rfl rfl (fun heq => nomatch heq) fun heq => nomatch heq
  | @ended w p hw hmay hends =>
    have hset := tally_replaced (w := Phase.live) (b := .ended) hw
    have hlive := live_of_ne (hends.not_ended hopen hmain)
    have hnone : Phase.live (.ended : Phase κ) = 0 := rfl
    unfold Counted at *
    simp only [State.finish]
    omega
  | dropped hw hmay hleaving => exact absurd hleaving (hmain _)

/-- Every route had its turn, and no attempt is left. -/
structure Exhausted (c : Settings κ) (s : State κ) : Prop where
  workers : ∀ p ∈ s.workers, p = .ended
  heap : s.cheap = []
  routes : ∀ i < c.count, (∃ a ∈ s.admitted, a.job.route = i) ∨ i ∈ s.unavailable

theorem exhausted_of_ended (hworkers : ∀ p ∈ s.workers, p = .ended) (hdrained : Drained c s)
    (hturns : ∀ i < c.count, 1 ≤ s.turns i) : Exhausted c s := by
  have hcheap := hdrained.cheap fun w p _ hw => hworkers p (List.mem_of_getElem? hw)
  have hheavy := hdrained.heavy fun p hw => hworkers p (List.mem_of_getElem? hw)
  refine ⟨hworkers, hcheap, fun i hi => ?_⟩
  have hnone : tally (Phase.weight (turn i)) s.workers = 0 := by
    rw [tally_eq_zero]
    intro p hp
    rw [hworkers p hp]
    rfl
  have hone := hturns i hi
  rw [State.turns, potential, hcheap, hheavy, hnone, tally_nil, tally_nil] at hone
  by_cases hadmitted : 0 < tally (fun a : Admission => place i true a.job) s.admitted
  · obtain ⟨j, a, ha, hpos⟩ := tally_pos.mp hadmitted
    refine .inl ⟨a, List.mem_of_getElem? ha, ?_⟩
    by_contra hroute
    rw [place, if_neg hroute] at hpos
    exact absurd hpos (lt_irrefl 0)
  · have hskipped : 0 < tally (fun j => if j = i then 1 else 0) s.unavailable := by omega
    obtain ⟨j, k, hk, hpos⟩ := tally_pos.mp hskipped
    have hki : k = i := by
      by_contra hne
      rw [if_neg hne] at hpos
      exact absurd hpos (lt_irrefl 0)
    exact .inr (hki ▸ List.mem_of_getElem? hk)

theorem Exhausted.move (h : Exhausted c s) (hmove : Move c s s') : Exhausted c s' := by
  have hended : ∀ {w : Nat} {p : Phase κ}, s.workers[w]? = some p → p = .ended :=
    fun hw => h.workers _ (List.mem_of_getElem? hw)
  cases hmove with
  | ticked | expired | resumed | aborted | left => exact ⟨h.workers, h.heap, h.routes⟩
  | turned hw hmay hturn => exact absurd (hended hw) hturn.not_ended.1
  | popped hw | nextHeavy hw | admitted hw | skipped hw | failed hw | settled hw | pushed hw
  | dropped hw => cases hended hw
  | ended hw =>
    refine ⟨fun p hp => ?_, h.heap, h.routes⟩
    rcases List.mem_or_eq_of_mem_set hp with hold | hnew
    · exact h.workers p hold
    · exact hnew

/-- The result `None` before the deadline comes from the last worker. -/
theorem nobody_cases (hmove : Move c s s') (hset : s'.finished = some .nobody) :
    s.finished = some .nobody ∨ c.deadline ≤ s'.now ∨
      (s.finished = none ∧ s.pending - 1 = 0 ∧
        ∃ w p, s.workers[w]? = some p ∧ Ends c s w p ∧ s'.workers = s.workers.set w .ended) := by
  cases hmove with
  | ticked | turned | popped | nextHeavy | admitted | skipped | failed | pushed | dropped | resumed
  | left => exact .inl hset
  | expired hidle htime => exact .inr (.inl htime)
  | aborted =>
    cases hfinished : s.finished with
    | none =>
      rw [hfinished] at hset
      cases hset
    | some v =>
      rw [hfinished] at hset
      exact .inl hset
  | @settled w job candidates =>
    rcases settle_finished c s w job candidates with hsame | ⟨-, x, hwinner⟩
    · exact .inl (hsame.symm.trans hset)
    · cases hwinner.symm.trans hset
  | @ended w p hw hmay hends =>
    rcases finish_finished s w with hsame | ⟨hopen, hlast, -⟩
    · exact .inl (hsame.symm.trans hset)
    · exact .inr (.inr ⟨hopen, hlast, w, p, hw, hends, rfl⟩)

/-- Before the deadline a race without a result is not exhausted unnoticed. -/
structure Accounted (c : Settings κ) (s : State κ) : Prop where
  counted : s.finished = none → Counted s
  drained : s.finished = none → s.now < c.deadline → Drained c s
  turns : s.finished = none → s.now < c.deadline → ∀ i < c.count, 1 ≤ s.turns i
  nobody : s.finished = some .nobody → s.now < c.deadline → Exhausted c s

theorem Accounted.initial (c : Settings κ) : Accounted c (State.initial c) := by
  refine ⟨fun _ => Counted.initial c, fun _ _ => Drained.initial c, fun _ _ i hi => ?_,
    fun heq => nomatch heq⟩
  rw [State.turns, potential_initial i 1 (fun _ => rfl), if_pos hi]
  exact Nat.le_add_left 1 _

theorem Accounted.move (h : Accounted c s) (hconcluded : Concluded c s) (hmove : Move c s s') :
    Accounted c s' := by
  have hmain : s.finished = none → ∀ r, s.main ≠ .leaving r := by
    intro hopen r hr
    have hdone := hconcluded.leaving r hr
    rw [hopen] at hdone
    cases hdone
  have hopen : s'.finished = none → s.finished = none := by
    intro hnone
    rcases hmove.finished with hsame | hold
    · exact hsame.symm.trans hnone
    · exact hold
  have htime : s'.now < c.deadline → s.now < c.deadline := fun hlt => lt_of_le_of_lt hmove.now hlt
  have hturns : s.finished = none → s.now < c.deadline → ∀ i < c.count, 1 ≤ s'.turns i := by
    intro hnone hlt i hi
    exact (h.turns hnone hlt i hi).trans (turns_le i hnone hlt (hmain hnone) hmove)
  refine ⟨fun hnone => ?_, fun hnone hlt => ?_, fun hnone hlt => ?_, fun hnobody hlt => ?_⟩
  · exact (h.counted (hopen hnone)).move (hmain (hopen hnone)) (hopen hnone) hmove
  · exact (h.drained (hopen hnone) (htime hlt)).move (hopen hnone) (htime hlt) (hmain (hopen hnone))
      hmove
  · exact hturns (hopen hnone) (htime hlt)
  · rcases nobody_cases hmove hnobody with hold | hlate | ⟨hnone, hlast, w, p, hw, hends, hworkers⟩
    · exact (h.nobody hold (htime hlt)).move hmove
    · exact absurd hlt (not_lt.mpr hlate)
    · have hset := tally_replaced (w := Phase.live) (b := .ended) hw
      have hlive := live_of_ne (hends.not_ended hnone (hmain hnone))
      have hended : Phase.live (.ended : Phase κ) = 0 := rfl
      have hcount : s.pending = tally Phase.live s.workers := h.counted hnone
      have hall : tally Phase.live s'.workers = 0 := by
        rw [hworkers]
        omega
      refine exhausted_of_ended (fun p' hp' => ?_) ?_ (hturns hnone (htime hlt))
      · by_contra hne
        have hone := live_of_ne hne
        rw [tally_eq_zero.mp hall p' hp'] at hone
        cases hone
      · exact (h.drained hnone (htime hlt)).move hnone (htime hlt) (hmain hnone) hmove

end Completion

end YtdlBot.Race.Candidates
