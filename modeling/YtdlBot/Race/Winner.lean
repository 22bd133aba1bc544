import Mathlib.Data.List.Flatten
import Mathlib.Data.List.Pairwise
import YtdlBot.Race.Fairness

/-!
# The result of a race

The winner comes from the first received answer with a usable candidate, and the alternatives are
the other usable candidates of all received answers, in the order of the routes. An answer of a
provider is received unless its worker is cancelled before `_resolve` has returned.
-/

namespace YtdlBot.Race.Candidates

open Framework

variable {κ : Type}

/-- The usable candidates of all answers, with their places. -/
def Settings.placed (c : Settings κ) (answers : List (Nat × List κ)) : List (Validated κ) :=
  answers.flatMap fun answer => c.entries answer.1 answer.2

section Entries

variable {c : Settings κ} {i : Nat} {candidates : List κ}

theorem entries_candidates :
    (c.entries i candidates).map Validated.candidate = candidates.filter c.validate := by
  simp only [Settings.entries, List.map_map]
  exact List.zipIdx_map_fst 0 _

theorem placed_candidates (answers : List (Nat × List κ)) :
    (c.placed answers).map Validated.candidate = (answers.flatMap Prod.snd).filter c.validate := by
  rw [Settings.placed, List.map_flatMap, List.filter_flatMap]
  simp only [entries_candidates]

theorem entries_provider {v : Validated κ} (hv : v ∈ c.entries i candidates) :
    v.provider = c.provider i := by
  obtain ⟨x, -, rfl⟩ := List.mem_map.mp hv
  rfl

theorem entries_mem {v : Validated κ} (hv : v ∈ c.entries i candidates) :
    v.candidate ∈ candidates := by
  have hmem := List.mem_map_of_mem (f := Validated.candidate) hv
  rw [entries_candidates] at hmem
  exact (List.mem_filter.mp hmem).1

end Entries

section Answers

variable {c : Settings κ} {s s' : State κ}

/-- An answer is the first one with a usable candidate. -/
def FirstUsable (c : Settings κ) (answers : List (Nat × List κ)) (x : CandidateWinner κ) : Prop :=
  ∃ earlier i candidates later rest, answers = earlier ++ (i, candidates) :: later ∧
    (∀ answer ∈ earlier, answer.2.filter c.validate = []) ∧
      candidates.filter c.validate = x.candidate :: rest ∧ x.provider = c.provider i

/-- The race keeps the usable candidates of all received answers, and goes on while there are none. -/
structure Collected (c : Settings κ) (s : State κ) : Prop where
  validated : s.validated = c.placed s.received
  unusable : s.finished = none → s.now < c.deadline →
    ∀ answer ∈ s.received, answer.2.filter c.validate = []
  winner : ∀ x, s.finished = some (.winner x) → FirstUsable c s.received x

theorem Collected.initial (c : Settings κ) : Collected c (State.initial c) :=
  ⟨rfl, fun _ _ _ ha => (nomatch ha), fun _ heq => nomatch heq⟩

theorem Collected.quiet (h : Collected c s) (hvalidated : s'.validated = s.validated)
    (hreceived : s'.received = s.received) (hnow : s.now ≤ s'.now)
    (hfinished : s'.finished = s.finished ∨
      s.finished = none ∧ ∃ v, s'.finished = some v ∧ ∀ x, v ≠ .winner x) : Collected c s' := by
  refine ⟨?_, fun hopen htime => ?_, fun x hx => ?_⟩
  · rw [hvalidated, hreceived]
    exact h.validated
  · rw [hreceived]
    rcases hfinished with hsame | ⟨hnone, -⟩
    · exact h.unusable (hsame.symm.trans hopen) (lt_of_le_of_lt hnow htime)
    · exact h.unusable hnone (lt_of_le_of_lt hnow htime)
  · rw [hreceived]
    rcases hfinished with hsame | ⟨-, v, hv, hne⟩
    · exact h.winner x (hsame.symm.trans hx)
    · exact absurd (Option.some.inj (hv.symm.trans hx)) (hne x)

theorem FirstUsable.append {answers : List (Nat × List κ)} {x : CandidateWinner κ}
    (h : FirstUsable c answers x) (more : List (Nat × List κ)) :
    FirstUsable c (answers ++ more) x := by
  obtain ⟨earlier, i, candidates, later, rest, rfl, hearlier, hfirst, hprovider⟩ := h
  refine ⟨earlier, i, candidates, later ++ more, rest, ?_, hearlier, hfirst, hprovider⟩
  rw [List.append_assoc, List.cons_append]

theorem FirstUsable.valid {answers : List (Nat × List κ)} {x : CandidateWinner κ}
    (h : FirstUsable c answers x) :
    c.validate x.candidate = true := by
  obtain ⟨earlier, i, candidates, later, rest, -, -, hhead, -⟩ := h
  have hmem : x.candidate ∈ candidates.filter c.validate := by
    rw [hhead]
    exact List.mem_cons_self
  exact (List.mem_filter.mp hmem).2

theorem Collected.settle (h : Collected c s) (w : Nat) (job : Job) (candidates : List κ) :
    Collected c (s.settle c w job candidates) := by
  refine ⟨?_, ?_, fun x hx => ?_⟩
  · simp only [State.settle, State.go, Settings.placed, List.flatMap_append, List.flatMap_cons,
      List.flatMap_nil, List.append_nil]
    rw [h.validated]
    rfl
  · simp only [State.settle, State.go]
    cases hfilter : candidates.filter c.validate with
    | nil =>
      intro hopen htime answer hanswer
      rcases List.mem_append.mp hanswer with hold | hnew
      · exact h.unusable hopen htime answer hold
      · obtain rfl := List.mem_singleton.mp hnew
        exact hfilter
    | cons first rest =>
      intro hopen htime
      simp only at hopen
      split at hopen
      · cases hopen
      next hnot => exact absurd ⟨Option.isNone_iff_eq_none.mpr hopen, htime⟩ hnot
  · simp only [State.settle, State.go] at hx ⊢
    cases hfilter : candidates.filter c.validate with
    | nil =>
      rw [hfilter] at hx
      exact (h.winner x hx).append _
    | cons first rest =>
      rw [hfilter] at hx
      simp only at hx
      split at hx
      next hopen =>
        obtain rfl := Verdict.winner.inj (Option.some.inj hx)
        exact ⟨s.received, job.route, candidates, [], rest, rfl,
          h.unusable (Option.isNone_iff_eq_none.mp hopen.1) hopen.2, hfilter, rfl⟩
      · exact (h.winner x hx).append _

theorem Collected.move (h : Collected c s) (hmove : Move c s s') : Collected c s' := by
  have hor : ∀ v : Verdict κ, (∀ x, v ≠ .winner x) → s.finished.or (some v) = s.finished ∨
      s.finished = none ∧ ∃ v', s.finished.or (some v) = some v' ∧ ∀ x, v' ≠ .winner x := by
    intro v hv
    cases s.finished with
    | none => exact .inr ⟨rfl, v, rfl, hv⟩
    | some v' => exact .inl rfl
  cases hmove with
  | ticked hnow => exact h.quiet rfl rfl hnow (.inl rfl)
  | turned | popped | nextHeavy | admitted | skipped | failed | pushed | dropped | resumed | left =>
    exact h.quiet rfl rfl (le_refl _) (.inl rfl)
  | expired | aborted =>
    exact h.quiet rfl rfl (le_refl _) (hor _ fun x heq => nomatch heq)
  | settled => exact h.settle _ _ _
  | @ended w =>
    refine h.quiet rfl rfl (le_refl _) ((finish_finished s w).imp_right ?_)
    rintro ⟨hopen, -, hset⟩
    exact ⟨hopen, .nobody, hset, fun x heq => nomatch heq⟩

theorem collected_of_run {as : List (Action κ)}
    (hrun : (machine c).run (State.initial c) as = some s) : Collected c s :=
  (machine c).invariant (fun _ _ _ hcollected hstep => hcollected.move (step_move hstep))
    (Collected.initial c) hrun

end Answers

section Custody

variable [DecidableEq κ] {c : Settings κ} {s s' : State κ}

/-- How often a worker has yet to take in an answer. -/
def Phase.carries (a : Nat × List κ) (p : Phase κ) : Nat := p.answer.toList.count a

/-- An answer of a provider is on its way until it is received or dropped, and it is not dropped
while the race goes on. -/
structure Conserved (s : State κ) : Prop where
  count : ∀ a, s.answers.count a =
    s.received.count a + s.dropped.count a + tally (Phase.carries a) s.workers
  dropped : s.main = .awaiting → s.dropped = []
  returned : s.main = .returned → ∀ p ∈ s.workers, p.answer = none

theorem Conserved.initial (c : Settings κ) : Conserved (State.initial c) := by
  have hcreated : ∀ p ∈ (State.initial c).workers, p.answer = none := by
    intro p hp
    rw [List.eq_of_mem_replicate hp]
    rfl
  refine ⟨fun a => ?_, fun _ => rfl, fun _ => hcreated⟩
  have hnone : tally (Phase.carries a) (State.initial c).workers = 0 := by
    rw [tally_eq_zero]
    intro p hp
    rw [Phase.carries, hcreated p hp]
    rfl
  rw [hnone]
  rfl

theorem Conserved.set (h : Conserved s) {w : Nat} {p q : Phase κ} (hw : s.workers[w]? = some p)
    (hworkers : s'.workers = s.workers.set w q) (hmain : s'.main = s.main)
    (hcount : ∀ a, s'.answers.count a + s.received.count a + s.dropped.count a + p.carries a =
      s.answers.count a + s'.received.count a + s'.dropped.count a + q.carries a)
    (hdropped : s.main = .awaiting → s'.dropped = s.dropped)
    (hq : s.main = .returned → q.answer = none) : Conserved s' := by
  refine ⟨fun a => ?_, fun hawaiting => ?_, fun hreturned p' hp' => ?_⟩
  · have hold := h.count a
    have hstep := hcount a
    have hset : tally (Phase.carries a) (s.workers.set w q) + p.carries a =
        tally (Phase.carries a) s.workers + q.carries a := tally_replaced hw
    rw [hworkers]
    omega
  · rw [hmain] at hawaiting
    exact (hdropped hawaiting).trans (h.dropped hawaiting)
  · rw [hmain] at hreturned
    rw [hworkers] at hp'
    rcases List.mem_or_eq_of_mem_set hp' with hmem | rfl
    · exact h.returned hreturned p' hmem
    · exact hq hreturned

theorem Turn.carries {w : Nat} {p q : Phase κ} {answers : List (Nat × List κ)}
    (h : Turn c s w p q answers) (a : Nat × List κ) :
    answers.count a + p.carries a = s.answers.count a + q.carries a := by
  cases h with
  | resolved =>
    rw [List.count_append]
    rfl
  | start | delay | delayed | woken | answered | failed | sleep | ready | late | again | next => rfl

omit [DecidableEq κ] in
theorem Turn.answer_eq_none {w : Nat} {p q : Phase κ} {answers : List (Nat × List κ)}
    (h : Turn c s w p q answers) (hmay : MayMove s w p) (hmain : s.main ≠ .awaiting) :
    q.answer = none := by
  cases h with
  | resolved | answered => exact absurd hmay.2 hmain
  | start | delay | delayed | woken | failed | sleep | ready | late | again | next => rfl

omit [DecidableEq κ] in
theorem Ends.answer_eq_none {w : Nat} {p : Phase κ} (h : Ends c s w p) (hmain : s.main = .awaiting) :
    p.answer = none := by
  cases h with
  | noHeavy | noCheap | late | decided => rfl
  | cancelled hleaving =>
    rw [hmain] at hleaving
    cases hleaving

theorem Conserved.move (h : Conserved s) (hmove : Move c s s') : Conserved s' := by
  cases hmove with
  | ticked | expired => exact ⟨h.count, h.dropped, h.returned⟩
  | resumed | aborted =>
    refine ⟨h.count, fun heq => ?_, fun heq => ?_⟩
    · cases heq
    · cases heq
  | @left cancelled hmain hended =>
    refine ⟨h.count, fun heq => ?_, fun _ p hp => ?_⟩
    · cases cancelled <;> cases heq
    · rw [hended p hp]
      rfl
  | turned hw hmay hturn =>
    refine h.set hw rfl rfl (fun a => ?_) (fun _ => rfl) fun hreturned => ?_
    · have hcarries := hturn.carries a
      simp only [State.enter]
      omega
    · exact hturn.answer_eq_none hmay (by rw [hreturned]; decide)
  | popped hw | nextHeavy hw | admitted hw | skipped hw | failed hw | pushed hw | dropped hw =>
    exact h.set hw rfl rfl (fun a => rfl) (fun _ => rfl) fun _ => rfl
  | @settled w job candidates hw =>
    refine h.set hw rfl rfl (fun a => ?_) (fun _ => rfl) fun _ => rfl
    have hcarries : Phase.carries a (.answered job candidates) =
        [(job.route, candidates)].count a := rfl
    have hended : Phase.carries a (.returned job none : Phase κ) = 0 := rfl
    simp only [State.settle, State.go, List.count_append]
    omega
  | @ended w p hw hmay hends =>
    refine h.set hw rfl rfl (fun a => ?_) (fun hawaiting => ?_) fun _ => rfl
    · have hended : Phase.carries a (.ended : Phase κ) = 0 := rfl
      simp only [State.finish, hw, Option.bind_some, List.count_append]
      rw [hended, Phase.carries]
      omega
    · simp only [State.finish, hw, Option.bind_some, hends.answer_eq_none hawaiting]
      exact List.append_nil _

theorem conserved_of_run {as : List (Action κ)}
    (hrun : (machine c).run (State.initial c) as = some s) : Conserved s :=
  (machine c).invariant (fun _ _ _ hconserved hstep => hconserved.move (step_move hstep))
    (Conserved.initial c) hrun

/-- Once the race has returned, every answer was received or dropped. -/
theorem Conserved.perm (h : Conserved s) (hreturned : s.main = .returned) :
    s.answers.Perm (s.received ++ s.dropped) := by
  refine List.perm_iff_count.mpr fun a => ?_
  have hnone : tally (Phase.carries a) s.workers = 0 := by
    rw [tally_eq_zero]
    intro p hp
    rw [Phase.carries, h.returned hreturned p hp]
    rfl
  rw [List.count_append, h.count a, hnone, Nat.add_zero]

end Custody

section Order

theorem before_iff {a b : Validated κ} : a.before b = true ↔
    a.position < b.position ∨ (a.position = b.position ∧ a.index ≤ b.index) :=
  decide_eq_true_iff

theorem before_trans (a b d : Validated κ) (hab : a.before b = true) (hbd : b.before d = true) :
    a.before d = true := by
  rw [before_iff] at *
  omega

theorem before_total (a b : Validated κ) : (a.before b || b.before a) = true := by
  rw [Bool.or_eq_true, before_iff, before_iff]
  omega

theorem sorted_validated (l : List (Validated κ)) :
    (l.mergeSort Validated.before).Pairwise fun a b => a.before b = true :=
  List.pairwise_mergeSort before_trans before_total l

end Order

section Result

variable [DecidableEq κ] {c : Settings κ} {s : State κ} {x : CandidateWinner κ}

/-- What a returned winner is: the first usable candidate of the first answer that has one, with
all other usable candidates of the answers, each once and in the order of the routes. -/
structure Assembled (c : Settings κ) (answers : List (Nat × List κ)) (x : CandidateWinner κ) :
    Prop where
  winner : FirstUsable c answers x
  alternatives : ∃ items : List (Validated κ),
    items.Perm ((c.placed answers).filter fun v => decide (v.candidate ≠ x.candidate)) ∧
      (items.Pairwise fun a b =>
        a.position < b.position ∨ (a.position = b.position ∧ a.index ≤ b.index)) ∧
        x.alternatives = items.map Validated.candidate
  exactly : ∀ candidate, candidate ∈ x.alternatives ↔ candidate ≠ x.candidate ∧
    c.validate candidate = true ∧ ∃ answer ∈ answers, candidate ∈ answer.2
  once : (x.candidate :: x.alternatives).Nodup
  valid : ∀ candidate ∈ x.candidate :: x.alternatives, c.validate candidate = true

theorem answer_unique {answers : List (Nat × List κ)} (hdistinct : (answers.flatMap Prod.snd).Nodup)
    {a b : Nat × List κ} {candidate : κ} (ha : a ∈ answers) (hb : b ∈ answers)
    (hina : candidate ∈ a.2) (hinb : candidate ∈ b.2) : a = b := by
  by_contra hne
  have hpairwise := (List.nodup_flatMap.mp hdistinct).2
  have : Std.Symm (Function.onFun List.Disjoint (Prod.snd : Nat × List κ → List κ)) :=
    ⟨fun _ _ h _ hb ha => h ha hb⟩
  have hdisjoint : List.Disjoint a.2 b.2 := hpairwise.forall ha hb hne
  exact hdisjoint hina hinb

theorem winner_filter (hdistinct : (s.received.flatMap Prod.snd).Nodup)
    (hfirst : FirstUsable c s.received x) {v : Validated κ} (hv : v ∈ c.placed s.received) :
    (!decide (v.provider = x.provider ∧ v.candidate = x.candidate)) =
      decide (v.candidate ≠ x.candidate) := by
  by_cases hsame : v.candidate = x.candidate
  · obtain ⟨earlier, i, candidates, later, rest, hreceived, -, hhead, hprovider⟩ := hfirst
    obtain ⟨a, ha, hentry⟩ := List.mem_flatMap.mp hv
    have hwinner : x.candidate ∈ candidates := by
      have hmem : x.candidate ∈ candidates.filter c.validate := by
        rw [hhead]
        exact List.mem_cons_self
      exact (List.mem_filter.mp hmem).1
    have hin : (i, candidates) ∈ s.received := by
      rw [hreceived]
      exact List.mem_append_right _ List.mem_cons_self
    have heq := answer_unique hdistinct ha hin (entries_mem hentry) (by rw [hsame]; exact hwinner)
    have hvprovider : v.provider = x.provider := by
      rw [entries_provider hentry, heq, hprovider]
    simp [hvprovider, hsame]
  · simp [hsame]

/-- The sorted usable candidates without the winner make up the alternatives. -/
theorem assembled_of_items {answers : List (Nat × List κ)} {items : List (Validated κ)}
    (hdistinct : (answers.flatMap Prod.snd).Nodup) (hfirst : FirstUsable c answers x)
    (hitems : items.Perm ((c.placed answers).filter fun v => decide (v.candidate ≠ x.candidate)))
    (hsorted : items.Pairwise fun a b => a.before b = true)
    (halternatives : x.alternatives = items.map Validated.candidate) : Assembled c answers x := by
  have hperm : x.alternatives.Perm (((answers.flatMap Prod.snd).filter c.validate).filter
      fun candidate => decide (candidate ≠ x.candidate)) := by
    rw [halternatives, ← placed_candidates, List.filter_map]
    exact hitems.map _
  have hexactly : ∀ candidate, candidate ∈ x.alternatives ↔ candidate ≠ x.candidate ∧
      c.validate candidate = true ∧ ∃ answer ∈ answers, candidate ∈ answer.2 := by
    intro candidate
    rw [hperm.mem_iff, List.mem_filter, List.mem_filter, List.mem_flatMap, decide_eq_true_iff]
    exact ⟨fun h => ⟨h.2, h.1.2, h.1.1⟩, fun h => ⟨⟨h.2.2, h.2.1⟩, h.1⟩⟩
  refine ⟨hfirst, ⟨items, hitems, hsorted.imp before_iff.mp, halternatives⟩, hexactly, ?_, ?_⟩
  · refine List.nodup_cons.mpr ⟨fun hmem => ((hexactly _).mp hmem).1 rfl, ?_⟩
    exact hperm.nodup_iff.mpr ((hdistinct.filter _).filter _)
  · intro candidate hmem
    rcases List.mem_cons.mp hmem with rfl | hother
    · exact hfirst.valid
    · exact ((hexactly candidate).mp hother).2.1

theorem assembled_of_collected (h : Collected c s) (hdistinct : (s.received.flatMap Prod.snd).Nodup)
    (hwinner : s.winner = some x) : Assembled c s.received x := by
  cases hfinished : s.finished with
  | none =>
    rw [State.winner, hfinished] at hwinner
    cases hwinner
  | some v =>
    cases v with
    | nobody | cancelled =>
      rw [State.winner, hfinished] at hwinner
      cases hwinner
    | winner y =>
      rw [State.winner, hfinished, Option.some.injEq] at hwinner
      subst hwinner
      have hfirst : FirstUsable c s.received y := h.winner y hfinished
      refine assembled_of_items hdistinct hfirst ?_ ((sorted_validated s.validated).filter _) rfl
      rw [h.validated]
      refine ((List.mergeSort_perm _ _).filter _).trans (List.Perm.of_eq ?_)
      exact List.filter_congr fun v hv => winner_filter hdistinct hfirst hv

/-- What the race returns is made up of the answers that were received. These are all answers but
those whose worker was cancelled in `_resolve`, which happens only after the race is over. -/
theorem race_winner {as : List (Action κ)} (hrun : (machine c).run (State.initial c) as = some s)
    (hdistinct : (s.answers.flatMap Prod.snd).Nodup) :
    (s.main = .awaiting → s.dropped = []) ∧
      (s.main = .returned → s.winner = some x →
        Assembled c s.received x ∧ s.answers.Perm (s.received ++ s.dropped)) := by
  have hconserved := conserved_of_run hrun
  refine ⟨hconserved.dropped, fun hreturned hwinner => ?_⟩
  have hperm := hconserved.perm hreturned
  have hreceived : (s.received.flatMap Prod.snd).Nodup := by
    have hboth := (hperm.flatMap_right Prod.snd).nodup_iff.mp hdistinct
    rw [List.flatMap_append] at hboth
    exact (List.nodup_append.mp hboth).1
  exact ⟨assembled_of_collected (collected_of_run hrun) hreceived hwinner, hperm⟩

/-- Two routes that answer in one turn, the second one first, with one candidate of no use. -/
def smallOnly : Settings Nat := { twoRoutes with validate := fun candidate => decide (candidate < 10) }

/-- Both routes are tried. -/
def bothTried : List (Action Nat) :=
  [.start 0, .act 0 true, .act 0 true, .act 0 true, .start 1, .act 1 true, .act 1 true, .act 1 true]

def twoAnswers : List (Action Nat) :=
  bothTried ++ [.tick 1, .answer 1 (.returns [11, 2, 3]), .answer 0 (.returns [4]), .joined 1,
    .act 1 true, .act 1 true, .act 1 true, .joined 0, .act 0 true, .act 0 true, .act 0 true,
    .resume, .leave]

theorem race_winner_twoAnswers : ∃ s alternatives,
    (machine smallOnly).run (State.initial smallOnly) twoAnswers = some s ∧ s.main = .returned ∧
      s.winner = some ⟨"instagram", 2, alternatives⟩ ∧ s.dropped = [] ∧
      Assembled smallOnly s.received ⟨"instagram", 2, alternatives⟩ := by
  have hrun : ((machine smallOnly).run (State.initial smallOnly) twoAnswers).any
      (fun s => decide (s.main = .returned ∧ s.answers.flatMap Prod.snd = [11, 2, 3, 4] ∧
        s.dropped = [] ∧ s.finished = some (.winner ⟨"instagram", 2, [3]⟩))) = true := by
    decide +kernel
  obtain ⟨s, hs, hlast⟩ := (Option.any_eq_true _ _).mp hrun
  obtain ⟨hmain, hanswers, hdropped, hfinished⟩ := of_decide_eq_true hlast
  have hwinner : ∃ alternatives, s.winner = some ⟨"instagram", 2, alternatives⟩ := by
    rw [State.winner, hfinished]
    exact ⟨_, rfl⟩
  obtain ⟨alternatives, hwinner⟩ := hwinner
  have hassembled := (race_winner hs (by rw [hanswers]; decide)).2 hmain hwinner
  exact ⟨s, alternatives, hs, hmain, hwinner, hdropped, hassembled.1⟩

/-- The second route answers before the first one has come out of `_resolve` and won. -/
def lostAnswer : List (Action Nat) :=
  bothTried ++ [.tick 1, .answer 0 (.returns [4]), .answer 1 (.returns [5]), .joined 0,
    .act 0 true, .act 0 true, .act 0 true, .resume, .cancel 1, .leave]

/-- The first route answers first, and the second one, whose timer is over, too, comes out of
`_resolve` first. -/
def overtakenAnswer : List (Action Nat) :=
  bothTried ++ [.tick 1, .answer 0 (.returns [4]), .answer 1 (.returns [5]), .joined 1,
    .act 1 true, .act 1 true, .act 1 true, .joined 0, .act 0 true, .act 0 true, .act 0 true,
    .resume, .leave]

/-- Before the winner is set a route may have answered whose candidates are lost, and the winner
may come from another route than the one that has answered first. -/
theorem race_not_assembled :
    (∃ s x, (machine twoRoutes).run (State.initial twoRoutes) lostAnswer = some s ∧
      s.main = .returned ∧ s.winner = some x ∧ s.answers = [(0, [4]), (1, [5])] ∧
      x.candidate = 4 ∧ 5 ∉ x.alternatives ∧ ¬ Assembled twoRoutes s.answers x) ∧
    ∃ s x, (machine twoRoutes).run (State.initial twoRoutes) overtakenAnswer = some s ∧
      s.main = .returned ∧ s.winner = some x ∧ s.answers = [(0, [4]), (1, [5])] ∧
      x.candidate = 5 ∧ ¬ FirstUsable twoRoutes s.answers x := by
  constructor
  · have hrun : ((machine twoRoutes).run (State.initial twoRoutes) lostAnswer).any
        (fun s => decide (s.main = .returned ∧ s.answers = [(0, [4]), (1, [5])] ∧
          s.received = [(0, [4])] ∧ s.finished = some (.winner ⟨"cobalt", 4, []⟩))) = true := by
      decide +kernel
    obtain ⟨s, hs, hlast⟩ := (Option.any_eq_true _ _).mp hrun
    obtain ⟨hmain, hanswers, hreceived, hfinished⟩ := of_decide_eq_true hlast
    obtain ⟨alternatives, hwinner⟩ : ∃ alternatives, s.winner = some ⟨"cobalt", 4, alternatives⟩ := by
      rw [State.winner, hfinished]
      exact ⟨_, rfl⟩
    have hassembled := assembled_of_collected (collected_of_run hs) (by rw [hreceived]; decide) hwinner
    have hlost : 5 ∉ alternatives := by
      intro hmem
      obtain ⟨-, -, answer, hanswer, hin⟩ := (hassembled.exactly 5).mp hmem
      rw [hreceived] at hanswer
      obtain rfl := List.mem_singleton.mp hanswer
      exact absurd hin (by decide)
    refine ⟨s, _, hs, hmain, hwinner, hanswers, rfl, hlost, fun hall => hlost ?_⟩
    exact (hall.exactly 5).mpr ⟨show 5 ≠ 4 by decide, rfl, (1, [5]), by rw [hanswers]; decide, by decide⟩
  · have hrun : ((machine twoRoutes).run (State.initial twoRoutes) overtakenAnswer).any
        (fun s => decide (s.main = .returned ∧ s.answers = [(0, [4]), (1, [5])] ∧
          s.finished = some (.winner ⟨"instagram", 5, []⟩))) = true := by
      decide +kernel
    obtain ⟨s, hs, hlast⟩ := (Option.any_eq_true _ _).mp hrun
    obtain ⟨hmain, hanswers, hfinished⟩ := of_decide_eq_true hlast
    obtain ⟨alternatives, hwinner⟩ : ∃ alternatives,
        s.winner = some ⟨"instagram", 5, alternatives⟩ := by
      rw [State.winner, hfinished]
      exact ⟨_, rfl⟩
    refine ⟨s, _, hs, hmain, hwinner, hanswers, rfl, ?_⟩
    rintro ⟨earlier, i, candidates, later, rest, hsplit, hearlier, hhead, -⟩
    rw [hanswers] at hsplit
    cases earlier with
    | nil =>
      obtain ⟨rfl, rfl⟩ := Prod.mk.inj (List.cons.inj hsplit).1
      exact absurd (List.cons.inj hhead).1 (show 4 ≠ 5 by decide)
    | cons first earlier =>
      obtain rfl := (List.cons.inj hsplit).1
      exact absurd (hearlier _ List.mem_cons_self) (by decide)

end Result

end YtdlBot.Race.Candidates
