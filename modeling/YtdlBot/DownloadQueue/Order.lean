import YtdlBot.DownloadQueue.Permits
import YtdlBot.Framework.Line

/-!
# The order of the download queue

Waiters are served in the order in which they joined, whatever is withdrawn, timed out or released
in between, and a permit goes to the semaphore only when nobody waits.
-/

namespace YtdlBot.DownloadQueue

open Framework

namespace Queue

/-- The waiter of call `i` has been withdrawn. -/
def Withdrawn (q : Queue) (i : Nat) : Prop := ∃ c, q.calls[i]? = some c ∧ c.state = .cancelled

instance (q : Queue) (i : Nat) : Decidable (q.Granted i) :=
  decidable_of_iff (∃ c ∈ q.calls[i]?, c.state = .granted) Iff.rfl

/-- The waiters that one step appends to the list. -/
def joins (q q' : Queue) : List Nat := q'.waiters.filter fun i => i ∉ q.waiters

/-- The waiters that one step grants a permit. -/
def grants (q q' : Queue) : List Nat := q.waiters.filter fun i => q'.Granted i

end Queue

/-- A queue with its history: who joined the list, and who was granted, in order. -/
structure Log where
  queue : Queue
  joined : List Nat
  granted : List Nat

namespace Log

def initial (n maxQueue : Nat) : Log := ⟨Queue.initial n maxQueue, [], []⟩

def step (s : Log) (a : Action) : Option Log :=
  (s.queue.step a).map fun q' =>
    ⟨q', s.joined ++ s.queue.joins q', s.granted ++ s.queue.grants q'⟩

def machine : Machine Log Action := ⟨step⟩

end Log

section Keeps

/-- The waiter is as before, or its grant has been given up. -/
def Settles (old new : WaiterState) : Prop := new = old ∨ old = .granted ∧ new = .cancelled

theorem Settles.trans {a b c : WaiterState} (h : Settles a b) (h' : Settles b c) : Settles a c := by
  rcases h with rfl | ⟨rfl, rfl⟩
  · exact h'
  · rcases h' with rfl | ⟨hgranted, -⟩
    · exact .inr ⟨rfl, rfl⟩
    · cases hgranted

/-- What a step does to the calls: the waiter `moved` gets a new state, the others settle. -/
structure Keeps (old new : List Call) (moved : Option (Nat × WaiterState)) : Prop where
  kept : ∀ (i : Nat) c, old[i]? = some c → ∃ c', new[i]? = some c' ∧
    (c.phase.arriving = false → c'.phase.arriving = false) ∧
    (∀ state, moved = some (i, state) → c'.state = state) ∧
    ((∀ state, moved ≠ some (i, state)) → Settles c.state c'.state)
  fresh : (∀ (i : Nat) c, old[i]? = some c → c.phase.arriving = true → c.state = .waiting) →
    ∀ (i : Nat) c, new[i]? = some c → c.phase.arriving = true → c.state = .waiting

variable {old middle new calls : List Call} {moved : Option (Nat × WaiterState)} {i : Nat} {c : Call}

theorem Keeps.refl (calls : List Call) : Keeps calls calls none where
  kept _ c hc := ⟨c, hc, fun h => h, fun _ h => (nomatch h), fun _ => .inl rfl⟩
  fresh h := h

theorem Keeps.before (h : Keeps old middle none) (h' : Keeps middle new moved) :
    Keeps old new moved where
  kept i c hc := by
    obtain ⟨c₁, hc₁, harriving₁, -, hsettles₁⟩ := h.kept i c hc
    obtain ⟨c₂, hc₂, harriving₂, hmoved₂, hsettles₂⟩ := h'.kept i c₁ hc₁
    refine ⟨c₂, hc₂, fun harriving => harriving₂ (harriving₁ harriving), hmoved₂, fun hne => ?_⟩
    exact (hsettles₁ fun _ heq => nomatch heq).trans (hsettles₂ hne)
  fresh hold := h'.fresh (h.fresh hold)

theorem keeps_set (hc : calls[i]? = some c) (c' : Call)
    (harriving : c'.phase.arriving = true → c.phase.arriving = true ∧ c'.state = c.state)
    (hsettles : Settles c.state c'.state) : Keeps calls (calls.set i c') none where
  kept j d hd := by
    simp only [getElem?_replaced hc]
    by_cases hji : j = i
    · subst hji
      obtain rfl := Option.some.inj (hc.symm.trans hd)
      refine ⟨c', if_pos rfl, fun hold => ?_, fun _ h => (nomatch h), fun _ => hsettles⟩
      by_contra hne
      have hback := (harriving (Bool.not_eq_false _ ▸ hne)).1
      rw [hold] at hback
      cases hback
    · exact ⟨d, (if_neg hji).trans hd, fun h => h, fun _ h => (nomatch h), fun _ => .inl rfl⟩
  fresh hold j d hd harr := by
    rcases replaced_cases hc hd with ⟨-, rfl⟩ | ⟨-, hd⟩
    · obtain ⟨hback, hstate⟩ := harriving harr
      rw [hstate]
      exact hold i c hc hback
    · exact hold j d hd harr

theorem keeps_phase (hc : calls[i]? = some c) {phase : Phase} (hphase : phase.arriving = false) :
    Keeps calls (calls.set i { c with phase := phase }) none := by
  refine keeps_set hc _ (fun h => ?_) (.inl rfl)
  have hfalse : ({ c with phase := phase } : Call).phase.arriving = false := hphase
  rw [hfalse] at h
  cases h

theorem keeps_move (hc : calls[i]? = some c) (c' : Call) (harriving : c'.phase.arriving = false) :
    Keeps calls (calls.set i c') (some (i, c'.state)) where
  kept j d hd := by
    simp only [getElem?_replaced hc]
    by_cases hji : j = i
    · subst hji
      refine ⟨c', if_pos rfl, fun _ => harriving, fun state h => ?_, fun hne => ?_⟩
      · exact congrArg Prod.snd (Option.some.inj h)
      · exact absurd rfl (hne c'.state)
    · refine ⟨d, (if_neg hji).trans hd, fun h => h, fun state h => ?_, fun _ => .inl rfl⟩
      exact absurd (congrArg Prod.fst (Option.some.inj h)).symm hji
  fresh hold j d hd harr := by
    rcases replaced_cases hc hd with ⟨-, rfl⟩ | ⟨-, hd⟩
    · rw [harriving] at harr
      cases harr
    · exact hold j d hd harr

theorem keeps_join {c : Call} (hc : c.state = .waiting) : Keeps calls (calls ++ [c]) none where
  kept i d hd := ⟨d, getElem?_joined_of_some hd, fun h => h,
    fun _ h => (nomatch h), fun _ => .inl rfl⟩
  fresh hold i d hd harr := by
    rcases joined_cases hd with ⟨-, rfl⟩ | ⟨-, hd⟩
    · exact hc
    · exact hold i d hd harr

end Keeps

section Moves

/-- What a step can do to the line and the permits of the semaphore. -/
inductive Move (q q' : Queue) : Prop where
  /-- The line is as it was; an arriving call may take a free permit. -/
  | stay (size : q'.maxQueue = q.maxQueue) (waiters : q'.waiters = q.waiters)
      (positions : q'.positions = q.positions) (free : q'.free ≤ q.free) (calls : Keeps q.calls q'.calls none)
  | join (size : q'.maxQueue = q.maxQueue) (i : Nat) (c : Call) (found : q.calls[i]? = some c)
      (arriving : c.phase.arriving = true) (full : q.waiters.length < q.maxQueue) (waiters : q'.waiters = q.waiters ++ [i])
      (positions : q'.positions = Function.update q.positions i (q.waiters.length + 1))
      (taken : q.free = 0) (free : q'.free = 0) (calls : Keeps q.calls q'.calls none)
      (arrived : ∃ c', q'.calls[i]? = some c' ∧ c'.phase.arriving = false)
  | leave (size : q'.maxQueue = q.maxQueue) (i : Nat) (waiters : q'.waiters = q.waiters.erase i)
      (positions : q'.positions = Queue.reposition (q.waiters.erase i) 1 q.positions)
      (free : q'.free = q.free) (calls : Keeps q.calls q'.calls (some (i, .cancelled)))
  | serve (size : q'.maxQueue = q.maxQueue) (i : Nat) (rest : List Nat)
      (line : q.waiters = i :: rest) (waiters : q'.waiters = rest)
      (positions : q'.positions = Queue.reposition rest 1 q.positions) (free : q'.free = q.free)
      (calls : Keeps q.calls q'.calls (some (i, .granted)))
  | put (size : q'.maxQueue = q.maxQueue) (line : q.waiters = []) (waiters : q'.waiters = [])
      (calls : Keeps q.calls q'.calls none)

variable {q q' : Queue}

/-- The members of the line wait. -/
def Queue.Listed (q : Queue) : Prop :=
  ∀ i ∈ q.waiters, ∃ c, q.calls[i]? = some c ∧ c.state = .waiting ∧ c.phase.arriving = false

theorem move_handoff {calls : List Call} {leases : List Lease} (hlisted : q.Listed)
    (hkeeps : Keeps q.calls calls none)
    (hwaiting : ∀ i ∈ q.waiters, ∀ c, calls[i]? = some c → c.state = .waiting) :
    Move q (Queue.handoff q.waiters { q with calls := calls, leases := leases }) := by
  have hfound : ∀ i ∈ q.waiters, ∃ c, calls[i]? = some c ∧ c.state = .waiting := by
    intro i hi
    obtain ⟨c, hc, -, -⟩ := hlisted i hi
    obtain ⟨c', hc', -⟩ := hkeeps.kept i c hc
    exact ⟨c', hc', hwaiting i hi c' hc'⟩
  rw [Queue.handoff_eq (q := { q with calls := calls, leases := leases }) hfound]
  cases hline : q.waiters with
  | nil => exact .put rfl hline rfl hkeeps
  | cons i rest =>
    obtain ⟨c, hc, -, harriving⟩ := hlisted i (hline ▸ List.mem_cons_self)
    obtain ⟨c', hc', harriving', -⟩ := hkeeps.kept i c hc
    simp only [hc']
    refine .serve rfl i rest hline rfl rfl rfl (hkeeps.before ?_)
    exact keeps_move hc' { c' with state := .granted } (harriving' harriving)

theorem move_withdraw (hlisted : q.Listed) {i : Nat} {c : Call} (hc : q.calls[i]? = some c)
    {phase : Phase} (hphase : phase.arriving = false) :
    Move q (q.withdraw i c phase) := by
  have hcancelled : Settles c.state .cancelled →
      Keeps q.calls (q.calls.set i { c with phase := phase, state := .cancelled }) none :=
    keeps_set hc { c with phase := phase, state := .cancelled }
      fun h => absurd (hphase.symm.trans h) Bool.false_ne_true
  unfold Queue.withdraw
  cases hstate : c.state with
  | waiting =>
    exact .leave rfl i rfl rfl rfl (keeps_move hc { c with phase := phase, state := .cancelled } hphase)
  | granted =>
    refine move_handoff hlisted (hcancelled (.inr ⟨hstate, rfl⟩)) ?_
    intro j hj d hd
    rw [getElem?_replaced hc] at hd
    obtain ⟨e, he, hwaiting, -⟩ := hlisted j hj
    split at hd
    · rename_i hji
      obtain rfl := Option.some.inj (hc.symm.trans (hji ▸ he))
      rw [hstate] at hwaiting
      cases hwaiting
    · obtain rfl := Option.some.inj (he.symm.trans hd)
      exact hwaiting
  | cancelled =>
    exact .stay rfl rfl rfl (Nat.le_refl _) (hcancelled (.inl hstate.symm))

theorem stay_setCall {i : Nat} {c : Call} (hc : q.calls[i]? = some c) {phase : Phase}
    (hphase : phase.arriving = false) (lock : Option Nat) :
    Move q { q.setCall i { c with phase := phase } with lock := lock } :=
  .stay rfl rfl rfl (Nat.le_refl _) (keeps_phase hc hphase)

theorem move_locked {i : Nat} {c : Call} {x : Lease} (hc : q.calls[i]? = some c)
    (hphase : c.phase = .entering) : Move q (q.lockedBlock i c x) := by
  have harriving : c.phase.arriving = true := by
    rw [hphase]
    rfl
  unfold Queue.lockedBlock
  split
  · exact .stay rfl rfl rfl (Nat.sub_le _ _) (keeps_phase hc rfl)
  next hfree =>
    split
    · exact .stay rfl rfl rfl (Nat.le_refl _) (keeps_set hc _ (fun _ => ⟨harriving, rfl⟩) (.inl rfl))
    next hfull =>
      refine .join rfl i c hc harriving (by omega) rfl rfl (by omega) (by simp only [Queue.setCall]; omega) ?_ ?_
      · exact keeps_phase hc rfl
      · exact ⟨_, getElem?_replaced_self hc, rfl⟩

theorem move_cancel {i : Nat} {c : Call} (hc : q.calls[i]? = some c) : Move q (q.cancelCall i c) := by
  unfold Queue.cancelCall
  cases hp : c.phase with
  | maintenance | entering | timeoutUi | timedOut | positioning | waiting | cancelled =>
    exact stay_setCall hc rfl q.lock
  | full => exact stay_setCall hc rfl none
  | abandoned | ended => exact .stay rfl rfl rfl (Nat.le_refl _) (Keeps.refl _)

/-- What any step does to the line. -/
theorem move_step {a : Action} (hlisted : q.Listed) (hs : q.step a = some q') : Move q q' := by
  cases a with
  | acquire =>
    obtain rfl := Option.some.inj hs
    exact .stay rfl rfl rfl (Nat.le_refl _) (Keeps.refl _)
  | enter l diskCritical =>
    obtain ⟨x, hx, rfl⟩ := Option.map_eq_some_iff.mp hs
    split
    · exact .stay rfl rfl rfl (Nat.le_refl _) (Keeps.refl _)
    · exact .stay rfl rfl rfl (Nat.le_refl _) (keeps_join rfl)
  | locked i =>
    obtain ⟨c, hc, hs⟩ := Option.bind_eq_some_iff.mp hs
    obtain ⟨x, hx, hs⟩ := Option.bind_eq_some_iff.mp hs
    split at hs
    next hphase hlock =>
      obtain rfl := Option.some.inj hs
      exact move_locked hc hphase
    · cases hs
  | uiDone i =>
    obtain ⟨c, hc, hs⟩ := Option.bind_eq_some_iff.mp hs
    split at hs
    · obtain rfl := Option.some.inj hs
      exact stay_setCall hc rfl q.lock
    · obtain rfl := Option.some.inj hs
      exact stay_setCall hc rfl q.lock
    · obtain rfl := Option.some.inj hs
      exact stay_setCall hc rfl none
    · obtain rfl := Option.some.inj hs
      exact stay_setCall hc rfl q.lock
    · cases hs
  | wake i =>
    obtain ⟨c, hc, hs⟩ := Option.bind_eq_some_iff.mp hs
    obtain ⟨x, hx, hs⟩ := Option.bind_eq_some_iff.mp hs
    split at hs
    · obtain rfl := Option.some.inj hs
      exact .stay rfl rfl rfl (Nat.le_refl _) (keeps_phase hc rfl)
    · cases hs
  | timeout i =>
    obtain ⟨c, hc, hs⟩ := Option.bind_eq_some_iff.mp hs
    split at hs
    · obtain rfl := Option.some.inj hs
      exact stay_setCall hc rfl q.lock
    · cases hs
  | withdraw i =>
    obtain ⟨c, hc, hs⟩ := Option.bind_eq_some_iff.mp hs
    split at hs
    next hphase hlock =>
      obtain rfl := Option.some.inj hs
      exact move_withdraw hlisted hc rfl
    next hphase hlock =>
      obtain rfl := Option.some.inj hs
      exact move_withdraw hlisted hc rfl
    next hphase hlock =>
      obtain rfl := Option.some.inj hs
      exact move_withdraw hlisted hc rfl
    · cases hs
  | cancel i =>
    obtain ⟨c, hc, rfl⟩ := Option.map_eq_some_iff.mp hs
    exact move_cancel hc
  | release l =>
    obtain ⟨x, hx, rfl⟩ := Option.map_eq_some_iff.mp hs
    split
    · exact .stay rfl rfl rfl (Nat.le_refl _) (Keeps.refl _)
    · exact .stay rfl rfl rfl (Nat.le_refl _) (Keeps.refl _)
  | releaseSlot l =>
    obtain ⟨x, hx, hs⟩ := Option.bind_eq_some_iff.mp hs
    split at hs
    · obtain rfl := Option.some.inj hs
      refine move_handoff hlisted (Keeps.refl _) fun i hi c hc => ?_
      obtain ⟨d, hd, hwaiting, -⟩ := hlisted i hi
      obtain rfl := Option.some.inj (hd.symm.trans hc)
      exact hwaiting
    · cases hs

end Moves

section Reposition

theorem reposition_other (line : List Nat) (index : Nat) (positions : Nat → Nat) {i : Nat}
    (hi : i ∉ line) : Queue.reposition line index positions i = positions i := by
  induction line generalizing index positions with
  | nil => rfl
  | cons j line ih =>
    rw [List.mem_cons, not_or] at hi
    rw [Queue.reposition, ih _ _ hi.2, Function.update_of_ne hi.1]

theorem reposition_line (line : List Nat) (index : Nat) (positions : Nat → Nat)
    (hnodup : line.Nodup) :
    line.map (Queue.reposition line index positions) = List.range' index line.length := by
  induction line generalizing index positions with
  | nil => rfl
  | cons i line ih =>
    rw [List.nodup_cons] at hnodup
    rw [List.map_cons, List.length_cons, List.range'_succ, Queue.reposition,
      ih _ _ hnodup.2, reposition_other _ _ _ hnodup.1, Function.update_self]

end Reposition

section Fair

/-- A member of the line waits, and a granted one is in the history. -/
def Known (calls : List Call) (line granted : List Nat) (i : Nat) : Prop :=
  ∃ c, calls[i]? = some c ∧ c.phase.arriving = false ∧ (c.state = .waiting ↔ i ∈ line) ∧
    (c.state = .granted → i ∈ granted)

/-- What is known of every run, with or without cancellations. -/
structure Fair (maxQueue : Nat) (s : Log) : Prop where
  line : InLine s.joined s.granted s.queue.waiters
  size : s.queue.maxQueue = maxQueue
  bound : s.queue.waiters.length ≤ maxQueue
  positions : s.queue.waiters.map s.queue.positions = List.range' 1 s.queue.waiters.length
  /-- A free permit means that nobody waits. -/
  conserving : 0 < s.queue.free → s.queue.waiters = []
  known : ∀ i ∈ s.joined, Known s.queue.calls s.queue.waiters s.granted i
  fresh : ∀ (i : Nat) c, s.queue.calls[i]? = some c → c.phase.arriving = true → c.state = .waiting

variable {maxQueue : Nat} {s : Log} {q' : Queue}

theorem Fair.listed (h : Fair maxQueue s) : s.queue.Listed := by
  intro i hi
  obtain ⟨c, hc, harriving, hwaiting, -⟩ := h.known i (h.line.mem_joined hi)
  exact ⟨c, hc, hwaiting.mpr hi, harriving⟩

theorem Known.settles {old new : List Call} {moved : Option (Nat × WaiterState)}
    {line line' granted granted' : List Nat} {i : Nat} (h : Known old line granted i)
    (hkeeps : Keeps old new moved) (hother : ∀ state, moved ≠ some (i, state))
    (hline : i ∈ line' ↔ i ∈ line) (hgranted : granted ⊆ granted') : Known new line' granted' i := by
  obtain ⟨c, hc, harriving, hwaiting, hserved⟩ := h
  obtain ⟨c', hc', harriving', -, hsettles⟩ := hkeeps.kept i c hc
  refine ⟨c', hc', harriving' harriving, ?_, fun hstate => hgranted (hserved ?_)⟩
  · rw [hline, ← hwaiting]
    rcases hsettles hother with hsame | ⟨hold, hnew⟩
    · rw [hsame]
    · rw [hold, hnew]
      exact ⟨fun h => (nomatch h), fun h => (nomatch h)⟩
  · rcases hsettles hother with hsame | ⟨hold, hnew⟩
    · exact hsame ▸ hstate
    · exact hold

theorem Known.moved {old new : List Call} {state : WaiterState} {line line' granted granted' : List Nat}
    {i : Nat} (h : Known old line granted i) (hkeeps : Keeps old new (some (i, state)))
    (hstate : state ≠ .waiting) (hline : i ∉ line') (hgranted : state = .granted → i ∈ granted') :
    Known new line' granted' i := by
  obtain ⟨c, hc, harriving, -, -⟩ := h
  obtain ⟨c', hc', harriving', hmoved, -⟩ := hkeeps.kept i c hc
  obtain rfl := hmoved state rfl
  exact ⟨c', hc', harriving' harriving, ⟨fun hw => absurd hw hstate, fun hin => absurd hin hline⟩,
    hgranted⟩

theorem Known.not_granted {line granted : List Nat} {i : Nat} (h : Known q'.calls line granted i)
    (hi : i ∉ granted) : ¬ q'.Granted i := by
  rintro ⟨d, hd, hgranted⟩
  obtain ⟨c, hc, -, -, hserved⟩ := h
  obtain rfl := Option.some.inj (hc.symm.trans hd)
  exact hi (hserved hgranted)

theorem Fair.quiet (h : Fair maxQueue s) (hsize : q'.maxQueue = s.queue.maxQueue)
    (hsub : q'.waiters.Sublist s.queue.waiters)
    (hpositions : q'.waiters.map q'.positions = List.range' 1 q'.waiters.length)
    (hconserving : 0 < q'.free → q'.waiters = [])
    (hknown : ∀ i ∈ s.joined, Known q'.calls q'.waiters s.granted i)
    (hfresh : ∀ (i : Nat) c, q'.calls[i]? = some c → c.phase.arriving = true → c.state = .waiting) :
    Fair maxQueue ⟨q', s.joined ++ s.queue.joins q', s.granted ++ s.queue.grants q'⟩ := by
  have hjoins : s.queue.joins q' = [] :=
    List.filter_eq_nil_iff.mpr fun i hi hnot => of_decide_eq_true hnot (hsub.subset hi)
  have hgrants : s.queue.grants q' = [] :=
    List.filter_eq_nil_iff.mpr fun i hi hyes =>
      (hknown i (h.line.mem_joined hi)).not_granted (h.line.not_served hi) (of_decide_eq_true hyes)
  rw [hjoins, hgrants, List.append_nil, List.append_nil]
  exact ⟨⟨(List.Sublist.append (List.Sublist.refl _) hsub).trans h.line.order, h.line.nodup⟩,
    hsize.trans h.size, Nat.le_trans hsub.length_le h.bound, hpositions, hconserving, hknown, hfresh⟩

theorem Fair.joins (h : Fair maxQueue s) {i : Nat} {c : Call} (hsize : q'.maxQueue = s.queue.maxQueue)
    (found : s.queue.calls[i]? = some c) (arriving : c.phase.arriving = true)
    (full : s.queue.waiters.length < s.queue.maxQueue)
    (waiters : q'.waiters = s.queue.waiters ++ [i])
    (positions : q'.positions = Function.update s.queue.positions i (s.queue.waiters.length + 1))
    (free : q'.free = 0) (calls : Keeps s.queue.calls q'.calls none)
    (arrived : ∃ c', q'.calls[i]? = some c' ∧ c'.phase.arriving = false) :
    Fair maxQueue ⟨q', s.joined ++ s.queue.joins q', s.granted ++ s.queue.grants q'⟩ := by
  have hnew : i ∉ s.joined := by
    intro hin
    obtain ⟨d, hd, hnot, -⟩ := h.known i hin
    obtain rfl := Option.some.inj (found.symm.trans hd)
    rw [arriving] at hnot
    cases hnot
  have hout : i ∉ s.queue.waiters := fun hin => hnew (h.line.mem_joined hin)
  have hold : ∀ j ∈ s.joined, Known q'.calls q'.waiters s.granted j := by
    intro j hj
    refine (h.known j hj).settles calls (fun _ heq => nomatch heq) ?_ (List.Subset.refl _)
    have hji : j ≠ i := fun heq => hnew (heq ▸ hj)
    rw [waiters, List.mem_append, List.mem_singleton, or_iff_left hji]
  have hjoins : s.queue.joins q' = [i] := by
    have hkept : (s.queue.waiters.filter fun j => decide (j ∉ s.queue.waiters)) = [] :=
      List.filter_eq_nil_iff.mpr fun j hj hnot => of_decide_eq_true hnot hj
    rw [Queue.joins, waiters, List.filter_append, hkept, List.nil_append]
    exact List.filter_cons_of_pos (decide_eq_true hout)
  have hgrants : s.queue.grants q' = [] :=
    List.filter_eq_nil_iff.mpr fun j hj hyes =>
      (hold j (h.line.mem_joined hj)).not_granted (h.line.not_served hj) (of_decide_eq_true hyes)
  rw [hjoins, hgrants, List.append_nil]
  refine ⟨?_, hsize.trans h.size, ?_, ?_, fun hpos => ?_, fun j hj => ?_, calls.fresh h.fresh⟩
  · rw [waiters]
    exact h.line.join hnew
  · rw [waiters, List.length_append, List.length_singleton, ← h.size]
    exact full
  · have hsame : s.queue.waiters.map q'.positions = s.queue.waiters.map s.queue.positions := by
      refine List.map_congr_left fun j hj => ?_
      have hji : j ≠ i := fun heq => hout (heq ▸ hj)
      rw [positions, Function.update_of_ne hji]
    rw [waiters, List.map_append, List.length_append, List.length_singleton, List.range'_concat, hsame,
      h.positions, positions, List.map_singleton, Function.update_self, Nat.add_comm 1, Nat.one_mul]
  · rw [free] at hpos
    cases hpos
  · rcases List.mem_append.mp hj with hin | hlast
    · exact hold j hin
    · obtain rfl := List.mem_singleton.mp hlast
      obtain ⟨c', hc', hnot⟩ := arrived
      obtain ⟨d, hd, -, -, hsettles⟩ := calls.kept j c found
      obtain rfl := Option.some.inj (hc'.symm.trans hd)
      have hwaiting : c'.state = .waiting := by
        have hc := h.fresh j c found arriving
        rcases hsettles (fun _ heq => nomatch heq) with hsame | ⟨hgranted, -⟩
        · exact hsame.trans hc
        · rw [hc] at hgranted
          cases hgranted
      refine ⟨c', hc', hnot, ⟨fun _ => ?_, fun _ => hwaiting⟩, fun hgranted => ?_⟩
      · rw [waiters]
        exact List.mem_append_right _ List.mem_cons_self
      · rw [hwaiting] at hgranted
        cases hgranted

theorem Fair.serves (h : Fair maxQueue s) {i : Nat} {rest : List Nat}
    (hsize : q'.maxQueue = s.queue.maxQueue) (line : s.queue.waiters = i :: rest)
    (waiters : q'.waiters = rest)
    (positions : q'.positions = Queue.reposition rest 1 s.queue.positions)
    (free : q'.free = s.queue.free) (calls : Keeps s.queue.calls q'.calls (some (i, .granted))) :
    Fair maxQueue ⟨q', s.joined ++ s.queue.joins q', s.granted ++ s.queue.grants q'⟩ := by
  have hline := h.line
  rw [line] at hline
  obtain ⟨hout, hrest⟩ := List.nodup_cons.mp hline.nodup_line
  have hmoved : ∀ j, j ≠ i → ∀ state, some (i, WaiterState.granted) ≠ some (j, state) :=
    fun j hji state heq => hji (congrArg Prod.fst (Option.some.inj heq)).symm
  have hknown : ∀ j ∈ s.joined, Known q'.calls q'.waiters (s.granted ++ [i]) j := by
    intro j hj
    by_cases hji : j = i
    · subst hji
      exact (h.known j hj).moved calls (fun heq => nomatch heq) (waiters ▸ hout)
        fun _ => List.mem_append_right _ List.mem_cons_self
    · refine (h.known j hj).settles calls (hmoved j hji) ?_ (List.subset_append_left _ _)
      rw [waiters, line, List.mem_cons, or_iff_right hji]
  have hjoins : s.queue.joins q' = [] := by
    refine List.filter_eq_nil_iff.mpr fun j hj hnot => of_decide_eq_true hnot ?_
    rw [line]
    exact List.mem_cons_of_mem _ (waiters ▸ hj)
  have hgranted : q'.Granted i := by
    obtain ⟨c, hc, -⟩ := h.known i (hline.mem_joined List.mem_cons_self)
    obtain ⟨c', hc', -, hstate, -⟩ := calls.kept i c hc
    exact ⟨c', hc', hstate .granted rfl⟩
  have hgrants : s.queue.grants q' = [i] := by
    have hnone : (rest.filter fun j => decide (q'.Granted j)) = [] := by
      refine List.filter_eq_nil_iff.mpr fun j hj hyes => ?_
      have hin := hline.mem_joined (List.mem_cons_of_mem _ hj)
      refine (hknown j hin).not_granted (fun hserved => ?_) (of_decide_eq_true hyes)
      rcases List.mem_append.mp hserved with hold | hlast
      · exact hline.not_served (List.mem_cons_of_mem _ hj) hold
      · exact hout (List.mem_singleton.mp hlast ▸ hj)
    rw [Queue.grants, line, List.filter_cons, if_pos (decide_eq_true hgranted), hnone]
  rw [hjoins, hgrants, List.append_nil]
  refine ⟨?_, hsize.trans h.size, ?_, ?_, fun hpos => ?_, hknown, calls.fresh h.fresh⟩
  · rw [waiters]
    exact hline.serve
  · have hbound := h.bound
    rw [line, List.length_cons] at hbound
    rw [waiters]
    exact Nat.le_of_succ_le hbound
  · rw [waiters, positions]
    exact reposition_line rest 1 _ hrest
  · rw [free] at hpos
    have hnil := h.conserving hpos
    rw [line] at hnil
    cases hnil

/-- Every step keeps the line fair. -/
theorem Fair.step (h : Fair maxQueue s) (hmove : Move s.queue q') :
    Fair maxQueue ⟨q', s.joined ++ s.queue.joins q', s.granted ++ s.queue.grants q'⟩ := by
  cases hmove with
  | stay size waiters positions free calls =>
    refine h.quiet size (waiters ▸ List.Sublist.refl _) ?_ (fun hpos => ?_) (fun i hi => ?_)
      (calls.fresh h.fresh)
    · rw [waiters, positions]
      exact h.positions
    · exact waiters.trans (h.conserving (Nat.lt_of_lt_of_le hpos free))
    · exact (h.known i hi).settles calls (fun _ heq => nomatch heq) (by rw [waiters])
        (List.Subset.refl _)
  | join size i c found arriving full waiters positions taken free calls arrived =>
    exact h.joins size found arriving full waiters positions free calls arrived
  | leave size i waiters positions free calls =>
    have hout : i ∉ s.queue.waiters.erase i := List.Nodup.not_mem_erase h.line.nodup_line
    have hsub : (s.queue.waiters.erase i).Sublist s.queue.waiters := List.erase_sublist
    refine h.quiet size (waiters ▸ hsub) ?_ (fun hpos => ?_) (fun j hj => ?_) (calls.fresh h.fresh)
    · rw [waiters, positions]
      exact reposition_line _ 1 _ (h.line.nodup_line.sublist hsub)
    · rw [waiters, h.conserving (free ▸ hpos)]
      rfl
    · by_cases hji : j = i
      · subst hji
        exact (h.known j hj).moved calls (fun heq => nomatch heq) (waiters ▸ hout)
          fun heq => nomatch heq
      · refine (h.known j hj).settles calls (fun state heq => ?_) ?_ (List.Subset.refl _)
        · exact hji (congrArg Prod.fst (Option.some.inj heq)).symm
        · rw [waiters]
          exact List.mem_erase_of_ne hji
  | serve size i rest line waiters positions free calls =>
    exact h.serves size line waiters positions free calls
  | put size line waiters calls =>
    refine h.quiet size (waiters ▸ List.nil_sublist _) ?_ (fun _ => waiters) (fun i hi => ?_)
      (calls.fresh h.fresh)
    · rw [waiters]
      rfl
    · exact (h.known i hi).settles calls (fun _ heq => nomatch heq) (by rw [waiters, line])
        (List.Subset.refl _)

theorem fair_initial (n maxQueue : Nat) : Fair maxQueue (Log.initial n maxQueue) where
  line := InLine.empty
  size := rfl
  bound := Nat.zero_le _
  positions := rfl
  conserving _ := rfl
  known _ hi := nomatch hi
  fresh i c hc := by
    rw [show (Log.initial n maxQueue).queue.calls = [] from rfl, List.getElem?_nil] at hc
    cases hc

theorem fair_run {n : Nat} {as : List Action}
    (hr : Log.machine.run (Log.initial n maxQueue) as = some s) : Fair maxQueue s := by
  refine Log.machine.invariant (fun s a s' h hs => ?_) (fair_initial n maxQueue) hr
  obtain ⟨q', hq, rfl⟩ := Option.map_eq_some_iff.mp hs
  exact h.step (move_step h.listed hq)

end Fair

/-- The history takes nothing away from the runs of the queue. -/
theorem log_run {s : Log} {q : Queue} {as : List Action} (hr : Queue.machine.run s.queue as = some q) :
    ∃ t, Log.machine.run s as = some t ∧ t.queue = q := by
  induction as generalizing s with
  | nil => exact ⟨s, rfl, Option.some.inj hr⟩
  | cons a as ih =>
    obtain ⟨q₁, hs, hr⟩ := Queue.machine.run_cons_eq_some.mp hr
    have hlog : Log.step s a = some ⟨q₁, s.joined ++ s.queue.joins q₁,
        s.granted ++ s.queue.grants q₁⟩ := by
      rw [Log.step, show s.queue.step a = some q₁ from hs]
      rfl
    obtain ⟨t, ht, hqueue⟩ := ih (s := ⟨q₁, _, _⟩) hr
    exact ⟨t, Log.machine.run_cons_eq_some.mpr ⟨_, hlog, ht⟩, hqueue⟩

/-- In every run: who joined earlier is granted earlier or has withdrawn; only an arrival that
finds nobody waiting takes a permit from the semaphore; no permit is free while somebody waits;
the line is bounded, and its positions count from one. -/
theorem queue_fair {n maxQueue : Nat} {as : List Action} {s : Log}
    (hr : Log.machine.run (Log.initial n maxQueue) as = some s) :
    (∀ i j, [i, j].Sublist s.joined → j ∈ s.granted →
      [i, j].Sublist s.granted ∨ i ∉ s.granted ∧ s.queue.Withdrawn i) ∧
    (∀ a q', s.queue.step a = some q' → q'.free < s.queue.free → s.queue.waiters = []) ∧
    (s.queue.lock = none → 0 < s.queue.free →
      ∀ i ∈ s.joined, ∀ c, s.queue.calls[i]? = some c → c.state ≠ .waiting) ∧
    s.queue.waiters.length ≤ maxQueue ∧
    s.queue.waiters.map s.queue.positions = List.range' 1 s.queue.waiters.length := by
  have h := fair_run hr
  refine ⟨fun i j hpair hj => ?_, fun a q' _ hless => ?_, fun _ hpos i hi c hc hwaiting => ?_,
    h.bound, h.positions⟩
  · by_cases hi : i ∈ s.granted ++ s.queue.waiters
    · exact .inl (h.line.fifo hpair hj hi)
    · rw [List.mem_append, not_or] at hi
      obtain ⟨c, hc, -, hline, hserved⟩ := h.known i (hpair.subset List.mem_cons_self)
      refine .inr ⟨hi.1, c, hc, ?_⟩
      cases hstate : c.state with
      | waiting => exact absurd (hline.mp hstate) hi.2
      | granted => exact absurd (hserved hstate) hi.1
      | cancelled => rfl
  · exact h.conserving (Nat.zero_lt_of_lt hless)
  · obtain ⟨d, hd, -, hline, -⟩ := h.known i hi
    obtain rfl := Option.some.inj (hd.symm.trans hc)
    have hin := hline.mp hwaiting
    rw [h.conserving hpos] at hin
    cases hin

def timedOutRun : List Action :=
  [.acquire, .acquire, .acquire, .enter 0 false, .locked 0, .enter 1 false, .locked 1, .uiDone 1,
    .enter 2 false, .locked 2, .uiDone 2, .timeout 1, .withdraw 1, .uiDone 1, .release 0,
    .releaseSlot 0]

/-- One permit and three acquirers: the second withdraws at its timeout, the third is granted. -/
theorem queue_fair_withdrawn :
    ∃ s, Log.machine.run (Log.initial 1 2) timedOutRun = some s ∧ [1, 2].Sublist s.joined ∧
      2 ∈ s.granted ∧ 1 ∉ s.granted ∧ s.queue.Withdrawn 1 := by
  have hrun : (Log.machine.run (Log.initial 1 2) timedOutRun).any (fun s =>
      decide (s.joined = [1, 2] ∧ s.granted = [2])) = true := by decide +kernel
  obtain ⟨s, hs, hlists⟩ := (Option.any_eq_true _ _).mp hrun
  obtain ⟨hjoined, hgranted⟩ := of_decide_eq_true hlists
  have hpair : [1, 2].Sublist s.joined := hjoined ▸ List.Sublist.refl _
  have htwo : 2 ∈ s.granted := hgranted ▸ List.mem_cons_self
  have hone : 1 ∉ s.granted := by
    rw [hgranted]
    decide
  refine ⟨s, hs, hpair, htwo, hone, ?_⟩
  rcases (queue_fair hs).1 1 2 hpair htwo with hserved | ⟨-, hwithdrawn⟩
  · exact absurd (hserved.subset List.mem_cons_self) hone
  · exact hwithdrawn

end YtdlBot.DownloadQueue
