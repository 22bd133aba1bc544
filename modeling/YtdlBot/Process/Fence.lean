import YtdlBot.Process.Supervisor

/-!
# The request generation fence

After `cancel_owner` has taken the lock, no process of an earlier `run` call of the owner is
registered. A process that was registered is killed by the task of `cancel_owner` for it, a later
one by its own launcher.
-/

namespace YtdlBot.Process

open Framework

variable {Owner : Type} [DecidableEq Owner]

/-- The call is in `_start`. -/
def Phase.launching : Phase → Bool
  | .created | .workloadWait | .processWait | .exec | .unadopted _ _ | .unadoptedTree _ _
  | .fencing _ | .startCancelling _ _ => true
  | _ => false

/-- The call cleans up a fenced launch. -/
def Phase.fenced : Phase → Bool
  | .fencing _ | .startCancelling _ _ => true
  | _ => false

/-- What one step does to a handle. -/
inductive Moved (x : Handle Owner) : Handle Owner → Prop
  | exit : Moved x { x with exited := true }
  | inactive : x.finished = true → Moved x { x with active := false }
  | finish : Moved x { x with finished := true, registered := false, active := false }
  | terminate : x.teardown = false → x.cancelRequested = false →
      Moved x { x with cancelRequested := true, teardown := true }
  | kill : Moved x { x with killed := true, teardown := false }

/-- What stays of a handle for good. -/
structure Kept (x x' : Handle Owner) : Prop where
  call : x'.call = x.call
  owner : x'.owner = x.owner
  temporary : x'.temporary = x.temporary
  registered : x'.registered = true → x.registered = true
  unregistered : x.registered = true → x'.registered = false → x'.finished = true
  finished : x.finished = true → x'.finished = true
  killed : x.killed = true → x'.killed = true
  requested : x.cancelRequested = true → x'.cancelRequested = true

omit [DecidableEq Owner] in
theorem Kept.refl (x : Handle Owner) : Kept x x where
  call := rfl
  owner := rfl
  temporary := rfl
  registered := id
  unregistered := fun hyes hno => by rw [hyes] at hno; cases hno
  finished := id
  killed := id
  requested := id

omit [DecidableEq Owner] in
theorem Moved.kept {x x' : Handle Owner} (hm : Moved x x') : Kept x x' := by
  cases hm <;> constructor <;> simp_all

namespace Supervisor

/-- No launching task is cancelled while it cleans up a fenced launch. -/
def Unhindered (s : Supervisor Owner) : Action Owner → Prop
  | .cancel i => ∀ c ∈ s.calls[i]?, c.phase.fenced = false
  | _ => True

instance (s : Supervisor Owner) : (a : Action Owner) → Decidable (s.Unhindered a)
  | .cancel i => inferInstanceAs (Decidable (∀ c ∈ s.calls[i]?, c.phase.fenced = false))
  | .run _ | .open _ _ | .start _ | .workload _ | .process _ | .exec _ _ | .exit _ | .leaveBody _ _
  | .stderrDone _ | .stderrFails _ | .resume _ | .cancelOwner _ | .task _ | .taskFails _ =>
    isTrue trivial

/-- The handle `x` of a process that call `i` has just created. -/
structure Created (s s' : Supervisor Owner) (i : Nat) (c : Call Owner) (x : Handle Owner) :
    Prop where
  exec : c.phase = .exec
  call : x.call = i
  owner : x.owner = c.owner
  unfinished : x.finished = false
  adopted : x.temporary = false →
    (x.registered = true ∧ s.ownerGeneration c.owner = c.generation) ∨
    (x.registered = false ∧
      s'.calls[i]? = some { c with phase := .fencing s.handles.length })
  temporary : x.temporary = true →
    x.registered = false ∧ .cancelling s.handles.length false ∈ s'.tasks
  teardown : x.cancelRequested = true → x.teardown = true

/-- What one step does to the handles. -/
def HandleStep (s s' : Supervisor Owner) : Prop :=
  s'.handles = s.handles ∨
  (∃ (h : Nat) (x x' : Handle Owner), s.handles[h]? = some x ∧ Moved x x' ∧
    s'.handles = s.handles.set h x') ∨
  ∃ (i : Nat) (c : Call Owner) (x : Handle Owner), s.calls[i]? = some c ∧ Created s s' i c x ∧
    s'.handles = s.handles ++ [x]

section HandleSteps

variable {s s' : Supervisor Owner} {i h k : Nat} {c : Call Owner} {x x' : Handle Owner}
  {t : Task Owner} {o : Owner}

theorem handles_releaseOwnerSlot (s : Supervisor Owner) (o : Owner) :
    (s.releaseOwnerSlot o).handles = s.handles := by
  unfold releaseOwnerSlot
  dsimp only
  split
  · rfl
  · rfl

omit [DecidableEq Owner] in
theorem handleStep_exec (hc : s.calls[i]? = some c) (hphase : c.phase = .exec)
    (result : ExecResult) : HandleStep s (s.execDone i c result) := by
  cases result with
  | failed => exact .inl rfl
  | unadopted =>
    refine .inr (.inr ⟨i, c, _, hc, ?_, rfl⟩)
    constructor
    case exec => exact hphase
    case call => rfl
    case owner => rfl
    case unfinished => rfl
    case adopted => simp
    case temporary => simp [execDone, shield]
    case teardown => simp
  | started =>
    refine .inr (.inr ⟨i, c, _, hc, ?_, rfl⟩)
    constructor
    case exec => exact hphase
    case call => rfl
    case owner => rfl
    case unfinished => rfl
    case adopted =>
      intro _
      by_cases hgen : s.ownerGeneration c.owner = c.generation
      · exact .inl ⟨by simp [hgen], hgen⟩
      · right
        refine ⟨by simp [hgen], ?_⟩
        simp [execDone, setCall, getElem?_replaced hc, hgen]
    case temporary => simp
    case teardown => simp

theorem handleStep_task (hs : s.stepTask k t = some s') : HandleStep s s' := by
  cases t with
  | cancelling h finish =>
    obtain ⟨x, hx, hs⟩ := Option.bind_eq_some_iff.mp hs
    split at hs
    · cases hs
    · rename_i hfree
      split at hs
      · obtain rfl := Option.some.inj hs
        exact .inl rfl
      · rename_i hfirst
        obtain rfl := Option.some.inj hs
        exact .inr (.inl ⟨h, x, _, hx, .terminate (by simpa using hfree) (by simpa using hfirst), rfl⟩)
  | terminating h finish =>
    obtain ⟨x, hx, rfl⟩ := Option.map_eq_some_iff.mp hs
    exact .inr (.inl ⟨h, x, _, hx, .kill, rfl⟩)
  | finishing h =>
    obtain ⟨x, hx, rfl⟩ := Option.map_eq_some_iff.mp hs
    split
    · rename_i hfin
      exact .inr (.inl ⟨h, x, _, hx, .inactive hfin, rfl⟩)
    · exact .inr (.inl ⟨h, x, _, hx, .finish, rfl⟩)
  | closing h o =>
    obtain ⟨x, hx, hs⟩ := Option.bind_eq_some_iff.mp hs
    split at hs
    · cases hs
    · obtain rfl := Option.some.inj hs
      exact .inl (handles_releaseOwnerSlot _ _)
  | closeTree h =>
    obtain ⟨x, hx, hs⟩ := Option.bind_eq_some_iff.mp hs
    split at hs
    · cases hs
    · obtain rfl := Option.some.inj hs
      exact .inl rfl
  | releaseOwner o =>
    obtain rfl := Option.some.inj hs
    exact .inl (handles_releaseOwnerSlot _ _)
  | done | failed => cases hs

omit [DecidableEq Owner] in
theorem handleStep_failTask (hs : s.failTask k t = some s') : HandleStep s s' := by
  obtain ⟨h, finish, x, -, hx, rfl⟩ := failTask_cases hs
  exact .inr (.inl ⟨h, x, _, hx, .kill, rfl⟩)

omit [DecidableEq Owner] in
theorem handleStep_resume (hs : s.resume i c = some s') : HandleStep s s' := by
  unfold Supervisor.resume at hs
  cases hphase : c.phase <;> simp only [hphase] at hs
  case created | workloadWait | processWait | exec | body | openStderr | ended => cases hs
  case fencing h =>
    obtain ⟨x, hx, rfl⟩ := Option.map_eq_some_iff.mp hs
    exact .inr (.inl ⟨h, x, _, hx, .kill, rfl⟩)
  case unadopted | unadoptedTree | leaving =>
    split at hs
    · obtain rfl := Option.some.inj hs
      exact .inl rfl
    · cases hs
  case startCancelling | runCancelling =>
    split at hs
    · obtain rfl := Option.some.inj hs
      exact .inl rfl
    · obtain rfl := Option.some.inj hs
      exact .inl rfl
    · cases hs
  case openCancelling =>
    split at hs
    · obtain rfl := Option.some.inj hs
      exact .inl rfl
    · obtain rfl := Option.some.inj hs
      exact .inl rfl
    · obtain rfl := Option.some.inj hs
      exact .inl rfl
    · cases hs

omit [DecidableEq Owner] in
theorem handles_cancelCall (hfenced : c.phase.fenced = false) :
    (s.cancelCall i c).handles = s.handles := by
  unfold cancelCall
  cases hphase : c.phase
  case fencing => simp [hphase, Phase.fenced] at hfenced
  case body =>
    dsimp only
    split
    · rfl
    · rfl
  all_goals rfl

omit [DecidableEq Owner] in
theorem handles_leaveBody {raised : Bool} (hs : s.leaveBody i c h x raised = some s') :
    s'.handles = s.handles := by
  unfold leaveBody at hs
  split at hs
  · split at hs
    · obtain rfl := Option.some.inj hs
      rfl
    · split at hs
      · obtain rfl := Option.some.inj hs
        rfl
      · cases hs
  · split at hs
    · obtain rfl := Option.some.inj hs
      rfl
    · split at hs
      · obtain rfl := Option.some.inj hs
        rfl
      · obtain rfl := Option.some.inj hs
        rfl

theorem handleStep_of_step {a : Action Owner} (hG : s.Unhindered a) (hs : s.step a = some s') :
    HandleStep s s' := by
  cases a with
  | run owner | «open» owner stderrPipe | cancelOwner owner =>
    obtain rfl := Option.some.inj hs
    exact .inl rfl
  | start i =>
    obtain ⟨c, hc, hs⟩ := Option.bind_eq_some_iff.mp hs
    split at hs
    · obtain rfl := Option.some.inj hs
      unfold startCall
      dsimp only
      split
      · exact .inl rfl
      · exact .inl rfl
    · cases hs
  | workload i =>
    obtain ⟨c, hc, hs⟩ := Option.bind_eq_some_iff.mp hs
    split at hs
    · obtain ⟨hfree, hs⟩ := Option.ite_none_right_eq_some.mp hs
      obtain rfl := Option.some.inj hs
      unfold takeWorkload
      split
      · exact .inl rfl
      · exact .inl rfl
    · cases hs
  | process i =>
    obtain ⟨c, hc, hs⟩ := Option.bind_eq_some_iff.mp hs
    split at hs
    · obtain ⟨hfree, hs⟩ := Option.ite_none_right_eq_some.mp hs
      obtain rfl := Option.some.inj hs
      unfold takeProcess
      split
      · exact .inl rfl
      · exact .inl rfl
    · cases hs
  | exec i result =>
    obtain ⟨c, hc, hs⟩ := Option.bind_eq_some_iff.mp hs
    split at hs
    · rename_i hphase
      obtain rfl := Option.some.inj hs
      exact handleStep_exec hc hphase result
    · cases hs
  | exit h =>
    obtain ⟨x, hx, rfl⟩ := Option.map_eq_some_iff.mp hs
    exact .inr (.inl ⟨h, x, _, hx, .exit, rfl⟩)
  | leaveBody i raised =>
    obtain ⟨c, hc, hs⟩ := Option.bind_eq_some_iff.mp hs
    split at hs
    · obtain ⟨x, hx, hs⟩ := Option.bind_eq_some_iff.mp hs
      exact .inl (handles_leaveBody hs)
    · cases hs
  | stderrDone i | stderrFails i =>
    obtain ⟨c, hc, hs⟩ := Option.bind_eq_some_iff.mp hs
    split at hs
    · obtain rfl := Option.some.inj hs
      exact .inl rfl
    · cases hs
  | resume i =>
    obtain ⟨c, hc, hs⟩ := Option.bind_eq_some_iff.mp hs
    exact handleStep_resume hs
  | cancel i =>
    obtain ⟨c, hc, rfl⟩ := Option.map_eq_some_iff.mp hs
    exact .inl (handles_cancelCall (hG c hc))
  | task k =>
    obtain ⟨t, ht, hs⟩ := Option.bind_eq_some_iff.mp hs
    exact handleStep_task hs
  | taskFails k =>
    obtain ⟨t, ht, hs⟩ := Option.bind_eq_some_iff.mp hs
    exact handleStep_failTask hs

omit [DecidableEq Owner] in
theorem HandleStep.forward (hstep : HandleStep s s') (hx : s.handles[h]? = some x) :
    ∃ x', s'.handles[h]? = some x' ∧ (x' = x ∨ Moved x x') := by
  rcases hstep with hsame | ⟨g, y, y', hy, hm, hset⟩ | ⟨i, c, y, hc, hnew, hjoin⟩
  · exact ⟨x, by rw [hsame]; exact hx, .inl rfl⟩
  · rw [hset, getElem?_replaced hy]
    by_cases hg : h = g
    · subst hg
      obtain rfl := Option.some.inj (hx.symm.trans hy)
      exact ⟨y', if_pos rfl, .inr hm⟩
    · exact ⟨x, (if_neg hg).trans hx, .inl rfl⟩
  · exact ⟨x, by rw [hjoin]; exact getElem?_joined_of_some hx,
      .inl rfl⟩

omit [DecidableEq Owner] in
theorem HandleStep.backward (hstep : HandleStep s s') (hx' : s'.handles[h]? = some x') :
    (∃ x, s.handles[h]? = some x ∧ (x' = x ∨ Moved x x')) ∨
    (h = s.handles.length ∧ ∃ i c, s.calls[i]? = some c ∧ Created s s' i c x') := by
  rcases hstep with hsame | ⟨g, y, y', hy, hm, hset⟩ | ⟨i, c, y, hc, hnew, hjoin⟩
  · rw [hsame] at hx'
    exact .inl ⟨x', hx', .inl rfl⟩
  · rw [hset, getElem?_replaced hy] at hx'
    split at hx'
    · rename_i hg
      obtain rfl := Option.some.inj hx'
      exact .inl ⟨y, hg ▸ hy, .inr hm⟩
    · exact .inl ⟨x', hx', .inl rfl⟩
  · rw [hjoin, getElem?_joined] at hx'
    split at hx'
    · rename_i hg
      obtain rfl := Option.some.inj hx'
      exact .inr ⟨hg, i, c, hc, hnew⟩
    · exact .inl ⟨x', hx', .inl rfl⟩

omit [DecidableEq Owner] in
theorem kept_of_same_or_moved (hm : x' = x ∨ Moved x x') : Kept x x' := by
  rcases hm with rfl | hm
  · exact Kept.refl x'
  · exact hm.kept

end HandleSteps

/-- What stays of a call for good; a fenced launch ends when its process is killed. -/
structure CallKept (s' : Supervisor Owner) (c c' : Call Owner) : Prop where
  owner : c'.owner = c.owner
  kind : c'.kind = c.kind
  generation : c.kind = .run → c'.generation = c.generation
  fencing : ∀ h, c.phase = .fencing h →
    c'.phase = .fencing h ∨ ∃ x ∈ s'.handles[h]?, x.killed = true

/-- What one step does to the calls. -/
def CallStep (s s' : Supervisor Owner) : Prop :=
  s'.calls = s.calls ∨
  (∃ (j : Nat) (d d' : Call Owner), s.calls[j]? = some d ∧ CallKept s' d d' ∧
    s'.calls = s.calls.set j d') ∨
  ∃ d : Call Owner, (d.kind = .run → d.generation = s.ownerGeneration d.owner) ∧
    s'.calls = s.calls ++ [d]

section CallSteps

variable {s s' : Supervisor Owner} {i h k : Nat} {c : Call Owner} {x : Handle Owner}
  {t : Task Owner} {o : Owner}

omit [DecidableEq Owner] in
theorem CallKept.refl (s' : Supervisor Owner) (c : Call Owner) : CallKept s' c c where
  owner := rfl
  kind := rfl
  generation _ := rfl
  fencing _ hphase := .inl hphase

omit [DecidableEq Owner] in
theorem callKept_phase (hnot : ∀ h, c.phase ≠ .fencing h) (phase : Phase) :
    CallKept s' c { c with phase := phase } where
  owner := rfl
  kind := rfl
  generation _ := rfl
  fencing h hphase := absurd hphase (hnot h)

omit [DecidableEq Owner] in
theorem callStep_phase (hc : s.calls[i]? = some c) (hnot : ∀ h, c.phase ≠ .fencing h)
    (phase : Phase) (hcalls : s'.calls = s.calls.set i { c with phase := phase }) :
    CallStep s s' :=
  .inr (.inl ⟨i, c, _, hc, callKept_phase hnot phase, hcalls⟩)

theorem calls_releaseOwnerSlot (s : Supervisor Owner) (o : Owner) :
    (s.releaseOwnerSlot o).calls = s.calls := by
  unfold releaseOwnerSlot
  dsimp only
  split
  · rfl
  · rfl

theorem callStep_start (hc : s.calls[i]? = some c) (hphase : c.phase = .created) :
    CallStep s (s.startCall i c) := by
  have hkept : ∀ phase : Phase, CallKept (s.startCall i c) c
      { c with generation := s.launchGeneration c, phase := phase } := by
    intro phase
    constructor
    case owner => rfl
    case kind => rfl
    case generation =>
      intro hrun
      simp [launchGeneration, hrun]
    case fencing => simp [hphase]
  unfold startCall at hkept ⊢
  dsimp only at hkept ⊢
  split
  · rename_i hmem
    simp only [if_pos hmem] at hkept
    exact .inr (.inl ⟨i, c, _, hc, hkept .processWait, rfl⟩)
  · rename_i hmem
    simp only [if_neg hmem] at hkept
    exact .inr (.inl ⟨i, c, _, hc, hkept .workloadWait, rfl⟩)

omit [DecidableEq Owner] in
theorem callStep_exec (hc : s.calls[i]? = some c) (hphase : c.phase = .exec)
    (result : ExecResult) : CallStep s (s.execDone i c result) := by
  cases result with
  | failed => exact callStep_phase hc (by simp [hphase]) (.leaving s.tasks.length) rfl
  | unadopted =>
    exact callStep_phase hc (by simp [hphase]) (.unadopted s.handles.length s.tasks.length) rfl
  | started => exact callStep_phase hc (by simp [hphase]) _ rfl

omit [DecidableEq Owner] in
theorem callStep_resume (hc : s.calls[i]? = some c) (hs : s.resume i c = some s') :
    CallStep s s' := by
  unfold Supervisor.resume at hs
  cases hphase : c.phase <;> simp only [hphase] at hs
  case created | workloadWait | processWait | exec | body | openStderr | ended => cases hs
  case fencing h =>
    obtain ⟨x, hx, rfl⟩ := Option.map_eq_some_iff.mp hs
    refine .inr (.inl ⟨i, c, _, hc, ?_, rfl⟩)
    constructor
    case owner => rfl
    case kind => rfl
    case generation => exact fun _ => rfl
    case fencing =>
      intro g hg
      obtain rfl : h = g := by simpa [hphase] using hg
      exact .inr ⟨_, getElem?_replaced_self hx, rfl⟩
  case unadopted | unadoptedTree | leaving =>
    split at hs
    · obtain rfl := Option.some.inj hs
      exact callStep_phase hc (by simp [hphase]) _ rfl
    · cases hs
  case startCancelling | runCancelling =>
    split at hs
    · obtain rfl := Option.some.inj hs
      exact callStep_phase hc (by simp [hphase]) _ rfl
    · obtain rfl := Option.some.inj hs
      exact callStep_phase hc (by simp [hphase]) _ rfl
    · cases hs
  case openCancelling =>
    split at hs
    · obtain rfl := Option.some.inj hs
      exact callStep_phase hc (by simp [hphase]) _ rfl
    · obtain rfl := Option.some.inj hs
      exact callStep_phase hc (by simp [hphase]) _ rfl
    · obtain rfl := Option.some.inj hs
      exact callStep_phase hc (by simp [hphase]) _ rfl
    · cases hs

omit [DecidableEq Owner] in
theorem callStep_cancel (hc : s.calls[i]? = some c) (hfenced : c.phase.fenced = false) :
    CallStep s (s.cancelCall i c) := by
  unfold cancelCall
  cases hphase : c.phase
  case fencing => simp [hphase, Phase.fenced] at hfenced
  case ended => exact .inl rfl
  case body =>
    dsimp only
    split
    · exact callStep_phase hc (by simp [hphase]) _ rfl
    · exact .inl rfl
  all_goals exact callStep_phase hc (by simp [hphase]) _ rfl

omit [DecidableEq Owner] in
theorem callStep_leaveBody {raised : Bool} (hc : s.calls[i]? = some c)
    (hnot : ∀ g, c.phase ≠ .fencing g) (hs : s.leaveBody i c h x raised = some s') :
    CallStep s s' := by
  unfold leaveBody at hs
  split at hs
  · split at hs
    · obtain rfl := Option.some.inj hs
      exact callStep_phase hc hnot _ rfl
    · split at hs
      · obtain rfl := Option.some.inj hs
        exact callStep_phase hc hnot _ rfl
      · cases hs
  · split at hs
    · obtain rfl := Option.some.inj hs
      exact callStep_phase hc hnot _ rfl
    · split at hs
      · obtain rfl := Option.some.inj hs
        exact callStep_phase hc hnot _ rfl
      · obtain rfl := Option.some.inj hs
        exact callStep_phase hc hnot _ rfl

theorem calls_stepTask (hs : s.stepTask k t = some s') : s'.calls = s.calls := by
  cases t with
  | cancelling h finish =>
    obtain ⟨x, hx, hs⟩ := Option.bind_eq_some_iff.mp hs
    split at hs
    · cases hs
    · split at hs
      · obtain rfl := Option.some.inj hs
        rfl
      · obtain rfl := Option.some.inj hs
        rfl
  | terminating h finish =>
    obtain ⟨x, hx, rfl⟩ := Option.map_eq_some_iff.mp hs
    rfl
  | finishing h =>
    obtain ⟨x, hx, rfl⟩ := Option.map_eq_some_iff.mp hs
    split
    · rfl
    · rfl
  | closing h o =>
    obtain ⟨x, hx, hs⟩ := Option.bind_eq_some_iff.mp hs
    split at hs
    · cases hs
    · obtain rfl := Option.some.inj hs
      exact calls_releaseOwnerSlot _ _
  | closeTree h =>
    obtain ⟨x, hx, hs⟩ := Option.bind_eq_some_iff.mp hs
    split at hs
    · cases hs
    · obtain rfl := Option.some.inj hs
      rfl
  | releaseOwner o =>
    obtain rfl := Option.some.inj hs
    exact calls_releaseOwnerSlot _ _
  | done | failed => cases hs

theorem callStep_of_step {a : Action Owner} (hG : s.Unhindered a) (hs : s.step a = some s') :
    CallStep s s' := by
  cases a with
  | run owner =>
    obtain rfl := Option.some.inj hs
    exact .inr (.inr ⟨_, fun _ => rfl, rfl⟩)
  | «open» owner stderrPipe =>
    obtain rfl := Option.some.inj hs
    exact .inr (.inr ⟨_, by simp, rfl⟩)
  | cancelOwner owner =>
    obtain rfl := Option.some.inj hs
    exact .inl rfl
  | start i =>
    obtain ⟨c, hc, hs⟩ := Option.bind_eq_some_iff.mp hs
    split at hs
    · rename_i hphase
      obtain rfl := Option.some.inj hs
      exact callStep_start hc hphase
    · cases hs
  | workload i =>
    obtain ⟨c, hc, hs⟩ := Option.bind_eq_some_iff.mp hs
    split at hs
    · rename_i hphase
      obtain ⟨hfree, hs⟩ := Option.ite_none_right_eq_some.mp hs
      obtain rfl := Option.some.inj hs
      unfold takeWorkload
      split
      · exact callStep_phase hc (by simp [hphase]) .processWait rfl
      · exact callStep_phase hc (by simp [hphase]) .processWait rfl
    · cases hs
  | process i =>
    obtain ⟨c, hc, hs⟩ := Option.bind_eq_some_iff.mp hs
    split at hs
    · rename_i hphase
      obtain ⟨hfree, hs⟩ := Option.ite_none_right_eq_some.mp hs
      obtain rfl := Option.some.inj hs
      unfold takeProcess
      split
      · exact callStep_phase hc (by simp [hphase]) (.leaving s.tasks.length) rfl
      · exact callStep_phase hc (by simp [hphase]) .exec rfl
    · cases hs
  | exec i result =>
    obtain ⟨c, hc, hs⟩ := Option.bind_eq_some_iff.mp hs
    split at hs
    · rename_i hphase
      obtain rfl := Option.some.inj hs
      exact callStep_exec hc hphase result
    · cases hs
  | exit h =>
    obtain ⟨x, hx, rfl⟩ := Option.map_eq_some_iff.mp hs
    exact .inl rfl
  | leaveBody i raised =>
    obtain ⟨c, hc, hs⟩ := Option.bind_eq_some_iff.mp hs
    split at hs
    · rename_i hphase
      obtain ⟨x, hx, hs⟩ := Option.bind_eq_some_iff.mp hs
      exact callStep_leaveBody hc (by simp [hphase]) hs
    · cases hs
  | stderrDone i =>
    obtain ⟨c, hc, hs⟩ := Option.bind_eq_some_iff.mp hs
    split at hs
    · rename_i hphase
      obtain rfl := Option.some.inj hs
      exact callStep_phase hc (by simp [hphase]) (.leaving s.tasks.length) rfl
    · cases hs
  | stderrFails i =>
    obtain ⟨c, hc, hs⟩ := Option.bind_eq_some_iff.mp hs
    split at hs
    · rename_i hphase
      obtain rfl := Option.some.inj hs
      exact callStep_phase hc (by simp [hphase]) .ended rfl
    · cases hs
  | resume i =>
    obtain ⟨c, hc, hs⟩ := Option.bind_eq_some_iff.mp hs
    exact callStep_resume hc hs
  | cancel i =>
    obtain ⟨c, hc, rfl⟩ := Option.map_eq_some_iff.mp hs
    exact callStep_cancel hc (hG c hc)
  | task k =>
    obtain ⟨t, ht, hs⟩ := Option.bind_eq_some_iff.mp hs
    exact .inl (calls_stepTask hs)
  | taskFails k =>
    obtain ⟨t, ht, hs⟩ := Option.bind_eq_some_iff.mp hs
    obtain ⟨h, finish, x, -, hx, rfl⟩ := failTask_cases hs
    exact .inl rfl

omit [DecidableEq Owner] in
theorem CallStep.forward (hstep : CallStep s s') (hc : s.calls[i]? = some c) :
    ∃ c', s'.calls[i]? = some c' ∧ CallKept s' c c' := by
  rcases hstep with hsame | ⟨j, d, d', hd, hkept, hset⟩ | ⟨d, hrun, hjoin⟩
  · exact ⟨c, by rw [hsame]; exact hc, CallKept.refl s' c⟩
  · rw [hset, getElem?_replaced hd]
    by_cases hij : i = j
    · subst hij
      obtain rfl := Option.some.inj (hc.symm.trans hd)
      exact ⟨d', if_pos rfl, hkept⟩
    · exact ⟨c, (if_neg hij).trans hc, CallKept.refl s' c⟩
  · exact ⟨c, by rw [hjoin]; exact getElem?_joined_of_some hc,
      CallKept.refl s' c⟩

end CallSteps

/-- The process of the handle has been killed. -/
def Killed (s : Supervisor Owner) (h : Nat) : Prop := ∃ x ∈ s.handles[h]?, x.killed = true

def Finished (s : Supervisor Owner) (h : Nat) : Prop := ∃ x ∈ s.handles[h]?, x.finished = true

/-- What one step does to a spawned task. -/
inductive Progress (s s' : Supervisor Owner) : Task Owner → Task Owner → Prop
  | begun (h : Nat) (finish : Bool) : Progress s s' (.cancelling h finish) (.terminating h finish)
  | skipped (h : Nat) (finish : Bool) (x : Handle Owner) : s.handles[h]? = some x →
      x.cancelRequested = true → x.teardown = false →
      Progress s s' (.cancelling h finish) (afterCancel h finish)
  | killed (h : Nat) (finish : Bool) : s'.Killed h →
      Progress s s' (.terminating h finish) (afterCancel h finish)
  | failed (h : Nat) (finish : Bool) : s'.Killed h → Progress s s' (.terminating h finish) .failed
  | refinished (h : Nat) : s'.Finished h → Progress s s' (.finishing h) .done
  | finished (h : Nat) (owner : Owner) : s'.Finished h →
      Progress s s' (.finishing h) (.closing h owner)
  | closed (h : Nat) (owner : Owner) : Progress s s' (.closing h owner) .done
  | treeClosed (h : Nat) : Progress s s' (.closeTree h) .done
  | released (owner : Owner) : Progress s s' (.releaseOwner owner) .done

section TaskSteps

variable {s s' : Supervisor Owner} {i h k : Nat} {c : Call Owner} {x : Handle Owner}
  {t : Task Owner} {o : Owner}

theorem tasks_releaseOwnerSlot (s : Supervisor Owner) (o : Owner) :
    (s.releaseOwnerSlot o).tasks = s.tasks := by
  unfold releaseOwnerSlot
  dsimp only
  split
  · rfl
  · rfl

theorem progress_stepTask (hs : s.stepTask k t = some s') :
    ∃ t', Progress s s' t t' ∧ s'.tasks = s.tasks.set k t' := by
  cases t with
  | cancelling h finish =>
    obtain ⟨x, hx, hs⟩ := Option.bind_eq_some_iff.mp hs
    split at hs
    · cases hs
    · rename_i hfree
      split at hs
      · rename_i hrequested
        obtain rfl := Option.some.inj hs
        exact ⟨_, .skipped h finish x hx hrequested (by simpa using hfree), rfl⟩
      · obtain rfl := Option.some.inj hs
        exact ⟨_, .begun h finish, rfl⟩
  | terminating h finish =>
    obtain ⟨x, hx, rfl⟩ := Option.map_eq_some_iff.mp hs
    exact ⟨_, .killed h finish ⟨_, getElem?_replaced_self hx, rfl⟩, rfl⟩
  | finishing h =>
    obtain ⟨x, hx, rfl⟩ := Option.map_eq_some_iff.mp hs
    split
    · rename_i hfin
      exact ⟨_, .refinished h ⟨_, getElem?_replaced_self hx, hfin⟩, rfl⟩
    · exact ⟨_, .finished h x.owner ⟨_, getElem?_replaced_self hx, rfl⟩, rfl⟩
  | closing h o =>
    obtain ⟨x, hx, hs⟩ := Option.bind_eq_some_iff.mp hs
    split at hs
    · cases hs
    · obtain rfl := Option.some.inj hs
      refine ⟨_, .closed h o, ?_⟩
      simp only [setTask, tasks_releaseOwnerSlot]
  | closeTree h =>
    obtain ⟨x, hx, hs⟩ := Option.bind_eq_some_iff.mp hs
    split at hs
    · cases hs
    · obtain rfl := Option.some.inj hs
      exact ⟨_, .treeClosed h, rfl⟩
  | releaseOwner o =>
    obtain rfl := Option.some.inj hs
    refine ⟨_, .released o, ?_⟩
    simp only [setTask, tasks_releaseOwnerSlot]
  | done | failed => cases hs

omit [DecidableEq Owner] in
theorem progress_failTask (hs : s.failTask k t = some s') :
    ∃ t', Progress s s' t t' ∧ s'.tasks = s.tasks.set k t' := by
  obtain ⟨h, finish, x, rfl, hx, rfl⟩ := failTask_cases hs
  exact ⟨.failed, .failed h finish ⟨_, getElem?_replaced_self hx, rfl⟩, rfl⟩

omit [DecidableEq Owner] in
theorem tasks_grown {later : List (Task Owner)} (htasks : s'.tasks = s.tasks ++ later)
    (ht : s.tasks[k]? = some t) : s'.tasks[k]? = some t := by
  have hlt : k < s.tasks.length := (List.getElem?_eq_some_iff.mp ht).1
  rw [htasks, List.getElem?_append_left hlt]
  exact ht

/-- What a step of a call does beside calls and handles: it spawns tasks, and generations stay. -/
structure Spawns (s s' : Supervisor Owner) : Prop where
  generation : s'.ownerGeneration = s.ownerGeneration
  tasks : ∃ later, s'.tasks = s.tasks ++ later

omit [DecidableEq Owner] in
theorem Spawns.none (hgeneration : s'.ownerGeneration = s.ownerGeneration)
    (htasks : s'.tasks = s.tasks) : Spawns s s' :=
  ⟨hgeneration, [], by rw [htasks, List.append_nil]⟩

theorem spawns_startCall (i : Nat) (c : Call Owner) : Spawns s (s.startCall i c) := by
  unfold startCall
  dsimp only
  split
  · exact .none rfl rfl
  · exact .none rfl rfl

theorem spawns_takeWorkload (i : Nat) (c : Call Owner) : Spawns s (s.takeWorkload i c) := by
  unfold takeWorkload
  split
  · exact .none rfl rfl
  · exact .none rfl rfl

omit [DecidableEq Owner] in
theorem spawns_takeProcess (i : Nat) (c : Call Owner) : Spawns s (s.takeProcess i c) := by
  unfold takeProcess
  split
  · exact ⟨rfl, _, rfl⟩
  · exact .none rfl rfl

omit [DecidableEq Owner] in
theorem spawns_execDone (i : Nat) (c : Call Owner) (result : ExecResult) :
    Spawns s (s.execDone i c result) := by
  cases result with
  | failed => exact ⟨rfl, _, rfl⟩
  | unadopted => exact ⟨rfl, _, rfl⟩
  | started => exact .none rfl rfl

omit [DecidableEq Owner] in
theorem spawns_leaveBody {raised : Bool} (hs : s.leaveBody i c h x raised = some s') :
    Spawns s s' := by
  unfold leaveBody at hs
  split at hs
  · split at hs
    · obtain rfl := Option.some.inj hs
      exact ⟨rfl, _, rfl⟩
    · split at hs
      · obtain rfl := Option.some.inj hs
        exact ⟨rfl, _, rfl⟩
      · cases hs
  · split at hs
    · obtain rfl := Option.some.inj hs
      exact ⟨rfl, _, rfl⟩
    · split at hs
      · obtain rfl := Option.some.inj hs
        exact .none rfl rfl
      · obtain rfl := Option.some.inj hs
        exact ⟨rfl, _, rfl⟩

omit [DecidableEq Owner] in
theorem spawns_resume (hs : s.resume i c = some s') : Spawns s s' := by
  unfold Supervisor.resume at hs
  cases hphase : c.phase <;> simp only [hphase] at hs
  case created | workloadWait | processWait | exec | body | openStderr | ended => cases hs
  case fencing h =>
    obtain ⟨x, hx, rfl⟩ := Option.map_eq_some_iff.mp hs
    exact ⟨rfl, _, rfl⟩
  case unadopted | unadoptedTree =>
    split at hs
    · obtain rfl := Option.some.inj hs
      exact ⟨rfl, _, rfl⟩
    · cases hs
  case startCancelling =>
    split at hs
    · obtain rfl := Option.some.inj hs
      exact ⟨rfl, _, rfl⟩
    · obtain rfl := Option.some.inj hs
      exact .none rfl rfl
    · cases hs
  case runCancelling =>
    split at hs
    · obtain rfl := Option.some.inj hs
      exact ⟨rfl, _, rfl⟩
    · obtain rfl := Option.some.inj hs
      exact ⟨rfl, _, rfl⟩
    · cases hs
  case leaving =>
    split at hs
    · obtain rfl := Option.some.inj hs
      exact .none rfl rfl
    · cases hs
  case openCancelling =>
    split at hs
    · obtain rfl := Option.some.inj hs
      exact .none rfl rfl
    · obtain rfl := Option.some.inj hs
      exact ⟨rfl, _, rfl⟩
    · obtain rfl := Option.some.inj hs
      exact .none rfl rfl
    · cases hs

omit [DecidableEq Owner] in
theorem spawns_cancelCall (i : Nat) (c : Call Owner) : Spawns s (s.cancelCall i c) := by
  unfold cancelCall
  cases hphase : c.phase <;> dsimp only
  case created | workloadWait | leaving | startCancelling | openCancelling | openStderr
      | unadopted | unadoptedTree | ended => exact .none rfl rfl
  case processWait | exec | runCancelling => exact ⟨rfl, _, rfl⟩
  case fencing =>
    split
    · exact ⟨rfl, _, rfl⟩
    · exact .none rfl rfl
  case body =>
    split
    · exact ⟨rfl, _, rfl⟩
    · exact .none rfl rfl

/-- Only `cancel_owner` raises a generation, and only a task itself goes on. -/
theorem spawns_of_step {a : Action Owner} (hs : s.step a = some s')
    (howner : ∀ owner, a ≠ .cancelOwner owner) (htask : ∀ k, a ≠ .task k)
    (hfails : ∀ k, a ≠ .taskFails k) : Spawns s s' := by
  cases a with
  | run owner | «open» owner stderrPipe =>
    obtain rfl := Option.some.inj hs
    exact .none rfl rfl
  | cancelOwner owner => exact absurd rfl (howner owner)
  | start i =>
    obtain ⟨c, hc, hs⟩ := Option.bind_eq_some_iff.mp hs
    split at hs
    · obtain rfl := Option.some.inj hs
      exact spawns_startCall i c
    · cases hs
  | workload i =>
    obtain ⟨c, hc, hs⟩ := Option.bind_eq_some_iff.mp hs
    split at hs
    · obtain ⟨hfree, hs⟩ := Option.ite_none_right_eq_some.mp hs
      obtain rfl := Option.some.inj hs
      exact spawns_takeWorkload i c
    · cases hs
  | process i =>
    obtain ⟨c, hc, hs⟩ := Option.bind_eq_some_iff.mp hs
    split at hs
    · obtain ⟨hfree, hs⟩ := Option.ite_none_right_eq_some.mp hs
      obtain rfl := Option.some.inj hs
      exact spawns_takeProcess i c
    · cases hs
  | exec i result =>
    obtain ⟨c, hc, hs⟩ := Option.bind_eq_some_iff.mp hs
    split at hs
    · obtain rfl := Option.some.inj hs
      exact spawns_execDone i c result
    · cases hs
  | exit h =>
    obtain ⟨x, hx, rfl⟩ := Option.map_eq_some_iff.mp hs
    exact .none rfl rfl
  | leaveBody i raised =>
    obtain ⟨c, hc, hs⟩ := Option.bind_eq_some_iff.mp hs
    split at hs
    · obtain ⟨x, hx, hs⟩ := Option.bind_eq_some_iff.mp hs
      exact spawns_leaveBody hs
    · cases hs
  | stderrDone i =>
    obtain ⟨c, hc, hs⟩ := Option.bind_eq_some_iff.mp hs
    split at hs
    · obtain rfl := Option.some.inj hs
      exact ⟨rfl, _, rfl⟩
    · cases hs
  | stderrFails i =>
    obtain ⟨c, hc, hs⟩ := Option.bind_eq_some_iff.mp hs
    split at hs
    · obtain rfl := Option.some.inj hs
      exact .none rfl rfl
    · cases hs
  | resume i =>
    obtain ⟨c, hc, hs⟩ := Option.bind_eq_some_iff.mp hs
    exact spawns_resume hs
  | cancel i =>
    obtain ⟨c, hc, rfl⟩ := Option.map_eq_some_iff.mp hs
    exact spawns_cancelCall i c
  | task k => exact absurd rfl (htask k)
  | taskFails k => exact absurd rfl (hfails k)

theorem grown_of_step {a : Action Owner} (hs : s.step a = some s') :
    (∃ later, s'.tasks = s.tasks ++ later) ∨
      ∃ k t, s.tasks[k]? = some t ∧ ∃ t', Progress s s' t t' ∧ s'.tasks = s.tasks.set k t' := by
  cases a with
  | task k =>
    obtain ⟨t, ht, hs⟩ := Option.bind_eq_some_iff.mp hs
    exact .inr ⟨k, t, ht, progress_stepTask hs⟩
  | taskFails k =>
    obtain ⟨t, ht, hs⟩ := Option.bind_eq_some_iff.mp hs
    exact .inr ⟨k, t, ht, progress_failTask hs⟩
  | cancelOwner owner =>
    obtain rfl := Option.some.inj hs
    exact .inl ⟨_, rfl⟩
  | _ => exact .inl (spawns_of_step hs (by simp) (by simp) (by simp)).tasks

theorem task_of_step {a : Action Owner} (hs : s.step a = some s') (ht : s.tasks[k]? = some t) :
    s'.tasks[k]? = some t ∨ ∃ t', s'.tasks[k]? = some t' ∧ Progress s s' t t' := by
  rcases grown_of_step hs with ⟨later, hlater⟩ | ⟨j, u, hu, u', hprogress, hset⟩
  · exact .inl (tasks_grown hlater ht)
  · rw [hset, getElem?_replaced hu]
    by_cases hkj : k = j
    · subst hkj
      obtain rfl := Option.some.inj (ht.symm.trans hu)
      exact .inr ⟨u', if_pos rfl, hprogress⟩
    · exact .inl ((if_neg hkj).trans ht)

end TaskSteps

/-- Somebody kills the processes that are not registered. -/
structure Guarded (s : Supervisor Owner) : Prop where
  requested : ∀ (h : Nat) x, s.handles[h]? = some x → x.cancelRequested = true →
    x.teardown = false → x.killed = true
  dismissed : ∀ (h : Nat) x, s.handles[h]? = some x → x.temporary = false →
    x.registered = false → x.finished = false →
    x.killed = true ∨ ∃ c, s.calls[x.call]? = some c ∧ c.phase = .fencing h
  temporary : ∀ (h : Nat) x, s.handles[h]? = some x → x.temporary = true → x.killed = true ∨
    ∃ t ∈ s.tasks, t = .cancelling h false ∨ t = .terminating h false
  retired : ∀ (h : Nat) x, s.handles[h]? = some x → x.finished = true → x.registered = false
  owned : ∀ (h : Nat) x, s.handles[h]? = some x →
    ∃ c, s.calls[x.call]? = some c ∧ c.owner = x.owner
  current : ∀ (i : Nat) c, s.calls[i]? = some c → c.kind = .run →
    c.generation ≤ s.ownerGeneration c.owner

section Guarded

variable {s s' : Supervisor Owner} {i h k : Nat} {c : Call Owner} {x x' : Handle Owner}
  {t : Task Owner} {o : Owner}

omit [DecidableEq Owner] in
theorem guarded_initial (W P : Nat) : Guarded (initial W P : Supervisor Owner) := by
  constructor <;> intros <;> simp_all [initial]

theorem generation_releaseOwnerSlot (s : Supervisor Owner) (o : Owner) :
    (s.releaseOwnerSlot o).ownerGeneration = s.ownerGeneration := by
  unfold releaseOwnerSlot
  dsimp only
  split
  · rfl
  · rfl

theorem generation_stepTask (hs : s.stepTask k t = some s') :
    s'.ownerGeneration = s.ownerGeneration := by
  cases t with
  | cancelling h finish =>
    obtain ⟨x, hx, hs⟩ := Option.bind_eq_some_iff.mp hs
    split at hs
    · cases hs
    · split at hs
      · obtain rfl := Option.some.inj hs
        rfl
      · obtain rfl := Option.some.inj hs
        rfl
  | terminating h finish =>
    obtain ⟨x, hx, rfl⟩ := Option.map_eq_some_iff.mp hs
    rfl
  | finishing h =>
    obtain ⟨x, hx, rfl⟩ := Option.map_eq_some_iff.mp hs
    split
    · rfl
    · rfl
  | closing h o =>
    obtain ⟨x, hx, hs⟩ := Option.bind_eq_some_iff.mp hs
    split at hs
    · cases hs
    · obtain rfl := Option.some.inj hs
      exact generation_releaseOwnerSlot _ _
  | closeTree h =>
    obtain ⟨x, hx, hs⟩ := Option.bind_eq_some_iff.mp hs
    split at hs
    · cases hs
    · obtain rfl := Option.some.inj hs
      rfl
  | releaseOwner o =>
    obtain rfl := Option.some.inj hs
    exact generation_releaseOwnerSlot _ _
  | done | failed => cases hs

/-- The generation of an owner never decreases. -/
theorem generation_of_step {a : Action Owner} (hs : s.step a = some s') (o : Owner) :
    s.ownerGeneration o ≤ s'.ownerGeneration o := by
  cases a with
  | cancelOwner owner =>
    obtain rfl := Option.some.inj hs
    show _ ≤ Function.update s.ownerGeneration owner _ o
    by_cases ho : o = owner
    · subst ho
      rw [Function.update_self]
      omega
    · rw [Function.update_of_ne ho]
  | task k =>
    obtain ⟨t, ht, hs⟩ := Option.bind_eq_some_iff.mp hs
    rw [generation_stepTask hs]
  | taskFails k =>
    obtain ⟨t, ht, hs⟩ := Option.bind_eq_some_iff.mp hs
    obtain ⟨h, finish, x, -, hx, rfl⟩ := failTask_cases hs
    exact le_refl _
  | _ => rw [(spawns_of_step hs (by simp) (by simp) (by simp)).generation]

omit [DecidableEq Owner] in
theorem HandleStep.killed (hstep : HandleStep s s') (hk : s.Killed h) : s'.Killed h := by
  obtain ⟨x, hx, hkilled⟩ := hk
  obtain ⟨x', hx', hm⟩ := hstep.forward hx
  exact ⟨x', hx', (kept_of_same_or_moved hm).killed hkilled⟩

omit [DecidableEq Owner] in
theorem HandleStep.finished (hstep : HandleStep s s') (hf : s.Finished h) : s'.Finished h := by
  obtain ⟨x, hx, hfinished⟩ := hf
  obtain ⟨x', hx', hm⟩ := hstep.forward hx
  exact ⟨x', hx', (kept_of_same_or_moved hm).finished hfinished⟩

theorem guarded_step {a : Action Owner} (hg : Guarded s) (hG : s.Unhindered a)
    (hs : s.step a = some s') : Guarded s' := by
  have hhandles := handleStep_of_step hG hs
  have hcalls := callStep_of_step hG hs
  constructor
  case requested =>
    intro h x' hx' hrequested hfree
    rcases hhandles.backward hx' with ⟨x, hx, rfl | hm⟩ | ⟨-, i, c, hc, hnew⟩
    · exact hg.requested h x' hx hrequested hfree
    · cases hm with
      | exit => exact hg.requested h x hx hrequested hfree
      | inactive => exact hg.requested h x hx hrequested hfree
      | finish => exact hg.requested h x hx hrequested hfree
      | terminate => cases hfree
      | kill => rfl
    · rw [hnew.teardown hrequested] at hfree
      cases hfree
  case dismissed =>
    intro h x' hx' htemp hreg hfin
    rcases hhandles.backward hx' with ⟨x, hx, hm⟩ | ⟨rfl, i, c, hc, hnew⟩
    · have hkept := kept_of_same_or_moved hm
      have hregx : x.registered = false := by
        by_contra hne
        have hdone := hkept.unregistered (by simpa using hne) hreg
        rw [hfin] at hdone
        cases hdone
      have hfinx : x.finished = false := by
        by_contra hne
        rw [hkept.finished (by simpa using hne)] at hfin
        cases hfin
      rcases hg.dismissed h x hx (hkept.temporary ▸ htemp) hregx hfinx with hkilled | ⟨c, hc, hphase⟩
      · exact .inl (hkept.killed hkilled)
      · obtain ⟨c', hc', hkeptc⟩ := hcalls.forward hc
        rcases hkeptc.fencing h hphase with hstill | ⟨y, hy, hkilled⟩
        · exact .inr ⟨c', by rw [hkept.call]; exact hc', hstill⟩
        · obtain rfl := Option.some.inj (hx'.symm.trans hy)
          exact .inl hkilled
    · rcases hnew.adopted htemp with ⟨hregistered, -⟩ | ⟨-, hfenced⟩
      · rw [hreg] at hregistered
        cases hregistered
      · exact .inr ⟨_, by rw [hnew.call]; exact hfenced, rfl⟩
  case temporary =>
    intro h x' hx' htemp
    rcases hhandles.backward hx' with ⟨x, hx, hm⟩ | ⟨rfl, i, c, hc, hnew⟩
    · have hkept := kept_of_same_or_moved hm
      rcases hg.temporary h x hx (hkept.temporary ▸ htemp) with hkilled | ⟨t, ht, hpending⟩
      · exact .inl (hkept.killed hkilled)
      · obtain ⟨k, hk⟩ := List.mem_iff_getElem?.mp ht
        rcases task_of_step hs hk with hstays | ⟨t', ht', hprogress⟩
        · exact .inr ⟨t, List.mem_of_getElem? hstays, hpending⟩
        · rcases hpending with rfl | rfl
          · cases hprogress with
            | begun => exact .inr ⟨_, List.mem_of_getElem? ht', .inr rfl⟩
            | skipped _ _ y hy hrequested hfree =>
              obtain rfl := Option.some.inj (hx.symm.trans hy)
              exact .inl (hkept.killed (hg.requested h x hx hrequested hfree))
          · cases hprogress with
            | killed _ _ hk | failed _ _ hk =>
              obtain ⟨y, hy, hkilled⟩ := hk
              obtain rfl := Option.some.inj (hx'.symm.trans hy)
              exact .inl hkilled
    · exact .inr ⟨_, (hnew.temporary htemp).2, .inl rfl⟩
  case retired =>
    intro h x' hx' hfin
    rcases hhandles.backward hx' with ⟨x, hx, rfl | hm⟩ | ⟨-, i, c, hc, hnew⟩
    · exact hg.retired h x' hx hfin
    · cases hm with
      | exit => exact hg.retired h x hx hfin
      | inactive => exact hg.retired h x hx hfin
      | finish => rfl
      | terminate => exact hg.retired h x hx hfin
      | kill => exact hg.retired h x hx hfin
    · rw [hnew.unfinished] at hfin
      cases hfin
  case owned =>
    intro h x' hx'
    rcases hhandles.backward hx' with ⟨x, hx, hm⟩ | ⟨-, i, c, hc, hnew⟩
    · have hkept := kept_of_same_or_moved hm
      obtain ⟨c, hc, howner⟩ := hg.owned h x hx
      obtain ⟨c', hc', hkeptc⟩ := hcalls.forward hc
      exact ⟨c', by rw [hkept.call]; exact hc', hkeptc.owner.trans (howner.trans hkept.owner.symm)⟩
    · obtain ⟨c', hc', hkeptc⟩ := hcalls.forward hc
      exact ⟨c', by rw [hnew.call]; exact hc', hkeptc.owner.trans hnew.owner.symm⟩
  case current =>
    intro i c' hc' hrun
    have hmono := generation_of_step hs c'.owner
    have hold : ∀ c, s.calls[i]? = some c → c'.owner = c.owner → c'.kind = c.kind →
        (c.kind = .run → c'.generation = c.generation) →
        c'.generation ≤ s'.ownerGeneration c'.owner := by
      intro c hc howner hkind hgen
      have hrunc : c.kind = .run := hkind.symm.trans hrun
      have hbefore := hg.current i c hc hrunc
      rw [hgen hrunc]
      rw [howner] at hmono ⊢
      omega
    rcases hcalls with hsame | ⟨j, d, d', hd, hkept, hset⟩ | ⟨d, hgen, hjoin⟩
    · rw [hsame] at hc'
      exact hold c' hc' rfl rfl (fun _ => rfl)
    · rw [hset, getElem?_replaced hd] at hc'
      split at hc'
      · rename_i hij
        obtain rfl := Option.some.inj hc'
        exact hold d (hij ▸ hd) hkept.owner hkept.kind hkept.generation
      · exact hold c' hc' rfl rfl (fun _ => rfl)
    · rw [hjoin, getElem?_joined] at hc'
      split at hc'
      · obtain rfl := Option.some.inj hc'
        rw [hgen hrun]
        exact hmono
      · exact hold c' hc' rfl rfl (fun _ => rfl)

end Guarded

/-- The `run` call `i` is of an older generation than its owner. -/
def Stale (i : Nat) (s : Supervisor Owner) : Prop :=
  ∃ c, s.calls[i]? = some c ∧ c.kind = .run ∧ c.generation < s.ownerGeneration c.owner

/-- Where the processes of call `i` are after the fence that was set in `s₁`. -/
def Fenced (s₁ : Supervisor Owner) (i : Nat) (s : Supervisor Owner) : Prop :=
  ∀ (h : Nat) x, s.handles[h]? = some x → x.call = i →
    (∃ x₁ ∈ s₁.handles[h]?, x₁.registered = true ∨ x₁.finished = true) ∨
    (x.registered = false ∧ (x.temporary = true ∨ x.killed = true ∨
      ∃ c, s.calls[i]? = some c ∧ c.phase = .fencing h))

/-- Task `k` is the one that `cancel_owner` spawned for handle `h`. -/
def Tracked (k h : Nat) (s : Supervisor Owner) : Prop :=
  ∃ t, s.tasks[k]? = some t ∧
    (t = .cancelling h true ∨ t = .terminating h true ∨
      ((t = .finishing h ∨ t = .failed) ∧ s.Killed h) ∨
      (((∃ owner, t = .closing h owner) ∨ t = .done) ∧ s.Killed h ∧ s.Finished h))

section Fence

variable {s s' s₁ s₂ s₃ : Supervisor Owner} {i h k : Nat} {c : Call Owner} {x : Handle Owner}
  {o : Owner} {a : Action Owner}

theorem stale_step (hst : Stale i s) (hG : s.Unhindered a) (hs : s.step a = some s') :
    Stale i s' := by
  obtain ⟨c, hc, hrun, hlt⟩ := hst
  obtain ⟨c', hc', hkept⟩ := (callStep_of_step hG hs).forward hc
  refine ⟨c', hc', hkept.kind.trans hrun, ?_⟩
  have hmono := generation_of_step hs c.owner
  rw [hkept.generation hrun, hkept.owner]
  omega

theorem fenced_step (hf : Fenced s₁ i s) (hst : Stale i s) (hG : s.Unhindered a)
    (hs : s.step a = some s') : Fenced s₁ i s' := by
  have hcalls := callStep_of_step hG hs
  intro h x' hx' hcall
  rcases (handleStep_of_step hG hs).backward hx' with ⟨x, hx, hm⟩ | ⟨rfl, j, c, hc, hnew⟩
  · have hkept := kept_of_same_or_moved hm
    rcases hf h x hx (hkept.call ▸ hcall) with hbefore | ⟨hreg, hcases⟩
    · exact .inl hbefore
    · have hreg' : x'.registered = false := by
        by_contra hne
        rw [hkept.registered (by simpa using hne)] at hreg
        cases hreg
      right
      refine ⟨hreg', ?_⟩
      rcases hcases with htemp | hkilled | ⟨c, hc, hphase⟩
      · exact .inl (hkept.temporary.trans htemp)
      · exact .inr (.inl (hkept.killed hkilled))
      · obtain ⟨c', hc', hkeptc⟩ := hcalls.forward hc
        rcases hkeptc.fencing h hphase with hstill | ⟨y, hy, hkilled⟩
        · exact .inr (.inr ⟨c', hc', hstill⟩)
        · obtain rfl := Option.some.inj (hx'.symm.trans hy)
          exact .inr (.inl hkilled)
  · -- a process launched after the fence is of a stale call and goes into the cleanup
    right
    obtain rfl : j = i := hnew.call.symm.trans hcall
    obtain ⟨d, hd, -, hlt⟩ := hst
    obtain rfl := Option.some.inj (hc.symm.trans hd)
    cases htemp : x'.temporary with
    | true => exact ⟨(hnew.temporary htemp).1, .inl rfl⟩
    | false =>
      rcases hnew.adopted htemp with ⟨-, hgen⟩ | ⟨hreg, hfencing⟩
      · omega
      · exact ⟨hreg, .inr (.inr ⟨_, hfencing, rfl⟩)⟩

theorem tracked_step (ht : Tracked k h s) (hg : Guarded s) (hG : s.Unhindered a)
    (hs : s.step a = some s') : Tracked k h s' := by
  have hhandles := handleStep_of_step hG hs
  have hkilled : s.Killed h → s'.Killed h := hhandles.killed
  have hfinished : s.Finished h → s'.Finished h := hhandles.finished
  obtain ⟨t, ht, hcases⟩ := ht
  rcases task_of_step hs ht with hstays | ⟨t', ht', hprogress⟩
  · refine ⟨t, hstays, ?_⟩
    rcases hcases with hc | hc | ⟨hc, hk⟩ | ⟨hc, hk, hf⟩
    · exact .inl hc
    · exact .inr (.inl hc)
    · exact .inr (.inr (.inl ⟨hc, hkilled hk⟩))
    · exact .inr (.inr (.inr ⟨hc, hkilled hk, hfinished hf⟩))
  · refine ⟨t', ht', ?_⟩
    rcases hcases with rfl | rfl | ⟨rfl | rfl, hk⟩ | ⟨⟨owner, rfl⟩ | rfl, hk, hf⟩
    · cases hprogress with
      | begun => exact .inr (.inl rfl)
      | skipped _ _ x hx hrequested hfree =>
        exact .inr (.inr (.inl ⟨.inl rfl, hkilled ⟨x, hx, hg.requested h x hx hrequested hfree⟩⟩))
    · cases hprogress with
      | killed _ _ hk => exact .inr (.inr (.inl ⟨.inl rfl, hk⟩))
      | failed _ _ hk => exact .inr (.inr (.inl ⟨.inr rfl, hk⟩))
    · cases hprogress with
      | refinished _ hf => exact .inr (.inr (.inr ⟨.inr rfl, hkilled hk, hf⟩))
      | finished _ owner hf => exact .inr (.inr (.inr ⟨.inl ⟨owner, rfl⟩, hkilled hk, hf⟩))
    · cases hprogress
    · cases hprogress with
      | closed => exact .inr (.inr (.inr ⟨.inr rfl, hkilled hk, hfinished hf⟩))
    · cases hprogress

omit [DecidableEq Owner] in
theorem Kept.trans {x y z : Handle Owner} (hxy : Kept x y) (hyz : Kept y z) : Kept x z where
  call := hyz.call.trans hxy.call
  owner := hyz.owner.trans hxy.owner
  temporary := hyz.temporary.trans hxy.temporary
  registered hz := hxy.registered (hyz.registered hz)
  unregistered hx hz := by
    cases hy : y.registered with
    | true => exact hyz.unregistered hy hz
    | false => exact hyz.finished (hxy.unregistered hx hy)
  finished hx := hyz.finished (hxy.finished hx)
  killed hx := hyz.killed (hxy.killed hx)
  requested hx := hyz.requested (hxy.requested hx)

theorem kept_step (hkept : ∀ (h : Nat) x₁, s₁.handles[h]? = some x₁ →
      ∃ x, s.handles[h]? = some x ∧ Kept x₁ x) (hG : s.Unhindered a) (hs : s.step a = some s') :
    ∀ (h : Nat) x₁, s₁.handles[h]? = some x₁ → ∃ x, s'.handles[h]? = some x ∧ Kept x₁ x := by
  intro h x₁ hx₁
  obtain ⟨x, hx, hk⟩ := hkept h x₁ hx₁
  obtain ⟨x', hx', hm⟩ := (handleStep_of_step hG hs).forward hx
  exact ⟨x', hx', Kept.trans hk (kept_of_same_or_moved hm)⟩

omit [DecidableEq Owner] in
theorem mem_snapshot {owner : Owner} {handles : List (Handle Owner)} {n j : Nat}
    [DecidableEq Owner] (hx : handles[j]? = some x) (hreg : x.registered = true)
    (howner : x.owner = owner) : n + j ∈ snapshot owner n handles := by
  induction handles generalizing n j with
  | nil => simp at hx
  | cons first rest ih =>
    unfold snapshot
    cases j with
    | zero =>
      obtain rfl : first = x := by simpa using hx
      rw [if_pos ⟨hreg, howner⟩]
      exact List.mem_cons_self
    | succ j =>
      have hin := ih (n := n + 1) (j := j) (by simpa using hx)
      rw [show n + (j + 1) = n + 1 + j by omega]
      split
      · exact List.mem_cons_of_mem n hin
      · exact hin

/-- What holds from the fence on. -/
structure AfterFence (s₁ s₂ : Supervisor Owner) (i : Nat) (s : Supervisor Owner) : Prop where
  guarded : Guarded s
  stale : Stale i s
  fenced : Fenced s₁ i s
  kept : ∀ (h : Nat) x₁, s₁.handles[h]? = some x₁ → ∃ x, s.handles[h]? = some x ∧ Kept x₁ x
  tracked : ∀ k h, Tracked k h s₂ → Tracked k h s

theorem afterFence_start (hg : Guarded s₁) (hc : s₁.calls[i]? = some c) (hrun : c.kind = .run)
    (h₂ : s₁.step (.cancelOwner c.owner) = some s₂) : AfterFence s₁ s₂ i s₂ := by
  have hguarded : Guarded s₂ := guarded_step (a := .cancelOwner c.owner) hg trivial h₂
  obtain rfl := Option.some.inj h₂
  constructor
  case guarded => exact hguarded
  case stale =>
    have hle := hg.current i c hc hrun
    refine ⟨c, hc, hrun, ?_⟩
    show _ < Function.update s₁.ownerGeneration c.owner _ c.owner
    rw [Function.update_self]
    omega
  case fenced =>
    intro h x hx hcall
    cases hreg : x.registered with
    | true => exact .inl ⟨x, hx, .inl hreg⟩
    | false =>
      cases hfin : x.finished with
      | true => exact .inl ⟨x, hx, .inr hfin⟩
      | false =>
        refine .inr ⟨rfl, ?_⟩
        cases htemp : x.temporary with
        | true => exact .inl rfl
        | false =>
          rcases hg.dismissed h x hx htemp hreg hfin with hkilled | ⟨d, hd, hphase⟩
          · exact .inr (.inl hkilled)
          · exact .inr (.inr ⟨d, hcall ▸ hd, hphase⟩)
  case kept => exact fun h x hx => ⟨x, hx, Kept.refl x⟩
  case tracked => exact fun _ _ ht => ht

theorem afterFence_step (hf : AfterFence s₁ s₂ i s) (hG : s.Unhindered a)
    (hs : s.step a = some s') : AfterFence s₁ s₂ i s' where
  guarded := guarded_step hf.guarded hG hs
  stale := stale_step hf.stale hG hs
  fenced := fenced_step hf.fenced hf.stale hG hs
  kept := kept_step hf.kept hG hs
  tracked k h ht := tracked_step (hf.tracked k h ht) hf.guarded hG hs

/-- `cancel_owner` spawns a task for every registered handle of the owner. -/
theorem tracked_start (hx : s₁.handles[h]? = some x) (hreg : x.registered = true) :
    ∃ k, s₁.tasks.length ≤ k ∧ k < (s₁.cancelOwner x.owner).tasks.length ∧
      Tracked k h (s₁.cancelOwner x.owner) := by
  have hin : 0 + h ∈ snapshot x.owner 0 s₁.handles := mem_snapshot hx hreg rfl
  rw [Nat.zero_add] at hin
  obtain ⟨j, hj⟩ := List.mem_iff_getElem?.mp hin
  have htask : (s₁.cancelOwner x.owner).tasks[s₁.tasks.length + j]? = some (.cancelling h true) := by
    show (s₁.tasks ++ _)[_]? = _
    rw [List.getElem?_append_right (by omega), Nat.add_sub_cancel_left]
    simp [hj]
  have hlt := (List.getElem?_eq_some_iff.mp htask).1
  exact ⟨s₁.tasks.length + j, by omega, hlt, .cancelling h true, htask, .inl rfl⟩

end Fence

/-- Let `cancel_owner` take the lock in `s₁`, after `run` call `i` of its owner was made. Whatever
follows, no process of that call is added to `_by_owner`. Once the launch and the tasks of
`cancel_owner` are over, a process of the call is registered only after its task has failed, and is
killed then; and each is killed, unless it was finished before the fence or was never adopted and is
being killed by a task of its launcher. -/
theorem request_fence {W P : Nat} {as bs : List (Action Owner)} {s₁ s₂ s₃ : Supervisor Owner}
    {i : Nat} {c₁ : Call Owner}
    (h₁ : (machine Owner).run (initial W P) as = some s₁)
    (hG₁ : (machine Owner).Admits Unhindered (initial W P) as)
    (hc₁ : s₁.calls[i]? = some c₁) (hrun : c₁.kind = .run)
    (h₂ : s₁.step (.cancelOwner c₁.owner) = some s₂)
    (h₃ : (machine Owner).run s₂ bs = some s₃) (hG₃ : (machine Owner).Admits Unhindered s₂ bs) :
    (∀ (h : Nat) x₃, s₃.handles[h]? = some x₃ → x₃.call = i → x₃.registered = true →
      ∃ x₁, s₁.handles[h]? = some x₁ ∧ x₁.registered = true) ∧
    ((∀ c₃, s₃.calls[i]? = some c₃ → c₃.phase.launching = false) →
      (∀ k, s₁.tasks.length ≤ k → k < s₂.tasks.length → ∃ t ∈ s₃.tasks[k]?, t.isOver = true) →
      ∀ (h : Nat) x₃, s₃.handles[h]? = some x₃ → x₃.call = i →
        (x₃.registered = true → x₃.killed = true ∧
          ∃ k, s₁.tasks.length ≤ k ∧ k < s₂.tasks.length ∧ s₃.tasks[k]? = some .failed) ∧
        (x₃.killed = true ∨ (∃ x₁, s₁.handles[h]? = some x₁ ∧ x₁.finished = true) ∨
          (x₃.temporary = true ∧
            ∃ t ∈ s₃.tasks, t = .cancelling h false ∨ t = .terminating h false))) := by
  have hg₁ : Guarded s₁ := (machine Owner).invariant_of_admits (fun _ _ _ => guarded_step)
    (guarded_initial W P) hG₁ h₁
  have hf : AfterFence s₁ s₂ i s₃ := (machine Owner).invariant_of_admits
    (fun _ _ _ => afterFence_step) (afterFence_start hg₁ hc₁ hrun h₂) hG₃ h₃
  constructor
  · intro h x₃ hx₃ hcall hreg
    rcases hf.fenced h x₃ hx₃ hcall with ⟨x₁, hx₁, -⟩ | ⟨hunregistered, -⟩
    · obtain ⟨y, hy, hkept⟩ := hf.kept h x₁ hx₁
      obtain rfl := Option.some.inj (hx₃.symm.trans hy)
      exact ⟨x₁, hx₁, hkept.registered hreg⟩
    · rw [hreg] at hunregistered
      cases hunregistered
  · intro hlaunched hover h x₃ hx₃ hcall
    rcases hf.fenced h x₃ hx₃ hcall with ⟨x₁, hx₁, hbefore⟩ | ⟨hreg, hcases⟩
    · obtain ⟨y, hy, hkept⟩ := hf.kept h x₁ hx₁
      obtain rfl := Option.some.inj (hx₃.symm.trans hy)
      cases hfin : x₁.finished with
      | true =>
        have hunregistered := hf.guarded.retired h x₃ hx₃ (hkept.finished hfin)
        exact ⟨fun hreg => absurd hreg (by simp [hunregistered]), .inr (.inl ⟨x₁, hx₁, hfin⟩)⟩
      | false =>
        -- the handle is in the snapshot of `cancel_owner`
        have hregistered : x₁.registered = true := by simpa [hfin] using hbefore
        obtain ⟨d, hd, howner⟩ := hg₁.owned h x₁ hx₁
        have hsame : x₁.owner = c₁.owner := by
          rw [← hkept.call, hcall, hc₁] at hd
          rw [← howner, Option.some.inj hd]
        obtain rfl := Option.some.inj h₂
        obtain ⟨k, hle, hlt, htracked⟩ := tracked_start hx₁ hregistered
        rw [hsame] at hlt htracked
        obtain ⟨t, ht, hwhere⟩ := hf.tracked k h htracked
        obtain ⟨u, hu, hdone⟩ := hover k hle hlt
        obtain rfl := Option.some.inj (ht.symm.trans hu)
        rcases hwhere with rfl | rfl | ⟨rfl | rfl, y, hy, hkilled⟩ |
          ⟨-, ⟨y, hy, hkilled⟩, ⟨z, hz, hfinished⟩⟩
        · cases hdone
        · cases hdone
        · cases hdone
        · obtain rfl := Option.some.inj (hx₃.symm.trans hy)
          exact ⟨fun _ => ⟨hkilled, k, hle, hlt, ht⟩, .inl hkilled⟩
        · obtain rfl := Option.some.inj (hx₃.symm.trans hy)
          obtain rfl := Option.some.inj (hx₃.symm.trans hz)
          have hunregistered := hf.guarded.retired h x₃ hx₃ hfinished
          exact ⟨fun hreg => absurd hreg (by simp [hunregistered]), .inl hkilled⟩
    · refine ⟨fun hregistered => absurd hregistered (by simp [hreg]), ?_⟩
      rcases hcases with htemp | hkilled | ⟨c, hc, hphase⟩
      · rcases hf.guarded.temporary h x₃ hx₃ htemp with hkilled | hpending
        · exact .inl hkilled
        · exact .inr (.inr ⟨htemp, hpending⟩)
      · exact .inl hkilled
      · have hended := hlaunched c hc
        rw [hphase] at hended
        cases hended

/-- Two `run` calls of one owner: the first is registered when the owner is cancelled, the second
is in `create_subprocess_exec`. -/
theorem request_fence_exec :
    ∃ s₁ s₂ s₃ x, (machine Nat).run (initial 1 2) [.run 7, .start 0, .workload 0, .process 0,
        .exec 0 .started, .run 7, .start 1, .process 1] = some s₁ ∧
      s₁.step (.cancelOwner 7) = some s₂ ∧
      (machine Nat).run s₂ [.exec 1 .started, .task 0, .task 0, .resume 1, .task 1, .task 0,
        .task 0, .resume 1, .task 2] = some s₃ ∧
      s₃.handles[1]? = some x ∧ x.call = 1 ∧ x.temporary = false ∧
      (x.registered = true → x.killed = true) ∧ x.registered = false ∧ x.killed = true := by
  refine ⟨_, _, _, _, rfl, rfl, rfl, rfl, rfl, rfl, fun hreg => ?_, rfl, rfl⟩
  have hfence := @request_fence Nat _ 1 2 [.run 7, .start 0, .workload 0, .process 0,
    .exec 0 .started, .run 7, .start 1, .process 1] [.exec 1 .started, .task 0, .task 0, .resume 1,
    .task 1, .task 0, .task 0, .resume 1, .task 2] _ _ _ 1 _ rfl (by decide) rfl rfl rfl rfl
    (by decide)
  refine ((hfence.2 ?_ ?_ 1 _ rfl rfl).1 hreg).1
  · intro c hc
    have hphase := congrArg (Option.map fun c => c.phase.launching) hc
    exact Option.some.inj (hphase.symm.trans rfl)
  · intro k hle hlt
    change k < 1 at hlt
    have hk : k = 0 := Nat.lt_one_iff.mp hlt
    rw [hk]
    exact ⟨.done, rfl, rfl⟩

end Supervisor

end YtdlBot.Process
