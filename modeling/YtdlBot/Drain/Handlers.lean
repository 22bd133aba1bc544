import YtdlBot.Drain.Worker

/-!
# Running handlers

While a handler runs the supervisor is at the await that waits for it, so that whatever the worker
or the drain does to a job, no handler of the job is left running.
-/

namespace YtdlBot.Drain

open Framework JobStore

/-- The handler that the supervisor waits for. -/
def Phase.holds : Phase → Option Nat
  | .waiting handler | .joining handler _ | .settling handler => some handler
  | _ => none

/-- The handlers that a drain still deals with. -/
def DrainPhase.targets : DrainPhase → List (String × Nat)
  | .created active | .waiting active | .stopping _ active => active
  | .checkpointing _ _ _ | .ended _ => []

/-- An event as it should be: nothing is requested for a job whose handler runs, no handler is
created once the drain has begun, no job is claimed while a handler runs, and a job whose handler
the drain has cancelled is checkpointed, unless that handler has raised another error. -/
def Event.Orderly : Event → Prop
  | .claimed busy => busy = false
  | .created _ _ draining => draining = false
  | .moved transition _ live handler _ => live = false ∧ ∀ h ∈ handler, h.drained = true →
    transition = .checkpointed ∨ ∃ error, h.ending = some (.raised error)

namespace World

variable {τ : Type} {w w' : World τ}

/-- The handler runs. -/
def Runs (w : World τ) (handler : Nat) (h : Handler) : Prop :=
  w.handlers[handler]? = some h ∧ h.ending = none

/-- The supervisor waits for every handler that runs. -/
def Held (w : World τ) : Prop :=
  ∀ i h, w.Runs i h → ∃ phase, w.supervisor = some phase ∧ phase.holds = some i

def Idle (w : World τ) : Prop := ∀ i h, ¬ w.Runs i h

/-- A handler that `has_failed_deliveries` is asked about was not cancelled by the drain. -/
def Inspected (w : World τ) : Prop :=
  ∀ i request, w.supervisor = some (.inspecting i request) →
    ∀ h, w.handlers[i]? = some h → h.ending.isSome = true ∧ h.drained = false

structure Base (w : World τ) : Prop where
  /-- In `_active` the job of a running handler stands for that handler. -/
  listed : ∀ i h, w.Runs i h → ∀ entry ∈ w.active, entry.1 = h.job.id → entry.2 = i
  copied : ∀ i h, w.Runs i h → ∀ phase ∈ w.draining, ∀ entry ∈ phase.targets,
    entry.1 = h.job.id → entry.2 = i
  marked : ∀ h ∈ w.handlers, h.drained = true → h.cancelling = true ∧ w.draining.isSome = true
  orderly : ∀ event ∈ w.log, event.Orderly

structure Inv (w : World τ) : Prop extends Base w where
  held : w.Held
  inspected : w.Inspected
  /-- A supervisor is started when no other runs. -/
  alone : Start.running w.start = true → Phase.running w.supervisor = false

/-- The supervisor runs and no handler does. -/
structure Calm (w : World τ) : Prop extends Base w where
  idle : w.Idle
  inspected : w.Inspected
  started : Start.running w.start = false

theorem Base.congr (h : w.Base) (hhandlers : w'.handlers = w.handlers)
    (hactive : w'.active = w.active) (hdraining : w'.draining = w.draining)
    (hlog : w'.log = w.log) : w'.Base := by
  refine ⟨?_, ?_, ?_, ?_⟩
  · simpa only [Runs, hhandlers, hactive] using h.listed
  · simpa only [Runs, hhandlers, hdraining] using h.copied
  · simpa only [hhandlers, hdraining] using h.marked
  · simpa only [hlog] using h.orderly

theorem Calm.congr (h : w.Calm) (hhandlers : w'.handlers = w.handlers)
    (hactive : w'.active = w.active) (hdraining : w'.draining = w.draining)
    (hlog : w'.log = w.log) (hsupervisor : w'.supervisor = w.supervisor)
    (hstart : w'.start = w.start) : w'.Calm := by
  refine ⟨h.toBase.congr hhandlers hactive hdraining hlog, ?_, ?_, ?_⟩
  · simpa only [Idle, Runs, hhandlers] using h.idle
  · simpa only [Inspected, hhandlers, hsupervisor] using h.inspected
  · simpa only [hstart] using h.started

theorem Inv.congr (h : w.Inv) (hhandlers : w'.handlers = w.handlers)
    (hactive : w'.active = w.active) (hdraining : w'.draining = w.draining)
    (hlog : w'.log = w.log) (hsupervisor : w'.supervisor = w.supervisor)
    (hstart : w'.start = w.start) : w'.Inv := by
  refine ⟨h.toBase.congr hhandlers hactive hdraining hlog, ?_, ?_, ?_⟩
  · simpa only [Held, Runs, hhandlers, hsupervisor] using h.held
  · simpa only [Inspected, hhandlers, hsupervisor] using h.inspected
  · simpa only [hstart, hsupervisor] using h.alone

theorem Idle.live (h : w.Idle) (jobId : String) : w.live jobId = false := by
  simp only [World.live, List.any_eq_false, Bool.and_eq_true, decide_eq_true_eq, not_and]
  intro handler hmem _
  obtain ⟨i, hi⟩ := List.mem_iff_getElem?.mp hmem
  cases hending : handler.ending with
  | none => exact absurd ⟨hi, hending⟩ (h i handler)
  | some _ => simp

theorem Idle.busy (h : w.Idle) : w.busy = false := by
  simp only [World.busy, List.any_eq_false]
  intro handler hmem
  obtain ⟨i, hi⟩ := List.mem_iff_getElem?.mp hmem
  cases hending : handler.ending with
  | none => exact absurd ⟨hi, hending⟩ (h i handler)
  | some _ => simp

theorem cancelHandler_eq {i : Nat} (h : ∀ handler, ¬ w.Runs i handler) :
    w.cancelHandler i = w := by
  have hsame : (w.handlers.modify i fun h =>
      if h.ending.isNone then { h with cancelling := true } else h) = w.handlers := by
    apply List.ext_getElem?
    intro j
    rw [List.getElem?_modify]
    by_cases hij : i = j
    · subst hij
      cases hi : w.handlers[i]? with
      | none => rfl
      | some handler =>
        have hne : handler.ending ≠ none := fun hnone => h handler ⟨hi, hnone⟩
        cases hending : handler.ending with
        | none => exact absurd hending hne
        | some _ => simp [hending]
    · simp [hij]
  rw [cancelHandler, hsame]

section Calm

theorem Calm.submit (h : w.Calm) (call : Call τ) : (w.submit call).Calm :=
  h.congr rfl rfl rfl rfl rfl rfl

theorem Calm.enter (h : w.Calm) {phase : Phase} (hphase : ∀ i r, phase ≠ .inspecting i r) :
    (w.enter phase).Calm :=
  ⟨h.toBase.congr rfl rfl rfl rfl, h.idle, fun i r heq => absurd (Option.some.inj heq) (hphase i r),
    h.started⟩

theorem Calm.note (h : w.Calm) {event : Event} (hevent : event.Orderly) : (w.note event).Calm := by
  refine ⟨⟨h.listed, h.copied, h.marked, ?_⟩, h.idle, h.inspected, h.started⟩
  simp only [World.note, List.mem_append, List.mem_singleton]
  rintro e (hold | rfl)
  · exact h.orderly e hold
  · exact hevent

theorem Calm.move (h : w.Calm) {transition : Transition} (op : Op τ) (jobId : String)
    {handler : Option Handler} {claim : Option Nat} (hhandler : ∀ h ∈ handler, h.drained = true →
      transition = .checkpointed ∨ ∃ error, h.ending = some (.raised error)) :
    (w.move transition op jobId handler claim).Calm := by
  have hevent : (Event.moved transition jobId (w.live jobId) handler claim).Orderly :=
    ⟨h.idle.live jobId, hhandler⟩
  exact (h.note hevent).submit _

theorem Calm.close (h : w.Calm) (i : Nat) (exit : Exit) : (w.close i exit).Calm :=
  ⟨h.toBase.congr rfl rfl rfl rfl, h.idle, fun i r heq => (by cases heq), h.started⟩

theorem Calm.finishJob (h : w.Calm) (i : Nat) : (w.finishJob i).Calm :=
  ⟨⟨fun j hj hruns => absurd hruns (h.idle j hj), h.copied, h.marked, h.orderly⟩, h.idle,
    h.inspected, h.started⟩

theorem Calm.interrupt (h : w.Calm) (i : Nat) : (w.interrupt i).Calm := by
  unfold World.interrupt
  rw [cancelHandler_eq (h.idle i)]
  exact h.enter (by simp)

theorem Calm.recorded (h : w.Calm) (i : Nat) (what : Recording) (answer : Answer) :
    (w.recorded i what answer).Calm := by
  unfold World.recorded
  cases answer with
  | error _ => exact h.close i _
  | ok reply =>
    cases what with
    | interrupted | lost | failed => exact h.close i _
    | retryable =>
      dsimp only
      split <;> exact h.close i _
    | completed =>
      dsimp only
      split
      · exact (h.close i .again).congr rfl rfl rfl rfl rfl rfl
      · exact h.close i _

theorem Calm.inv (h : w.Calm) : w.Inv :=
  ⟨h.toBase, fun i handler hruns => absurd hruns (h.idle i handler), h.inspected,
    fun hstart => by simp [h.started] at hstart⟩

variable [LinearOrder τ] [Zero τ] {c : Settings τ}

theorem Calm.checkpoint (h : w.Calm) (job : JobRecord) (handler : Option Handler)
    (claim : Option Nat) (now : τ) : (w.checkpoint c job handler claim now).Calm :=
  h.move _ _ fun _ _ _ => .inl rfl

theorem Calm.loop (h : w.Calm) (now : τ) : (w.loop c now).Calm := by
  unfold World.loop
  split
  · exact h.enter (by simp)
  split
  · exact h.enter (by simp)
  · have hevent : (Event.claimed w.busy).Orderly := h.idle.busy
    exact ((h.note hevent).submit _).enter (by simp)

theorem Calm.restart (h : w.Calm) : (w.restart c).Calm := (h.submit _).enter (by simp)

theorem Calm.renew (h : w.Calm) (now : τ) : (w.renew c now).Calm := (h.submit _).enter (by simp)

theorem Calm.reacquire (h : w.Calm) (now : τ) : (w.reacquire c now).Calm :=
  (h.submit _).enter (by simp)

theorem Calm.leave (h : w.Calm) (now : τ) (exit : Exit) : (w.leave c now exit).Calm := by
  cases exit with
  | again => exact h.loop now
  | failed => exact h.restart
  | cancelled => exact h.enter (by simp)

theorem Calm.fail (h : w.Calm) (i : Nat) {handler : Handler} (what : Recording) (error : String)
    (now : τ) (hhandler : handler.drained = true → ∃ error, handler.ending = some (.raised error)) :
    (w.fail c i handler what error now).Calm := by
  refine (h.move _ _ ?_).enter (by simp)
  intro other hother hdrained
  obtain rfl := Option.some.inj hother
  exact .inr (hhandler hdrained)

theorem Calm.complete (h : w.Calm) (i : Nat) {handler : Handler} (now : τ)
    (hhandler : handler.drained = false) : (w.complete c i handler now).Calm := by
  refine (h.move _ _ ?_).enter (by simp)
  intro other hother hdrained
  obtain rfl := Option.some.inj hother
  simp [hhandler] at hdrained

theorem Calm.checkpointHandled (h : w.Calm) (i : Nat) (handler : Handler) (what : Recording)
    (now : τ) : (w.checkpointHandled c i handler what now).Calm :=
  (h.checkpoint _ _ _ _).enter (by simp)

/-- Once the handler is done. A handler that the drain has cancelled is taken for interrupted when
it returns. -/
theorem Calm.handled (h : w.Calm) {i : Nat} {handler : Handler} {ending : Ending}
    (hhandler : w.handlers[i]? = some handler) (hending : handler.ending = some ending) (now : τ) :
    (w.handled c i handler ending now).Calm := by
  have hmarked := h.marked handler (List.mem_of_getElem? hhandler)
  cases ending with
  | cancelled => exact h.interrupt i
  | raised error => exact h.fail i _ _ _ fun _ => ⟨error, hending⟩
  | returned marked =>
    simp only [World.handled]
    split
    · exact h.interrupt i
    next hcancelling =>
      have hdrained : handler.drained = false := by
        cases hdrained : handler.drained with
        | false => rfl
        | true =>
          obtain ⟨hcancelled, hdraining⟩ := hmarked hdrained
          simp [hcancelled, hdraining] at hcancelling
      split
      · exact h.fail i _ _ _ (by simp [hdrained])
      · refine ⟨h.toBase.congr rfl rfl rfl rfl, h.idle, ?_, h.started⟩
        intro j r heq other hother
        cases heq
        obtain rfl := Option.some.inj (hhandler.symm.trans hother)
        exact ⟨by simp [hending], hdrained⟩

theorem Calm.process (h : w.Calm) (claim : Nat) (job : JobRecord) (now : τ) :
    (w.process c claim job now).Inv := by
  unfold World.process
  split
  · exact ((h.checkpoint job none (some claim) now).enter (by simp)).inv
  next hdraining =>
    have hnew : ∀ i handler, (w.handlers ++ [⟨job, false, false, none⟩])[i]? = some handler →
        handler.ending = none → i = w.handlers.length ∧ handler = ⟨job, false, false, none⟩ := by
      intro i handler hi hending
      rw [List.getElem?_append] at hi
      split at hi
      · exact absurd ⟨hi, hending⟩ (h.idle i handler)
      · have hlt := (List.getElem?_eq_some_iff.mp hi).1
        have hzero : i - w.handlers.length = 0 := by simpa using hlt
        rw [hzero] at hi
        exact ⟨by omega, (Option.some.inj hi).symm⟩
    have hnone : w.draining = none := by simpa using hdraining
    refine ⟨⟨?_, ?_, ?_, ?_⟩, ?_, ?_, ?_⟩
    · rintro i handler ⟨hi, hending⟩ entry hentry hjob
      obtain ⟨rfl, rfl⟩ := hnew i handler hi hending
      simp only [List.mem_append, List.mem_filter, List.mem_singleton, decide_eq_true_eq] at hentry
      rcases hentry with ⟨-, hne⟩ | rfl
      · exact absurd hjob hne
      · rfl
    · intro i handler _ phase hphase
      rw [hnone] at hphase
      cases hphase
    · intro handler hmem hdrained
      rcases List.mem_append.mp hmem with hold | hsingle
      · exact h.marked handler hold hdrained
      · obtain rfl := List.mem_singleton.mp hsingle
        cases hdrained
    · intro event hmem
      rcases List.mem_append.mp hmem with hold | hsingle
      · exact h.orderly event hold
      · obtain rfl := List.mem_singleton.mp hsingle
        simp [Event.Orderly, hnone]
    · rintro i handler ⟨hi, hending⟩
      obtain ⟨rfl, -⟩ := hnew i handler hi hending
      exact ⟨_, rfl, rfl⟩
    · intro i r heq
      cases heq
    · intro hstart
      rw [h.started] at hstart
      cases hstart

end Calm

section Supervisor

theorem Inv.started (h : w.Inv) {phase : Phase} (hphase : w.supervisor = some phase)
    (hrunning : phase ≠ .ended) : Start.running w.start = false := by
  cases hstart : Start.running w.start with
  | false => rfl
  | true =>
    have hnone := h.alone hstart
    rw [hphase] at hnone
    cases phase <;> simp [Phase.running] at hnone hrunning

theorem Inv.calm (h : w.Inv) {phase : Phase} (hphase : w.supervisor = some phase)
    (hrunning : phase ≠ .ended) (hholds : phase.holds = none) : w.Calm := by
  refine ⟨h.toBase, ?_, h.inspected, h.started hphase hrunning⟩
  intro i handler hruns
  obtain ⟨other, hother, hi⟩ := h.held i handler hruns
  obtain rfl := Option.some.inj (hphase.symm.trans hother)
  simp [hholds] at hi

theorem Inv.calm_of_ending (h : w.Inv) {phase : Phase} (hphase : w.supervisor = some phase)
    (hrunning : phase ≠ .ended) {i : Nat} (hholds : phase.holds = some i) {handler : Handler}
    (hhandler : w.handlers[i]? = some handler) {ending : Ending}
    (hending : handler.ending = some ending) : w.Calm := by
  refine ⟨h.toBase, ?_, h.inspected, h.started hphase hrunning⟩
  rintro j other ⟨hj, hnone⟩
  obtain ⟨found, hfound, hheld⟩ := h.held j other ⟨hj, hnone⟩
  obtain rfl := Option.some.inj (hphase.symm.trans hfound)
  obtain rfl := Option.some.inj (hholds.symm.trans hheld)
  obtain rfl := Option.some.inj (hhandler.symm.trans hj)
  simp [hending] at hnone

theorem Inv.enter (h : w.Inv) {phase next : Phase} (hphase : w.supervisor = some phase)
    (hrunning : phase ≠ .ended) (hholds : next.holds = phase.holds)
    (hnext : ∀ i r, next ≠ .inspecting i r) : (w.enter next).Inv := by
  refine ⟨h.toBase.congr rfl rfl rfl rfl, ?_, ?_, ?_⟩
  · intro i handler hruns
    obtain ⟨found, hfound, hheld⟩ := h.held i handler hruns
    obtain rfl := Option.some.inj (hphase.symm.trans hfound)
    exact ⟨next, rfl, hholds.trans hheld⟩
  · intro i r heq
    exact absurd (Option.some.inj heq) (hnext i r)
  · intro hstart
    have hnone := h.started hphase hrunning
    simp [World.enter, hnone] at hstart

theorem getElem?_cancelHandler {i j : Nat} {handler : Handler}
    (h : (w.cancelHandler i).handlers[j]? = some handler) :
    ∃ old, w.handlers[j]? = some old ∧ handler.job = old.job ∧ handler.ending = old.ending ∧
      handler.drained = old.drained ∧ (old.cancelling = true → handler.cancelling = true) := by
  simp only [cancelHandler, List.getElem?_modify, Option.map_eq_map, Option.map_eq_some_iff] at h
  obtain ⟨old, hold, rfl⟩ := h
  refine ⟨old, hold, ?_⟩
  split
  · split <;> simp
  · simp

theorem Inv.cancelHandler (h : w.Inv) (i : Nat) : (w.cancelHandler i).Inv := by
  have hruns : ∀ j handler, (w.cancelHandler i).Runs j handler →
      ∃ old, w.Runs j old ∧ handler.job = old.job := by
    rintro j handler ⟨hj, hnone⟩
    obtain ⟨old, hold, hjob, hending, -⟩ := getElem?_cancelHandler hj
    exact ⟨old, ⟨hold, hending ▸ hnone⟩, hjob⟩
  refine ⟨⟨?_, ?_, ?_, h.orderly⟩, ?_, ?_, h.alone⟩
  · intro j handler hrun entry hentry hid
    obtain ⟨old, hold, hjob⟩ := hruns j handler hrun
    exact h.listed j old hold entry hentry (hjob ▸ hid)
  · intro j handler hrun phase hphase entry hentry hid
    obtain ⟨old, hold, hjob⟩ := hruns j handler hrun
    exact h.copied j old hold phase hphase entry hentry (hjob ▸ hid)
  · intro handler hmem hdrained
    obtain ⟨j, hj⟩ := List.mem_iff_getElem?.mp hmem
    obtain ⟨old, hold, -, -, hsame, hcancelling⟩ := getElem?_cancelHandler hj
    obtain ⟨hcancelled, hdraining⟩ := h.marked old (List.mem_of_getElem? hold) (hsame ▸ hdrained)
    exact ⟨hcancelling hcancelled, hdraining⟩
  · intro j handler hrun
    obtain ⟨old, hold, -⟩ := hruns j handler hrun
    exact h.held j old hold
  · intro j r hphase handler hj
    obtain ⟨old, hold, -, hending, hsame, -⟩ := getElem?_cancelHandler hj
    rw [hending, hsame]
    exact h.inspected j r hphase old hold

variable [LinearOrder τ] [Zero τ] {c : Settings τ} {now : τ}

theorem inv_resume (h : w.Inv) (hstep : w.resume c now = some w') : w'.Inv := by
  unfold World.resume at hstep
  cases hphase : w.supervisor with
  | none => simp [hphase] at hstep
  | some phase =>
    cases phase with
    | ended => simp [hphase] at hstep
    | created | polling =>
      simp only [hphase, Option.some.injEq] at hstep
      obtain rfl := hstep
      exact ((h.calm hphase (by simp) rfl).loop now).inv
    | claiming request cancelled =>
      simp only [hphase, Option.map_eq_some_iff] at hstep
      have hcalm := h.calm hphase (by simp) rfl
      obtain ⟨answer, -, rfl⟩ := hstep
      split
      · exact hcalm.restart.inv
      split
      · split
        · exact (hcalm.enter (by simp)).inv
        · exact (hcalm.renew now).inv
      · split
        · exact ((hcalm.checkpoint _ none _ now).enter (by simp)).inv
        · exact hcalm.process _ _ now
    | returning request cancelled =>
      simp only [hphase, Option.map_eq_some_iff] at hstep
      have hcalm := h.calm hphase (by simp) rfl
      obtain ⟨answer, -, rfl⟩ := hstep
      split
      · exact hcalm.restart.inv
      split
      · exact (hcalm.enter (by simp)).inv
      · exact (hcalm.renew now).inv
    | renewing request =>
      simp only [hphase, Option.map_eq_some_iff] at hstep
      have hcalm := h.calm hphase (by simp) rfl
      obtain ⟨answer, -, rfl⟩ := hstep
      split
      · exact (hcalm.enter (by simp)).inv
      · exact hcalm.restart.inv
    | refused request =>
      simp only [hphase, Option.map_eq_some_iff] at hstep
      have hcalm := h.calm hphase (by simp) rfl
      obtain ⟨answer, -, rfl⟩ := hstep
      split
      · exact hcalm.restart.inv
      · exact (hcalm.loop now).inv
    | waiting i =>
      simp only [hphase] at hstep
      split at hstep
      · obtain rfl := Option.some.inj hstep
        exact (h.cancelHandler i).enter hphase (by simp) rfl (by simp)
      · simp only [Option.bind_eq_some_iff, Option.map_eq_some_iff] at hstep
        obtain ⟨handler, hhandler, ending, hending, rfl⟩ := hstep
        have hcalm := h.calm_of_ending hphase (by simp) rfl hhandler hending
        exact (hcalm.handled hhandler hending now).inv
    | joining i cancelled =>
      simp only [hphase, Option.bind_eq_some_iff, Option.map_eq_some_iff] at hstep
      obtain ⟨handler, hhandler, ending, hending, rfl⟩ := hstep
      have hcalm := h.calm_of_ending hphase (by simp) rfl hhandler hending
      split
      · exact (hcalm.enter (by simp)).inv
      · exact (hcalm.checkpointHandled i handler .lost now).inv
    | settling i =>
      simp only [hphase, Option.bind_eq_some_iff, Option.map_eq_some_iff] at hstep
      obtain ⟨handler, hhandler, ending, hending, rfl⟩ := hstep
      have hcalm := h.calm_of_ending hphase (by simp) rfl hhandler hending
      split
      · exact (hcalm.checkpointHandled i handler .interrupted now).inv
      · exact (hcalm.close i _).inv
    | inspecting i request =>
      simp only [hphase, Option.bind_eq_some_iff, Option.map_eq_some_iff] at hstep
      obtain ⟨handler, hhandler, answer, -, rfl⟩ := hstep
      have hcalm := h.calm hphase (by simp) rfl
      have hdrained := (h.inspected i request hphase handler hhandler).2
      split
      · exact (hcalm.fail i _ _ now (by simp [hdrained])).inv
      · exact (hcalm.fail i _ _ now (by simp [hdrained])).inv
      · exact (hcalm.complete i now hdrained).inv
    | recording i what request =>
      simp only [hphase, Option.map_eq_some_iff] at hstep
      obtain ⟨answer, -, rfl⟩ := hstep
      exact ((h.calm hphase (by simp) rfl).recorded i what answer).inv
    | closing i exit cancelled =>
      simp only [hphase] at hstep
      have hcalm := h.calm hphase (by simp) rfl
      split at hstep
      · obtain rfl := Option.some.inj hstep
        exact (hcalm.enter (by simp)).inv
      · obtain rfl := Option.some.inj hstep
        exact ((hcalm.finishJob i).leave now exit).inv
    | releasing request =>
      simp only [hphase, Option.map_eq_some_iff] at hstep
      obtain ⟨answer, -, rfl⟩ := hstep
      exact ((h.calm hphase (by simp) rfl).enter (by simp)).inv
    | restarting =>
      simp only [hphase, Option.some.injEq] at hstep
      have hcalm := h.calm hphase (by simp) rfl
      split at hstep
      · obtain rfl := hstep
        exact (hcalm.enter (by simp)).inv
      · obtain rfl := hstep
        exact (hcalm.reacquire now).inv
    | acquiring request cancelled =>
      simp only [hphase, Option.map_eq_some_iff] at hstep
      have hcalm := h.calm hphase (by simp) rfl
      obtain ⟨answer, -, rfl⟩ := hstep
      split
      · exact (hcalm.enter (by simp)).inv
      · split
        · exact (hcalm.enter (by simp)).inv
        · exact (hcalm.loop now).inv
      · split
        · exact (hcalm.enter (by simp)).inv
        · exact (hcalm.enter (by simp)).inv

omit [LinearOrder τ] [Zero τ] in
theorem Inv.interrupt (h : w.Inv) {phase : Phase} (hphase : w.supervisor = some phase)
    (hrunning : phase ≠ .ended) {i : Nat} (hholds : phase.holds = some i ∨ phase.holds = none) :
    (w.interrupt i).Inv := by
  unfold World.interrupt
  rcases hholds with hsome | hnone
  · exact (h.cancelHandler i).enter hphase hrunning hsome.symm (by simp)
  · exact ((h.calm hphase hrunning hnone).interrupt i).inv

omit [LinearOrder τ] [Zero τ] in
theorem inv_cancelSupervisor (h : w.Inv) (hstep : w.cancelSupervisor = some w') : w'.Inv := by
  unfold World.cancelSupervisor at hstep
  have hcancelling : ({ w with cancelling := true } : World τ).Inv := h.congr rfl rfl rfl rfl rfl rfl
  cases hphase : w.supervisor with
  | none => simp [hphase] at hstep
  | some phase =>
    cases phase with
    | ended => simp [hphase] at hstep
    | waiting i | inspecting i _ =>
      simp only [hphase, Option.some.injEq] at hstep
      obtain rfl := hstep
      exact hcancelling.interrupt hphase (by simp) (by simp [Phase.holds])
    | joining i cancelled =>
      simp only [hphase, Option.some.injEq] at hstep
      obtain rfl := hstep
      exact (hcancelling.cancelHandler i).enter hphase (by simp) rfl (by simp)
    | settling i =>
      simp only [hphase, Option.some.injEq] at hstep
      obtain rfl := hstep
      exact hcancelling.enter hphase (by simp) rfl (by simp)
    | recording i what request =>
      simp only [hphase, Option.some.injEq] at hstep
      obtain rfl := hstep
      exact ((hcancelling.calm hphase (by simp) rfl).close i _).inv
    | created | polling | renewing _ | refused _ | releasing _ | restarting | claiming _ _
      | returning _ _ | closing _ _ _ | acquiring _ _ =>
      simp only [hphase, Option.some.injEq] at hstep
      obtain rfl := hstep
      exact ((hcancelling.calm hphase (by simp) rfl).enter (by simp)).inv

end Supervisor

section Drain

theorem inv_drain (h : w.Inv) : w.drain.Inv := by
  unfold World.drain
  split
  next hnone =>
    refine ⟨⟨h.listed, ?_, ?_, h.orderly⟩, h.held, h.inspected, h.alone⟩
    · intro i handler hruns phase hphase
      obtain rfl := Option.some.inj hphase
      exact h.listed i handler hruns
    · intro handler hmem hdrained
      have hsome := (h.marked handler hmem hdrained).2
      simp [hnone] at hsome
  · exact h

theorem Inv.setDraining (h : w.Inv) {phase next : DrainPhase} (hphase : w.draining = some phase)
    (htargets : ∀ entry ∈ next.targets, entry ∈ phase.targets) :
    ({ w with draining := some next } : World τ).Inv := by
  refine ⟨⟨h.listed, ?_, ?_, h.orderly⟩, h.held, h.inspected, h.alone⟩
  · intro i handler hruns found hfound entry hentry
    obtain rfl := Option.some.inj hfound
    exact h.copied i handler hruns phase hphase entry (htargets entry hentry)
  · intro handler hmem hdrained
    exact ⟨(h.marked handler hmem hdrained).1, rfl⟩

theorem getElem?_cancelPending {pending : List (String × Nat)} {j : Nat} {handler : Handler}
    (h : (w.cancelPending pending).handlers[j]? = some handler) :
    ∃ old, w.handlers[j]? = some old ∧ handler.job = old.job ∧ handler.ending = old.ending ∧
      (handler.drained = true → handler.cancelling = true ∨ old.drained = true) ∧
      (old.cancelling = true → handler.cancelling = true) ∧
      (old.ending.isSome = true → handler = old) := by
  simp only [cancelPending, List.getElem?_mapIdx, Option.map_eq_some_iff] at h
  obtain ⟨old, hold, rfl⟩ := h
  refine ⟨old, hold, ?_⟩
  split
  next hpending =>
    refine ⟨rfl, rfl, fun _ => .inl rfl, fun _ => rfl, fun hsome => ?_⟩
    simp only [Bool.and_eq_true, Option.isNone_iff_eq_none] at hpending
    simp [hpending.1] at hsome
  · exact ⟨rfl, rfl, .inr, id, fun _ => rfl⟩

theorem Inv.cancelPending (h : w.Inv) (hdraining : w.draining.isSome = true)
    (pending : List (String × Nat)) : (w.cancelPending pending).Inv := by
  have hruns : ∀ j handler, (w.cancelPending pending).Runs j handler →
      ∃ old, w.Runs j old ∧ handler.job = old.job := by
    rintro j handler ⟨hj, hnone⟩
    obtain ⟨old, hold, hjob, hending, -⟩ := getElem?_cancelPending hj
    exact ⟨old, ⟨hold, hending ▸ hnone⟩, hjob⟩
  refine ⟨⟨?_, ?_, ?_, h.orderly⟩, ?_, ?_, h.alone⟩
  · intro j handler hrun entry hentry hid
    obtain ⟨old, hold, hjob⟩ := hruns j handler hrun
    exact h.listed j old hold entry hentry (hjob ▸ hid)
  · intro j handler hrun phase hphase entry hentry hid
    obtain ⟨old, hold, hjob⟩ := hruns j handler hrun
    exact h.copied j old hold phase hphase entry hentry (hjob ▸ hid)
  · intro handler hmem hdrained
    obtain ⟨j, hj⟩ := List.mem_iff_getElem?.mp hmem
    obtain ⟨old, hold, -, -, hsame, hcancelling, -⟩ := getElem?_cancelPending hj
    refine ⟨?_, hdraining⟩
    rcases hsame hdrained with hnow | hbefore
    · exact hnow
    · exact hcancelling (h.marked old (List.mem_of_getElem? hold) hbefore).1
  · intro j handler hrun
    obtain ⟨old, hold, -⟩ := hruns j handler hrun
    exact h.held j old hold
  · intro j r hphase handler hj
    obtain ⟨old, hold, -, -, -, -, hsame⟩ := getElem?_cancelPending hj
    have hended := h.inspected j r hphase old hold
    rw [hsame hended.1]
    exact hended

theorem Inv.live_of_done (h : w.Inv) {phase : DrainPhase} (hphase : w.draining = some phase)
    {jobId : String} {i : Nat} (hmem : (jobId, i) ∈ phase.targets) (hdone : w.done i = true) :
    w.live jobId = false := by
  simp only [World.live, List.any_eq_false, Bool.and_eq_true, decide_eq_true_eq, not_and]
  rintro handler hhandler rfl hnone
  obtain ⟨j, hj⟩ := List.mem_iff_getElem?.mp hhandler
  have hruns : w.Runs j handler := ⟨hj, Option.isNone_iff_eq_none.mp hnone⟩
  have hsame : i = j := h.copied j handler hruns phase hphase _ hmem rfl
  subst hsame
  simp [World.done, hj, hruns.2] at hdone

variable [LinearOrder τ] [Zero τ] {c : Settings τ}

theorem Inv.checkpointStopped (clock : String → τ) {stopped : List (String × Nat)}
    (hstopped : ∀ entry ∈ stopped, w.live entry.1 = false) (h : w.Inv) :
    (World.checkpointStopped c clock stopped w).Inv ∧
      (World.checkpointStopped c clock stopped w).draining = w.draining := by
  induction stopped generalizing w with
  | nil => exact ⟨h, rfl⟩
  | cons entry stopped ih =>
    obtain ⟨jobId, i⟩ := entry
    refine ih ?_ ?_
    · intro other hother
      exact hstopped other (by simp [hother])
    · refine ⟨⟨h.listed, h.copied, h.marked, ?_⟩, h.held, h.inspected, h.alone⟩
      intro event hmem
      rcases List.mem_append.mp hmem with hold | hsingle
      · exact h.orderly event hold
      · obtain rfl := List.mem_singleton.mp hsingle
        have hlive : w.live jobId = false := hstopped (jobId, i) (by simp)
        simp [Event.Orderly, hlive]

theorem inv_drainStep (h : w.Inv) {clock : String → τ} {timedOut : Bool}
    (hstep : w.drainStep c clock timedOut = some w') : w'.Inv := by
  unfold World.drainStep at hstep
  cases hphase : w.draining with
  | none => simp [hphase] at hstep
  | some phase =>
    cases phase with
    | ended result => simp [hphase] at hstep
    | created active =>
      simp only [hphase, Option.some.injEq] at hstep
      obtain rfl := hstep
      refine h.setDraining hphase ?_
      split
      · simp [DrainPhase.targets]
      · simp [DrainPhase.targets]
    | waiting active =>
      simp only [hphase] at hstep
      split at hstep
      · obtain rfl := Option.some.inj hstep
        exact h.setDraining hphase (by simp [DrainPhase.targets])
      split at hstep
      · obtain rfl := Option.some.inj hstep
        have hpending := h.cancelPending (by simp [hphase])
        refine (hpending _).setDraining hphase ?_
        intro entry hentry
        exact (List.mem_filter.mp hentry).1
      · cases hstep
    | stopping completed pending =>
      simp only [hphase] at hstep
      split at hstep
      · obtain rfl := Option.some.inj hstep
        have hlive : ∀ entry ∈ pending.filter fun entry => w.done entry.2,
            w.live entry.1 = false := by
          intro entry hentry
          obtain ⟨hmem, hdone⟩ := List.mem_filter.mp hentry
          exact h.live_of_done hphase hmem hdone
        obtain ⟨hinv, hsame⟩ := Inv.checkpointStopped (c := c) clock hlive h
        refine hinv.setDraining (hsame.trans hphase) ?_
        split <;> simp [DrainPhase.targets]
      · cases hstep
    | checkpointing completed cancelled requests =>
      simp only [hphase] at hstep
      split at hstep
      · obtain rfl := Option.some.inj hstep
        exact h.setDraining hphase (by simp [DrainPhase.targets])
      · cases hstep

end Drain

section Starting

theorem Inv.setStart (h : w.Inv) (hsame : w'.handlers = w.handlers ∧ w'.active = w.active ∧
    w'.draining = w.draining ∧ w'.log = w.log ∧ w'.supervisor = w.supervisor)
    (hstart : Start.running w'.start = true → Start.running w.start = true) : w'.Inv := by
  obtain ⟨hhandlers, hactive, hdraining, hlog, hsupervisor⟩ := hsame
  refine ⟨h.toBase.congr hhandlers hactive hdraining hlog, ?_, ?_, ?_⟩
  · simpa only [Held, Runs, hhandlers, hsupervisor] using h.held
  · simpa only [Inspected, hhandlers, hsupervisor] using h.inspected
  · intro hrunning
    rw [hsupervisor]
    exact h.alone (hstart hrunning)

theorem inv_startCall (h : w.Inv) (hstep : w.startCall = some w') : w'.Inv := by
  unfold World.startCall at hstep
  split at hstep
  · cases hstep
  next hidle =>
    obtain rfl := Option.some.inj hstep
    simp only [Bool.or_eq_true, not_or, Bool.not_eq_true] at hidle
    exact ⟨h.toBase.congr rfl rfl rfl rfl, h.held, h.inspected, fun _ => hidle.1.2⟩

theorem Inv.idle (h : w.Inv) (hsupervisor : Phase.running w.supervisor = false) : w.Idle := by
  intro i handler hruns
  obtain ⟨phase, hphase, hholds⟩ := h.held i handler hruns
  rw [hphase] at hsupervisor
  cases phase <;> simp [Phase.running, Phase.holds] at hsupervisor hholds

theorem inv_launch (h : w.Inv) (hstart : Start.running w.start = true) : w.launch.Inv := by
  have hidle := h.idle (h.alone hstart)
  refine ⟨h.toBase.congr rfl rfl rfl rfl, ?_, ?_, ?_⟩
  · intro i handler hruns
    exact absurd hruns (hidle i handler)
  · intro i r hphase
    cases hphase
  · intro hrunning
    cases hrunning

theorem inv_finishStop (h : w.Inv) : w.finishStop.Inv := by
  have hcancelled : (w.cancelSupervisor.getD w).Inv := by
    cases hcancel : w.cancelSupervisor with
    | none => exact h
    | some next => exact inv_cancelSupervisor h hcancel
  unfold World.finishStop
  split
  · exact hcancelled.congr rfl rfl rfl rfl rfl rfl
  · exact h.congr rfl rfl rfl rfl rfl rfl

variable [LinearOrder τ] [Zero τ] {c : Settings τ} {now : τ}

theorem inv_startStep (h : w.Inv) (hstep : w.startStep c now = some w') : w'.Inv := by
  unfold World.startStep at hstep
  cases hstart : w.start with
  | none => simp [hstart] at hstep
  | some start =>
    cases start with
    | ended => simp [hstart] at hstep
    | created =>
      simp only [hstart, Option.some.injEq] at hstep
      obtain rfl := hstep
      exact h.setStart ⟨rfl, rfl, rfl, rfl, rfl⟩ (by simp [hstart, Start.running])
    | acquiring request cancelled =>
      simp only [hstart, Option.map_eq_some_iff] at hstep
      obtain ⟨answer, -, rfl⟩ := hstep
      have hsame : ∀ next : World τ, next = w.abandonStart c ∨ next = w.requeueFailures now →
          next.Inv := by
        rintro next (rfl | rfl)
        · exact h.setStart ⟨rfl, rfl, rfl, rfl, rfl⟩ (by simp [hstart, Start.running])
        · exact h.setStart ⟨rfl, rfl, rfl, rfl, rfl⟩ (by simp [hstart, Start.running])
      split
      · split
        · exact hsame _ (.inl rfl)
        · exact hsame _ (.inr rfl)
      · exact hsame _ (.inl rfl)
    | requeueing request =>
      simp only [hstart, Option.map_eq_some_iff] at hstep
      obtain ⟨answer, -, rfl⟩ := hstep
      split
      · split
        · exact h.setStart ⟨rfl, rfl, rfl, rfl, rfl⟩ (by simp [hstart, Start.running])
        · exact h.setStart ⟨rfl, rfl, rfl, rfl, rfl⟩ (by simp [hstart, Start.running])
      · exact h.setStart ⟨rfl, rfl, rfl, rfl, rfl⟩ (by simp [hstart, Start.running])
    | purging request =>
      simp only [hstart, Option.map_eq_some_iff] at hstep
      obtain ⟨answer, -, rfl⟩ := hstep
      split
      · exact h.setStart ⟨rfl, rfl, rfl, rfl, rfl⟩ (by simp [hstart, Start.running])
      · exact inv_launch h (by simp [hstart, Start.running])
    | releasing request =>
      simp only [hstart, Option.map_eq_some_iff] at hstep
      obtain ⟨answer, -, rfl⟩ := hstep
      exact h.setStart ⟨rfl, rfl, rfl, rfl, rfl⟩ (by simp [Start.running])

theorem inv_cancelStart (h : w.Inv) : (w.cancelStart c).Inv := by
  unfold World.cancelStart
  split
  · exact h.setStart ⟨rfl, rfl, rfl, rfl, rfl⟩ (by simp [Start.running])
  next hstart => exact h.setStart ⟨rfl, rfl, rfl, rfl, rfl⟩ (by simp [hstart, Start.running])
  next hstart => exact h.setStart ⟨rfl, rfl, rfl, rfl, rfl⟩ (by simp [hstart, Start.running])
  next hstart => exact h.setStart ⟨rfl, rfl, rfl, rfl, rfl⟩ (by simp [hstart, Start.running])
  all_goals exact h

theorem inv_stopStep (h : w.Inv) (hstep : w.stopStep c = some w') : w'.Inv := by
  unfold World.stopStep at hstep
  cases hstop : w.stop with
  | none => simp [hstop] at hstep
  | some stop =>
    cases stop with
    | ended request => simp [hstop] at hstep
    | created =>
      simp only [hstop, Option.some.injEq] at hstep
      have hcancelled := inv_cancelStart (c := c) h
      split at hstep
      · obtain rfl := hstep
        exact inv_finishStop hcancelled
      · obtain rfl := hstep
        exact (inv_drain hcancelled).congr rfl rfl rfl rfl rfl rfl
    | draining =>
      simp only [hstop] at hstep
      split at hstep
      · obtain rfl := Option.some.inj hstep
        exact inv_finishStop h
      · cases hstep
    | joining =>
      simp only [hstop] at hstep
      split at hstep
      · cases hstep
      · obtain rfl := Option.some.inj hstep
        exact h.congr rfl rfl rfl rfl rfl rfl
    | releasing request =>
      simp only [hstop, Option.map_eq_some_iff] at hstep
      obtain ⟨answer, -, rfl⟩ := hstep
      exact h.congr rfl rfl rfl rfl rfl rfl

end Starting

section Runs

theorem inv_handlerEnds (h : w.Inv) {i : Nat} {ending : Ending}
    (hstep : w.handlerEnds i ending = some w') : w'.Inv := by
  obtain ⟨handler, hhandler, hstep⟩ := Option.bind_eq_some_iff.mp hstep
  split at hstep
  · cases hstep
  next hnone =>
    obtain rfl := Option.some.inj hstep
    have hset : ∀ j other, (w.handlers.set i { handler with ending := some ending })[j]? =
        some other → (j = i ∧ other = { handler with ending := some ending }) ∨
          (j ≠ i ∧ w.handlers[j]? = some other) := by
      intro j other hj
      rw [List.getElem?_set] at hj
      split at hj
      next heq =>
        split at hj
        · exact .inl ⟨heq.symm, (Option.some.inj hj).symm⟩
        · cases hj
      next hne => exact .inr ⟨Ne.symm hne, hj⟩
    have hruns : ∀ j other, (w.handlers.set i { handler with ending := some ending })[j]? =
        some other → other.ending = none → w.Runs j other := by
      intro j other hj hrunning
      rcases hset j other hj with ⟨-, rfl⟩ | ⟨-, hold⟩
      · cases hrunning
      · exact ⟨hold, hrunning⟩
    refine ⟨⟨?_, ?_, ?_, h.orderly⟩, ?_, ?_, h.alone⟩
    · rintro j other ⟨hj, hrunning⟩
      exact h.listed j other (hruns j other hj hrunning)
    · rintro j other ⟨hj, hrunning⟩
      exact h.copied j other (hruns j other hj hrunning)
    · intro other hmem hdrained
      obtain ⟨j, hj⟩ := List.mem_iff_getElem?.mp hmem
      rcases hset j other hj with ⟨-, rfl⟩ | ⟨-, hold⟩
      · exact h.marked handler (List.mem_of_getElem? hhandler) hdrained
      · exact h.marked other (List.mem_of_getElem? hold) hdrained
    · rintro j other ⟨hj, hrunning⟩
      exact h.held j other (hruns j other hj hrunning)
    · intro j r hphase other hj
      rcases hset j other hj with ⟨rfl, rfl⟩ | ⟨-, hold⟩
      · have hended := (h.inspected j r hphase handler hhandler).1
        simp [hended] at hnone
      · exact h.inspected j r hphase other hold

theorem inv_initial (store : Store τ) : (World.initial store).Inv := by
  refine ⟨⟨?_, ?_, ?_, ?_⟩, ?_, ?_, ?_⟩ <;> simp [World.initial, Runs, Held, Inspected, Start.running]

theorem inv_maintain (h : w.Inv) {task : Nat} {now : τ} (hstep : w.maintain task now = some w') :
    w'.Inv := by
  obtain ⟨phase, -, hstep⟩ := Option.bind_eq_some_iff.mp hstep
  cases phase with
  | waiting =>
    simp only at hstep
    split at hstep
    · obtain rfl := Option.some.inj hstep
      exact h.congr rfl rfl rfl rfl rfl rfl
    · obtain rfl := Option.some.inj hstep
      exact h.congr rfl rfl rfl rfl rfl rfl
  | purging request =>
    simp only [Option.map_eq_some_iff] at hstep
    obtain ⟨answer, -, rfl⟩ := hstep
    exact h.congr rfl rfl rfl rfl rfl rfl
  | ended => cases hstep

variable [LinearOrder τ] [Zero τ] {c : Settings τ}

theorem inv_beat (h : w.Inv) {now claimNow : τ} (hstep : w.beat c now claimNow = some w') :
    w'.Inv := by
  unfold World.beat at hstep
  split at hstep
  · cases hstep
  · cases hstep
  · obtain rfl := Option.some.inj hstep
    exact h.congr rfl rfl rfl rfl rfl rfl
  · split at hstep
    · obtain rfl := Option.some.inj hstep
      exact h.congr rfl rfl rfl rfl rfl rfl
    · obtain rfl := Option.some.inj hstep
      exact h.congr rfl rfl rfl rfl rfl rfl
    · obtain rfl := Option.some.inj hstep
      exact h.congr rfl rfl rfl rfl rfl rfl
    · obtain rfl := Option.some.inj hstep
      exact h.congr rfl rfl rfl rfl rfl rfl
    · cases hstep

variable [Add τ]

theorem inv_step (h : w.Inv) {action : Action τ} (hstep : w.step c action = some w') : w'.Inv := by
  cases action with
  | commit request =>
    obtain ⟨r, -, hstep⟩ := Option.bind_eq_some_iff.mp hstep
    split at hstep
    · cases hstep
    · obtain rfl := Option.some.inj hstep
      exact h.congr rfl rfl rfl rfl rfl rfl
  | fault request =>
    obtain ⟨r, -, hstep⟩ := Option.bind_eq_some_iff.mp hstep
    split at hstep
    · cases hstep
    · obtain rfl := Option.some.inj hstep
      exact h.congr rfl rfl rfl rfl rfl rfl
  | other op =>
    obtain rfl := Option.some.inj hstep
    exact h.congr rfl rfl rfl rfl rfl rfl
  | handlerEnds i ending => exact inv_handlerEnds h hstep
  | heartbeat now claimNow => exact inv_beat h hstep
  | resume now => exact inv_resume h hstep
  | cancelSupervisor => exact inv_cancelSupervisor h hstep
  | drain =>
    obtain rfl := Option.some.inj hstep
    exact inv_drain h
  | drainStep clock timedOut => exact inv_drainStep h hstep
  | start => exact inv_startCall h hstep
  | startStep now => exact inv_startStep h hstep
  | cancelStart =>
    obtain rfl := Option.some.inj hstep
    exact inv_cancelStart h
  | stop =>
    obtain rfl := Option.some.inj hstep
    exact h.congr rfl rfl rfl rfl rfl rfl
  | stopStep => exact inv_stopStep h hstep
  | maintain task now => exact inv_maintain h hstep

theorem inv_run {store : Store τ} {actions : List (Action τ)}
    (hrun : (machine c).run (.initial store) actions = some w) : w.Inv :=
  (machine c).invariant (fun _ _ _ h hstep => inv_step h hstep) (inv_initial store) hrun

end Runs

end World

section Results

variable {τ : Type} [LinearOrder τ] [Add τ] [Zero τ] {c : Settings τ} {store : Store τ}
  {actions : List (Action τ)} {w : World τ}

/-- A job is claimed and its handler runs. -/
def processing : List (Action ℕ) :=
  [.other (.acceptUpdate [("update_id", .int 7)] 100 0), .start, .startStep 1, .commit 0,
    .startStep 2, .commit 1, .startStep 3, .commit 2, .startStep 4, .resume 5, .commit 3, .resume 6]

/-- The drain cancels the handler and checkpoints the job, the supervisor finds it done. -/
def drained : List (Action ℕ) :=
  processing ++ [.drain, .drainStep (fun _ => 7) false, .drainStep (fun _ => 7) true,
    .handlerEnds 0 .cancelled, .drainStep (fun _ => 8) false, .resume 8, .commit 4, .resume 9,
    .drainStep (fun _ => 9) false, .resume 9]

def ownerSettings : Settings ℕ := ⟨"owner", 30, fun _ => "error", by decide, by decide⟩

/-- Two handlers never run at a time: the supervisor waits for the one that runs, through every
cancellation, and starts nothing before it is done. -/
theorem running_handler_held (hrun : (machine c).run (.initial store) actions = some w) {i : Nat}
    {h : Handler} (hruns : w.Runs i h) :
    (∃ phase, w.supervisor = some phase ∧ phase.holds = some i) ∧
      ∀ j other, w.Runs j other → j = i := by
  have hheld := (World.inv_run hrun).held
  obtain ⟨phase, hphase, hholds⟩ := hheld i h hruns
  refine ⟨⟨phase, hphase, hholds⟩, ?_⟩
  intro j other hother
  obtain ⟨found, hfound, hj⟩ := hheld j other hother
  obtain rfl := Option.some.inj (hphase.symm.trans hfound)
  exact Option.some.inj (hj.symm.trans hholds)

theorem running_handler_held_processing :
    ∃ w h, (machine ownerSettings).run (.initial Store.initial) processing = some w ∧
      w.Runs 0 h ∧ ∀ j other, w.Runs j other → j = 0 := by
  have hsome : (((machine ownerSettings).run (.initial Store.initial) processing).any fun w =>
      w.handlers[0]?.any fun h => h.ending.isNone) = true := by decide +kernel
  obtain ⟨w, hrun, hw⟩ := (Option.any_eq_true _ _).mp hsome
  obtain ⟨h, hh, hnone⟩ := (Option.any_eq_true _ _).mp hw
  have hruns : w.Runs 0 h := ⟨hh, Option.isNone_iff_eq_none.mp hnone⟩
  exact ⟨w, h, hrun, hruns, (running_handler_held hrun hruns).2⟩

/-- Whatever is requested for a job, none of its handlers runs; a drain stops new handlers at once;
and a handler that the drain has cancelled leads to a checkpoint. -/
theorem log_orderly (hrun : (machine c).run (.initial store) actions = some w) :
    ∀ event ∈ w.log, event.Orderly :=
  (World.inv_run hrun).orderly

theorem log_orderly_drained :
    ∃ w, (machine ownerSettings).run (.initial Store.initial) drained = some w ∧
      w.draining = some (.ended ⟨0, 1, 1, true⟩) ∧ w.log.length = 3 ∧
      ∀ event ∈ w.log, event.Orderly := by
  have hsome : (((machine ownerSettings).run (.initial Store.initial) drained).any fun w =>
      decide (w.draining = some (.ended ⟨0, 1, 1, true⟩) ∧ w.log.length = 3)) = true := by
    decide +kernel
  obtain ⟨w, hrun, hw⟩ := (Option.any_eq_true _ _).mp hsome
  obtain ⟨hended, hlength⟩ := of_decide_eq_true hw
  exact ⟨w, hrun, hended, hlength, log_orderly hrun⟩

end Results

end YtdlBot.Drain
