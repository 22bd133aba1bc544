import YtdlBot.Drain.Handlers
import YtdlBot.Framework.Tally
import YtdlBot.JobStore.Grants

/-!
# Claims and shutdown

A thread that may take the lease or a job is never left alone: the task that has started it waits
for its answer, cancelled or not. So no claimed job is dropped, and when `stop` has released the
lease, nothing of this worker takes it again.
-/

namespace YtdlBot.Drain

open Framework JobStore

/-- The request for the lease or for a job that the supervisor waits for. -/
def Phase.grant : Phase → Option Nat
  | .claiming request _ | .acquiring request _ => some request
  | _ => none

def Phase.claim : Phase → Option Nat
  | .claiming request _ => some request
  | _ => none

def Start.grant : Start → Option Nat
  | .acquiring request _ => some request
  | _ => none

/-- The request by which `_finish_stop` releases the lease. -/
def Stop.release : Stop → Option Nat
  | .releasing request | .ended request => some request
  | _ => none

variable {τ : Type}

def Call.grants : Call τ → Option String
  | .op operation => operation.grants
  | .hasFailedDeliveries _ => none

/-- A claim of at most one job. -/
def Call.Single : Call τ → Prop
  | .op (.claimRecoverableJobs _ limit _ _) => limit = 1
  | _ => True

def Call.IsClaim : Call τ → Prop
  | .op (.claimRecoverableJobs _ _ _ _) => True
  | _ => False

/-- No other caller takes the lease in the name of this worker's owner. -/
def Action.Foreign (ownerId : String) : Action τ → Prop
  | .other op => op.grants ≠ some ownerId
  | _ => True

theorem Phase.grant_of_claim {phase : Option Phase} {i : Nat}
    (h : phase.bind Phase.claim = some i) : phase.bind Phase.grant = some i := by
  obtain ⟨found, rfl, hclaim⟩ := Option.bind_eq_some_iff.mp h
  cases found <;> simp_all [Phase.claim, Phase.grant]

theorem Phase.grant_of_not_running {phase : Option Phase} (h : Phase.running phase = false) :
    phase.bind Phase.grant = none := by
  cases phase with
  | none => rfl
  | some found => cases found <;> simp_all [Phase.running, Phase.grant]

theorem Start.grant_of_not_running {start : Option Start} (h : Start.running start = false) :
    start.bind Start.grant = none := by
  cases start with
  | none => rfl
  | some found => cases found <;> simp_all [Start.running, Start.grant]

theorem Call.grants_of_isClaim {call : Call τ} (h : call.IsClaim) : call.grants.isSome = true := by
  cases call with
  | op operation => cases operation <;> simp_all [Call.IsClaim, Call.grants, Op.grants]
  | hasFailedDeliveries jobId => cases h

theorem Call.single_of_not_isClaim {call : Call τ} (h : ¬ call.IsClaim) : call.Single := by
  cases call with
  | op operation => cases operation <;> simp_all [Call.IsClaim, Call.Single]
  | hasFailedDeliveries jobId => trivial

namespace World

variable {w w' : World τ}

/-- The job, as the request `claim` has returned it, has got a handler, or its checkpoint is
requested without one. -/
def Handed (w : World τ) (claim : Nat) (jobId : String) : Prop :=
  (∃ draining, .created jobId claim draining ∈ w.log) ∨
    ∃ live, .moved .checkpointed jobId live none (some claim) ∈ w.log

/-- The jobs of the answer, which are one at most, are handed on. -/
def Dealt (w : World τ) (claim : Nat) (answer : Answer) : Prop :=
  ∀ records, answer = .ok (.jobs records) → ∀ job ∈ records, w.Handed claim job.id

/-- What the worker knows of its threads. `foreign` says that the owner's name is its own. -/
structure Owned (ownerId : String) (foreign : Prop) (w : World τ) : Prop where
  awaited : ∀ i r, w.requests[i]? = some r → r.answer = none → r.call.grants.isSome = true →
    w.supervisor.bind Phase.grant = some i ∨ w.start.bind Start.grant = some i
  claims : ∀ i r, w.requests[i]? = some r → r.call.IsClaim →
    w.supervisor.bind Phase.claim = some i ∨ ∃ answer, r.answer = some answer ∧ w.Dealt i answer
  single : ∀ (i : Nat) (r : Request τ), w.requests[i]? = some r →
    r.call.Single ∧ ∀ records, r.answer = some (.ok (.jobs records)) → records.length ≤ 1
  stopped : w.stop.isSome = true → w.stopping = true
  quiet : ∀ i, w.stop.bind Stop.release = some i →
    Phase.running w.supervisor = false ∧ Start.running w.start = false
  release : ∀ i, w.stop.bind Stop.release = some i →
    ∃ answer, w.requests[i]? = some ⟨.op (.releaseWorker ownerId), answer⟩
  released : foreign → ∀ i reply, w.stop.bind Stop.release = some i →
    w.answer i = some (.ok reply) → NotLeased ownerId w.store

/-- What a step of the supervisor does. -/
structure Goes (w w' : World τ) : Prop where
  store : w'.store = w.store
  start : w'.start = w.start
  stopping : w'.stopping = w.stopping
  stop : w'.stop = w.stop
  log : ∀ event ∈ w.log, event ∈ w'.log
  requests : (w'.requests = w.requests ∧ w'.supervisor.bind Phase.grant = none) ∨
    ∃ call, w'.requests = w.requests ++ [⟨call, none⟩] ∧
      ((call.grants = none ∧ w'.supervisor.bind Phase.grant = none) ∨
        (¬ call.IsClaim ∧ w'.supervisor.bind Phase.grant = some w.requests.length) ∨
        (call.Single ∧ w'.supervisor.bind Phase.claim = some w.requests.length))

theorem Handed.mono {claim : Nat} {jobId : String} (h : w.Handed claim jobId)
    (hlog : ∀ event ∈ w.log, event ∈ w'.log) : w'.Handed claim jobId := by
  rcases h with ⟨draining, hmem⟩ | ⟨live, hmem⟩
  · exact .inl ⟨draining, hlog _ hmem⟩
  · exact .inr ⟨live, hlog _ hmem⟩

theorem Dealt.mono {claim : Nat} {answer : Answer} (h : w.Dealt claim answer)
    (hlog : ∀ event ∈ w.log, event ∈ w'.log) : w'.Dealt claim answer :=
  fun records hrecords job hjob => (h records hrecords job hjob).mono hlog

variable {ownerId : String} {foreign : Prop}

section Owned

theorem Owned.congr (h : w.Owned ownerId foreign) (hrequests : w'.requests = w.requests)
    (hstore : w'.store = w.store) (hlog : ∀ event ∈ w.log, event ∈ w'.log)
    (hgrant : w'.supervisor.bind Phase.grant = w.supervisor.bind Phase.grant)
    (hclaim : w'.supervisor.bind Phase.claim = w.supervisor.bind Phase.claim)
    (hstart : w'.start.bind Start.grant = w.start.bind Start.grant)
    (hstop : w'.stop.bind Stop.release = w.stop.bind Stop.release)
    (hstopped : w'.stop.isSome = true → w'.stopping = true)
    (hquiet : ∀ i, w.stop.bind Stop.release = some i →
      Phase.running w'.supervisor = false ∧ Start.running w'.start = false) :
    w'.Owned ownerId foreign := by
  refine ⟨?_, ?_, ?_, hstopped, ?_, ?_, ?_⟩
  · rw [hrequests, hgrant, hstart]
    exact h.awaited
  · intro i r hr hclaimed
    rw [hrequests] at hr
    rw [hclaim]
    rcases h.claims i r hr hclaimed with hawaited | ⟨answer, hanswer, hdealt⟩
    · exact .inl hawaited
    · exact .inr ⟨answer, hanswer, hdealt.mono hlog⟩
  · rw [hrequests]
    exact h.single
  · rw [hstop]
    exact hquiet
  · rw [hstop, hrequests]
    exact h.release
  · rw [hstop, hstore]
    simpa only [World.answer, hrequests] using h.released

theorem Owned.same (h : w.Owned ownerId foreign) (hrequests : w'.requests = w.requests)
    (hstore : w'.store = w.store) (hlog : ∀ event ∈ w.log, event ∈ w'.log)
    (hsupervisor : w'.supervisor = w.supervisor) (hstart : w'.start = w.start)
    (hstop : w'.stop = w.stop) (hstopping : w'.stopping = w.stopping) :
    w'.Owned ownerId foreign := by
  refine h.congr hrequests hstore hlog (by rw [hsupervisor]) (by rw [hsupervisor])
    (by rw [hstart]) (by rw [hstop]) ?_ ?_
  · rw [hstop, hstopping]
    exact h.stopped
  · rw [hsupervisor, hstart]
    exact h.quiet

theorem Owned.submit (h : w.Owned ownerId foreign) {call : Call τ} (hcall : call.grants = none) :
    (w.submit call).Owned ownerId foreign := by
  have hold : ∀ {i : Nat} {r : Request τ}, (w.submit call).requests[i]? = some r → r.call.grants.isSome = true →
      w.requests[i]? = some r := by
    intro i r hr hgrants
    rcases joined_cases hr with ⟨-, rfl⟩ | ⟨-, hr⟩
    · simp [hcall] at hgrants
    · exact hr
  have hreleasing : ∀ {i : Nat}, w.stop.bind Stop.release = some i →
      (w.submit call).requests[i]? = w.requests[i]? := by
    intro i hi
    obtain ⟨answer, hr⟩ := h.release i hi
    have hlt := (List.getElem?_eq_some_iff.mp hr).1
    simp only [World.submit, getElem?_joined]
    rw [if_neg (by omega)]
  refine ⟨?_, ?_, ?_, h.stopped, h.quiet, ?_, ?_⟩
  · intro i r hr hnone hgrants
    exact h.awaited i r (hold hr hgrants) hnone hgrants
  · intro i r hr hclaim
    exact h.claims i r (hold hr (Call.grants_of_isClaim hclaim)) hclaim
  · intro i r hr
    rcases joined_cases hr with ⟨-, rfl⟩ | ⟨-, hr⟩
    · refine ⟨Call.single_of_not_isClaim ?_, fun records hrecords => (by cases hrecords)⟩
      intro hclaim
      simpa [hcall] using Call.grants_of_isClaim hclaim
    · exact h.single i r hr
  · intro i hi
    rw [hreleasing hi]
    exact h.release i hi
  · intro hforeign i reply hi hanswer
    refine h.released hforeign i reply hi ?_
    rwa [World.answer, hreleasing hi] at hanswer

theorem Owned.note (h : w.Owned ownerId foreign) (event : Event) :
    (w.note event).Owned ownerId foreign :=
  h.same rfl rfl (fun _ hmem => List.mem_append_left _ hmem) rfl rfl rfl rfl

theorem Owned.goes (h : w.Owned ownerId foreign) (hgoes : w.Goes w')
    (hrunning : Phase.running w.supervisor = true)
    (hanswered : ∀ i, w.supervisor.bind Phase.grant = some i → (w.answer i).isSome = true)
    (hdealt : ∀ i answer, w.supervisor.bind Phase.claim = some i → w.answer i = some answer →
      w'.Dealt i answer) : w'.Owned ownerId foreign := by
  have hbusy : ∀ i, w'.stop.bind Stop.release = some i → False := by
    intro i hi
    rw [hgoes.stop] at hi
    simp [(h.quiet i hi).1] at hrunning
  have hawaited : ∀ (i : Nat) (r : Request τ), w.requests[i]? = some r → r.answer = none →
      r.call.grants.isSome = true → w'.start.bind Start.grant = some i := by
    intro i r hr hnone hgrants
    rcases h.awaited i r hr hnone hgrants with hgrant | hgrant
    · have hsome := hanswered i hgrant
      simp [World.answer, hr, hnone] at hsome
    · rw [hgoes.start]
      exact hgrant
  have hclaims : ∀ (i : Nat) (r : Request τ), w.requests[i]? = some r → r.call.IsClaim →
      ∃ answer, r.answer = some answer ∧ w'.Dealt i answer := by
    intro i r hr hclaim
    rcases h.claims i r hr hclaim with hphase | ⟨answer, hanswer, hold⟩
    · obtain ⟨answer, hanswer⟩ := Option.isSome_iff_exists.mp
        (hanswered i (Phase.grant_of_claim hphase))
      refine ⟨answer, ?_, hdealt i answer hphase hanswer⟩
      simpa [World.answer, hr] using hanswer
    · exact ⟨answer, hanswer, hold.mono hgoes.log⟩
  refine ⟨?_, ?_, ?_, ?_, fun i hi => (hbusy i hi).elim, fun i hi => (hbusy i hi).elim,
    fun _ i _ hi => (hbusy i hi).elim⟩
  · intro i r hr hnone hgrants
    rcases hgoes.requests with ⟨hsame, -⟩ | ⟨call, hsame, hcall⟩
    · exact .inr (hawaited i r (hsame ▸ hr) hnone hgrants)
    · rw [hsame, getElem?_joined] at hr
      split at hr
      next hlast =>
        obtain rfl := Option.some.inj hr
        subst hlast
        rcases hcall with ⟨hplain, -⟩ | ⟨-, hgrant⟩ | ⟨-, hclaim⟩
        · simp [hplain] at hgrants
        · exact .inl hgrant
        · exact .inl (Phase.grant_of_claim hclaim)
      · exact .inr (hawaited i r hr hnone hgrants)
  · intro i r hr hclaim
    rcases hgoes.requests with ⟨hsame, -⟩ | ⟨call, hsame, hcall⟩
    · exact .inr (hclaims i r (hsame ▸ hr) hclaim)
    · rw [hsame, getElem?_joined] at hr
      split at hr
      next hlast =>
        obtain rfl := Option.some.inj hr
        subst hlast
        rcases hcall with ⟨hplain, -⟩ | ⟨hother, -⟩ | ⟨-, hphase⟩
        · simpa [hplain] using Call.grants_of_isClaim hclaim
        · exact absurd hclaim hother
        · exact .inl hphase
      · exact .inr (hclaims i r hr hclaim)
  · intro i r hr
    rcases hgoes.requests with ⟨hsame, -⟩ | ⟨call, hsame, hcall⟩
    · exact h.single i r (hsame ▸ hr)
    · rw [hsame, getElem?_joined] at hr
      split at hr
      · obtain rfl := Option.some.inj hr
        refine ⟨?_, fun records hrecords => (by cases hrecords)⟩
        rcases hcall with ⟨hplain, -⟩ | ⟨hother, -⟩ | ⟨hsingle, -⟩
        · refine Call.single_of_not_isClaim ?_
          intro hclaim
          simpa [hplain] using Call.grants_of_isClaim hclaim
        · exact Call.single_of_not_isClaim hother
        · exact hsingle
      · exact h.single i r hr
  · rw [hgoes.stop, hgoes.stopping]
    exact h.stopped

end Owned

section Supervisor

theorem Goes.enter {phase : Phase} (hphase : phase.grant = none) : w.Goes (w.enter phase) :=
  ⟨rfl, rfl, rfl, rfl, fun _ hmem => hmem, .inl ⟨rfl, hphase⟩⟩

theorem Goes.close (i : Nat) (exit : Exit) : w.Goes (w.close i exit) :=
  ⟨rfl, rfl, rfl, rfl, fun _ hmem => hmem, .inl ⟨rfl, rfl⟩⟩

theorem Goes.interrupt (i : Nat) : w.Goes (w.interrupt i) :=
  ⟨rfl, rfl, rfl, rfl, fun _ hmem => hmem, .inl ⟨rfl, rfl⟩⟩

theorem Goes.submit {call : Call τ} {phase : Phase} (hcall : call.grants = none)
    (hphase : phase.grant = none) : w.Goes ((w.submit call).enter phase) :=
  ⟨rfl, rfl, rfl, rfl, fun _ hmem => hmem, .inr ⟨call, rfl, .inl ⟨hcall, hphase⟩⟩⟩

theorem Goes.move {transition : Transition} {op : Op τ} {jobId : String}
    {handler : Option Handler} {claim : Option Nat} {phase : Phase} (hop : op.grants = none)
    (hphase : phase.grant = none) :
    w.Goes ((w.move transition op jobId handler claim).enter phase) :=
  ⟨rfl, rfl, rfl, rfl, fun _ hmem => List.mem_append_left _ hmem,
    .inr ⟨.op op, rfl, .inl ⟨hop, hphase⟩⟩⟩

theorem Goes.recorded (i : Nat) (what : Recording) (answer : Answer) :
    w.Goes (w.recorded i what answer) := by
  unfold World.recorded
  cases answer with
  | error _ => exact .close i _
  | ok reply =>
    cases what with
    | interrupted | lost | failed => exact .close i _
    | retryable =>
      dsimp only
      split <;> exact .close i _
    | completed =>
      dsimp only
      split
      · exact ⟨rfl, rfl, rfl, rfl, fun _ hmem => hmem, .inl ⟨rfl, rfl⟩⟩
      · exact .close i _

variable [LinearOrder τ] [Zero τ] {c : Settings τ} {now : τ}

theorem Goes.loop : w.Goes (w.loop c now) := by
  unfold World.loop
  split
  · exact .enter rfl
  split
  · exact .enter rfl
  · exact ⟨rfl, rfl, rfl, rfl, fun _ hmem => List.mem_append_left _ hmem,
      .inr ⟨_, rfl, .inr (.inr ⟨rfl, rfl⟩)⟩⟩

theorem Goes.reacquire : w.Goes (w.reacquire c now) :=
  ⟨rfl, rfl, rfl, rfl, fun _ hmem => hmem, .inr ⟨_, rfl, .inr (.inl ⟨id, rfl⟩)⟩⟩

theorem Goes.leave (i : Nat) (exit : Exit) : w.Goes ((w.finishJob i).leave c now exit) := by
  cases exit with
  | again =>
    have hloop : (w.finishJob i).Goes ((w.finishJob i).loop c now) := .loop
    exact ⟨hloop.store, hloop.start, hloop.stopping, hloop.stop, hloop.log, hloop.requests⟩
  | failed => exact ⟨rfl, rfl, rfl, rfl, fun _ hmem => hmem, .inr ⟨_, rfl, .inl ⟨rfl, rfl⟩⟩⟩
  | cancelled => exact ⟨rfl, rfl, rfl, rfl, fun _ hmem => hmem, .inl ⟨rfl, rfl⟩⟩

theorem Goes.process (claim : Nat) (job : JobRecord) : w.Goes (w.process c claim job now) := by
  unfold World.process
  split
  · exact ⟨rfl, rfl, rfl, rfl, fun _ hmem => List.mem_append_left _ hmem,
      .inr ⟨_, rfl, .inl ⟨rfl, rfl⟩⟩⟩
  · exact ⟨rfl, rfl, rfl, rfl, fun _ hmem => List.mem_append_left _ hmem, .inl ⟨rfl, rfl⟩⟩

theorem Goes.handled (i : Nat) (h : Handler) (ending : Ending) :
    w.Goes (w.handled c i h ending now) := by
  cases ending with
  | cancelled => exact .interrupt i
  | raised error => exact .move rfl rfl
  | returned marked =>
    simp only [World.handled]
    split
    · exact .interrupt i
    · split
      · exact .move rfl rfl
      · exact .submit rfl rfl

/-- The supervisor goes on only with an answer; a job of the answer gets a handler or a
checkpoint. -/
theorem goes_resume (hstep : w.resume c now = some w') :
    w.Goes w' ∧ Phase.running w.supervisor = true ∧
      (∀ i, w.supervisor.bind Phase.grant = some i → (w.answer i).isSome = true) ∧
      ∀ i reply job, w.supervisor.bind Phase.claim = some i → w.answer i = some (.ok reply) →
        claimedJob reply = some job → w'.Handed i job.id := by
  unfold World.resume at hstep
  cases hphase : w.supervisor with
  | none => simp [hphase] at hstep
  | some phase =>
    cases phase with
    | claiming i cancelled =>
      simp only [hphase, Option.map_eq_some_iff] at hstep
      obtain ⟨answer, hanswer, rfl⟩ := hstep
      refine ⟨?_, rfl, ?_, ?_⟩
      · split
        · exact .submit rfl rfl
        split
        · split
          · exact .enter rfl
          · exact .submit rfl rfl
        · split
          · exact .move rfl rfl
          · exact .process _ _
      · intro j hj
        obtain rfl := Option.some.inj hj
        simp [hanswer]
      · intro j reply job hj hreply hjob
        obtain rfl := Option.some.inj hj
        obtain rfl := Option.some.inj (hanswer.symm.trans hreply)
        simp only [hjob]
        split
        · exact .inr ⟨_, List.mem_append_right _ (List.mem_singleton.mpr rfl)⟩
        · unfold World.process
          split
          · exact .inr ⟨_, List.mem_append_right _ (List.mem_singleton.mpr rfl)⟩
          · exact .inl ⟨_, List.mem_append_right _ (List.mem_singleton.mpr rfl)⟩
    | acquiring i cancelled =>
      simp only [hphase, Option.map_eq_some_iff] at hstep
      obtain ⟨answer, hanswer, rfl⟩ := hstep
      refine ⟨?_, rfl, ?_, by simp [Phase.claim]⟩
      · split
        · exact .enter rfl
        · split
          · exact .enter rfl
          · exact .loop
        · split <;> exact .enter rfl
      · intro j hj
        obtain rfl := Option.some.inj hj
        simp [hanswer]
    | ended => simp [hphase] at hstep
    | created | polling =>
      simp only [hphase, Option.some.injEq] at hstep
      obtain rfl := hstep
      exact ⟨.loop, rfl, by simp [Phase.grant], by simp [Phase.claim]⟩
    | returning i cancelled =>
      simp only [hphase, Option.map_eq_some_iff] at hstep
      obtain ⟨answer, -, rfl⟩ := hstep
      refine ⟨?_, rfl, by simp [Phase.grant], by simp [Phase.claim]⟩
      split
      · exact .submit rfl rfl
      · split
        · exact .enter rfl
        · exact .submit rfl rfl
    | renewing i =>
      simp only [hphase, Option.map_eq_some_iff] at hstep
      obtain ⟨answer, -, rfl⟩ := hstep
      refine ⟨?_, rfl, by simp [Phase.grant], by simp [Phase.claim]⟩
      split
      · exact .enter rfl
      · exact .submit rfl rfl
    | refused i =>
      simp only [hphase, Option.map_eq_some_iff] at hstep
      obtain ⟨answer, -, rfl⟩ := hstep
      refine ⟨?_, rfl, by simp [Phase.grant], by simp [Phase.claim]⟩
      split
      · exact .submit rfl rfl
      · exact .loop
    | waiting i =>
      simp only [hphase] at hstep
      refine ⟨?_, rfl, by simp [Phase.grant], by simp [Phase.claim]⟩
      split at hstep
      · obtain rfl := Option.some.inj hstep
        exact ⟨rfl, rfl, rfl, rfl, fun _ hmem => hmem, .inl ⟨rfl, rfl⟩⟩
      · simp only [Option.bind_eq_some_iff, Option.map_eq_some_iff] at hstep
        obtain ⟨handler, -, ending, -, rfl⟩ := hstep
        exact .handled i handler ending
    | joining i cancelled =>
      simp only [hphase, Option.bind_eq_some_iff, Option.map_eq_some_iff] at hstep
      obtain ⟨handler, -, ending, -, rfl⟩ := hstep
      refine ⟨?_, rfl, by simp [Phase.grant], by simp [Phase.claim]⟩
      split
      · exact .enter rfl
      · exact .move rfl rfl
    | settling i =>
      simp only [hphase, Option.bind_eq_some_iff, Option.map_eq_some_iff] at hstep
      obtain ⟨handler, -, ending, -, rfl⟩ := hstep
      refine ⟨?_, rfl, by simp [Phase.grant], by simp [Phase.claim]⟩
      split
      · exact .move rfl rfl
      · exact .close i _
    | inspecting i request =>
      simp only [hphase, Option.bind_eq_some_iff, Option.map_eq_some_iff] at hstep
      obtain ⟨handler, -, answer, -, rfl⟩ := hstep
      refine ⟨?_, rfl, by simp [Phase.grant], by simp [Phase.claim]⟩
      split <;> exact .move rfl rfl
    | recording i what request =>
      simp only [hphase, Option.map_eq_some_iff] at hstep
      obtain ⟨answer, -, rfl⟩ := hstep
      exact ⟨.recorded i what answer, rfl, by simp [Phase.grant], by simp [Phase.claim]⟩
    | closing i exit cancelled =>
      simp only [hphase] at hstep
      refine ⟨?_, rfl, by simp [Phase.grant], by simp [Phase.claim]⟩
      split at hstep
      · obtain rfl := Option.some.inj hstep
        exact .enter rfl
      · obtain rfl := Option.some.inj hstep
        exact .leave i exit
    | releasing i =>
      simp only [hphase, Option.map_eq_some_iff] at hstep
      obtain ⟨answer, -, rfl⟩ := hstep
      exact ⟨.enter rfl, rfl, by simp [Phase.grant], by simp [Phase.claim]⟩
    | restarting =>
      simp only [hphase, Option.some.injEq] at hstep
      obtain rfl := hstep
      refine ⟨?_, rfl, by simp [Phase.grant], by simp [Phase.claim]⟩
      split
      · exact .enter rfl
      · exact .reacquire

theorem Owned.resume (h : w.Owned ownerId foreign) (hstep : w.resume c now = some w') :
    w'.Owned ownerId foreign := by
  obtain ⟨hgoes, hrunning, hanswered, hhanded⟩ := goes_resume hstep
  refine h.goes hgoes hrunning hanswered ?_
  intro i answer hphase hanswer records hrecords job hjob
  subst hrecords
  -- The claim has asked for one job, so that the head of the answer is all of it.
  have hone : records.length ≤ 1 := by
    simp only [World.answer, Option.bind_eq_some_iff] at hanswer
    obtain ⟨r, hr, hsome⟩ := hanswer
    exact (h.single i r hr).2 records hsome
  have hhead : claimedJob (.jobs records) = some job := by
    cases records with
    | nil => cases hjob
    | cons first rest =>
      cases rest with
      | nil => simp [claimedJob, List.mem_singleton.mp hjob]
      | cons second rest => simp at hone
  exact hhanded i _ job hphase hanswer hhead

omit [LinearOrder τ] [Zero τ] in
theorem Owned.cancelSupervisor (h : w.Owned ownerId foreign)
    (hstep : w.cancelSupervisor = some w') : w'.Owned ownerId foreign := by
  unfold World.cancelSupervisor at hstep
  cases hphase : w.supervisor with
  | none => simp [hphase] at hstep
  | some phase =>
    have hquiet : ∀ i, w.stop.bind Stop.release = some i → phase = .ended := by
      intro i hi
      have hended := (h.quiet i hi).1
      rw [hphase] at hended
      cases phase <;> simp_all [Phase.running]
    cases phase with
    | ended => simp [hphase] at hstep
    | _ =>
      simp only [hphase, Option.some.injEq, reduceCtorEq] at hstep hquiet
      subst hstep
      exact h.congr rfl rfl (fun _ hmem => hmem) (by rw [hphase]; rfl) (by rw [hphase]; rfl) rfl rfl
        h.stopped fun i hi => (hquiet i hi).elim

end Supervisor

section Drain

theorem Owned.drain (h : w.Owned ownerId foreign) : w.drain.Owned ownerId foreign := by
  unfold World.drain
  split
  · exact h.same rfl rfl (fun _ hmem => hmem) rfl rfl rfl rfl
  · exact h

variable [LinearOrder τ] [Zero τ] {c : Settings τ}

theorem Owned.checkpointStopped (clock : String → τ) (stopped : List (String × Nat))
    (h : w.Owned ownerId foreign) :
    (World.checkpointStopped c clock stopped w).Owned ownerId foreign := by
  induction stopped generalizing w with
  | nil => exact h
  | cons entry stopped ih =>
    refine ih ?_
    exact (h.note _).submit rfl

theorem Owned.drainStep (h : w.Owned ownerId foreign) {clock : String → τ} {timedOut : Bool}
    (hstep : w.drainStep c clock timedOut = some w') : w'.Owned ownerId foreign := by
  unfold World.drainStep at hstep
  cases hphase : w.draining with
  | none => simp [hphase] at hstep
  | some phase =>
    cases phase with
    | ended result => simp [hphase] at hstep
    | created active =>
      simp only [hphase, Option.some.injEq] at hstep
      obtain rfl := hstep
      exact h.same rfl rfl (fun _ hmem => hmem) rfl rfl rfl rfl
    | waiting active =>
      simp only [hphase] at hstep
      split at hstep
      · obtain rfl := Option.some.inj hstep
        exact h.same rfl rfl (fun _ hmem => hmem) rfl rfl rfl rfl
      split at hstep
      · obtain rfl := Option.some.inj hstep
        exact h.same rfl rfl (fun _ hmem => hmem) rfl rfl rfl rfl
      · cases hstep
    | stopping completed pending =>
      simp only [hphase] at hstep
      split at hstep
      · obtain rfl := Option.some.inj hstep
        have hstopped := h.checkpointStopped (c := c) clock
          (pending.filter fun entry => w.done entry.2)
        exact hstopped.same rfl rfl (fun _ hmem => hmem) rfl rfl rfl rfl
      · cases hstep
    | checkpointing completed cancelled requests =>
      simp only [hphase] at hstep
      split at hstep
      · obtain rfl := Option.some.inj hstep
        exact h.same rfl rfl (fun _ hmem => hmem) rfl rfl rfl rfl
      · cases hstep

theorem Owned.beat (h : w.Owned ownerId foreign) {now claimNow : τ}
    (hstep : w.beat c now claimNow = some w') : w'.Owned ownerId foreign := by
  unfold World.beat at hstep
  split at hstep
  · cases hstep
  · cases hstep
  · obtain rfl := Option.some.inj hstep
    exact ((h.submit rfl).submit rfl).same rfl rfl (fun _ hmem => hmem) rfl rfl rfl rfl
  · split at hstep
    · obtain rfl := Option.some.inj hstep
      exact h.same rfl rfl (fun _ hmem => hmem) rfl rfl rfl rfl
    · obtain rfl := Option.some.inj hstep
      exact h.same rfl rfl (fun _ hmem => hmem) rfl rfl rfl rfl
    · obtain rfl := Option.some.inj hstep
      exact h.same rfl rfl (fun _ hmem => hmem) rfl rfl rfl rfl
    · obtain rfl := Option.some.inj hstep
      exact h.same rfl rfl (fun _ hmem => hmem) rfl rfl rfl rfl
    · cases hstep

omit [LinearOrder τ] [Zero τ] in
theorem Owned.maintain (h : w.Owned ownerId foreign) {task : Nat} {now : τ}
    (hstep : w.maintain task now = some w') : w'.Owned ownerId foreign := by
  obtain ⟨phase, -, hstep⟩ := Option.bind_eq_some_iff.mp hstep
  cases phase with
  | waiting =>
    simp only at hstep
    split at hstep
    · obtain rfl := Option.some.inj hstep
      exact h.same rfl rfl (fun _ hmem => hmem) rfl rfl rfl rfl
    · obtain rfl := Option.some.inj hstep
      exact (h.submit (rfl : Call.grants (.op (.purgeExpiredPayloads now 1000)) = none)).same rfl rfl
        (fun _ hmem => hmem) rfl rfl rfl rfl
  | purging request =>
    simp only [Option.map_eq_some_iff] at hstep
    obtain ⟨answer, -, rfl⟩ := hstep
    exact h.same rfl rfl (fun _ hmem => hmem) rfl rfl rfl rfl
  | ended => cases hstep

end Drain

section Starting

theorem Owned.startCall (h : w.Owned ownerId foreign) (hstep : w.startCall = some w') :
    w'.Owned ownerId foreign := by
  unfold World.startCall at hstep
  split at hstep
  · cases hstep
  next hidle =>
    obtain rfl := Option.some.inj hstep
    simp only [Bool.or_eq_true, not_or, Bool.not_eq_true] at hidle
    obtain ⟨⟨hstopping, -⟩, hstart⟩ := hidle
    have hstop : w.stop = none := by
      cases hstop : w.stop with
      | none => rfl
      | some stop => simpa [hstop, hstopping] using h.stopped
    refine h.congr rfl rfl (fun _ hmem => hmem) rfl rfl ?_ rfl h.stopped ?_
    · exact (Start.grant_of_not_running hstart).symm
    · simp [hstop]

theorem Owned.starts (h : w.Owned ownerId foreign) {start : Start} {call : Call τ}
    (hrunning : Start.running w.start = true)
    (hanswered : ∀ i, w.start.bind Start.grant = some i → (w.answer i).isSome = true)
    (hcall : call.grants = none) :
    ({ w.submit call with start := some start } : World τ).Owned ownerId foreign := by
  have hsubmit := h.submit hcall
  have hbusy : ∀ i, w.stop.bind Stop.release = some i → False := by
    intro i hi
    simp [(h.quiet i hi).2] at hrunning
  refine ⟨?_, hsubmit.claims, hsubmit.single, h.stopped, fun i hi => (hbusy i hi).elim,
    fun i hi => (hbusy i hi).elim, fun _ i _ hi => (hbusy i hi).elim⟩
  intro i r hr hnone hgrants
  rcases hsubmit.awaited i r hr hnone hgrants with hgrant | hgrant
  · exact .inl hgrant
  · have hsome := hanswered i hgrant
    rcases joined_cases hr with ⟨-, rfl⟩ | ⟨-, hr⟩
    · simp [hcall] at hgrants
    · simp [World.answer, hr, hnone] at hsome

theorem Owned.setStart (h : w.Owned ownerId foreign) {start : Start}
    (hrunning : Start.running w.start = true)
    (hanswered : ∀ i, w.start.bind Start.grant = some i → start.grant ≠ some i →
      (w.answer i).isSome = true) :
    ({ w with start := some start } : World τ).Owned ownerId foreign := by
  have hbusy : ∀ i, w.stop.bind Stop.release = some i → False := by
    intro i hi
    simp [(h.quiet i hi).2] at hrunning
  refine ⟨?_, h.claims, h.single, h.stopped, fun i hi => (hbusy i hi).elim,
    fun i hi => (hbusy i hi).elim, fun _ i _ hi => (hbusy i hi).elim⟩
  intro i r hr hnone hgrants
  rcases h.awaited i r hr hnone hgrants with hgrant | hgrant
  · exact .inl hgrant
  · by_cases hsame : start.grant = some i
    · exact .inr hsame
    · have hsome := hanswered i hgrant hsame
      simp [World.answer, hr, hnone] at hsome

theorem Owned.acquire (h : w.Owned ownerId foreign) (hstart : w.start = some .created)
    (owner : String) (lease now : τ) :
    ({ w.submit (.op (.acquireWorker owner lease now)) with
      start := some (.acquiring w.requests.length false) } : World τ).Owned ownerId foreign := by
  have hbusy : ∀ i, w.stop.bind Stop.release = some i → False := by
    intro i hi
    have hended := (h.quiet i hi).2
    simp [hstart, Start.running] at hended
  refine ⟨?_, ?_, ?_, h.stopped, fun i hi => (hbusy i hi).elim, fun i hi => (hbusy i hi).elim,
    fun _ i _ hi => (hbusy i hi).elim⟩
  · intro i r hr hnone hgrants
    simp only [World.submit, getElem?_joined] at hr
    split at hr
    next hlast => exact .inr (by rw [hlast]; rfl)
    · rcases h.awaited i r hr hnone hgrants with hgrant | hgrant
      · exact .inl hgrant
      · simp [hstart, Start.grant] at hgrant
  · intro i r hr hclaim
    rcases joined_cases hr with ⟨-, rfl⟩ | ⟨-, hr⟩
    · cases hclaim
    · exact h.claims i r hr hclaim
  · intro i r hr
    rcases joined_cases hr with ⟨-, rfl⟩ | ⟨-, hr⟩
    · exact ⟨trivial, fun records hrecords => (by cases hrecords)⟩
    · exact h.single i r hr

theorem Owned.launch (h : w.Owned ownerId foreign) (hinv : w.Inv)
    (hrunning : Start.running w.start = true) (hgrant : w.start.bind Start.grant = none) :
    w.launch.Owned ownerId foreign := by
  have hsupervisor := Phase.grant_of_not_running (hinv.alone hrunning)
  have hclaim : w.supervisor.bind Phase.claim = none := by
    cases hclaim : w.supervisor.bind Phase.claim with
    | none => rfl
    | some i => simp [Phase.grant_of_claim hclaim] at hsupervisor
  refine h.congr rfl rfl (fun _ hmem => hmem) hsupervisor.symm hclaim.symm hgrant.symm rfl
    h.stopped ?_
  intro i hi
  simp [(h.quiet i hi).2] at hrunning

variable [LinearOrder τ] [Zero τ] {c : Settings τ} {now : τ}

theorem Owned.startStep (h : w.Owned ownerId foreign) (hinv : w.Inv)
    (hstep : w.startStep c now = some w') : w'.Owned ownerId foreign := by
  unfold World.startStep at hstep
  cases hstart : w.start with
  | none => simp [hstart] at hstep
  | some start =>
    cases start with
    | ended => simp [hstart] at hstep
    | created =>
      simp only [hstart, Option.some.injEq] at hstep
      obtain rfl := hstep
      exact h.acquire hstart _ _ _
    | acquiring i cancelled =>
      simp only [hstart, Option.map_eq_some_iff] at hstep
      obtain ⟨answer, hanswer, rfl⟩ := hstep
      have hanswered : ∀ j, w.start.bind Start.grant = some j → (w.answer j).isSome = true := by
        intro j hj
        rw [hstart] at hj
        obtain rfl := Option.some.inj hj
        simp [hanswer]
      have hrunning : Start.running w.start = true := by simp [hstart, Start.running]
      split
      · split
        · exact h.starts hrunning hanswered rfl
        · exact h.starts hrunning hanswered (rfl : Call.grants (.op (.requeueFailedDeliveries 100 now)) = none)
      · exact h.starts hrunning hanswered rfl
    | requeueing i =>
      simp only [hstart, Option.map_eq_some_iff] at hstep
      obtain ⟨answer, -, rfl⟩ := hstep
      have hanswered : ∀ j, w.start.bind Start.grant = some j → (w.answer j).isSome = true := by
        simp [hstart, Start.grant]
      have hrunning : Start.running w.start = true := by simp [hstart, Start.running]
      split
      · split
        · exact h.starts hrunning hanswered (rfl : Call.grants (.op (.purgeExpiredPayloads now 1000)) = none)
        · exact h.starts hrunning hanswered (rfl : Call.grants (.op (.requeueFailedDeliveries 100 now)) = none)
      · exact h.starts hrunning hanswered rfl
    | purging i =>
      simp only [hstart, Option.map_eq_some_iff] at hstep
      obtain ⟨answer, -, rfl⟩ := hstep
      have hrunning : Start.running w.start = true := by simp [hstart, Start.running]
      split
      · exact h.starts hrunning (by simp [hstart, Start.grant]) rfl
      · exact h.launch hinv hrunning (by simp [hstart, Start.grant])
    | releasing i =>
      simp only [hstart, Option.map_eq_some_iff] at hstep
      obtain ⟨answer, -, rfl⟩ := hstep
      exact h.setStart (by simp [hstart, Start.running]) (by simp [hstart, Start.grant])

theorem Owned.cancelStart (h : w.Owned ownerId foreign) :
    (w.cancelStart c).Owned ownerId foreign := by
  unfold World.cancelStart
  split
  next hstart => exact h.setStart (by simp [hstart, Start.running]) (by simp [hstart, Start.grant])
  next hstart =>
    refine h.setStart (by simp [hstart, Start.running]) ?_
    intro i hi hne
    exact absurd (by simpa [hstart, Start.grant] using hi) hne
  next hstart =>
    exact h.starts (by simp [hstart, Start.running]) (by simp [hstart, Start.grant]) rfl
  next hstart =>
    exact h.starts (by simp [hstart, Start.running]) (by simp [hstart, Start.grant]) rfl
  all_goals exact h

end Starting

section Stopping

theorem Owned.setStop (h : w.Owned ownerId foreign) {stop : Stop} (hstop : stop.release = none)
    (hstopping : w.stopping = true) :
    ({ w with stop := some stop } : World τ).Owned ownerId foreign := by
  have hnone : ∀ i, ({ w with stop := some stop } : World τ).stop.bind Stop.release ≠ some i := by
    intro i hi
    simp [hstop] at hi
  exact ⟨h.awaited, h.claims, h.single, fun _ => hstopping, fun i hi => absurd hi (hnone i),
    fun i hi => absurd hi (hnone i), fun _ i _ hi => absurd hi (hnone i)⟩

theorem Owned.finish (h : w.Owned ownerId foreign) (hstopping : w.stopping = true)
    (hsupervisor : Phase.running w.supervisor = false) (hstart : Start.running w.start = false) :
    ({ w.submit (.op (.releaseWorker ownerId)) with
      stop := some (.releasing w.requests.length) } : World τ).Owned ownerId foreign := by
  have hsubmit := h.submit (rfl : Call.grants (.op (.releaseWorker ownerId)) = none)
  have hnew : (w.submit (.op (.releaseWorker ownerId))).requests[w.requests.length]? =
      some ⟨.op (.releaseWorker ownerId), none⟩ := by
    simp [World.submit]
  refine ⟨hsubmit.awaited, hsubmit.claims, hsubmit.single, fun _ => hstopping,
    fun _ _ => ⟨hsupervisor, hstart⟩, ?_, ?_⟩
  · intro i hi
    obtain rfl := Option.some.inj hi
    exact ⟨none, hnew⟩
  · intro _ i reply hi hanswer
    obtain rfl := Option.some.inj hi
    rw [World.answer] at hanswer
    simp [hnew] at hanswer

theorem cancelSupervisor_stopping (hstep : w.cancelSupervisor = some w') :
    w'.stopping = w.stopping := by
  unfold World.cancelSupervisor at hstep
  cases hphase : w.supervisor with
  | none => simp [hphase] at hstep
  | some phase =>
    cases phase with
    | ended => simp [hphase] at hstep
    | _ =>
      simp only [hphase, Option.some.injEq] at hstep
      subst hstep
      rfl

theorem Owned.finishStop (h : w.Owned ownerId foreign) (hstopping : w.stopping = true) :
    w.finishStop.Owned ownerId foreign := by
  unfold World.finishStop
  split
  · cases hcancel : w.cancelSupervisor with
    | none => exact h.setStop rfl hstopping
    | some next =>
      have hsame := cancelSupervisor_stopping hcancel
      exact (h.cancelSupervisor hcancel).setStop rfl (hsame.trans hstopping)
  · exact h.setStop rfl hstopping

theorem Owned.stopCall (h : w.Owned ownerId foreign) : w.stopCall.Owned ownerId foreign := by
  refine h.congr rfl rfl (fun _ hmem => hmem) rfl rfl rfl ?_ (fun _ => rfl) h.quiet
  unfold World.stopCall
  cases w.stop <;> rfl

variable [LinearOrder τ] [Zero τ] {c : Settings τ}

theorem cancelStart_stopping : (w.cancelStart c).stopping = w.stopping := by
  unfold World.cancelStart
  split <;> rfl

theorem Owned.stopStep (h : w.Owned c.ownerId foreign) (hstep : w.stopStep c = some w') :
    w'.Owned c.ownerId foreign := by
  unfold World.stopStep at hstep
  cases hstop : w.stop with
  | none => simp [hstop] at hstep
  | some stop =>
    have hstopping : w.stopping = true := h.stopped (by simp [hstop])
    have hcancelled : (w.cancelStart c).stopping = true := cancelStart_stopping.trans hstopping
    cases stop with
    | ended i => simp [hstop] at hstep
    | created =>
      simp only [hstop, Option.some.injEq] at hstep
      split at hstep
      · obtain rfl := hstep
        exact h.cancelStart.finishStop hcancelled
      · obtain rfl := hstep
        refine h.cancelStart.drain.setStop rfl ?_
        unfold World.drain
        split <;> exact hcancelled
    | draining =>
      simp only [hstop] at hstep
      split at hstep
      · obtain rfl := Option.some.inj hstep
        exact h.finishStop hstopping
      · cases hstep
    | joining =>
      simp only [hstop] at hstep
      split at hstep
      · cases hstep
      next hidle =>
        obtain rfl := Option.some.inj hstep
        simp only [Bool.or_eq_true, not_or, Bool.not_eq_true] at hidle
        exact h.finish hstopping hidle.1.1 hidle.1.2
    | releasing i =>
      simp only [hstop, Option.map_eq_some_iff] at hstep
      obtain ⟨answer, -, rfl⟩ := hstep
      exact h.congr rfl rfl (fun _ hmem => hmem) rfl rfl rfl (by simp [hstop, Stop.release])
        (fun _ => hstopping) h.quiet

end Stopping

section Runs

theorem Owned.handlerEnds (h : w.Owned ownerId foreign) {i : Nat} {ending : Ending}
    (hstep : w.handlerEnds i ending = some w') : w'.Owned ownerId foreign := by
  obtain ⟨handler, -, hstep⟩ := Option.bind_eq_some_iff.mp hstep
  split at hstep
  · cases hstep
  · obtain rfl := Option.some.inj hstep
    exact h.same rfl rfl (fun _ hmem => hmem) rfl rfl rfl rfl

/-- A thread answers; its call may have changed the store. -/
theorem Owned.answered (h : w.Owned ownerId foreign) {i : Nat} {r : Request τ}
    (hr : w.requests[i]? = some r) (hnone : r.answer = none) {answer : Answer} {store : Store τ}
    (hjobs : ∀ records, answer = .ok (.jobs records) → r.call.Single → records.length ≤ 1)
    (hkept : r.call.grants ≠ some ownerId → NotLeased ownerId w.store → NotLeased ownerId store)
    (hreleased : ∀ reply, answer = .ok reply → r.call = .op (.releaseWorker ownerId) →
      NotLeased ownerId store) :
    ({ w with
        store := store
        requests := w.requests.set i { r with answer := some answer } } : World τ).Owned
      ownerId foreign := by
  have hnew := fun j => getElem?_replaced (j := j) (b := { r with answer := some answer }) hr
  refine ⟨?_, ?_, ?_, h.stopped, h.quiet, ?_, ?_⟩
  · intro j q hq hopen hgrants
    rw [hnew] at hq
    split at hq
    · obtain rfl := Option.some.inj hq
      cases hopen
    · exact h.awaited j q hq hopen hgrants
  · intro j q hq hclaim
    rw [hnew] at hq
    split at hq
    next hsame =>
      subst hsame
      obtain rfl := Option.some.inj hq
      rcases h.claims j r hr hclaim with hphase | ⟨old, hold, -⟩
      · exact .inl hphase
      · simp [hnone] at hold
    · exact h.claims j q hq hclaim
  · intro j q hq
    rw [hnew] at hq
    split at hq
    · obtain rfl := Option.some.inj hq
      have hsingle := (h.single i r hr).1
      exact ⟨hsingle, fun records hrecords => hjobs records (Option.some.inj hrecords) hsingle⟩
    · exact h.single j q hq
  · intro j hj
    obtain ⟨old, hold⟩ := h.release j hj
    show ∃ answer, (w.requests.set i _)[j]? = _
    rw [hnew]
    split
    next hsame =>
      subst hsame
      obtain rfl := Option.some.inj (hr.symm.trans hold)
      exact ⟨some answer, rfl⟩
    · exact ⟨old, hold⟩
  · intro hforeign j reply hj hanswer
    obtain ⟨old, hold⟩ := h.release j hj
    simp only [World.answer, hnew] at hanswer
    split at hanswer
    next hsame =>
      subst hsame
      obtain rfl := Option.some.inj (hr.symm.trans hold)
      exact hreleased reply (by simpa using hanswer) rfl
    · refine hkept ?_ (h.released hforeign j reply hj hanswer)
      -- A thread that may take the lease would be awaited by a task that has ended.
      intro hgrants
      obtain ⟨hsupervisor, hstart⟩ := h.quiet j hj
      have hawaited := h.awaited i r hr hnone (by simp [hgrants])
      rw [Phase.grant_of_not_running hsupervisor, Start.grant_of_not_running hstart] at hawaited
      simp at hawaited

theorem owned_initial (store : Store τ) : (World.initial store).Owned ownerId foreign := by
  constructor <;> simp [World.initial]

variable [LinearOrder τ] [Add τ] [Zero τ] {c : Settings τ}

theorem length_jobs {call : Call τ} {store : Store τ} {records : List JobRecord}
    (h : (call.run store).1 = .ok (.jobs records)) (hsingle : call.Single) :
    records.length ≤ 1 := by
  cases call with
  | hasFailedDeliveries jobId => simp [Call.run] at h
  | op operation =>
    cases operation with
    | claimRecoverableJobs owner limit lease now =>
      have hlimit : limit = 1 := hsingle
      subst hlimit
      exact length_claim h
    | aborted => cases h
    | _ =>
      simp only [Call.run, Op.run, wrap_fst, Except.map] at h
      split at h <;> simp at h

theorem Owned.commit (h : w.Owned ownerId foreign) {i : Nat} (hstep : w.commit i = some w') :
    w'.Owned ownerId foreign := by
  obtain ⟨r, hr, hstep⟩ := Option.bind_eq_some_iff.mp hstep
  split at hstep
  · cases hstep
  next hopen =>
    obtain rfl := Option.some.inj hstep
    refine h.answered hr (by simpa using hopen) (fun records => length_jobs) ?_ ?_
    · intro hgrants hleased
      cases hcall : r.call with
      | hasFailedDeliveries jobId => exact hleased
      | op operation =>
        rw [hcall] at hgrants
        exact notLeased_run hleased hgrants
    · intro reply hreply hcall
      rw [hcall] at hreply ⊢
      exact notLeased_release hreply

theorem Owned.step (h : w.Owned c.ownerId foreign) (hinv : w.Inv) {action : Action τ}
    (hforeign : foreign → action.Foreign c.ownerId) (hstep : w.step c action = some w') :
    w'.Owned c.ownerId foreign := by
  cases action with
  | commit i => exact h.commit hstep
  | fault i =>
    obtain ⟨r, hr, hstep⟩ := Option.bind_eq_some_iff.mp hstep
    split at hstep
    · cases hstep
    next hopen =>
      obtain rfl := Option.some.inj hstep
      exact h.answered hr (by simpa using hopen) (by simp) (fun _ hleased => hleased) (by simp)
  | other op =>
    obtain rfl := Option.some.inj hstep
    refine ⟨h.awaited, h.claims, h.single, h.stopped, h.quiet, h.release, ?_⟩
    intro hown i reply hi hanswer
    exact notLeased_run (h.released hown i reply hi hanswer) (hforeign hown)
  | handlerEnds i ending => exact h.handlerEnds hstep
  | heartbeat now claimNow => exact h.beat hstep
  | resume now => exact h.resume hstep
  | cancelSupervisor => exact h.cancelSupervisor hstep
  | drain =>
    obtain rfl := Option.some.inj hstep
    exact h.drain
  | drainStep clock timedOut => exact h.drainStep hstep
  | start => exact h.startCall hstep
  | startStep now => exact h.startStep hinv hstep
  | cancelStart =>
    obtain rfl := Option.some.inj hstep
    exact h.cancelStart
  | stop =>
    obtain rfl := Option.some.inj hstep
    exact h.stopCall
  | stopStep => exact h.stopStep hstep
  | maintain task now => exact h.maintain hstep

theorem owned_run {store : Store τ} {actions : List (Action τ)}
    (hforeign : foreign → ∀ action ∈ actions, action.Foreign c.ownerId)
    (hrun : (machine c).run (.initial store) actions = some w) : w.Owned c.ownerId foreign := by
  have hadmits := (machine c).admits_of_forall (G := fun action => foreign → action.Foreign c.ownerId)
    (fun action hmem hown => hforeign hown action hmem) (.initial store)
  have hboth := (machine c).invariant_of_admits (I := fun w => w.Inv ∧ w.Owned c.ownerId foreign)
    (fun w action w' h hown hstep => ⟨inv_step h.1 hstep, h.2.step h.1 hown hstep⟩)
    ⟨inv_initial store, owned_initial store⟩ hadmits hrun
  exact hboth.2

end Runs

end World

section Results

variable [LinearOrder τ] [Add τ] [Zero τ] {c : Settings τ} {store : Store τ}
  {actions : List (Action τ)} {w : World τ}

/-- Stop after the drain, to the release of the lease. -/
def stopped : List (Action ℕ) :=
  drained ++ [.stop, .stopStep, .resume 10, .maintain 0 10, .stopStep, .commit 5, .stopStep]

/-- No claim is dropped: its thread is awaited until it answers, and the job of the answer, one at
most, gets for this claim a handler or a checkpoint, through every cancellation, drain and stop. -/
theorem claimed_handed (hrun : (machine c).run (.initial store) actions = some w) {i : Nat}
    {r : Request τ} (hr : w.requests[i]? = some r) (hclaim : r.call.IsClaim) :
    (∀ records, r.answer = some (.ok (.jobs records)) → records.length ≤ 1) ∧
      (w.supervisor.bind Phase.claim = some i ∨
        ∃ answer, r.answer = some answer ∧
          ∀ records, answer = .ok (.jobs records) → ∀ job ∈ records, w.Handed i job.id) := by
  have howned : w.Owned c.ownerId False := World.owned_run (fun h => h.elim) hrun
  exact ⟨(howned.single i r hr).2, howned.claims i r hr hclaim⟩

theorem claimed_handed_processing :
    ∃ w r, (machine ownerSettings).run (.initial Store.initial) processing = some w ∧
      w.requests[3]? = some r ∧ ∃ answer, r.answer = some answer ∧ w.Dealt 3 answer := by
  have hsome : (((machine ownerSettings).run (.initial Store.initial) processing).any fun w =>
      decide (w.supervisor = some (.waiting 0)) && w.requests[3]?.any fun r =>
        match r.call with
        | .op (.claimRecoverableJobs _ _ _ _) => true
        | _ => false) = true := by decide +kernel
  obtain ⟨w, hrun, hw⟩ := (Option.any_eq_true _ _).mp hsome
  simp only [Bool.and_eq_true, decide_eq_true_eq] at hw
  obtain ⟨r, hr, hcall⟩ := (Option.any_eq_true _ _).mp hw.2
  have hclaim : r.call.IsClaim := by
    split at hcall
    next hclaim => simp [hclaim, Call.IsClaim]
    · cases hcall
  obtain ⟨-, hawaited | hdealt⟩ := claimed_handed hrun hr hclaim
  · simp [hw.1, Phase.claim] at hawaited
  · exact ⟨w, r, hrun, hr, hdealt⟩

/-- When the release of `_finish_stop` has committed, the lease is not this worker's, nothing of it
runs, and no thread is left that could take the lease again. -/
theorem shutdown_final (hforeign : ∀ action ∈ actions, action.Foreign c.ownerId)
    (hrun : (machine c).run (.initial store) actions = some w) {i : Nat} {reply : Reply}
    (hstop : w.stop.bind Stop.release = some i) (hanswer : w.answer i = some (.ok reply)) :
    NotLeased c.ownerId w.store ∧ Phase.running w.supervisor = false ∧
      Start.running w.start = false ∧ w.Idle ∧
      ∀ r ∈ w.requests, r.answer = none → r.call.grants = none := by
  have howned : w.Owned c.ownerId True := World.owned_run (fun _ => hforeign) hrun
  obtain ⟨hsupervisor, hstart⟩ := howned.quiet i hstop
  refine ⟨howned.released trivial i reply hstop hanswer, hsupervisor, hstart,
    (World.inv_run hrun).idle hsupervisor, ?_⟩
  intro r hmem hnone
  obtain ⟨j, hj⟩ := List.mem_iff_getElem?.mp hmem
  rw [← Option.not_isSome_iff_eq_none]
  intro hgrants
  have hawaited := howned.awaited j r hj hnone hgrants
  rw [Phase.grant_of_not_running hsupervisor, Start.grant_of_not_running hstart]
    at hawaited
  simp at hawaited

theorem shutdown_final_stopped :
    ∃ w, (machine ownerSettings).run (.initial Store.initial) stopped = some w ∧
      NotLeased "owner" w.store ∧ w.Idle := by
  have hforeign : ∀ action ∈ stopped, action.Foreign "owner" := by
    simp [stopped, drained, processing, Action.Foreign, Op.grants]
  have hsome : (((machine ownerSettings).run (.initial Store.initial) stopped).any fun w =>
      decide (w.stop = some (.ended 5)) && (w.answer 5).any fun answer =>
        match answer with
        | .ok _ => true
        | .error _ => false) = true := by decide +kernel
  obtain ⟨w, hrun, hw⟩ := (Option.any_eq_true _ _).mp hsome
  simp only [Bool.and_eq_true, decide_eq_true_eq] at hw
  obtain ⟨answer, hanswer, hok⟩ := (Option.any_eq_true _ _).mp hw.2
  cases answer with
  | error error => cases hok
  | ok reply =>
    have hstop : w.stop.bind Stop.release = some 5 := by simp [hw.1, Stop.release]
    obtain ⟨hleased, -, -, hidle, -⟩ := shutdown_final hforeign hrun hstop hanswer
    exact ⟨w, hrun, hleased, hidle⟩

end Results

end YtdlBot.Drain
