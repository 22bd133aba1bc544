import YtdlBot.Delivery.Reservations

/-!
# At most one send per item

Every handler follows the discipline of a delivery from the phases it is in, so each action
changes the receipts, the attempts and the phases by one of the moves of the shared invariant.
-/

namespace YtdlBot.Delivery

open Framework
open Framework.Program
open JobStore (Store Op StoreError DeliveryOutcome)

variable {τ : Type} [LinearOrder τ] [Add τ] [Zero τ]

/-- Who the handlers of a world work for. -/
def World.who (w : World τ) (i : Nat) : Option Who :=
  (w.handlers i).map fun h => ⟨h.ownerId, h.jobId, h.active⟩

/-- What a handler that is no longer active may still be doing. -/
def Inert (program : Option (Coroutine Unit)) : Prop :=
  program = none ∨ program = some (.pure ()) ∨ ∃ key outcome deliveryId,
    program = some (.perform (.finalizeDeliveryAttempt key outcome deliveryId) fun _ => .pure ())

/-- A handler does what its phases permit. -/
structure Behaves (g : Phases) (h : Handler) : Prop where
  follows : ∀ p, h.program = some p → Follows protocol g p fun _ _ => True
  idle : h.program = none → g = .idle
  inert : h.active = false → Inert h.program

structure Inv (w : World τ) (ph : Nat → Phases) : Prop where
  consistent : Consistent w.who ph w.store w.attempts w.calls w.begun
  behaves : ∀ i h, w.handlers i = some h → Behaves (ph i) h

section Moves

omit [LinearOrder τ] [Add τ] [Zero τ]

variable {w w' : World τ} {ph : Nat → Phases} {i : Nat} {h : Handler}

theorem who_eq (hi : w.handlers i = some h) : w.who i = some ⟨h.ownerId, h.jobId, h.active⟩ := by
  rw [World.who, hi]
  rfl

theorem who_update {w w' : World τ} {new : Handler}
    (hhandlers : w'.handlers = Function.update w.handlers i (some new)) :
    w'.who = Function.update w.who i (some ⟨new.ownerId, new.jobId, new.active⟩) := by
  funext j
  by_cases hji : j = i
  · subst hji
    rw [World.who, hhandlers, Function.update_self, Function.update_self]
    rfl
  · rw [World.who, hhandlers, Function.update_of_ne hji, Function.update_of_ne hji]
    rfl

theorem behaves_none (h : Handler) : Behaves .idle { h with program := none } :=
  ⟨nofun, fun _ => rfl, fun _ => .inl rfl⟩

theorem behaves_update {handlers : Nat → Option Handler}
    (hold : ∀ i h, handlers i = some h → Behaves (ph i) h) {g : Phases} (hnew : Behaves g h) :
    ∀ j k, Function.update handlers i (some h) j = some k →
      Behaves (Function.update ph i g j) k := by
  intro j k hk
  by_cases hji : j = i
  · subst hji
    rw [Function.update_self] at hk ⊢
    exact Option.some.inj hk ▸ hnew
  · rw [Function.update_of_ne hji] at hk ⊢
    exact hold j k hk

theorem Inv.advance (hw : Inv w ph) (hi : w.handlers i = some h) {p : Option (Coroutine Unit)}
    {g : Phases}
    (hhandlers : w'.handlers = Function.update w.handlers i (some { h with program := p }))
    (hconsistent : Consistent w.who (Function.update ph i g) w'.store w'.attempts w'.calls w'.begun)
    (hbehaves : Behaves g { h with program := p }) : ∃ ph', Inv w' ph' := by
  have hwho : w'.who = w.who := by
    rw [who_update hhandlers]
    exact (Function.update_eq_self_iff ..).mpr (who_eq hi).symm
  refine ⟨Function.update ph i g, ?_, ?_⟩
  · rw [hwho]
    exact hconsistent
  · rw [hhandlers]
    exact behaves_update hw.behaves hbehaves

theorem Inv.forget (hw : Inv w ph) (hi : w.handlers i = some h) (keys : List String) :
    Consistent w.who (Function.update ph i ((ph i).setAll keys .unknown)) w.store w.attempts
      w.calls w.begun := by
  refine hw.consistent.reviseOne (who_eq hi) ?_ ?_
  · intro key
    by_cases hmem : key ∈ keys
    · rw [Phases.setAll_of_mem hmem]
      exact .inr rfl
    · rw [Phases.setAll_of_notMem hmem]
      exact .inl rfl
  · intro key hphase
    by_cases hmem : key ∈ keys
    · rw [Phases.setAll_of_mem hmem] at hphase
      cases hphase
    · rw [Phases.setAll_of_notMem hmem] at hphase
      exact .inl hphase

theorem Inv.quit (hw : Inv w ph) (hi : w.handlers i = some h) :
    Consistent w.who (Function.update ph i .idle) w.store w.attempts w.calls w.begun := by
  refine hw.consistent.reviseOne (who_eq hi) (fun key => .inr rfl) ?_
  intro key hphase
  cases hphase

theorem Inv.active (hw : Inv w ph) (hi : w.handlers i = some h) {effect : Effect}
    {next : effect.Response → Coroutine Unit} (hp : h.program = some (.perform effect next))
    (hne : ∀ key outcome deliveryId, effect ≠ .finalizeDeliveryAttempt key outcome deliveryId) :
    h.active = true := by
  by_contra hinactive
  rcases (hw.behaves i h hi).inert (by simpa using hinactive) with hnone | hpure | ⟨key, outcome, id, hfin⟩
  · rw [hp] at hnone
    cases hnone
  · rw [hp] at hpure
    cases hpure
  · rw [hp] at hfin
    cases hfin
    exact hne key outcome id rfl

end Moves

section Effects

variable {w : World τ} {ph : Nat → Phases} {i : Nat} {h : Handler}

omit [LinearOrder τ] [Add τ] [Zero τ] in
private theorem consistent_read (hw : Inv w ph) (hi : w.handlers i = some h)
    (hactive : h.active = true) (key : String) {reply : Except StoreError (Option DeliveryOutcome)}
    (hreply : reply = .error .sqliteError ∨ reply = .ok (JobStore.deliveryOutcome w.store h.jobId key)) :
    Consistent w.who (Function.update ph i (nextPhases (ph i) (.deliveryOutcome key) reply))
      w.store w.attempts w.calls w.begun := by
  have hforget := hw.forget hi [key]
  have hfresh (houtcome : JobStore.deliveryOutcome w.store h.jobId key = none ∨
      JobStore.deliveryOutcome w.store h.jobId key = some .failed) :
      Consistent w.who (Function.update ph i ((ph i).setAll [key] .fresh)) w.store w.attempts
        w.calls w.begun := by
    refine hw.consistent.reviseOne (who_eq hi) ?_ ?_
    · intro other
      by_cases hmem : other ∈ [key]
      · rw [Phases.setAll_of_mem hmem]
        exact .inr rfl
      · rw [Phases.setAll_of_notMem hmem]
        exact .inl rfl
    · intro other hphase
      by_cases hmem : other ∈ [key]
      · obtain rfl := List.mem_singleton.mp hmem
        exact .inr ⟨hactive, hw.consistent.unsent_of_receipt houtcome⟩
      · rw [Phases.setAll_of_notMem hmem] at hphase
        exact .inl hphase
  rcases hreply with rfl | rfl
  · exact hforget
  · cases houtcome : JobStore.deliveryOutcome w.store h.jobId key with
    | none => exact hfresh (.inl houtcome)
    | some outcome =>
      cases outcome with
      | success => exact hforget
      | failed => exact hfresh (.inr houtcome)
      | uncertain => exact hforget

/-- The effects of a handler keep the invariant. -/
theorem inv_perform (hw : Inv w ph) (hi : w.handlers i = some h) {effect : Effect}
    {next : effect.Response → Coroutine Unit} (hp : h.program = some (.perform effect next))
    (now : τ) (sqlFails : Nat → Bool) (dbError : Bool)
    (answer : (effect : Effect) → effect.Response) :
    ∃ ph', Inv (w.perform i h now sqlFails dbError answer effect next) ph' := by
  obtain ⟨hallowed, hnext⟩ := (hw.behaves i h hi).follows _ hp
  have hwhoi := who_eq hi
  -- what is left to show of every effect is that the shared invariant holds afterwards
  have advance (w' : World τ) (response : effect.Response)
      (hhandlers : w'.handlers =
        Function.update w.handlers i (some { h with program := some (next response) }))
      (hconsistent : Consistent w.who
        (Function.update ph i (nextPhases (ph i) effect response)) w'.store w'.attempts w'.calls
        w'.begun) : ∃ ph', Inv w' ph' := by
    refine hw.advance hi hhandlers hconsistent ⟨?_, nofun, ?_⟩
    · intro q hq
      obtain rfl := Option.some.inj hq
      exact hnext response
    · intro hinactive
      rcases (hw.behaves i h hi).inert hinactive with hnone | hpure | ⟨key, outcome, id, hfin⟩
      · rw [hp] at hnone
        cases hnone
      · rw [hp] at hpure
        cases hpure
      · rw [hp] at hfin
        cases hfin
        exact .inr (.inl rfl)
  have same (response : effect.Response)
      (hsame : nextPhases (ph i) effect response = ph i) :
      ∃ ph', Inv (w.setProgram i h (some (next response))) ph' := by
    refine advance _ response rfl ?_
    rw [hsame, Function.update_eq_self]
    exact hw.consistent
  cases effect with
  | deliveryOutcome key =>
    have hactive := hw.active hi hp (by simp)
    refine advance _ _ rfl (consistent_read hw hi hactive key ?_)
    cases dbError
    · exact .inr rfl
    · exact .inl rfl
  | beginDeliveryAttempts keys =>
    have hforget := hw.forget hi keys
    cases dbError with
    | true => exact advance _ (.error .sqliteError) rfl hforget
    | false =>
      have hcases := JobStore.beginDeliveryAttempts_cases h.jobId keys h.ownerId now sqlFails w.store
      have hjobs := fun job => jobs_of_receipt_call job
        (Op.beginDeliveryAttempts h.jobId keys h.ownerId now sqlFails) w.store
        (.inl ⟨_, _, _, _, _, rfl⟩)
      simp only [Op.run, JobStore.wrap_snd] at hjobs
      simp only [World.perform, Bool.false_eq_true, if_false]
      generalize JobStore.beginDeliveryAttempts h.jobId keys h.ownerId now sqlFails w.store =
        result at hcases hjobs
      obtain ⟨reply, s'⟩ := result
      rcases hcases with ⟨hrefused, rfl⟩ | ⟨rfl, hlive, -, hrows⟩
      · refine advance _ reply rfl ?_
        cases reply with
        | error error => exact hforget
        | ok granted =>
          cases granted with
          | false => exact hforget
          | true => exact absurd rfl hrefused
      · exact advance _ (.ok true) rfl (hw.consistent.reserve hwhoi hallowed.2
          (JobStore.owner_of_ownsLiveJob hlive) hjobs hrows)
  | finalizeDeliveryAttempt key outcome deliveryId =>
    cases dbError with
    | true => exact advance _ (.error .sqliteError) rfl (hw.forget hi [key])
    | false =>
      refine advance _ (JobStore.finalizeDeliveryAttempt h.jobId key outcome h.ownerId deliveryId
        now w.store).1 rfl ?_
      have hfinalized := hw.consistent.finalize hwhoi deliveryId now hallowed
      rw [Op.run, JobStore.wrap_snd] at hfinalized
      exact hfinalized
  | startSend keys method options =>
    exact advance _ w.calls rfl (hw.consistent.start hwhoi hallowed.1 hallowed.2)
  | finishSend call =>
    exact advance _ (answer (.finishSend call)) rfl
      (hw.consistent.finish hwhoi hallowed (answer (.finishSend call)))
  | getDelivery index => exact same _ rfl
  | putDelivery item => exact same _ rfl
  | evictDelivery index => exact same _ rfl
  | stat path => exact same _ rfl
  | openSource asset => exact same _ rfl

end Effects

section Lifecycle

omit [LinearOrder τ] [Add τ] [Zero τ]

variable {w : World τ} {ph : Nat → Phases} {i : Nat} {h : Handler}

private theorem inv_startHandler (hw : Inv w ph) (hi : w.handlers i = none)
    (ownerId jobId : String)
    (hunique : ∀ i h, w.handlers i = some h → h.active → ¬ (h.ownerId = ownerId ∧ h.jobId = jobId)) :
    Inv { w with
      handlers := Function.update w.handlers i (some ⟨ownerId, jobId, true, none⟩) } ph := by
  have hwhoi : w.who i = none := by rw [World.who, hi, Option.map_none]
  constructor
  · rw [who_update rfl]
    refine hw.consistent.join hwhoi _ ?_
    intro j b hj hactive _
    obtain ⟨k, hk, rfl⟩ := Option.map_eq_some_iff.mp hj
    exact hunique j k hk hactive
  · have hidle := hw.consistent.stranger i hwhoi
    have hself : Function.update ph i .idle = ph := by
      rw [← hidle, Function.update_eq_self]
    have hbehaves := behaves_update (i := i) hw.behaves
      (behaves_none ⟨ownerId, jobId, true, none⟩)
    rw [hself] at hbehaves
    exact hbehaves

private theorem inv_begin (hw : Inv w ph) (hi : w.handlers i = some h) (hactive : h.active = true)
    (hnone : h.program = none) {α : Type} {p : Coroutine α}
    (hfollows : Follows protocol .idle p fun _ _ => True) :
    ∃ ph', Inv (w.setProgram i h (some (p >>= fun _ => Pure.pure ()))) ph' := by
  refine hw.advance (g := ph i) hi rfl ?_ ⟨?_, nofun, ?_⟩
  · rw [Function.update_eq_self]
    exact hw.consistent
  · intro q hq
    obtain rfl := Option.some.inj hq
    rw [(hw.behaves i h hi).idle hnone]
    exact hfollows.bind fun _ _ _ => follows_pure trivial
  · intro hinactive
    rw [hactive] at hinactive
    cases hinactive

private theorem inv_end (hw : Inv w ph) (hi : w.handlers i = some h) :
    ∃ ph', Inv (w.setProgram i h none) ph' :=
  hw.advance hi rfl (hw.quit hi) (behaves_none h)

private theorem inv_stop (hw : Inv w ph) (hi : w.handlers i = some h) :
    ∃ ph', Inv (w.setProgram i { h with active := false } none) ph' := by
  refine ⟨Function.update ph i .idle, ?_, ?_⟩
  · rw [who_update rfl]
    apply (hw.quit hi).revise
    · intro j b hj
      by_cases hji : j = i
      · subst hji
        rw [Function.update_self] at hj
        obtain rfl := Option.some.inj hj
        exact ⟨_, who_eq hi, rfl, rfl, nofun⟩
      · rw [Function.update_of_ne hji] at hj
        exact ⟨b, hj, rfl, rfl, id⟩
    · intro j key
      exact .inl rfl
    · intro j b key hj hphase
      by_cases hji : j = i
      · subst hji
        rw [Function.update_self] at hphase
        cases hphase
      · rw [Function.update_of_ne hji] at hj
        exact ⟨(hw.quit hi).fresh_active j b key hj hphase, .inl hphase⟩
    · intro j hj
      by_cases hji : j = i
      · subst hji
        exact Function.update_self ..
      · rw [Function.update_of_ne hji] at hj
        exact (hw.quit hi).stranger j hj
  · exact behaves_update hw.behaves (behaves_none { h with active := false })

/-- The program of a finalization that was left running. -/
def leftProgram (key : String) (outcome : DeliveryOutcome) (deliveryId : Option String) :
    Coroutine Unit :=
  .perform (.finalizeDeliveryAttempt key outcome deliveryId) fun _ => .pure ()

private theorem detached_eq_some {left : Handler} (hleft : World.detached h = some left) :
    ∃ key outcome deliveryId next,
      h.program = some (.perform (.finalizeDeliveryAttempt key outcome deliveryId) next) ∧
      left = ⟨h.ownerId, h.jobId, false, some (leftProgram key outcome deliveryId)⟩ := by
  unfold World.detached at hleft
  split at hleft
  · rename_i key outcome deliveryId next hp
    exact ⟨key, outcome, deliveryId, next, hp, (Option.some.inj hleft).symm⟩
  · cases hleft

private theorem inv_detach (hw : Inv w ph) (hi : w.handlers i = some h) {j : Nat}
    (hj : w.handlers j = none) {left : Handler} (hleft : World.detached h = some left) :
    ∃ ph', Inv { w.setProgram i h none with
      handlers := Function.update (w.setProgram i h none).handlers j (some left) } ph' := by
  obtain ⟨key, outcome, deliveryId, next, hp, rfl⟩ := detached_eq_some hleft
  have hready := ((hw.behaves i h hi).follows _ hp).1
  have hij : i ≠ j := by
    rintro rfl
    rw [hi] at hj
    cases hj
  have hwhoj : w.who j = none := by rw [World.who, hj, Option.map_none]
  have hjoined := hw.consistent.join hwhoj ⟨h.ownerId, h.jobId, false⟩
    (fun _ _ _ _ hactive => by cases hactive)
  have hwhoi : Function.update w.who j (some ⟨h.ownerId, h.jobId, false⟩) i =
      some ⟨h.ownerId, h.jobId, h.active⟩ := by
    rw [Function.update_of_ne hij]
    exact who_eq hi
  have hphase : ph i key = .reserved ∨ ph i key = .spent :=
    hready.elim (fun hreserved => .inl hreserved.1) fun hspent => .inr hspent.1
  have hhanded := hjoined.handOver hwhoi (Function.update_self ..) rfl rfl hphase
  have hended : (w.setProgram i h none).who = w.who := by
    rw [who_update (w := w) rfl]
    exact (Function.update_eq_self_iff ..).mpr (who_eq hi).symm
  refine ⟨Function.update (Function.update ph i .idle) j
    (Phases.idle.setAll [key] (ph i key)), ?_, ?_⟩
  · rw [who_update (w := w.setProgram i h none) rfl, hended]
    exact hhanded
  · refine behaves_update (behaves_update hw.behaves (behaves_none h)) ⟨?_, nofun, ?_⟩
    · intro p hq
      obtain rfl := Option.some.inj hq
      refine ⟨?_, fun _ => trivial⟩
      simpa only [protocol, allows, Phases.setAll_of_mem (List.mem_singleton.mpr rfl)] using hready
    · intro _
      exact .inr (.inr ⟨key, outcome, deliveryId, rfl⟩)

end Lifecycle

section Runs

variable {w w' : World τ} {ph : Nat → Phases}

omit [LinearOrder τ] [Add τ] [Zero τ] in
theorem inv_initial : Inv (World.initial : World τ) fun _ => .idle := by
  refine ⟨?_, nofun⟩
  constructor
  case once =>
    intro job key
    exact Nat.zero_le 1
  case kept =>
    intro job key hsent
    exact absurd rfl hsent
  case sent_row =>
    intro job key hsent
    exact absurd rfl hsent
  all_goals intros; first | rfl | contradiction

/-- Every allowed action keeps the invariant. -/
theorem inv_step (sha256 : String → String) {a : Action τ} (hw : Inv w ph)
    (hallowed : w.Allowed a) (hstep : World.step sha256 w a = some w') : ∃ ph', Inv w' ph' := by
  cases a with
  | store op =>
    obtain rfl := Option.some.inj hstep
    obtain ⟨hreserved, hfinalize, hclaims⟩ := hallowed
    refine ⟨ph, ?_, hw.behaves⟩
    refine hw.consistent.storeCall hreserved hfinalize ?_
    intro i a hi hactive hclaim
    obtain ⟨h, hh, rfl⟩ := Option.map_eq_some_iff.mp hi
    exact hclaims h.ownerId h.jobId hclaim i h hh hactive ⟨rfl, rfl⟩
  | startHandler i ownerId jobId =>
    simp only [World.step] at hstep
    split at hstep
    · cases hstep
    · rename_i hnone
      obtain rfl := Option.some.inj hstep
      exact ⟨ph, inv_startHandler hw (by simpa using hnone) ownerId jobId hallowed⟩
  | deliver i d request media target operationKey options =>
    obtain ⟨h, hi, hstep⟩ := Option.bind_eq_some_iff.mp hstep
    split at hstep
    · rename_i hready
      obtain rfl := Option.some.inj hstep
      simp only [Bool.and_eq_true, Option.isNone_iff_eq_none] at hready
      exact inv_begin hw hi hready.1 hready.2
        (follows_deliver d request sha256 hallowed target operationKey options)
    · cases hstep
  | retryFailed i d request receipt media target operationKey options =>
    obtain ⟨h, hi, hstep⟩ := Option.bind_eq_some_iff.mp hstep
    split at hstep
    · rename_i hready
      obtain rfl := Option.some.inj hstep
      simp only [Bool.and_eq_true, Option.isNone_iff_eq_none] at hready
      exact inv_begin hw hi hready.1 hready.2
        (follows_retryFailed d request sha256 receipt hallowed target operationKey options)
    · cases hstep
  | resume i now sqlFails dbError answer =>
    obtain ⟨h, hi, hstep⟩ := Option.bind_eq_some_iff.mp hstep
    split at hstep
    · rename_i effect next hp
      obtain rfl := Option.some.inj hstep
      exact inv_perform hw hi hp now sqlFails dbError answer
    · obtain rfl := Option.some.inj hstep
      exact inv_end hw hi
    · cases hstep
  | cancel i detach =>
    obtain ⟨h, hi, hstep⟩ := Option.bind_eq_some_iff.mp hstep
    cases detach with
    | none =>
      obtain rfl := Option.some.inj hstep
      exact inv_end hw hi
    | some j =>
      cases hleft : World.detached h with
      | none =>
        rw [hleft] at hstep
        obtain rfl := Option.some.inj hstep
        exact inv_end hw hi
      | some left =>
        rw [hleft] at hstep
        dsimp only at hstep
        split at hstep
        · cases hstep
        · rename_i hnone
          obtain rfl := Option.some.inj hstep
          exact inv_detach hw hi (by simpa using hnone) hleft
  | stop i =>
    obtain ⟨h, hi, rfl⟩ := Option.map_eq_some_iff.mp hstep
    exact inv_stop hw hi

theorem inv_run (sha256 : String → String) {actions : List (Action τ)}
    (hallowed : (World.machine sha256).Admits World.Allowed World.initial actions)
    (hrun : (World.machine sha256).run World.initial actions = some w) : ∃ ph, Inv w ph := by
  refine (World.machine sha256).invariant_of_admits (I := fun w => ∃ ph, Inv w ph) ?_
    ⟨fun _ => .idle, inv_initial⟩ hallowed hrun
  rintro s a s' ⟨ph, hs⟩ ha hstep
  exact inv_step sha256 hs ha hstep

end Runs

/-- Through any interleaving of owners, crashes and cancelled calls, at most one attempt to send
an item does not end as failed, and a send begins only after its handler reserved the item, whose
receipt then still says `uncertain`. -/
theorem sent_at_most_once (sha256 : String → String) (actions : List (Action τ)) (w : World τ)
    (hallowed : (World.machine sha256).Admits World.Allowed World.initial actions)
    (hrun : (World.machine sha256).run World.initial actions = some w) :
    (∀ jobId itemKey, (unfailed w.attempts jobId itemKey).length ≤ 1) ∧
    ∀ i h itemKeys method options next, w.handlers i = some h →
      h.program = some (.perform (.startSend itemKeys method options) next) →
      ∀ itemKey ∈ itemKeys, (i, itemKey) ∈ w.begun ∧
        ∃ d, w.store.deliveries.lookup (h.jobId, itemKey) = some d ∧ d.outcome = .uncertain ∧
          d.finalized = false := by
  obtain ⟨ph, hw⟩ := inv_run sha256 hallowed hrun
  refine ⟨hw.consistent.once, ?_⟩
  intro i h itemKeys method options next hi hp itemKey hmem
  have hreserved : ph i itemKey = .reserved := ((hw.behaves i h hi).follows _ hp).1.2 itemKey hmem
  have hheld : (ph i itemKey).held = true := by rw [hreserved]; rfl
  have hactive := hw.active hi hp (by simp)
  exact ⟨hw.consistent.begun i _ itemKey (who_eq hi) hactive hheld,
    hw.consistent.held i _ itemKey (who_eq hi) hheld⟩

/-- Everything outside the job store works. -/
def calm : (effect : Effect) → effect.Response
  | .deliveryOutcome _ => .ok none
  | .beginDeliveryAttempts _ => .ok true
  | .finalizeDeliveryAttempt _ _ _ => .ok true
  | .getDelivery _ => none
  | .putDelivery _ => ()
  | .evictDelivery _ => ()
  | .stat _ => .ok none
  | .openSource _ => .ok ()
  | .startSend _ _ _ => (0 : Nat)
  | .finishSend _ => .sent []

/-- A worker claims a job, reserves its only item, starts to send it and dies. -/
def crashedSend : List (Action ℕ) := [
  .store (.acceptUpdate [("update_id", .int 7)] 100 0),
  .store (.claimRecoverableJobs "worker" 1 60 1),
  .startHandler 0 "worker" "7",
  .deliver 0 ⟨false, none, false, 100, 100⟩ none
    [⟨⟨"clip", .video⟩, some (.bytes 10), none, none⟩] ⟨"chat"⟩ none ⟨"", none, none⟩,
  .resume 0 2 (fun _ => false) false calm,
  .resume 0 2 (fun _ => false) false calm,
  .resume 0 2 (fun _ => false) false calm,
  .resume 0 2 (fun _ => false) false calm,
  .stop 0]

theorem sent_at_most_once_crashed :
    ∃ w, (World.machine id).run World.initial crashedSend = some w ∧
      unfailed w.attempts "7" "chat:0:clip" = [⟨0, "7", "chat:0:clip", none⟩] ∧
      ∀ jobId itemKey, (unfailed w.attempts jobId itemKey).length ≤ 1 := by
  have hallowed : (World.machine id).Admits World.Allowed World.initial crashedSend := by
    have hreserved {s : Store ℕ} {op : Op ℕ}
        (hop : ∀ job outcome item delivery now, op ≠ .recordDelivery job outcome item delivery now) :
        JobStore.ReceiptsReserved s op :=
      fun job outcome item delivery now heq => absurd heq (hop job outcome item delivery now)
    refine Machine.admits_cons _ rfl ⟨hreserved nofun, nofun, ?_⟩ ?_
    · intro ownerId jobId _ i h hi
      cases hi
    refine Machine.admits_cons _ rfl ⟨hreserved nofun, nofun, ?_⟩ ?_
    · intro ownerId jobId _ i h hi
      cases hi
    refine Machine.admits_cons _ rfl ?_ ?_
    · intro i h hi
      cases hi
    refine Machine.admits_cons _ rfl (List.nodup_singleton 0) ?_
    exact ⟨trivial, fun _ _ => ⟨trivial, fun _ _ => ⟨trivial, fun _ _ => ⟨trivial, fun _ _ =>
      ⟨trivial, fun _ _ => trivial⟩⟩⟩⟩⟩
  refine ⟨_, rfl, rfl, ?_⟩
  exact (sent_at_most_once id crashedSend _ hallowed rfl).1

end YtdlBot.Delivery
