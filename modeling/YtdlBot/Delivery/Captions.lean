import YtdlBot.Delivery.Receipts
import YtdlBot.Framework.Machine

/-!
# Captions

The caption and the reply parameters belong to the first unit of a delivery. A session is one
`deliver` call and the `retry_failed` calls on its receipts, with the options of the first. A retry
starts over with these options, so it repeats the caption unless nothing before it was accepted
with it.
-/

namespace YtdlBot.Delivery

open Framework
open Framework.Program
open JobStore (StoreError)

/-- The caption or the reply parameters are among the options. -/
def SendOptions.marked (options : SendOptions) : Bool :=
  options.caption ≠ "" || options.replyParameters.isSome

/-- The Bot API calls of a session: the one in flight, and the answered ones. -/
structure Calls where
  inFlight : Option SendOptions
  answered : List (SendOptions × SendResult)
deriving DecidableEq

def nextCalls (calls : Calls) : (effect : Effect) → effect.Response → Calls
  | .startSend _ _ options, _ => { calls with inFlight := some options }
  | .finishSend _, result =>
    match calls.inFlight with
    | some options => ⟨none, (options, result) :: calls.answered⟩
    | none => calls
  | _, _ => calls

section Session

inductive Stage where
  | fresh
  | running (program : Coroutine DeliveryReceipt) (retried : Option DeliveryReceipt)
  | waiting
  /-- A call raised. -/
  | closed

structure Session where
  stage : Stage
  receipts : List DeliveryReceipt
  calls : Calls

def Session.initial : Session := ⟨.fresh, [], ⟨none, []⟩⟩

inductive SessionAction where
  | deliver (media : List DeliveryAsset)
  /-- Retry a receipt of the session. -/
  | retry (position : Nat) (media : List DeliveryAsset)
  /-- The awaited effect takes place and the call goes on. -/
  | resume (answer : (effect : Effect) → effect.Response)

variable (d : TelegramDelivery) (request : Option MediaRequest) (sha256 : String → String)
  (target : DeliveryTarget) (operationKey : Option String) (options : SendOptions)

namespace Session

def step (s : Session) : SessionAction → Option Session
  | .deliver media =>
    match s.stage with
    | .fresh =>
      some { s with
        stage := .running (Delivery.deliver d request sha256 media target operationKey options) none }
    | _ => none
  | .retry position media =>
    match s.stage, s.receipts[position]? with
    | .waiting, some receipt =>
      some { s with
        stage := .running (retryFailed d request sha256 receipt media target operationKey options)
          (some receipt) }
    | _, _ => none
  | .resume answer =>
    match s.stage with
    | .running (.perform effect next) retried =>
      some { s with
        stage := .running (next (answer effect)) retried
        calls := nextCalls s.calls effect (answer effect) }
    | .running (.pure receipt) none => some { s with stage := .waiting, receipts := [receipt] }
    | .running (.pure receipt) (some original) =>
      some { s with
        stage := .waiting
        receipts := mergeReceipts original receipt :: receipt :: s.receipts }
    | .running (.raise _) _ => some { s with stage := .closed }
    | _ => none

end Session

def session : Machine Session SessionAction :=
  ⟨Session.step d request sha256 target operationKey options⟩

end Session

section Once

variable (accepted : SendResult → Bool)

/-- Nothing was accepted with the caption or the reply parameters. -/
def Calls.Unused (calls : Calls) : Prop :=
  ∀ call ∈ calls.answered, call.1.marked = true → accepted call.2 = false

/-- At most one call was accepted with the caption or the reply parameters. -/
def Calls.Once (calls : Calls) : Prop :=
  (calls.answered.filter fun call => call.1.marked && accepted call.2).length ≤ 1

/-- One call at a time, and a marked one only while nothing was accepted with the mark. -/
def captionsAllow (calls : Calls) : Effect → Prop
  | .startSend _ _ options => calls.inFlight = none ∧ (options.marked = true → calls.Unused accepted)
  | _ => True

def captions : Protocol Effect Effect.Response Calls := ⟨captionsAllow accepted, nextCalls⟩

/-- What the calls of a session are like at any time. -/
structure Calls.Good (calls : Calls) : Prop where
  once : calls.Once accepted
  first : ∀ options, calls.inFlight = some options → options.marked = true → calls.Unused accepted

theorem good_next {calls : Calls} (h : calls.Good accepted) (effect : Effect)
    (response : effect.Response) (hallows : captionsAllow accepted calls effect) :
    (nextCalls calls effect response).Good accepted := by
  cases effect with
  | startSend keys method options =>
    refine ⟨h.once, fun started hstarted hmarked => ?_⟩
    obtain rfl := Option.some.inj hstarted
    exact hallows.2 hmarked
  | finishSend id =>
    unfold nextCalls
    cases hflight : calls.inFlight with
    | none => exact h
    | some options =>
      refine ⟨?_, fun _ hnone => nomatch hnone⟩
      by_cases hmarked : options.marked = true
      · -- The answered calls before this one carried nothing.
        have hunused := (h.first options hflight hmarked)
        have hnil : (calls.answered.filter fun call => call.1.marked && accepted call.2) = [] := by
          refine List.filter_eq_nil_iff.mpr fun call hcall hboth => ?_
          obtain ⟨hmarked', haccepted⟩ := Bool.and_eq_true_iff.mp hboth
          rw [hunused call hcall hmarked'] at haccepted
          cases haccepted
        rw [Calls.Once, List.filter_cons, hnil]
        split <;> simp
      · have hskip : (options.marked && accepted response) = false := by
          rw [Bool.eq_false_iff.mpr hmarked, Bool.false_and]
        rw [Calls.Once, List.filter_cons, hskip]
        exact h.once
  | deliveryOutcome _ | beginDeliveryAttempts _ | finalizeDeliveryAttempt _ _ _ | getDelivery _
  | putDelivery _ | evictDelivery _ | stat _ | openSource _ => exact h

end Once

section Calls

variable {accepted : SendResult → Bool}
  (haccepted : ∀ result, result.rejected = true → accepted result = false)
  (d : TelegramDelivery) (request : Option MediaRequest) (keyOf : DeliveryAsset → String)

/-- No call is in flight. -/
def Calls.Idle (calls : Calls) : Prop := calls.inFlight = none

theorem follows_unsent {α : Type} {p : Coroutine α} {Q : α → Prop} (h : Within Effect.Unsent p Q)
    (calls : Calls) :
    Follows (captions accepted) calls p fun value calls' => calls' = calls ∧ Q value := by
  refine h.follows calls fun effect heffect => ?_
  cases effect with
  | startSend _ _ _ | finishSend _ => cases heffect
  | deliveryOutcome _ | beginDeliveryAttempts _ | finalizeDeliveryAttempt _ _ _ | getDelivery _
  | putDelivery _ | evictDelivery _ | stat _ | openSource _ => exact ⟨trivial, fun _ => rfl⟩

theorem local_unsent {effect : Effect} (h : effect.Local) : effect.Unsent := by
  cases effect with
  | getDelivery _ | putDelivery _ | evictDelivery _ | stat _ | openSource _ => trivial
  | deliveryOutcome _ | beginDeliveryAttempts _ | finalizeDeliveryAttempt _ _ _ | startSend _ _ _
  | finishSend _ => cases h

theorem follows_localCalls {α : Type} {p : Coroutine α} {Q : α → Prop} (h : Within Effect.Local p Q)
    (calls : Calls) :
    Follows (captions accepted) calls p fun value calls' => calls' = calls ∧ Q value :=
  follows_unsent (h.widen fun _ => local_unsent) calls

/-- After a rejected call the caption is still to be delivered. -/
def Sent (accepted : SendResult → Bool) (options : SendOptions) (calls : Calls) (result : SendResult)
    (calls' : Calls) : Prop :=
  calls'.Idle ∧ (result.rejected = true → (options.marked = true → calls.Unused accepted) →
    options.marked = true → calls'.Unused accepted)

include haccepted in
theorem follows_sendCall {calls : Calls} (hidle : calls.Idle) (keys : List String) (method : String)
    {options : SendOptions} (hfirst : options.marked = true → calls.Unused accepted) :
    Follows (captions accepted) calls (send keys method options)
      (Sent accepted options calls) := by
  refine Follows.bind (Q := fun _ calls' => calls' = { calls with inFlight := some options }) ?_ ?_
  · exact follows_call (P := captions accepted) ⟨hidle, hfirst⟩ fun _ => rfl
  · rintro id calls' rfl
    refine follows_call (P := captions accepted) trivial fun result => ⟨rfl, ?_⟩
    intro hrejected _ hmarked call hcall hmarked'
    rcases List.mem_cons.mp hcall with rfl | hold
    · exact haccepted result hrejected
    · exact hfirst hmarked call hold hmarked'

theorem sent_unsent {calls : Calls} (hidle : calls.Idle) (options : SendOptions)
    (result : SendResult) : Sent accepted options calls result calls :=
  ⟨hidle, fun _ hfirst hmarked => hfirst hmarked⟩

include haccepted in
theorem follows_sendSingleCall {calls : Calls} (hidle : calls.Idle) (key : String)
    (prepared : PreparedAsset) {options : SendOptions}
    (hfirst : options.marked = true → calls.Unused accepted) :
    Follows (captions accepted) calls (sendSingle key prepared options)
      (Sent accepted options calls) := by
  unfold sendSingle
  cases sendMethod prepared.asset.item.kind with
  | none => exact follows_pure (sent_unsent hidle options _)
  | some method =>
    have hopen : Within Effect.Local (call (.openSource prepared.asset)) fun _ => True :=
      within_call trivial
    refine (follows_localCalls hopen calls).bind ?_
    rintro opened calls' ⟨rfl, -⟩
    cases opened with
    | error error => exact follows_pure (sent_unsent hidle options _)
    | ok u => exact follows_sendCall haccepted hidle _ _ hfirst

include haccepted in
theorem follows_sendGroupCall {calls : Calls} (hidle : calls.Idle) (keys : List String)
    (prepared : List PreparedAsset) {options : SendOptions}
    (hfirst : options.marked = true → calls.Unused accepted) :
    Follows (captions accepted) calls (sendGroup keys prepared options)
      (Sent accepted options calls) := by
  refine (follows_localCalls (within_openGroup prepared) calls).bind ?_
  rintro opened calls' ⟨rfl, -⟩
  cases opened with
  | some error => exact follows_pure (sent_unsent hidle options _)
  | none => exact follows_sendCall haccepted hidle _ _ hfirst

include haccepted in
theorem follows_deliverOneCall {calls : Calls} (hidle : calls.Idle) (asset : DeliveryAsset)
    {options : SendOptions} (hfirst : options.marked = true → calls.Unused accepted) :
    Follows (captions accepted) calls (deliverOne d request keyOf asset options)
      fun _ calls' => calls'.Idle := by
  have hfinish : ∀ result {calls : Calls}, calls.Idle →
      Follows (captions accepted) calls (finishOne d request asset result) fun _ calls' => calls'.Idle := by
    intro result calls hidle
    refine (follows_localCalls (within_finishOne d request asset result) calls).mono ?_
    rintro item calls' ⟨rfl, -⟩
    exact hidle
  refine (follows_localCalls (within_prepare d request false asset) calls).bind ?_
  rintro prepared calls₁ ⟨rfl, -⟩
  cases prepared with
  | inl item => exact follows_pure hidle
  | inr prepared =>
    refine (follows_sendSingleCall haccepted hidle _ prepared hfirst).bind ?_
    rintro result calls₂ ⟨hidle₂, hrejected⟩
    cases result with
    | badRequest error =>
      refine follows_ite (fun _ => ?_) fun _ => follows_pure hidle₂
      refine (follows_localCalls (within_evict d request asset) _).bind ?_
      rintro - calls₃ ⟨rfl, -⟩
      refine (follows_localCalls (within_prepare d request true asset) _).bind ?_
      rintro upload calls₄ ⟨rfl, -⟩
      cases upload with
      | inl item => exact follows_pure hidle₂
      | inr upload =>
        -- The call was rejected, so the second one may carry the caption too.
        refine (follows_sendSingleCall haccepted hidle₂ _ upload (hrejected rfl hfirst)).bind ?_
        rintro result calls₅ ⟨hidle₅, -⟩
        exact hfinish result hidle₅
    | sent messages => exact hfinish (.sent messages) hidle₂
    | retryAfter error => exact hfinish (.retryAfter error) hidle₂
    | networkError error => exact hfinish (.networkError error) hidle₂
    | otherError error => exact hfinish (.otherError error) hidle₂

include haccepted in
theorem follows_deliverGroupRoundCall {calls : Calls} (hidle : calls.Idle)
    (assets : List DeliveryAsset) {options : SendOptions}
    (hfirst : options.marked = true → calls.Unused accepted) (forceUpload : Bool)
    {again : Coroutine (List DeliveredItem)}
    (hagain : ∀ calls' : Calls, calls'.Idle → (options.marked = true → calls'.Unused accepted) →
      Follows (captions accepted) calls' again fun _ calls'' => calls''.Idle) :
    Follows (captions accepted) calls
      (deliverGroupRound d request keyOf assets options forceUpload again)
      fun _ calls' => calls'.Idle := by
  refine (follows_localCalls (within_prepareGroup d request forceUpload assets) calls).bind ?_
  rintro ⟨failures, prepared⟩ calls₁ ⟨rfl, -⟩
  refine follows_ite (fun _ => follows_pure hidle) fun _ => ?_
  refine (follows_sendGroupCall haccepted hidle _ prepared hfirst).bind ?_
  rintro result calls₂ ⟨hidle₂, hrejected⟩
  cases result with
  | sent messages =>
    refine (follows_localCalls (within_groupResults d request assets messages) _).mono ?_
    rintro items calls₃ ⟨rfl, -⟩
    exact hidle₂
  | badRequest error =>
    refine follows_ite (fun _ => ?_) fun _ => follows_pure hidle₂
    refine (follows_localCalls (within_evictGroup d request prepared) _).bind ?_
    rintro - calls₃ ⟨rfl, -⟩
    exact hagain _ hidle₂ (hrejected rfl hfirst)
  | retryAfter error | networkError error | otherError error => exact follows_pure hidle₂

include haccepted in
theorem follows_deliverUnitCall {calls : Calls} (hidle : calls.Idle) (unit : List DeliveryAsset)
    {options : SendOptions} (hfirst : options.marked = true → calls.Unused accepted) :
    Follows (captions accepted) calls (deliverUnit d request keyOf unit options)
      fun _ calls' => calls'.Idle := by
  have hgroup : Follows (captions accepted) calls (deliverGroup d request keyOf unit options)
      fun _ calls' => calls'.Idle :=
    follows_deliverGroupRoundCall haccepted d request keyOf hidle unit hfirst false
      fun _ hidle' hfirst' =>
        follows_deliverGroupRoundCall haccepted d request keyOf hidle' unit hfirst' true
          fun _ hidle'' _ => follows_pure hidle''
  match unit with
  | [] => exact hgroup
  | [asset] =>
    exact (follows_deliverOneCall haccepted d request keyOf hidle asset hfirst).bind
      fun _ _ hidle' => follows_pure hidle'
  | first :: second :: rest => exact hgroup

theorem unmarked_blank : (⟨"", none, none⟩ : SendOptions).marked = false := rfl

theorem recordUnit_unsent (pairs : List (DeliveryAsset × DeliveredItem)) (results : Results) :
    Within Effect.Unsent (recordUnit keyOf pairs results) fun _ => True := by
  induction pairs generalizing results with
  | nil => exact within_pure trivial
  | cons pair pairs ih => exact (within_recordCurrentDelivery _ _ _).bind fun _ _ => ih _

include haccepted in
/-- Only the first unit carries the caption. -/
theorem follows_deliverUnitsCall {calls : Calls} (hidle : calls.Idle) (options : SendOptions)
    (unitIndex : Nat) (units : List (List DeliveryAsset)) (results : Results)
    (hfirst : unitIndex = 0 → options.marked = true → calls.Unused accepted) :
    Follows (captions accepted) calls (deliverUnits d request keyOf options unitIndex units results)
      fun _ calls' => calls'.Idle := by
  induction units generalizing calls unitIndex results with
  | nil => exact follows_pure hidle
  | cons unit units ih =>
    refine (follows_unsent (within_beginCurrentDelivery _) calls).bind ?_
    rintro - calls₁ ⟨rfl, -⟩
    refine Follows.bind (Q := fun _ calls' => calls'.Idle) ?_ fun items calls₂ hidle₂ => ?_
    · refine follows_deliverUnitCall haccepted d request keyOf hidle unit fun hmarked => ?_
      by_cases hlater : unitIndex ≠ 0 ∨ results ≠ []
      · rw [if_pos hlater, unmarked_blank] at hmarked
        cases hmarked
      · rw [if_neg hlater] at hmarked
        rw [not_or, not_not] at hlater
        exact hfirst hlater.1 hmarked
    · refine Follows.bind (Q := fun _ calls' => calls' = calls₂) ?_ ?_
      · exact (follows_unsent (recordUnit_unsent keyOf _ _) calls₂).mono fun _ _ h => h.1
      · rintro results' calls₃ rfl
        exact ih hidle₂ (unitIndex + 1) results' fun hzero => nomatch hzero

include haccepted in
theorem follows_deliverCall {calls : Calls} (hidle : calls.Idle) (sha256 : String → String)
    (media : List DeliveryAsset) (target : DeliveryTarget) (operationKey : Option String)
    {options : SendOptions} (hfirst : options.marked = true → calls.Unused accepted) :
    Follows (captions accepted) calls (deliver d request sha256 media target operationKey options)
      fun _ calls' => calls'.Idle := by
  refine follows_ite (fun _ => follows_pure hidle) fun _ => ?_
  have hnil : Recorded (durableItemKey sha256 target request operationKey) [] :=
    fun _ h => nomatch h
  refine (follows_unsent (within_priorOutcomes _ _ hnil) calls).bind ?_
  rintro ⟨results, pending⟩ calls₁ ⟨rfl, -⟩
  refine (follows_deliverUnitsCall haccepted d request _ hidle options 0 _ results
    fun _ => hfirst).bind fun _ _ hidle' => follows_pure hidle'

theorem follows_retryNothing {calls : Calls} (hidle : calls.Idle) (sha256 : String → String)
    {receipt : DeliveryReceipt} {media : List DeliveryAsset} (target : DeliveryTarget)
    (operationKey : Option String) (options : SendOptions)
    (hnone : ∀ asset ∈ normalizeAssets media,
      asset.index ∉ receipt.retryableItems.map DeliveredItem.itemIndex) :
    Follows (captions accepted) calls
      (retryFailed d request sha256 receipt media target operationKey options)
      fun _ calls' => calls'.Idle := by
  have hnil : (normalizeAssets media).filter (fun asset =>
      asset.index ∈ receipt.retryableItems.map DeliveredItem.itemIndex) = [] :=
    List.filter_eq_nil_iff.mpr fun asset hasset hfailed =>
      hnone asset hasset (of_decide_eq_true hfailed)
  simp only [retryFailed, hnil]
  exact follows_pure hidle

end Calls

section Run

variable (accepted : SendResult → Bool) (d : TelegramDelivery) (request : Option MediaRequest)
  (sha256 : String → String) (target : DeliveryTarget) (operationKey : Option String)
  (options : SendOptions)

/-- A retry is taken only without caption and reply parameters, while nothing was accepted with
them, or when there is nothing to retry. -/
def Session.Unrepeated (s : Session) : SessionAction → Prop
  | .retry position media =>
    options.marked = false ∨ s.calls.Unused accepted ∨
      ∀ receipt ∈ s.receipts[position]?, ∀ asset ∈ normalizeAssets media,
        asset.index ∉ receipt.retryableItems.map DeliveredItem.itemIndex
  | _ => True

/-- The call in progress follows the protocol. -/
def Stage.Follows (calls : Calls) : Stage → Prop
  | .fresh => calls = ⟨none, []⟩
  | .running program _ => Program.Follows (captions accepted) calls program fun _ calls' => calls'.Idle
  | .waiting => calls.Idle
  | .closed => True

structure Session.Good (s : Session) : Prop where
  calls : s.calls.Good accepted
  stage : s.stage.Follows accepted s.calls

variable {accepted} (haccepted : ∀ result, result.rejected = true → accepted result = false)

include haccepted in
theorem good_step {s s' : Session} {action : SessionAction} (h : s.Good accepted)
    (hrepeat : s.Unrepeated accepted options action)
    (hstep : s.step d request sha256 target operationKey options action = some s') :
    s'.Good accepted := by
  cases action with
  | deliver media =>
    cases hstage : s.stage with
    | fresh =>
      have hcalls := h.stage
      rw [hstage] at hcalls
      simp only [Session.step, hstage] at hstep
      obtain rfl := Option.some.inj hstep
      refine ⟨h.calls, follows_deliverCall haccepted d request ?_ _ _ _ _ fun _ => ?_⟩
      · rw [hcalls]
        rfl
      · rw [hcalls]
        exact fun _ hcall => nomatch hcall
    | running _ _ | waiting | closed =>
      simp only [Session.step, hstage] at hstep
      cases hstep
  | retry position media =>
    cases hstage : s.stage with
    | waiting =>
      cases hreceipt : s.receipts[position]? with
      | none =>
        simp only [Session.step, hstage, hreceipt] at hstep
        cases hstep
      | some receipt =>
        have hidle := h.stage
        rw [hstage] at hidle
        simp only [Session.step, hstage, hreceipt] at hstep
        obtain rfl := Option.some.inj hstep
        refine ⟨h.calls, ?_⟩
        rcases hrepeat with hunmarked | hunused | hnothing
        · refine follows_deliverCall haccepted d request hidle _ _ _ _ fun hmarked => ?_
          rw [hunmarked] at hmarked
          cases hmarked
        · exact follows_deliverCall haccepted d request hidle _ _ _ _ fun _ => hunused
        · exact follows_retryNothing d request hidle _ _ _ _ (hnothing receipt hreceipt)
    | fresh | running _ _ | closed =>
      simp only [Session.step, hstage] at hstep
      cases hstep
  | resume answer =>
    cases hstage : s.stage with
    | running program retried =>
      have hprogram := h.stage
      rw [hstage] at hprogram
      cases program with
      | perform effect next =>
        simp only [Session.step, hstage] at hstep
        obtain rfl := Option.some.inj hstep
        exact ⟨good_next accepted h.calls effect _ hprogram.1, hprogram.2 _⟩
      | raise error =>
        simp only [Session.step, hstage] at hstep
        obtain rfl := Option.some.inj hstep
        exact ⟨h.calls, trivial⟩
      | pure receipt =>
        cases retried with
        | none =>
          simp only [Session.step, hstage] at hstep
          obtain rfl := Option.some.inj hstep
          exact ⟨h.calls, hprogram⟩
        | some original =>
          simp only [Session.step, hstage] at hstep
          obtain rfl := Option.some.inj hstep
          exact ⟨h.calls, hprogram⟩
    | fresh | waiting | closed =>
      simp only [Session.step, hstage] at hstep
      cases hstep

/-- While no retry repeats an accepted caption, one call at most carries it. -/
theorem caption_once {actions : List SessionAction} {s : Session}
    (hadmits : (session d request sha256 target operationKey options).Admits
      (Session.Unrepeated accepted options) Session.initial actions)
    (haccepted : ∀ result, result.rejected = true → accepted result = false)
    (hrun : (session d request sha256 target operationKey options).run Session.initial actions =
      some s) : s.calls.Once accepted := by
  have hinitial : Session.initial.Good accepted :=
    ⟨⟨Nat.zero_le 1, fun _ hnone => nomatch hnone⟩, rfl⟩
  have hgood := Machine.invariant_of_admits _ (I := Session.Good accepted)
    (fun _ _ _ hgood hrepeat => good_step d request sha256 target operationKey options haccepted
      hgood hrepeat) hinitial hadmits hrun
  exact hgood.calls.once

instance (calls : Calls) : Decidable (calls.Unused accepted) :=
  inferInstanceAs (Decidable (∀ call ∈ calls.answered, call.1.marked = true → accepted call.2 = false))

instance (s : Session) : (action : SessionAction) → Decidable (s.Unrepeated accepted options action)
  | .deliver _ => isTrue trivial
  | .resume _ => isTrue trivial
  | .retry position media =>
    inferInstanceAs (Decidable (options.marked = false ∨ s.calls.Unused accepted ∨
      ∀ receipt ∈ s.receipts[position]?, ∀ asset ∈ normalizeAssets media,
        asset.index ∉ receipt.retryableItems.map DeliveredItem.itemIndex))

end Run

section Example

def SendResult.delivered : SendResult → Bool
  | .sent _ => true
  | _ => false

/-- Everything succeeds, and every call ends with `result`. -/
def answering (result : SendResult) : (effect : Effect) → effect.Response
  | .deliveryOutcome _ => .ok none
  | .beginDeliveryAttempts _ => .ok true
  | .finalizeDeliveryAttempt _ _ _ => .ok true
  | .getDelivery _ => none
  | .putDelivery _ => ()
  | .evictDelivery _ => ()
  | .stat _ => .ok (some 10)
  | .openSource _ => .ok ()
  | .startSend _ _ _ => (0 : Nat)
  | .finishSend _ => result

def photoAsset : DeliveryAsset := ⟨⟨"a", .photo⟩, some (.bytes 10), some 0, some 10⟩

def animationAsset : DeliveryAsset := ⟨⟨"b", .animation⟩, some (.bytes 10), some 1, some 10⟩

def captioned : Machine Session SessionAction :=
  session ⟨false, none, true, 2000, 50⟩ none id ⟨"100"⟩ none ⟨"caption", none, some "reply to 7"⟩

def floodThenRetry : List SessionAction :=
  .deliver [photoAsset] :: List.replicate 7 (.resume (answering (.retryAfter "flood"))) ++
    .retry 0 [photoAsset] :: List.replicate 7 (.resume (answering (.sent [⟨some 8, none, none⟩])))

/-- Witness: a photo that was rejected and then sent. -/
theorem caption_once_flood :
    ∃ s, captioned.run .initial floodThenRetry = some s ∧ s.calls.Once SendResult.delivered := by
  have hsome : (captioned.run .initial floodThenRetry).isSome = true := by decide +kernel
  obtain ⟨s, hrun⟩ := Option.isSome_iff_exists.mp hsome
  refine ⟨s, hrun, caption_once _ _ _ _ _ _ ?_ (fun result h => ?_) hrun⟩
  · decide +kernel
  · cases result with
    | sent messages => cases h
    | retryAfter _ | badRequest _ | networkError _ | otherError _ => rfl

def photoThenAnimation : List SessionAction :=
  .deliver [photoAsset, animationAsset] ::
    List.replicate 7 (.resume (answering (.sent [⟨some 7, none, none⟩]))) ++
    List.replicate 6 (.resume (answering (.retryAfter "flood"))) ++
    .retry 0 [photoAsset, animationAsset] ::
      List.replicate 7 (.resume (answering (.sent [⟨some 8, none, none⟩])))

/-- The animation comes with the caption and the reply parameters of the photo. -/
theorem caption_repeated :
    ∃ s, captioned.run .initial photoThenAnimation = some s ∧
      (s.calls.answered.filter fun call => call.1.caption ≠ "" && call.1.replyParameters.isSome &&
        call.2.delivered).length = 2 := by
  have hrun : (captioned.run .initial photoThenAnimation).any (fun s => decide
      ((s.calls.answered.filter fun call => call.1.caption ≠ "" && call.1.replyParameters.isSome &&
        call.2.delivered).length = 2)) = true := by decide +kernel
  obtain ⟨s, hs, htwo⟩ := (Option.any_eq_true _ _).mp hrun
  exact ⟨s, hs, of_decide_eq_true htwo⟩

end Example

end YtdlBot.Delivery
