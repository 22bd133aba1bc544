import YtdlBot.SingleFlight.Riding

/-!
# Shared materializations

`open_materialized`: the users of a key are counted in `_materialized_pending_users` until a
factory publishes its item, and in the published record from then on. Each locked block is one
step; every user runs its part of the single-flight group of the pipeline.
-/

namespace YtdlBot.Materialization

open Framework
open SingleFlight (Group Outcome)

/-- A completed item is named by the flight whose factory completed it. -/
abbrev Item := Nat

/-- `_ReadyMaterialization`. -/
structure ReadyMaterialization where
  item : Item
  users : Int

/-- Where an `open_materialized` context is. -/
inductive UserPhase where
  /-- Registered without an item, before `_materialize_flights.do`. -/
  | registered
  | flying (call : Nat)
  /-- The item is yielded. -/
  | inside
  /-- The task that releases the user has not taken the lock yet. -/
  | leaving
  | left
deriving DecidableEq

/-- `item` is the variable of that name in `open_materialized`. -/
structure User (κ : Type) where
  key : κ
  item : Option Item
  phase : UserPhase

/-- Where `materialize_once` is. -/
inductive FactoryPhase where
  /-- Resolving and materializing; a rejected item is released there and then. -/
  | working
  /-- A valid item, and `_store_metadata` is awaited. -/
  | completed
  /-- The item is released, the exception goes on. -/
  | raising
  /-- The task that publishes the item has not taken the lock yet. -/
  | publishing
  | published
deriving DecidableEq

/-- The parts of `MediaPipeline` that materializations share. `released` is the history of
`release(delete=True)` calls on completed items. -/
structure Pipeline (κ ε : Type) where
  materializeFlights : Group κ ε Item
  materializedReady : κ → Option ReadyMaterialization
  materializedPendingUsers : κ → Option Int
  users : List (User κ)
  factories : Nat → FactoryPhase
  released : List Item

inductive Action (κ ε : Type) where
  | register (key : κ)
  /-- The locked block of `do`. -/
  | join (u : Nat)
  /-- An exception before the user subscribes. -/
  | abort (u : Nat)
  | wake (u : Nat)
  /-- The user is cancelled inside `do`. -/
  | cancel (u : Nat)
  | unsubscribe (u : Nat)
  | unwound (u : Nat)
  /-- `do` returns or raises. -/
  | return (u : Nat)
  /-- The context is left, for any reason. -/
  | leave (u : Nat)
  /-- The locked block of `_release_materialization_user`, and the release it decides on. -/
  | releaseUser (u : Nat)
  | start (f : Nat)
  | complete (f : Nat)
  /-- `_store_metadata` raises or is cancelled. -/
  | discard (f : Nat)
  | beginPublish (f : Nat)
  /-- The locked block of `_publish_materialization`. -/
  | publish (f : Nat)
  /-- The factory returns its item, or raises the cancellation that arrived meanwhile. -/
  | finish (f : Nat) (cancellation : Bool)
  /-- The factory raises without having published. -/
  | fail (f : Nat) (error : Option ε)

namespace Pipeline

variable {κ ε : Type} [DecidableEq κ]

def initial : Pipeline κ ε :=
  ⟨Group.initial, fun _ => none, fun _ => none, [], fun _ => .working, []⟩

def setUser (s : Pipeline κ ε) (u : Nat) (user : User κ) : Pipeline κ ε :=
  { s with users := s.users.set u user }

def setFactory (s : Pipeline κ ε) (f : Nat) (phase : FactoryPhase) : Pipeline κ ε :=
  { s with factories := Function.update s.factories f phase }

/-- `_register_materialization_user`. -/
def registerMaterializationUser (s : Pipeline κ ε) (key : κ) : Pipeline κ ε :=
  match s.materializedReady key with
  | some ready =>
    { s with
      materializedReady := Function.update s.materializedReady key
        (some { ready with users := ready.users + 1 })
      users := s.users ++ [⟨key, some ready.item, .inside⟩] }
  | none =>
    { s with
      materializedPendingUsers := Function.update s.materializedPendingUsers key
        (some ((s.materializedPendingUsers key).getD 0 + 1))
      users := s.users ++ [⟨key, none, .registered⟩] }

/-- `_publish_materialization`. -/
def publishMaterialization (s : Pipeline κ ε) (key : κ) (item : Item) : Pipeline κ ε :=
  if (s.materializedReady key).isSome then s
  else
    let users := (s.materializedPendingUsers key).getD 0
    { s with
      materializedPendingUsers := Function.update s.materializedPendingUsers key none
      materializedReady := Function.update s.materializedReady key (some ⟨item, users⟩) }

/-- `_release_materialization_user`. -/
def releaseMaterializationUser (s : Pipeline κ ε) (key : κ) : Pipeline κ ε :=
  match s.materializedReady key with
  | none =>
    let pending := (s.materializedPendingUsers key).getD 0 - 1
    { s with
      materializedPendingUsers := Function.update s.materializedPendingUsers key
        (if 0 < pending then some pending else none) }
  | some ready =>
    let users := ready.users - 1
    if users ≤ 0 then
      { s with
        materializedReady := Function.update s.materializedReady key none
        released := ready.item :: s.released }
    else
      { s with
        materializedReady := Function.update s.materializedReady key
          (some { ready with users := users }) }

/-- A step of the single-flight group for the call of user `u`. -/
def ride (s : Pipeline κ ε) (u : Nat) (action : Nat → SingleFlight.Action κ ε Item) :
    Option (Pipeline κ ε) :=
  s.users[u]?.bind fun user =>
    match user.phase with
    | .flying call =>
      (s.materializeFlights.step (action call)).map fun g => { s with materializeFlights := g }
    | _ => none

def key? (s : Pipeline κ ε) (f : Nat) : Option κ :=
  (s.materializeFlights.status f).map Prod.fst

/-- The factory of flight `f` is inside its coroutine. -/
def running (s : Pipeline κ ε) (f : Nat) : Bool :=
  (s.materializeFlights.status f).any fun status =>
    match status.2 with
    | .running => true
    | _ => false

def step (s : Pipeline κ ε) : Action κ ε → Option (Pipeline κ ε)
  | .register key => some (s.registerMaterializationUser key)
  | .join u =>
    s.users[u]?.bind fun user =>
      if user.phase = .registered then
        some { s.setUser u { user with phase := .flying s.materializeFlights.calls.length } with
          materializeFlights := s.materializeFlights.subscribe user.key }
      else none
  | .abort u =>
    s.users[u]?.bind fun user =>
      if user.phase = .registered then some (s.setUser u { user with phase := .leaving }) else none
  | .wake u => s.ride u .wake
  | .cancel u => s.ride u .cancel
  | .unsubscribe u => s.ride u .unsubscribe
  | .unwound u => s.ride u .unwound
  | .return u =>
    s.users[u]?.bind fun user =>
      match user.phase with
      | .flying call =>
        (s.materializeFlights.step (.return call)).map fun g =>
          let user := match g.calls[call]?.map SingleFlight.Call.phase with
            | some (.ended (.value item)) => { user with item := some item, phase := .inside }
            | _ => { user with phase := .leaving }
          { s.setUser u user with materializeFlights := g }
      | _ => none
  | .leave u =>
    s.users[u]?.bind fun user =>
      if user.phase = .inside then some (s.setUser u { user with phase := .leaving }) else none
  | .releaseUser u =>
    s.users[u]?.bind fun user =>
      if user.phase = .leaving then
        some ((s.releaseMaterializationUser user.key).setUser u { user with phase := .left })
      else none
  | .start f =>
    (s.materializeFlights.step (.start f)).map fun g => { s with materializeFlights := g }
  | .complete f =>
    if s.running f ∧ s.factories f = .working then some (s.setFactory f .completed) else none
  | .discard f =>
    if s.factories f = .completed then
      some { s.setFactory f .raising with released := f :: s.released }
    else none
  | .beginPublish f =>
    if s.factories f = .completed then some (s.setFactory f .publishing) else none
  | .publish f =>
    (s.key? f).bind fun key =>
      if s.factories f = .publishing then
        some ((s.publishMaterialization key f).setFactory f .published)
      else none
  | .finish f cancellation =>
    if s.factories f = .published then
      (s.materializeFlights.step (.finish f (if cancellation then .cancelled else .value f))).map
        fun g => { s with materializeFlights := g }
    else none
  | .fail f error =>
    if s.factories f = .working ∨ s.factories f = .raising then
      (s.materializeFlights.step (.finish f ((error.map .error).getD .cancelled))).map fun g =>
        { s with materializeFlights := g }
    else none

def machine (κ ε : Type) [DecidableEq κ] : Machine (Pipeline κ ε) (Action κ ε) := ⟨step⟩

/-- What users rely on. -/
structure ReleasedOnce (s : Pipeline κ ε) : Prop where
  /-- A published item is not released twice. -/
  once : ∀ f, s.factories f = .published → s.released.count f ≤ 1
  /-- No item is released before every user that was given it has left. -/
  kept : ∀ user ∈ s.users, ∀ f, user.item = some f → user.phase ≠ .left → f ∉ s.released
  /-- Without users of a key its items are released and its tables empty. -/
  drained : ∀ key, (∀ user ∈ s.users, user.key = key → user.phase = .left) →
    s.materializedReady key = none ∧ s.materializedPendingUsers key = none ∧
      ∀ f, s.key? f = some key → s.factories f ≠ .completed ∧ s.factories f ≠ .publishing ∧
        (s.factories f = .published → s.released.count f = 1)

/-- No factory reaches its publication while an item of the same key is published. -/
def PublishesAlone (s : Pipeline κ ε) (a : Action κ ε) : Prop :=
  ∀ f key, a = .publish f → s.key? f = some key → s.materializedReady key = none

end Pipeline

end YtdlBot.Materialization
