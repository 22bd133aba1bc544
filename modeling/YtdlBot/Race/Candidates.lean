import Mathlib.Algebra.Order.Ring.Rat
import YtdlBot.Framework.Machine
import YtdlBot.Race.CircuitBreaker

/-!
# The race of providers

`race_candidates`: two workers share a heap of cheap routes and scheduled retries, one worker tries
the heavy routes, and the first usable candidate ends the race. Eligible routes are numbered. A
worker runs alone from one `await` to the next, but every reading of the clock may be later than
the one before. Whether a route is available, and whether its breaker admits an attempt, is up to
the environment.
-/

namespace YtdlBot.Race.Candidates

open Framework

/-- `retry_after`: absent, a number of seconds, or an infinity or NaN. -/
inductive RetryAfter where
  | absent
  | seconds (seconds : Rat)
  | notFinite
deriving DecidableEq

structure ProviderError where
  kind : FailureKind
  message : String
  retryAfter : RetryAfter
deriving DecidableEq

/-- What the task of `route.provider.resolve(request)` has come to when `_resolve` looks at it. -/
inductive Behaviour (κ : Type) where
  | returns (candidates : List κ)
  | providerError (error : ProviderError)
  /-- Another `Exception`. -/
  | raises (message : String)
  | stillRunning

variable {κ : Type}

/-- `_resolve` -/
def resolve : Behaviour κ → Except ProviderError (List κ)
  | .returns candidates => .ok candidates
  | .providerError error => .error error
  | .raises message => .error ⟨.internal, message, .absent⟩
  | .stillRunning => .error ⟨.transient, "provider resolve timeout", .absent⟩

/-- A route with the number of the attempt. -/
structure Job where
  route : Nat
  attemptNumber : Nat
deriving DecidableEq

/-- An entry of the heap. -/
structure Entry where
  readyAt : Rat
  order : Nat
  route : Nat
  attemptNumber : Nat
deriving DecidableEq

def Entry.job (e : Entry) : Job := ⟨e.route, e.attemptNumber⟩

def Entry.before (a b : Entry) : Bool :=
  decide (a.readyAt < b.readyAt ∨ (a.readyAt = b.readyAt ∧ a.order ≤ b.order))

/-- The first entry, and the others. -/
def heappop : List Entry → Option (Entry × List Entry)
  | [] => none
  | e :: heap =>
    match heappop heap with
    | none => some (e, heap)
    | some (first, rest) => if e.before first then some (e, heap) else some (first, e :: rest)

structure CandidateWinner (κ : Type) where
  provider : String
  candidate : κ
  alternatives : List κ
deriving DecidableEq

/-- `finished` -/
inductive Verdict (κ : Type) where
  | winner (winner : CandidateWinner κ)
  /-- `set_result(None)`. -/
  | nobody
  | cancelled
deriving DecidableEq

/-- Where a worker is. -/
inductive Phase (κ : Type) where
  | created
  /-- The heavy worker sleeps before its first route. -/
  | delaying
  /-- At the head of its loop. -/
  | head
  /-- A popped entry that may have to wait. -/
  | due (entry : Entry)
  | sleeping (entry : Entry)
  /-- In `attempt_route` before the route is admitted. -/
  | admitting (job : Job)
  /-- In `_resolve`, which has yet to leave its group when the provider's task is over. -/
  | resolving (job : Job) (outcome : Option (Except ProviderError (List κ)))
  | failed (job : Job) (error : ProviderError)
  | answered (job : Job) (candidates : List κ)
  /-- `attempt_route` has returned, with the delay of a retry. -/
  | returned (job : Job) (retry : Option Rat)
  | ended
deriving DecidableEq

/-- At an `await`, not started, or through. -/
def Phase.awaiting : Phase κ → Bool
  | .created | .delaying | .sleeping _ | .resolving _ _ | .ended => true
  | _ => false

/-- The route a worker is busy with. -/
def Phase.job : Phase κ → Option Job
  | .due entry | .sleeping entry => some entry.job
  | .admitting job | .resolving job _ | .failed job _ | .answered job _ | .returned job _ => some job
  | .created | .delaying | .head | .ended => none

/-- The provider's answer that a worker has yet to take in. -/
def Phase.answer : Phase κ → Option (Nat × List κ)
  | .resolving job (some (.ok candidates)) | .answered job candidates => some (job.route, candidates)
  | _ => none

structure ProviderFailure where
  job : Job
  time : Rat
  provider : String
  error : ProviderError

structure Admission where
  job : Job
  time : Rat

/-- An entry of `validated`. -/
structure Validated (κ : Type) where
  position : Nat
  index : Nat
  provider : String
  candidate : κ

/-- Where `race_candidates` itself is. -/
inductive Main where
  /-- In `await finished`. -/
  | awaiting
  /-- The tasks are cancelled, and the group joins them. -/
  | leaving (cancelled : Bool)
  | returned
  | raised
deriving DecidableEq

/-- The eligible routes, with the identities of the route objects, and the times of the race. -/
structure Settings (κ : Type) where
  count : Nat
  heavy : Nat → Bool
  provider : Nat → String
  identity : Nat → Nat
  started : Rat
  deadline : Rat
  heavyDelay : Rat
  validate : κ → Bool

namespace Settings

variable (c : Settings κ)

def cheapRoutes : List Nat := (List.range c.count).filter fun i => !c.heavy i

def heavyRoutes : List Nat := (List.range c.count).filter c.heavy

def cheapCount : Nat := min 2 c.cheapRoutes.length

/-- The heavy worker comes after the cheap ones. -/
def heavyWorker : Nat := c.cheapCount

/-- `route_positions[id(route)]`: of equal keys the last one counts. -/
def position (i : Nat) : Nat :=
  (((List.range c.count).filter fun j => c.identity j = c.identity i).getLast?).getD i

/-- The usable candidates of an answer, as they are entered in `validated`. -/
def entries (i : Nat) (candidates : List κ) : List (Validated κ) :=
  (candidates.filter c.validate).zipIdx.map fun x => ⟨c.position i, x.2, c.provider i, x.1⟩

end Settings

/-- The local variables of `race_candidates`, and the history of admissions, of routes that were
not available in their turn, of the providers' answers, of those that `_resolve` has returned, and
of those that were dropped with a cancelled `_resolve`. -/
structure State (κ : Type) where
  now : Rat
  cheap : List Entry
  retryOrder : Nat
  heavyLeft : List Nat
  workers : List (Phase κ)
  running : Option Nat
  pending : Nat
  finished : Option (Verdict κ)
  failures : List ProviderFailure
  rejections : List (String × κ)
  attemptedProviders : List String
  validated : List (Validated κ)
  main : Main
  admitted : List Admission
  unavailable : List Nat
  answers : List (Nat × List κ)
  received : List (Nat × List κ)
  dropped : List (Nat × List κ)

def retryDelays : List Rat := [1 / 2, 1]

/-- The delay before a retry; a server cannot ask for one that is not finite or negative. -/
def retryDelay (attemptNumber : Nat) : RetryAfter → Option Rat
  | .absent => retryDelays[attemptNumber]?
  | .notFinite => none
  | .seconds seconds =>
    if seconds < 0 then none else (retryDelays[attemptNumber]?).map fun delay => max delay seconds

/-- What `attempt_route` returns after a failure; `available` is what the route says then. -/
def retryOf (c : Settings κ) (job : Job) (error : ProviderError) (finished : Bool)
    (available : Bool) (now : Rat) : Option Rat :=
  if c.heavy job.route = false ∧ error.kind = .transient ∧
      job.attemptNumber < retryDelays.length ∧ finished = false ∧ available = true then
    (retryDelay job.attemptNumber error.retryAfter).filter fun delay =>
      decide (delay < c.deadline - now)
  else none

inductive Action (κ : Type) where
  | tick (now : Rat)
  | start (w : Nat)
  /-- The sleep of a worker is over. -/
  | wake (w : Nat)
  /-- `_resolve` looks at the provider's task. -/
  | answer (w : Nat) (behaviour : Behaviour κ)
  /-- The group of `_resolve` is left, and `_resolve` returns or raises. -/
  | joined (w : Nat)
  /-- The running worker goes on; `choice` says whether the route is available. -/
  | act (w : Nat) (choice : Bool)
  | expire
  /-- `await finished` returns. -/
  | resume
  /-- The caller cancels the race. -/
  | abort
  /-- A worker receives its cancellation. -/
  | cancel (w : Nat)
  /-- The task group is left. -/
  | leave

namespace State

def initial (c : Settings κ) : State κ where
  now := c.started
  cheap := c.cheapRoutes.map fun i => ⟨c.started, i, i, 0⟩
  retryOrder := c.count
  heavyLeft := c.heavyRoutes
  workers := List.replicate (c.cheapCount + if c.heavyRoutes = [] then 0 else 1) .created
  running := none
  pending := c.cheapCount + if c.heavyRoutes = [] then 0 else 1
  finished := none
  failures := []
  rejections := []
  attemptedProviders := []
  validated := []
  main := if c.count = 0 ∨ c.deadline ≤ c.started then .returned else .awaiting
  admitted := []
  unavailable := []
  answers := []
  received := []
  dropped := []

variable (s : State κ)

/-- The worker goes on running. -/
def go (w : Nat) (phase : Phase κ) : State κ :=
  { s with workers := s.workers.set w phase, running := some w }

/-- The worker awaits something. -/
def wait (w : Nat) (phase : Phase κ) : State κ :=
  { s with workers := s.workers.set w phase, running := none }

/-- The `finally` clause of a worker. -/
def finish (w : Nat) : State κ :=
  { s with
    workers := s.workers.set w .ended
    dropped := s.dropped ++ ((s.workers[w]?).bind Phase.answer).toList
    running := none
    pending := s.pending - 1
    finished := if s.pending - 1 = 0 ∧ s.finished.isNone then some .nobody else s.finished }

def startAttempt (c : Settings κ) (w : Nat) (job : Job) : State κ :=
  let s : State κ := { s with
    admitted := s.admitted ++ [⟨job, s.now⟩]
    attemptedProviders :=
      if c.provider job.route ∈ s.attemptedProviders then s.attemptedProviders
      else s.attemptedProviders ++ [c.provider job.route] }
  s.wait w (.resolving job none)

def fail (c : Settings κ) (w : Nat) (job : Job) (error : ProviderError) (available : Bool) : State κ :=
  let retry := retryOf c job error s.finished.isSome available s.now
  let s : State κ :=
    { s with failures := s.failures ++ [⟨job, s.now, c.provider job.route, error⟩] }
  s.go w (.returned job retry)

/-- The `else` clause of `attempt_route`. -/
def settle (c : Settings κ) (w : Nat) (job : Job) (candidates : List κ) : State κ :=
  let s : State κ := { s with
    received := s.received ++ [(job.route, candidates)]
    rejections := s.rejections ++ (candidates.filter fun candidate => !c.validate candidate).map
      fun candidate => (c.provider job.route, candidate)
    validated := s.validated ++ c.entries job.route candidates
    finished :=
      match candidates.filter c.validate with
      | [] => s.finished
      | first :: rest =>
        if s.finished.isNone ∧ s.now < c.deadline then
          some (.winner ⟨c.provider job.route, first, rest⟩)
        else s.finished }
  s.go w (.returned job none)

def push (w : Nat) (job : Job) (delay : Rat) : State κ :=
  let s : State κ := { s with
    cheap := ⟨s.now + delay, s.retryOrder, job.route, job.attemptNumber + 1⟩ :: s.cheap
    retryOrder := s.retryOrder + 1 }
  s.go w .head

/-- The running worker, up to its next reading of the clock or `await`. -/
def act (c : Settings κ) (w : Nat) (choice : Bool) : Option (State κ) :=
  match s.workers[w]? with
  | some .head =>
    if w = c.heavyWorker then
      match s.heavyLeft with
      | [] => some (s.finish w)
      | i :: rest => some (State.go { s with heavyLeft := rest } w (.admitting ⟨i, 0⟩))
    else
      match heappop s.cheap with
      | none => some (s.finish w)
      | some (e, rest) =>
        if s.finished.isSome ∨ c.deadline ≤ s.now then some (s.finish w)
        else some (State.go { s with cheap := rest } w (.due e))
  | some (.due e) =>
    if s.now < e.readyAt then some (s.wait w (.sleeping e)) else some (s.go w (.admitting e.job))
  | some (.admitting job) =>
    if s.finished.isNone ∧ s.now < c.deadline then
      if choice then some (s.startAttempt c w job)
      else some (State.go { s with unavailable := s.unavailable ++ [job.route] } w (.returned job none))
    else some (s.go w (.returned job none))
  | some (.failed job error) => some (s.fail c w job error choice)
  | some (.answered job candidates) => some (s.settle c w job candidates)
  | some (.returned job retry) =>
    if w = c.heavyWorker then
      if s.finished.isSome then some (s.finish w) else some (s.go w .head)
    else
      match retry with
      | none => some (s.go w .head)
      | some delay => some (s.push w job delay)
  | _ => none

/-- No worker runs, and the race goes on. -/
def Idle : Prop := s.running = none ∧ s.main = .awaiting

instance : Decidable s.Idle := inferInstanceAs (Decidable (_ ∧ _))

def step (c : Settings κ) : Action κ → Option (State κ)
  | .tick now => if s.now ≤ now then some { s with now := now } else none
  | .start w =>
    if s.Idle then
      match s.workers[w]? with
      | some .created => some (if w = c.heavyWorker then s.wait w .delaying else s.go w .head)
      | _ => none
    else none
  | .wake w =>
    if s.Idle then
      match s.workers[w]? with
      | some .delaying => if c.started + c.heavyDelay ≤ s.now then some (s.go w .head) else none
      | some (.sleeping e) => if e.readyAt ≤ s.now then some (s.go w (.admitting e.job)) else none
      | _ => none
    else none
  | .answer w behaviour =>
    if s.Idle then
      match s.workers[w]? with
      | some (.resolving job none) =>
        let phase : Phase κ := .resolving job (some (resolve behaviour))
        some (State.wait { s with answers := s.answers ++ phase.answer.toList } w phase)
      | _ => none
    else none
  | .joined w =>
    if s.Idle then
      match s.workers[w]? with
      | some (.resolving job (some (.ok candidates))) => some (s.go w (.answered job candidates))
      | some (.resolving job (some (.error error))) => some (s.go w (.failed job error))
      | _ => none
    else none
  | .act w choice => if s.running = some w then s.act c w choice else none
  | .expire =>
    if s.Idle ∧ c.deadline ≤ s.now then some { s with finished := s.finished.or (some .nobody) }
    else none
  | .resume => if s.Idle ∧ s.finished.isSome then some { s with main := .leaving false } else none
  | .abort =>
    if s.Idle then
      some { s with main := .leaving true, finished := s.finished.or (some .cancelled) }
    else none
  | .cancel w =>
    if s.running = none then
      match s.main, s.workers[w]? with
      | .leaving _, some .created => some { s with workers := s.workers.set w .ended }
      | .leaving _, some .delaying => some (s.finish w)
      | .leaving _, some (.sleeping _) => some (s.finish w)
      | .leaving _, some (.resolving _ _) => some (s.finish w)
      | _, _ => none
    else none
  | .leave =>
    match s.main with
    | .leaving cancelled =>
      if ∀ phase ∈ s.workers, phase matches .ended then
        some { s with main := if cancelled then .raised else .returned }
      else none
    | _ => none

end State

def machine (c : Settings κ) : Machine (State κ) (Action κ) := ⟨fun s => s.step c⟩

/-- The order of `sorted(validated, key=lambda entry: entry[:2])`. -/
def Validated.before (a b : Validated κ) : Bool :=
  decide (a.position < b.position ∨ (a.position = b.position ∧ a.index ≤ b.index))

/-- The winner of the `RaceResult`, with its alternatives. -/
def State.winner [DecidableEq κ] (s : State κ) : Option (CandidateWinner κ) :=
  match s.finished with
  | some (.winner winner) =>
    let ordered := s.validated.mergeSort Validated.before
    let alternatives := (ordered.filter fun item =>
      !decide (item.provider = winner.provider ∧ item.candidate = winner.candidate)).map
        Validated.candidate
    some ⟨winner.provider, winner.candidate, alternatives⟩
  | _ => none

end YtdlBot.Race.Candidates
