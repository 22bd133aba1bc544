import Mathlib.Logic.Function.Basic
import Mathlib.Order.Lattice
import YtdlBot.Framework.Machine

/-!
# Circuit health of provider routes

Three transient failures in 60 s open a route for 300 s. After that one probe is admitted, whose
outcome closes the circuit or opens it again. The circuit keeps one flag for the probe.
-/

namespace YtdlBot.Race

open Framework

variable {τ : Type}

inductive FailureKind where
  | transient
  | auth
  | config
  | permanent
  | internal
deriving DecidableEq

/-- `_Circuit` -/
structure Circuit (τ : Type) where
  failures : List τ
  openUntil : Option τ
  probeInflight : Bool
  disabled : Bool
deriving DecidableEq

namespace Circuit

def default : Circuit τ := ⟨[], none, false, false⟩

variable [LinearOrder τ]

def isAvailable (c : Circuit τ) (now : τ) : Bool :=
  !c.disabled && !c.probeInflight && c.openUntil.all fun u => decide (u ≤ now)

def tryAcquire (c : Circuit τ) (now : τ) : Bool × Circuit τ :=
  if !c.isAvailable now then (false, c)
  else (true, if c.openUntil.isSome then { c with probeInflight := true } else c)

/-- Release a cancelled probe without declaring the route healthy. -/
def release (c : Circuit τ) : Circuit τ := { c with probeInflight := false }

def recordSuccess (c : Circuit τ) : Circuit τ :=
  if c.probeInflight then { c with openUntil := none, probeInflight := false, failures := [] }
  else c

/-- The failures of the last 60 s, this one included. -/
def recentFailures [Sub τ] [OfNat τ 60] (c : Circuit τ) (now : τ) : List τ :=
  c.failures.dropWhile (fun t => decide (t < now - 60)) ++ [now]

variable [Add τ] [Sub τ] [OfNat τ 60] [OfNat τ 300]

def recordFailure (c : Circuit τ) (kind : FailureKind) (now : τ) : Circuit τ :=
  let wasProbe := c.probeInflight
  let c := { c with probeInflight := false }
  match kind with
  | .auth | .config => { c with disabled := true }
  | .transient =>
    let failures := c.recentFailures now
    { c with
      failures := failures
      openUntil := if wasProbe || 3 ≤ failures.length then some (now + 300) else c.openUntil }
  | .permanent | .internal => c

/-- The cooldown is over and the circuit is not closed yet. -/
def halfOpen (c : Circuit τ) (now : τ) : Bool := c.openUntil.any fun u => decide (u ≤ now)

end Circuit

/-- How an admitted attempt ends: it reports exactly one of these. -/
inductive Outcome where
  | success
  | failure (kind : FailureKind)
  | release
deriving DecidableEq

def Outcome.report [LinearOrder τ] [Add τ] [Sub τ] [OfNat τ 60] [OfNat τ 300] (c : Circuit τ)
    (now : τ) : Outcome → Circuit τ
  | .success => c.recordSuccess
  | .failure kind => c.recordFailure kind now
  | .release => c.release

/-- A provider and a platform. -/
abbrev Route := String × String

/-- An admitted attempt, with how often its circuit had opened when it was admitted. -/
structure Attempt where
  route : Route
  openings : Nat
deriving DecidableEq

/-- The circuits of a breaker, how often each has opened, and the attempts in flight. A circuit that
nobody has asked for is the default one. -/
structure Breaker (τ : Type) where
  now : τ
  circuits : Route → Circuit τ
  openings : Route → Nat
  attempts : Nat → Option Attempt

inductive Action (τ : Type) where
  | tryAcquire (i : Nat) (route : Route)
  | finish (i : Nat) (outcome : Outcome)
  | tick (now : τ)
  | resetConfiguration
deriving DecidableEq

namespace Breaker

def initial (now : τ) : Breaker τ := ⟨now, fun _ => .default, fun _ => 0, fun _ => none⟩

variable [LinearOrder τ] [Add τ] [Sub τ] [OfNat τ 60] [OfNat τ 300]

/-- The circuit of a route becomes `c`; it opens if it was closed and `c` is not. -/
def setCircuit (b : Breaker τ) (route : Route) (c : Circuit τ) : Breaker τ :=
  { b with
    circuits := Function.update b.circuits route c
    openings := Function.update b.openings route
      (if (b.circuits route).openUntil.isNone && c.openUntil.isSome then b.openings route + 1
      else b.openings route) }

def setAttempt (b : Breaker τ) (i : Nat) (a : Option Attempt) : Breaker τ :=
  { b with attempts := Function.update b.attempts i a }

def step (b : Breaker τ) : Action τ → Option (Breaker τ)
  | .tryAcquire i route =>
    if (b.attempts i).isSome then none
    else
      let result := (b.circuits route).tryAcquire b.now
      let acquired := b.setCircuit route result.2
      some (if result.1 then acquired.setAttempt i (some ⟨route, b.openings route⟩) else acquired)
  | .finish i outcome =>
    (b.attempts i).map fun a =>
      (b.setCircuit a.route (outcome.report (b.circuits a.route) b.now)).setAttempt i none
  | .tick now => if b.now ≤ now then some { b with now := now } else none
  | .resetConfiguration =>
    some { b with circuits := fun route => { b.circuits route with disabled := false } }

def machine : Machine (Breaker τ) (Action τ) := ⟨step⟩

end Breaker

end YtdlBot.Race
