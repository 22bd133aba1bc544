import Mathlib.Init
import Mathlib.Logic.Basic

/-!
# Effectful programs and their protocols

A program performs effects and is resumed with a response, so its environment can interleave
anything between two effects. A protocol says which effects may be performed in which phase and
how the phase moves on; a program follows it when it does so under every response.
-/

namespace YtdlBot.Framework

universe u v

/-- A computation that performs effects `E`, is answered with `R`, and may raise. -/
inductive Program (ε : Type) (E : Type) (R : E → Type) (α : Type) where
  | pure (value : α)
  | raise (error : ε)
  | perform (effect : E) (next : R effect → Program ε E R α)

namespace Program

variable {ε E : Type} {R : E → Type} {α β γ : Type}

protected def bind : Program ε E R α → (α → Program ε E R β) → Program ε E R β
  | pure value, f => f value
  | raise error, _ => raise error
  | perform effect next, f => perform effect fun response => (next response).bind f

instance : Monad (Program ε E R) where
  pure := Program.pure
  bind := Program.bind

/-- Perform one effect. -/
def call (effect : E) : Program ε E R (R effect) := perform effect pure

/-- Perform an effect whose response may be an exception. -/
def attempt {ρ : Type} (effect : E) (result : R effect → Except ε ρ) : Program ε E R ρ :=
  perform effect fun response =>
    match result response with
    | .ok value => pure value
    | .error error => raise error

/-- A computed result, or what it raises. -/
def ofExcept : Except ε α → Program ε E R α
  | .ok value => pure value
  | .error error => raise error

/-- A trace of effects with their responses. -/
abbrev Trace (E : Type) (R : E → Type) := List ((effect : E) × R effect)

/-- The program can perform these effects first, with these responses. -/
inductive Performs : Program ε E R α → Trace E R → Prop where
  | stopped (p : Program ε E R α) : Performs p []
  | performed {effect : E} {next : R effect → Program ε E R α} {response : R effect}
      {trace : Trace E R} (h : Performs (next response) trace) :
      Performs (perform effect next) (⟨effect, response⟩ :: trace)

/-- When an effect is allowed and what phase a response leads to. -/
structure Protocol (E : Type) (R : E → Type) (G : Type) where
  allows : G → E → Prop
  next : G → (effect : E) → R effect → G

variable {G : Type} (P : Protocol E R G)

/-- From phase `g` the program performs only allowed effects, and returns only with `Q`. -/
def Follows (g : G) : Program ε E R α → (α → G → Prop) → Prop
  | pure value, Q => Q value g
  | raise _, _ => True
  | perform effect next, Q =>
    P.allows g effect ∧ ∀ response, Follows (P.next g effect response) (next response) Q

variable {P}

theorem follows_pure {g : G} {value : α} {Q : α → G → Prop} (h : Q value g) :
    Follows P g (Pure.pure value : Program ε E R α) Q := h

theorem follows_raise {g : G} {error : ε} {Q : α → G → Prop} :
    Follows P g (raise error : Program ε E R α) Q := trivial

theorem Follows.mono {g : G} {p : Program ε E R α} {Q Q' : α → G → Prop} (h : Follows P g p Q)
    (hQ : ∀ value g', Q value g' → Q' value g') : Follows P g p Q' := by
  induction p generalizing g with
  | pure value => exact hQ value g h
  | raise error => trivial
  | perform effect next ih => exact ⟨h.1, fun response => ih response (h.2 response)⟩

/-- Sequential composition. -/
theorem Follows.bind {g : G} {p : Program ε E R α} {f : α → Program ε E R β}
    {Q : α → G → Prop} {Q' : β → G → Prop} (h : Follows P g p Q)
    (hf : ∀ value g', Q value g' → Follows P g' (f value) Q') : Follows P g (p >>= f) Q' := by
  induction p generalizing g with
  | pure value => exact hf value g h
  | raise error => trivial
  | perform effect next ih => exact ⟨h.1, fun response => ih response (h.2 response)⟩

theorem follows_call {g : G} {effect : E} {Q : R effect → G → Prop} (h : P.allows g effect)
    (hQ : ∀ response, Q response (P.next g effect response)) :
    Follows P g (call effect : Program ε E R (R effect)) Q :=
  ⟨h, hQ⟩

theorem follows_attempt {ρ : Type} {g : G} {effect : E} {result : R effect → Except ε ρ}
    {Q : ρ → G → Prop} (h : P.allows g effect)
    (hQ : ∀ response value, result response = .ok value → Q value (P.next g effect response)) :
    Follows P g (attempt effect result) Q := by
  refine ⟨h, ?_⟩
  intro response
  cases hresult : result response with
  | ok value =>
    simp only [hresult]
    exact hQ response value hresult
  | error error =>
    simp only [hresult]
    trivial

theorem follows_ite {g : G} {c : Prop} [Decidable c] {p q : Program ε E R α} {Q : α → G → Prop}
    (hp : c → Follows P g p Q) (hq : ¬ c → Follows P g q Q) :
    Follows P g (if c then p else q) Q := by
  by_cases hc : c
  · rw [if_pos hc]
    exact hp hc
  · rw [if_neg hc]
    exact hq hc

theorem follows_ofExcept_bind {g : G} {result : Except ε α} {f : α → Program ε E R β}
    {Q : β → G → Prop} (h : ∀ value, result = .ok value → Follows P g (f value) Q) :
    Follows P g (ofExcept result >>= f) Q := by
  cases result with
  | ok value => exact h value rfl
  | error error => trivial

theorem follows_attempt_bind {ρ : Type} {g : G} {effect : E} {result : R effect → Except ε ρ}
    {f : ρ → Program ε E R β} {Q : β → G → Prop} (h : P.allows g effect)
    (hf : ∀ response value, result response = .ok value →
      Follows P (P.next g effect response) (f value) Q) :
    Follows P g (attempt effect result >>= f) Q := by
  have hattempt : Follows P g (attempt effect result : Program ε E R ρ) fun value g' =>
      ∃ response, result response = .ok value ∧ g' = P.next g effect response :=
    follows_attempt h fun response value hvalue => ⟨response, hvalue, rfl⟩
  apply hattempt.bind
  rintro value g' ⟨response, hvalue, rfl⟩
  exact hf response value hvalue

/-- The phase is everything that was performed. -/
def history (allows : Trace E R → E → Prop) : Protocol E R (Trace E R) where
  allows := allows
  next := fun trace effect response => trace ++ [⟨effect, response⟩]

/-- Along every trace of a program that follows a history protocol, each effect is allowed by
what was performed before it. -/
theorem Follows.allowed {allows : Trace E R → E → Prop} {p : Program ε E R α} {g : Trace E R}
    {Q : α → Trace E R → Prop} (h : Follows (history allows) g p Q) {trace : Trace E R}
    (ht : Performs p trace) (before : Trace E R) (effect : E) (response : R effect)
    (after : Trace E R) (hsplit : trace = before ++ ⟨effect, response⟩ :: after) :
    allows (g ++ before) effect := by
  induction ht generalizing g before with
  | stopped p => simp at hsplit
  | @performed effect' next response' trace ht ih =>
    cases before with
    | nil =>
      obtain ⟨hevent, -⟩ := List.cons.inj hsplit
      obtain rfl := congrArg Sigma.fst hevent
      rw [List.append_nil]
      exact h.1
    | cons event before =>
      obtain ⟨rfl, hrest⟩ := List.cons.inj hsplit
      have hallowed := ih (h.2 response') before hrest
      rwa [show (history allows).next g effect' response' = g ++ [⟨effect', response'⟩] from rfl,
        List.append_assoc] at hallowed

/-- Every effect of `S` is allowed, and nothing is kept track of. -/
def confined (S : E → Prop) : Protocol E R Unit := ⟨fun _ effect => S effect, fun _ _ _ => ()⟩

/-- Whatever the responses are, the program performs effects of `S` only and returns with `Q`. -/
def Within (S : E → Prop) (p : Program ε E R α) (Q : α → Prop) : Prop :=
  Follows (confined S) () p fun value _ => Q value

/-- Whatever the responses are, the program returns only with `Q`. -/
abbrev Returns (p : Program ε E R α) (Q : α → Prop) : Prop := Within (fun _ => True) p Q

section Within

variable {S S' : E → Prop}

theorem within_pure {value : α} {Q : α → Prop} (h : Q value) :
    Within S (Pure.pure value : Program ε E R α) Q := h

theorem within_raise {error : ε} {Q : α → Prop} : Within S (raise error : Program ε E R α) Q := trivial

theorem Within.mono {p : Program ε E R α} {Q Q' : α → Prop} (h : Within S p Q)
    (hQ : ∀ value, Q value → Q' value) : Within S p Q' :=
  Follows.mono h fun value _ => hQ value

theorem Within.bind {p : Program ε E R α} {f : α → Program ε E R β} {Q : α → Prop} {Q' : β → Prop}
    (h : Within S p Q) (hf : ∀ value, Q value → Within S (f value) Q') : Within S (p >>= f) Q' :=
  Follows.bind h fun value _ => hf value

theorem within_call {effect : E} (h : S effect) :
    Within S (call effect : Program ε E R (R effect)) fun _ => True :=
  ⟨h, fun _ => trivial⟩

theorem within_attempt {ρ : Type} {effect : E} {result : R effect → Except ε ρ} (h : S effect) :
    Within S (attempt effect result) fun _ => True :=
  follows_attempt h fun _ _ _ => trivial

theorem within_ite {c : Prop} [Decidable c] {p q : Program ε E R α} {Q : α → Prop}
    (hp : c → Within S p Q) (hq : ¬ c → Within S q Q) : Within S (if c then p else q) Q :=
  follows_ite hp hq

/-- Effects that a protocol always allows and never notices. -/
theorem Within.follows {p : Program ε E R α} {Q : α → Prop} (h : Within S p Q) (g : G)
    (hS : ∀ effect, S effect → P.allows g effect ∧ ∀ response, P.next g effect response = g) :
    Follows P g p fun value g' => g' = g ∧ Q value := by
  induction p with
  | pure value => exact ⟨rfl, h⟩
  | raise error => trivial
  | perform effect next ih =>
    obtain ⟨hallows, hnext⟩ := hS effect h.1
    refine ⟨hallows, fun response => ?_⟩
    rw [hnext response]
    exact ih response (h.2 response)

theorem Within.widen {p : Program ε E R α} {Q : α → Prop} (h : Within S p Q)
    (hS : ∀ effect, S effect → S' effect) : Within S' p Q :=
  (Within.follows (P := confined S') h () fun effect heffect =>
    ⟨hS effect heffect, fun _ => rfl⟩).mono fun _ _ hvalue => hvalue.2

theorem Within.returns {p : Program ε E R α} {Q : α → Prop} (h : Within S p Q) : Returns p Q :=
  h.widen fun _ _ => trivial

end Within

end Program

end YtdlBot.Framework
