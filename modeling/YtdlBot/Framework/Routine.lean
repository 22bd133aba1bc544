import YtdlBot.Framework.Program

/-!
# Routines

Programs with a state of their own that raise and catch exceptions. What a routine leaves in its
state survives an exception. The rules speak of the result, raised or returned, in the phase that
a protocol is in when the routine ends, and of an invariant of the state.
-/

namespace YtdlBot.Framework

/-- A stateful program over the effects `E` that returns an `α` or raises an `ε`. -/
def Routine (ε σ : Type) (E : Type) (R : E → Type) (α : Type) :=
  σ → Program Empty E R (Except ε α × σ)

namespace Routine

variable {ε σ E : Type} {R : E → Type} {α β : Type}

/-- Go on after a result. -/
def andThen (f : α → Routine ε σ E R β) : Except ε α × σ → Program Empty E R (Except ε β × σ)
  | (.ok value, s) => f value s
  | (.error error, s) => .pure (.error error, s)

instance : Monad (Routine ε σ E R) where
  pure value := fun s => .pure (.ok value, s)
  bind x f := fun s => (x s).bind (andThen f)

def throw (error : ε) : Routine ε σ E R α := fun s => .pure (.error error, s)

def call (effect : E) : Routine ε σ E R (R effect) := fun s =>
  .perform effect fun response => .pure (.ok response, s)

/-- `try`: the result, returned or raised, as a value. -/
def capture (x : Routine ε σ E R α) : Routine ε σ E R (Except ε α) := fun s =>
  (x s).bind fun r => .pure (.ok r.1, r.2)

def ofExcept : Except ε α → Routine ε σ E R α
  | .ok value => pure value
  | .error error => throw error

def get : Routine ε σ E R σ := fun s => .pure (.ok s, s)

def modify (f : σ → σ) : Routine ε σ E R Unit := fun s => .pure (.ok (), f s)

variable {G : Type}

/-- From phase `g`, and from any state with `I`, the routine follows the protocol, keeps `I` and
ends with `Q`. -/
def Meets (P : Program.Protocol E R G) (I : σ → Prop) (g : G) (x : Routine ε σ E R α)
    (Q : Except ε α → G → Prop) : Prop :=
  ∀ s, I s → Program.Follows P g (x s) fun r g' => Q r.1 g' ∧ I r.2

variable {P : Program.Protocol E R G} {I : σ → Prop} {g : G} {x : Routine ε σ E R α}
  {Q : Except ε α → G → Prop}

theorem meets_pure {value : α} (h : Q (.ok value) g) :
    Meets P I g (pure value : Routine ε σ E R α) Q := fun _ hs => ⟨h, hs⟩

theorem meets_throw {error : ε} (h : Q (.error error) g) :
    Meets P I g (throw error : Routine ε σ E R α) Q := fun _ hs => ⟨h, hs⟩

theorem Meets.mono {Q' : Except ε α → G → Prop} (h : Meets P I g x Q)
    (hQ : ∀ r g', Q r g' → Q' r g') : Meets P I g x Q' :=
  fun s hs => (h s hs).mono fun _ _ hr => ⟨hQ _ _ hr.1, hr.2⟩

/-- Sequential composition; an exception is passed on. -/
theorem Meets.bind {f : α → Routine ε σ E R β} {Q' : Except ε β → G → Prop} (h : Meets P I g x Q)
    (hok : ∀ value g', Q (.ok value) g' → Meets P I g' (f value) Q')
    (herror : ∀ error g', Q (.error error) g' → Q' (.error error) g') :
    Meets P I g (x >>= f) Q' := by
  intro s hs
  apply (h s hs).bind
  rintro ⟨result, s'⟩ g' ⟨hQ, hs'⟩
  cases result with
  | ok value => exact hok value g' hQ s' hs'
  | error error => exact ⟨herror error g' hQ, hs'⟩

theorem meets_call {effect : E} {Q : Except ε (R effect) → G → Prop} (h : P.allows g effect)
    (hQ : ∀ response, Q (.ok response) (P.next g effect response)) :
    Meets P I g (call effect : Routine ε σ E R (R effect)) Q :=
  fun _ hs => ⟨h, fun response => ⟨hQ response, hs⟩⟩

theorem meets_call_bind {effect : E} {f : R effect → Routine ε σ E R α} (h : P.allows g effect)
    (hf : ∀ response, Meets P I (P.next g effect response) (f response) Q) :
    Meets P I g (call effect >>= f) Q :=
  fun s hs => ⟨h, fun response => hf response s hs⟩

theorem meets_get_bind {f : σ → Routine ε σ E R α} (h : ∀ s, I s → Meets P I g (f s) Q) :
    Meets P I g (get >>= f) Q :=
  fun s hs => h s hs s hs

theorem Meets.capture {Q' : Except ε (Except ε α) → G → Prop} (h : Meets P I g x Q)
    (hQ : ∀ r g', Q r g' → Q' (.ok r) g') : Meets P I g x.capture Q' := by
  intro s hs
  apply Program.Follows.bind (h s hs)
  rintro ⟨result, s'⟩ g' ⟨hr, hs'⟩
  exact ⟨hQ result g' hr, hs'⟩

theorem Meets.capture_bind {f : Except ε α → Routine ε σ E R β} {Q' : Except ε β → G → Prop}
    (h : Meets P I g x Q) (hf : ∀ result g', Q result g' → Meets P I g' (f result) Q') :
    Meets P I g (x.capture >>= f) Q' := by
  have hcapture : Meets P I g x.capture fun r g' => ∃ result, r = .ok result ∧ Q result g' :=
    h.capture fun result _ hQ => ⟨result, rfl, hQ⟩
  apply hcapture.bind
  · rintro result g' ⟨_, heq, hQ⟩
    obtain rfl := Except.ok.inj heq
    exact hf result g' hQ
  · rintro error g' ⟨_, heq, -⟩
    cases heq

theorem meets_ofExcept {result : Except ε α} (h : Q result g) :
    Meets P I g (ofExcept result : Routine ε σ E R α) Q := by
  cases result with
  | ok value => exact meets_pure h
  | error error => exact meets_throw h

theorem meets_modify {f : σ → σ} {Q : Except ε Unit → G → Prop} (hI : ∀ s, I s → I (f s))
    (h : Q (.ok ()) g) : Meets P I g (modify f : Routine ε σ E R Unit) Q :=
  fun s hs => ⟨h, hI s hs⟩

theorem meets_modify_bind {f : σ → σ} {k : Unit → Routine ε σ E R α} (hI : ∀ s, I s → I (f s))
    (h : Meets P I g (k ()) Q) : Meets P I g (modify f >>= k) Q :=
  fun s hs => h (f s) (hI s hs)

theorem meets_ite {c : Prop} [Decidable c] {x y : Routine ε σ E R α} (hx : c → Meets P I g x Q)
    (hy : ¬ c → Meets P I g y Q) : Meets P I g (if c then x else y) Q := by
  by_cases hc : c
  · rw [if_pos hc]
    exact hx hc
  · rw [if_neg hc]
    exact hy hc

end Routine

end YtdlBot.Framework
