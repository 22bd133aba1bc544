import YtdlBot.Framework.Program

/-!
# Guarded computations

A guarded computation performs effects on a state that its exceptions keep, so that they can be
handled and cleaned up after. A triple says what is returned and what is raised under answers of
one kind.
-/

namespace YtdlBot.Framework

namespace Program

variable {ε E : Type} {R : E → Type} {α β : Type}

/-- The program can perform these effects to its end. -/
inductive Ends : Program ε E R α → Trace E R → Except ε α → Prop where
  | pure (value : α) : Ends (pure value) [] (.ok value)
  | raise (error : ε) : Ends (raise error) [] (.error error)
  | perform {effect : E} {next : R effect → Program ε E R α} {response : R effect}
      {trace : Trace E R} {outcome : Except ε α} (h : Ends (next response) trace outcome) :
      Ends (perform effect next) (⟨effect, response⟩ :: trace) outcome

/-- The run in which each effect is answered like this. -/
def play (answers : ∀ effect, R effect) : Program ε E R α → Trace E R × Except ε α
  | pure value => ([], .ok value)
  | raise error => ([], .error error)
  | perform effect next =>
    let run := play answers (next (answers effect))
    (⟨effect, answers effect⟩ :: run.1, run.2)

theorem ends_play (answers : ∀ effect, R effect) (p : Program ε E R α) {outcome : Except ε α}
    (h : (play answers p).2 = outcome) : Ends p (play answers p).1 outcome := by
  induction p with
  | pure value =>
    subst h
    exact .pure value
  | raise error =>
    subst h
    exact .raise error
  | perform effect next ih => exact .perform (ih (answers effect) h)

theorem mem_play {answers : ∀ effect, R effect} {p : Program ε E R α}
    {event : (effect : E) × R effect} (h : event ∈ (play answers p).1) :
    event.2 = answers event.1 := by
  induction p with
  | pure value => simp [play] at h
  | raise error => simp [play] at h
  | perform effect next ih =>
    rcases List.mem_cons.mp h with rfl | hrest
    · rfl
    · exact ih _ hrest

/-- Under good answers the program returns with `Q` and raises with `X` only. -/
def Ensures (Good : ∀ effect, R effect → Prop) :
    Program ε E R α → (α → Prop) → (ε → Prop) → Prop
  | pure value, Q, _ => Q value
  | raise error, _, X => X error
  | perform effect next, Q, X =>
    ∀ response, Good effect response → Ensures Good (next response) Q X

/-- What an outcome is. -/
def Outcome (Q : α → Prop) (X : ε → Prop) : Except ε α → Prop
  | .ok value => Q value
  | .error error => X error

variable {Good : ∀ effect, R effect → Prop} {Q : α → Prop} {X : ε → Prop}

theorem Ensures.outcome {p : Program ε E R α} {trace : Trace E R} {outcome : Except ε α}
    (h : Ensures Good p Q X) (ht : Ends p trace outcome)
    (hgood : ∀ event ∈ trace, Good event.1 event.2) : Outcome Q X outcome := by
  induction ht with
  | pure value => exact h
  | raise error => exact h
  | perform _ ih =>
    have hfirst := hgood _ List.mem_cons_self
    exact ih (h _ hfirst) fun event hevent => hgood event (List.mem_cons_of_mem _ hevent)

theorem Ensures.mono {p : Program ε E R α} {Q' : α → Prop} {X' : ε → Prop}
    (h : Ensures Good p Q X) (hQ : ∀ value, Q value → Q' value)
    (hX : ∀ error, X error → X' error) : Ensures Good p Q' X' := by
  induction p with
  | pure value => exact hQ value h
  | raise error => exact hX error h
  | perform effect next ih => exact fun response hgood => ih response (h response hgood)

theorem Ensures.bind {p : Program ε E R α} {f : α → Program ε E R β} {Q' : β → Prop}
    (h : Ensures Good p Q X) (hf : ∀ value, Q value → Ensures Good (f value) Q' X) :
    Ensures Good (p >>= f) Q' X := by
  induction p with
  | pure value => exact hf value h
  | raise error => exact h
  | perform effect next ih => exact fun response hgood => ih response (h response hgood)

theorem ensures_attempt {ρ : Type} {effect : E} {result : R effect → Except ε ρ} {Q : ρ → Prop}
    (h : ∀ response, Good effect response → Outcome Q X (result response)) :
    Ensures Good (attempt effect result) Q X := by
  intro response hgood
  have houtcome := h response hgood
  cases hresult : result response with
  | ok value => simpa [hresult, Outcome, Ensures] using houtcome
  | error error => simpa [hresult, Outcome, Ensures] using houtcome

theorem ensures_ofExcept {result : Except ε α} (h : Outcome Q X result) :
    Ensures Good (ofExcept result : Program ε E R α) Q X := by
  cases result with
  | ok value => exact h
  | error error => exact h

theorem ensures_ite {c : Prop} [Decidable c] {p q : Program ε E R α}
    (hp : c → Ensures Good p Q X) (hq : ¬ c → Ensures Good q Q X) :
    Ensures Good (if c then p else q) Q X := by
  by_cases hc : c
  · rw [if_pos hc]
    exact hp hc
  · rw [if_neg hc]
    exact hq hc

end Program

open Program (Trace Ends Ensures Outcome)

/-- A computation on a state that is kept by its exceptions. -/
def Guarded (σ ε E : Type) (R : E → Type) (α : Type) : Type :=
  σ → Program Empty E R (Except ε α × σ)

namespace Guarded

variable {σ ε E : Type} {R : E → Type} {α β : Type}

protected def bind (g : Guarded σ ε E R α) (f : α → Guarded σ ε E R β) : Guarded σ ε E R β :=
  fun s => g s >>= fun
    | (.ok value, s') => f value s'
    | (.error error, s') => .pure (.error error, s')

instance : Monad (Guarded σ ε E R) where
  pure value := fun s => .pure (.ok value, s)
  bind := Guarded.bind

def raise (error : ε) : Guarded σ ε E R α := fun s => .pure (.error error, s)

def ofExcept (result : Except ε α) : Guarded σ ε E R α := fun s => .pure (result, s)

def get : Guarded σ ε E R σ := fun s => .pure (.ok s, s)

def set (s : σ) : Guarded σ ε E R Unit := fun _ => .pure (.ok (), s)

def attempt (effect : E) (result : R effect → Except ε α) : Guarded σ ε E R α :=
  fun s => .perform effect fun response => .pure (result response, s)

/-- `try: … except …` -/
def tryCatch (g : Guarded σ ε E R α) (handler : ε → Guarded σ ε E R α) : Guarded σ ε E R α :=
  fun s => g s >>= fun
    | (.ok value, s') => .pure (.ok value, s')
    | (.error error, s') => handler error s'

/-- `try: … finally: …`; what the clean-up raises replaces the result. -/
def andFinally (g : Guarded σ ε E R α) (cleanup : Guarded σ ε E R Unit) : Guarded σ ε E R α :=
  fun s => g s >>= fun (result, s') => cleanup s' >>= fun
    | (.ok (), s'') => .pure (result, s'')
    | (.error error, s'') => .pure (.error error, s'')

/-- A program with other effects, each of which is answered by a computation. -/
def embed {ε₀ E₀ : Type} {R₀ : E₀ → Type} (answer : ∀ effect, Guarded σ ε E R (R₀ effect))
    (error : ε₀ → ε) : Program ε₀ E₀ R₀ α → Guarded σ ε E R α
  | .pure value => Pure.pure value
  | .raise e => raise (error e)
  | .perform effect next => answer effect >>= fun response => embed answer error (next response)

/-- From a state with the invariant and under good answers: a result with `Q` or an exception with
`X`, and again the invariant. -/
def Triple (Good : ∀ effect, R effect → Prop) (I : σ → Prop) (g : Guarded σ ε E R α)
    (Q : α → Prop) (X : ε → Prop) : Prop :=
  ∀ s, I s → Ensures Good (g s) (fun r => I r.2 ∧ Outcome Q X r.1) fun _ => False

section Triples

variable {Good : ∀ effect, R effect → Prop} {I : σ → Prop} {Q : α → Prop} {X : ε → Prop}
  {g : Guarded σ ε E R α}

theorem triple_pure {value : α} (h : Q value) :
    Triple Good I (pure value : Guarded σ ε E R α) Q X :=
  fun _ hs => ⟨hs, h⟩

theorem triple_raise {error : ε} (h : X error) :
    Triple Good I (raise error : Guarded σ ε E R α) Q X :=
  fun _ hs => ⟨hs, h⟩

theorem triple_ofExcept {result : Except ε α} (h : Outcome Q X result) :
    Triple Good I (ofExcept result : Guarded σ ε E R α) Q X :=
  fun _ hs => ⟨hs, h⟩

theorem triple_get : Triple Good I (get : Guarded σ ε E R σ) I X := fun _ hs => ⟨hs, hs⟩

theorem triple_set {s : σ} (h : I s) :
    Triple Good I (set s : Guarded σ ε E R Unit) (fun _ => True) X :=
  fun _ _ => ⟨h, trivial⟩

theorem triple_attempt {effect : E} {result : R effect → Except ε α}
    (h : ∀ response, Good effect response → Outcome Q X (result response)) :
    Triple Good I (attempt effect result) Q X :=
  fun _ hs response hgood => ⟨hs, h response hgood⟩

theorem Triple.mono {Q' : α → Prop} {X' : ε → Prop} (h : Triple Good I g Q X)
    (hQ : ∀ value, Q value → Q' value) (hX : ∀ error, X error → X' error) :
    Triple Good I g Q' X' := by
  intro s hs
  refine (h s hs).mono (fun r hr => ⟨hr.1, ?_⟩) fun _ hfalse => hfalse
  cases hresult : r.1 with
  | ok value => exact hQ value (by simpa [hresult, Outcome] using hr.2)
  | error error => exact hX error (by simpa [hresult, Outcome] using hr.2)

theorem Triple.bind {f : α → Guarded σ ε E R β} {Q' : β → Prop} (h : Triple Good I g Q X)
    (hf : ∀ value, Q value → Triple Good I (f value) Q' X) : Triple Good I (g >>= f) Q' X := by
  intro s hs
  refine (h s hs).bind fun r hr => ?_
  obtain ⟨result, s'⟩ := r
  cases result with
  | ok value => exact hf value hr.2 s' hr.1
  | error error => exact hr

theorem Triple.tryCatch {handler : ε → Guarded σ ε E R α} {X' : ε → Prop} (h : Triple Good I g Q X)
    (hhandler : ∀ error, X error → Triple Good I (handler error) Q X') :
    Triple Good I (g.tryCatch handler) Q X' := by
  intro s hs
  refine (h s hs).bind fun r hr => ?_
  obtain ⟨result, s'⟩ := r
  cases result with
  | ok value => exact hr
  | error error => exact hhandler error hr.2 s' hr.1

theorem Triple.andFinally {cleanup : Guarded σ ε E R Unit} (h : Triple Good I g Q X)
    (hcleanup : Triple Good I cleanup (fun _ => True) X) :
    Triple Good I (g.andFinally cleanup) Q X := by
  intro s hs
  refine (h s hs).bind fun r hr => (hcleanup r.2 hr.1).bind fun c hc => ?_
  obtain ⟨result, s''⟩ := c
  cases result with
  | ok value => exact ⟨hc.1, hr.2⟩
  | error error => exact hc

theorem triple_ite {c : Prop} [Decidable c] {g' : Guarded σ ε E R α}
    (hg : c → Triple Good I g Q X) (hg' : ¬ c → Triple Good I g' Q X) :
    Triple Good I (if c then g else g') Q X := by
  by_cases hc : c
  · rw [if_pos hc]
    exact hg hc
  · rw [if_neg hc]
    exact hg' hc

theorem triple_embed {ε₀ E₀ : Type} {R₀ : E₀ → Type} {Good₀ : ∀ effect, R₀ effect → Prop}
    {X₀ : ε₀ → Prop} {answer : ∀ effect, Guarded σ ε E R (R₀ effect)} {error : ε₀ → ε}
    {p : Program ε₀ E₀ R₀ α} (h : Ensures Good₀ p Q X₀)
    (hanswer : ∀ effect, Triple Good I (answer effect) (Good₀ effect) X)
    (herror : ∀ e, X₀ e → X (error e)) : Triple Good I (embed answer error p) Q X := by
  induction p with
  | pure value => exact triple_pure h
  | raise e => exact triple_raise (herror e h)
  | perform effect next ih =>
    exact (hanswer effect).bind fun response hgood => ih response (h response hgood)

theorem Triple.outcome {s s' : σ} {trace : Trace E R} {result : Except ε α}
    (h : Triple Good I g Q X) (hs : I s) (ht : Ends (g s) trace (.ok (result, s')))
    (hgood : ∀ event ∈ trace, Good event.1 event.2) : Outcome Q X result :=
  ((h s hs).outcome ht hgood).2

end Triples

end Guarded

end YtdlBot.Framework
