import YtdlBot.Framework.Guarded

/-!
# Guarded computations under a protocol

The exceptions of a guarded computation are results, so a protocol says in which state and phase
each of its exits leaves it, clean-ups included.
-/

namespace YtdlBot.Framework

namespace Program

variable {ε E : Type} {R : E → Type} {α β γ : Type}

theorem bind_assoc (p : Program ε E R α) (f : α → Program ε E R β) (h : β → Program ε E R γ) :
    p >>= f >>= h = p >>= fun value => f value >>= h := by
  induction p with
  | pure value => rfl
  | raise error => rfl
  | perform effect next ih => exact congrArg (perform effect) (funext ih)

theorem Follows.and_returns {G : Type} {P : Protocol E R G} {g : G} {p : Program ε E R α}
    {Q : α → G → Prop} {Q' : α → Prop} (h : Follows P g p Q) (hreturns : Returns p Q') :
    Follows P g p fun value g' => Q value g' ∧ Q' value := by
  induction p generalizing g with
  | pure value => exact ⟨h, hreturns⟩
  | raise error => trivial
  | perform effect next ih =>
    exact ⟨h.1, fun response => ih response (h.2 response) (hreturns.2 response)⟩

section Lifts

variable {E' : Type} {R' : E' → Type} (f : E → E') (back : ∀ effect, R' (f effect) → R effect)

/-- The program with its effects among others. -/
def lift : Program ε E R α → Program ε E' R' α
  | pure value => pure value
  | raise error => raise error
  | perform effect next => perform (f effect) fun response => lift (next (back effect response))

variable {G G' : Type} {P : Protocol E R G} {P' : Protocol E' R' G'} {f} {back}

/-- A protocol that looks at the effects of a part like the protocol of the part. -/
structure Extends (P : Protocol E R G) (P' : Protocol E' R' G') (f : E → E')
    (back : ∀ effect, R' (f effect) → R effect) (view : G' → G) (J : G' → Prop) : Prop where
  allows : ∀ g effect, J g → P.allows (view g) effect → P'.allows g (f effect)
  next : ∀ g effect response, J g →
    view (P'.next g (f effect) response) = P.next (view g) effect (back effect response)
  keeps : ∀ g effect response, J g → J (P'.next g (f effect) response)

theorem Follows.lift {view : G' → G} {J : G' → Prop} {p : Program ε E R α} {Q : α → G → Prop}
    (hP : Extends P P' f back view J) {g : G'} (hg : J g) (h : Follows P (view g) p Q) :
    Follows P' g (lift f back p) fun value g' => J g' ∧ Q value (view g') := by
  induction p generalizing g with
  | pure value => exact ⟨hg, h⟩
  | raise error => trivial
  | perform effect next ih =>
    refine ⟨hP.allows g effect hg h.1, fun response => ih _ (hP.keeps g effect response hg) ?_⟩
    rw [hP.next g effect response hg]
    exact h.2 _

end Lifts

end Program

namespace Guarded

open Program (Protocol Follows Extends)

variable {σ ε E : Type} {R : E → Type} {α β G : Type}

/-- A run ends with a result and `Q`, or with an exception and `X`. -/
def Exit (Q : α → σ → G → Prop) (X : σ → G → Prop) : Except ε α × σ → G → Prop
  | (.ok value, s), g => Q value s g
  | (.error _, s), g => X s g

/-- From state `s` and phase `g` only allowed effects are performed, up to such an exit. -/
def Keeps (P : Protocol E R G) (s : σ) (g : G) (x : Guarded σ ε E R α) (Q : α → σ → G → Prop)
    (X : σ → G → Prop) : Prop :=
  Follows P g (x s) (Exit Q X)

variable {P : Protocol E R G} {s : σ} {g : G} {x : Guarded σ ε E R α} {Q Q' : α → σ → G → Prop}
  {X X' : σ → G → Prop}

theorem keeps_pure {value : α} (h : Q value s g) :
    Keeps P s g (pure value : Guarded σ ε E R α) Q X := h

theorem keeps_raise {error : ε} (h : X s g) :
    Keeps P s g (raise error : Guarded σ ε E R α) Q X := h

theorem keeps_ofExcept {result : Except ε α} (hok : ∀ value, result = .ok value → Q value s g)
    (herror : ∀ error, result = .error error → X s g) :
    Keeps P s g (ofExcept result : Guarded σ ε E R α) Q X := by
  cases result with
  | ok value => exact hok value rfl
  | error error => exact herror error rfl

theorem keeps_get_bind {f : σ → Guarded σ ε E R α} (h : Keeps P s g (f s) Q X) :
    Keeps P s g (get >>= f) Q X := h

theorem keeps_set_bind {s' : σ} {f : Unit → Guarded σ ε E R α} (h : Keeps P s' g (f ()) Q X) :
    Keeps P s g (set s' >>= f) Q X := h

theorem keeps_attempt {effect : E} {result : R effect → Except ε α} (h : P.allows g effect)
    (hok : ∀ response value, result response = .ok value → Q value s (P.next g effect response))
    (herror : ∀ response error, result response = .error error →
      X s (P.next g effect response)) :
    Keeps P s g (attempt effect result) Q X := by
  refine ⟨h, fun response => ?_⟩
  show Exit Q X (result response, s) (P.next g effect response)
  cases hresult : result response with
  | ok value => exact hok response value hresult
  | error error => exact herror response error hresult

theorem Keeps.mono (h : Keeps P s g x Q X) (hQ : ∀ value s' g', Q value s' g' → Q' value s' g')
    (hX : ∀ s' g', X s' g' → X' s' g') : Keeps P s g x Q' X' := by
  refine Follows.mono h fun r g' hr => ?_
  obtain ⟨result, s'⟩ := r
  cases result with
  | ok value => exact hQ value s' g' hr
  | error error => exact hX s' g' hr

theorem Keeps.bind {f : α → Guarded σ ε E R β} {Q' : β → σ → G → Prop} (h : Keeps P s g x Q X)
    (hf : ∀ value s' g', Q value s' g' → Keeps P s' g' (f value) Q' X) :
    Keeps P s g (x >>= f) Q' X := by
  refine Follows.bind h fun r g' hr => ?_
  obtain ⟨result, s'⟩ := r
  cases result with
  | ok value => exact hf value s' g' hr
  | error error => exact hr

/-- The clean-up runs on both exits; the exception of either one is an exception of the whole. -/
theorem Keeps.andFinally {cleanup : Guarded σ ε E R Unit} (h : Keeps P s g x Q X)
    (hok : ∀ value s' g', Q value s' g' → Keeps P s' g' cleanup (fun _ => Q' value) X')
    (herror : ∀ s' g', X s' g' → Keeps P s' g' cleanup (fun _ => X') X') :
    Keeps P s g (x.andFinally cleanup) Q' X' := by
  refine Follows.bind h fun r g' hr => ?_
  obtain ⟨result, s'⟩ := r
  cases result with
  | ok value =>
    refine Follows.bind (hok value s' g' hr) fun c g'' hc => ?_
    obtain ⟨ending, s''⟩ := c
    cases ending with
    | ok _ => exact hc
    | error error => exact hc
  | error error =>
    refine Follows.bind (herror s' g' hr) fun c g'' hc => ?_
    obtain ⟨ending, s''⟩ := c
    cases ending with
    | ok _ => exact hc
    | error error => exact hc

theorem Keeps.tryCatch {handler : ε → Guarded σ ε E R α} (h : Keeps P s g x Q X)
    (hhandler : ∀ error s' g', X s' g' → Keeps P s' g' (handler error) Q X') :
    Keeps P s g (x.tryCatch handler) Q X' := by
  refine Follows.bind h fun r g' hr => ?_
  obtain ⟨result, s'⟩ := r
  cases result with
  | ok value => exact hr
  | error error => exact hhandler error s' g' hr

theorem keeps_ite {c : Prop} [Decidable c] {y : Guarded σ ε E R α}
    (hx : c → Keeps P s g x Q X) (hy : ¬ c → Keeps P s g y Q X) :
    Keeps P s g (if c then x else y) Q X := by
  by_cases hc : c
  · rw [if_pos hc]
    exact hx hc
  · rw [if_neg hc]
    exact hy hc

section Unmoved

/-- State and phase are as they were. -/
def Unmoved (s : σ) (g : G) (s' : σ) (g' : G) : Prop := s' = s ∧ g' = g

theorem unmoved : Unmoved s g s g := ⟨rfl, rfl⟩

theorem keeps_check (result : Except ε α) :
    Keeps P s g (ofExcept result : Guarded σ ε E R α)
      (fun value s' g' => result = .ok value ∧ Unmoved s g s' g') (Unmoved s g) :=
  keeps_ofExcept (fun _ hvalue => ⟨hvalue, unmoved⟩) fun _ _ => unmoved

theorem Keeps.bind_unmoved {f : α → Guarded σ ε E R β} {Q' : β → σ → G → Prop}
    (h : Keeps P s g x (fun _ => Unmoved s g) X) (hf : ∀ value, Keeps P s g (f value) Q' X) :
    Keeps P s g (x >>= f) Q' X := by
  refine h.bind ?_
  rintro value s' g' ⟨rfl, rfl⟩
  exact hf value

theorem keeps_unmoved {s₁ : σ} {g₁ : G} (h : Keeps P s g x Q (Unmoved s₁ g₁)) (hX : X s₁ g₁) :
    Keeps P s g x Q X := by
  refine h.mono (fun _ _ _ hQ => hQ) ?_
  rintro s' g' ⟨rfl, rfl⟩
  exact hX

theorem Keeps.andFinally_unmoved {cleanup : Guarded σ ε E R Unit} (h : Keeps P s g x Q X)
    (hcleanup : ∀ s' g', Keeps P s' g' cleanup (fun _ => Unmoved s' g') (Unmoved s' g'))
    (hX : ∀ value s' g', Q value s' g' → X s' g') : Keeps P s g (x.andFinally cleanup) Q X := by
  apply h.andFinally
  · intro value s' g' hQ
    refine (keeps_unmoved (hcleanup s' g') (hX value s' g' hQ)).mono ?_ fun _ _ hX => hX
    rintro _ s'' g'' ⟨rfl, rfl⟩
    exact hQ
  · intro s' g' hX
    refine (keeps_unmoved (hcleanup s' g') hX).mono ?_ fun _ _ hX => hX
    rintro _ s'' g'' ⟨rfl, rfl⟩
    exact hX

end Unmoved

section Zooms

variable {σ' E' : Type} {R' : E' → Type} {G' : Type} {P' : Protocol E' R' G'}

/-- A computation on a part of the state, with its effects among others. -/
def zoom (f : E → E') (back : ∀ effect, R' (f effect) → R effect) (part : σ' → σ)
    (put : σ → σ' → σ') (x : Guarded σ ε E R α) : Guarded σ' ε E' R' α :=
  fun s => Program.lift f back (x (part s)) >>= fun r => .pure (r.1, put r.2 s)

theorem Keeps.zoom {f : E → E'} {back : ∀ effect, R' (f effect) → R effect} {part : σ' → σ}
    {put : σ → σ' → σ'} {view : G' → G} {J : G' → Prop} (hP : Extends P P' f back view J)
    {s : σ'} {g : G'} (hg : J g) (h : Keeps P (part s) (view g) x Q X) :
    Keeps P' s g (zoom f back part put x)
      (fun value s' g' => J g' ∧ ∃ t, s' = put t s ∧ Q value t (view g'))
      fun s' g' => J g' ∧ ∃ t, s' = put t s ∧ X t (view g') := by
  refine (Follows.lift hP hg h).bind fun r g' hr => ?_
  obtain ⟨result, t⟩ := r
  obtain ⟨hg', hexit⟩ := hr
  cases result with
  | ok value => exact ⟨hg', t, rfl, hexit⟩
  | error error => exact ⟨hg', t, rfl, hexit⟩

end Zooms

section Embeddings

variable {ε₀ E₀ : Type} {R₀ : E₀ → Type} {answer : ∀ effect, Guarded σ ε E R (R₀ effect)}
  {error : ε₀ → ε}

/-- An embedded program follows its own protocol, when the answers of its effects show in its view
of the phase. -/
theorem Keeps.embed {G₀ : Type} {P₀ : Protocol E₀ R₀ G₀} {p : Program ε₀ E₀ R₀ α} {view : G → G₀}
    {J : G → Prop} {Q₀ : α → G₀ → Prop} (h : Follows P₀ (view g) p Q₀) (hg : J g)
    (hanswer : ∀ g effect, J g → P₀.allows (view g) effect →
      Keeps P s g (answer effect)
        (fun response s' g' => s' = s ∧ J g' ∧ view g' = P₀.next (view g) effect response) X)
    (hraise : ∀ g, J g → X s g) :
    Keeps P s g (Guarded.embed answer error p)
      (fun value s' g' => s' = s ∧ J g' ∧ Q₀ value (view g')) X := by
  induction p generalizing g with
  | pure value => exact keeps_pure ⟨rfl, hg, h⟩
  | raise e => exact keeps_raise (hraise g hg)
  | perform effect next ih =>
    refine (hanswer g effect hg h.1).bind ?_
    rintro response s' g' ⟨rfl, hg', hview⟩
    refine ih response ?_ hg'
    rw [hview]
    exact h.2 response

theorem bind_assoc {γ : Type} (x : Guarded σ ε E R α) (f : α → Guarded σ ε E R β)
    (h : β → Guarded σ ε E R γ) : x >>= f >>= h = x >>= fun value => f value >>= h := by
  funext s
  refine (Program.bind_assoc (x s) _ _).trans (congrArg (x s >>= ·) (funext fun r => ?_))
  obtain ⟨result, s'⟩ := r
  cases result with
  | ok value => rfl
  | error error => rfl

theorem embed_bind (p : Program ε₀ E₀ R₀ α) (f : α → Program ε₀ E₀ R₀ β) :
    embed answer error (p >>= f) =
      embed answer error p >>= fun value => embed answer error (f value) := by
  induction p with
  | pure value => rfl
  | raise e => rfl
  | perform effect next ih =>
    calc embed answer error (Program.perform effect next >>= f)
        = answer effect >>= fun response => embed answer error (next response >>= f) := rfl
      _ = answer effect >>= fun response => embed answer error (next response) >>= fun value =>
            embed answer error (f value) :=
          congrArg (answer effect >>= ·) (funext ih)
      _ = _ := (bind_assoc _ _ _).symm

theorem embed_attempt {ρ : Type} (effect : E₀) (result : R₀ effect → Except ε₀ ρ) :
    embed answer error (Program.attempt effect result) =
      answer effect >>= fun response => ofExcept ((result response).mapError error) := by
  refine congrArg (answer effect >>= ·) (funext fun response => ?_)
  cases hresult : result response with
  | ok value => simp only [hresult]; rfl
  | error e => simp only [hresult]; rfl

theorem embed_ofExcept (result : Except ε₀ α) :
    embed answer error (Program.ofExcept result) = ofExcept (result.mapError error) := by
  cases result with
  | ok value => rfl
  | error e => rfl

end Embeddings

end Guarded

end YtdlBot.Framework
