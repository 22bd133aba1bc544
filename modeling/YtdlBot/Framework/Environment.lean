import YtdlBot.Framework.Routine

/-!
# Routines in an environment

An environment has a state of its own and answers each effect in one of several ways. `Always` is
what holds of every run of a routine in it, `Possibly` what holds of some run.
-/

namespace YtdlBot.Framework

/-- From which state an effect may be answered how, and the state after that. -/
structure Environment (E : Type) (R : E → Type) (W : Type) where
  answers : W → (effect : E) → R effect → W → Prop

namespace Program

variable {E W α β : Type} {R : E → Type} (V : Environment E R W)

/-- Every run of the program ends with `Q`. -/
def Always (w : W) : Program Empty E R α → (α → W → Prop) → Prop
  | pure value, Q => Q value w
  | raise error, _ => error.elim
  | perform effect next, Q =>
    ∀ response w', V.answers w effect response w' → Always w' (next response) Q

/-- Some run of the program ends with `Q`. -/
def Possibly (w : W) : Program Empty E R α → (α → W → Prop) → Prop
  | pure value, Q => Q value w
  | raise error, _ => error.elim
  | perform effect next, Q =>
    ∃ response w', V.answers w effect response w' ∧ Possibly w' (next response) Q

variable {V} {w : W} {p : Program Empty E R α} {Q Q' : α → W → Prop}

theorem Always.mono (h : Always V w p Q) (hQ : ∀ value w', Q value w' → Q' value w') :
    Always V w p Q' := by
  induction p generalizing w with
  | pure value => exact hQ value w h
  | raise error => exact error.elim
  | perform effect next ih =>
    intro response w' hanswers
    exact ih response (h response w' hanswers)

theorem Always.bind {f : α → Program Empty E R β} {Q' : β → W → Prop} (h : Always V w p Q)
    (hf : ∀ value w', Q value w' → Always V w' (f value) Q') : Always V w (p.bind f) Q' := by
  induction p generalizing w with
  | pure value => exact hf value w h
  | raise error => exact error.elim
  | perform effect next ih =>
    intro response w' hanswers
    exact ih response (h response w' hanswers)

theorem Possibly.bind {f : α → Program Empty E R β} {Q' : β → W → Prop} (h : Possibly V w p Q)
    (hf : ∀ value w', Q value w' → Possibly V w' (f value) Q') : Possibly V w (p.bind f) Q' := by
  induction p generalizing w with
  | pure value => exact hf value w h
  | raise error => exact error.elim
  | perform effect next ih =>
    obtain ⟨response, w', hanswers, hnext⟩ := h
    exact ⟨response, w', hanswers, ih response hnext⟩

theorem bind_pure (p : Program Empty E R α) : p.bind .pure = p := by
  induction p with
  | pure value => rfl
  | raise error => exact error.elim
  | perform effect next ih => exact congrArg _ (funext ih)

theorem Possibly.and (h : Possibly V w p Q) (h' : Always V w p Q') :
    Possibly V w p fun value w' => Q value w' ∧ Q' value w' := by
  induction p generalizing w with
  | pure value => exact ⟨h, h'⟩
  | raise error => exact error.elim
  | perform effect next ih =>
    obtain ⟨response, w', hanswers, hnext⟩ := h
    exact ⟨response, w', hanswers, ih response hnext (h' response w' hanswers)⟩

end Program

namespace Routine

variable {ε σ E W α β : Type} {R : E → Type} (V : Environment E R W)

/-- From state `s` every run of the routine ends with `Q`. -/
def Ends (w : W) (s : σ) (x : Routine ε σ E R α) (Q : Except ε α → σ → W → Prop) : Prop :=
  Program.Always V w (x s) fun r w' => Q r.1 r.2 w'

/-- From state `s` some run of the routine ends with `Q`. -/
def MayEnd (w : W) (s : σ) (x : Routine ε σ E R α) (Q : Except ε α → σ → W → Prop) : Prop :=
  Program.Possibly V w (x s) fun r w' => Q r.1 r.2 w'

variable {V} {w : W} {s : σ} {x : Routine ε σ E R α} {Q Q' : Except ε α → σ → W → Prop}

theorem Ends.mono (h : Ends V w s x Q) (hQ : ∀ r s' w', Q r s' w' → Q' r s' w') :
    Ends V w s x Q' :=
  Program.Always.mono h fun _ _ => hQ _ _ _

theorem Ends.bind {f : α → Routine ε σ E R β} {Q' : Except ε β → σ → W → Prop}
    (h : Ends V w s x Q) (hok : ∀ value s' w', Q (.ok value) s' w' → Ends V w' s' (f value) Q')
    (herror : ∀ error s' w', Q (.error error) s' w' → Q' (.error error) s' w') :
    Ends V w s (x >>= f) Q' := by
  apply Program.Always.bind h
  rintro ⟨result, s'⟩ w' hr
  cases result with
  | ok value => exact hok value s' w' hr
  | error error => exact herror error s' w' hr

theorem Ends.capture_bind {f : Except ε α → Routine ε σ E R β} {Q' : Except ε β → σ → W → Prop}
    (h : Ends V w s x Q) (hf : ∀ r s' w', Q r s' w' → Ends V w' s' (f r) Q') :
    Ends V w s (x.capture >>= f) Q' := by
  have hcapture : Ends V w s x.capture fun r s' w' => ∃ r', r = .ok r' ∧ Q r' s' w' := by
    apply Program.Always.bind h
    rintro ⟨result, s'⟩ w' hr
    exact ⟨result, rfl, hr⟩
  apply hcapture.bind
  · rintro r s' w' ⟨r', heq, hr⟩
    obtain rfl := Except.ok.inj heq
    exact hf r s' w' hr
  · rintro error s' w' ⟨r', heq, -⟩
    cases heq

theorem MayEnd.mono (h : MayEnd V w s x Q) (hQ : ∀ r s' w', Q r s' w' → Q' r s' w') :
    MayEnd V w s x Q' := by
  have hbind : Program.Possibly V w ((x s).bind .pure) fun r w' => Q' r.1 r.2 w' :=
    Program.Possibly.bind h fun _ _ hr => hQ _ _ _ hr
  rwa [Program.bind_pure] at hbind

theorem MayEnd.and (h : MayEnd V w s x Q) (h' : Ends V w s x Q') :
    MayEnd V w s x fun r s' w' => Q r s' w' ∧ Q' r s' w' :=
  Program.Possibly.and h h'

theorem MayEnd.bind {f : α → Routine ε σ E R β} {Q' : Except ε β → σ → W → Prop}
    (h : MayEnd V w s x Q) (hok : ∀ value s' w', Q (.ok value) s' w' → MayEnd V w' s' (f value) Q')
    (herror : ∀ error s' w', Q (.error error) s' w' → Q' (.error error) s' w') :
    MayEnd V w s (x >>= f) Q' := by
  apply Program.Possibly.bind h
  rintro ⟨result, s'⟩ w' hr
  cases result with
  | ok value => exact hok value s' w' hr
  | error error => exact herror error s' w' hr

theorem MayEnd.capture_bind {f : Except ε α → Routine ε σ E R β} {Q' : Except ε β → σ → W → Prop}
    (h : MayEnd V w s x Q) (hf : ∀ r s' w', Q r s' w' → MayEnd V w' s' (f r) Q') :
    MayEnd V w s (x.capture >>= f) Q' := by
  have hcapture : MayEnd V w s x.capture fun r s' w' => ∃ r', r = .ok r' ∧ Q r' s' w' := by
    apply Program.Possibly.bind h
    rintro ⟨result, s'⟩ w' hr
    exact ⟨result, rfl, hr⟩
  apply hcapture.bind
  · rintro r s' w' ⟨r', heq, hr⟩
    obtain rfl := Except.ok.inj heq
    exact hf r s' w' hr
  · rintro error s' w' ⟨r', heq, -⟩
    cases heq

end Routine

end YtdlBot.Framework
