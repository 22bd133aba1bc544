import YtdlBot.Framework.Tally
import YtdlBot.JobStore.Fencing
import YtdlBot.Retry.Processes

/-!
# Retry tokens are exclusive

Only the execution that began a token can record it, and while it has not, the row of the token
stays unfinalized, so nobody else begins it.
-/

namespace YtdlBot.Retry

open Framework
open Framework.Program (Follows)
open JobStore (Store DeliveryOutcome DeliveryRow retryKey)

variable {τ : Type} {s : Store τ} {token t : String}

/-- The row of a token. -/
def rowOf (s : Store τ) (token : String) : Option (DeliveryRow τ) :=
  s.deliveries.lookup (retryKey token, "__job__")

/-- `begin_retry_token` takes the token. -/
def Open (s : Store τ) (token : String) : Prop :=
  ∀ d, rowOf s token = some d → d.outcome = .failed ∧ d.finalized = true

/-- The token is begun and not yet recorded. -/
def Unfinalized (s : Store τ) (token : String) : Prop :=
  ∃ d, rowOf s token = some d ∧ d.finalized = false

theorem Unfinalized.not_open (h : Unfinalized s token) : ¬ Open s token := by
  obtain ⟨d, hd, hfinalized⟩ := h
  intro hopen
  rw [(hopen d hd).2] at hfinalized
  cases hfinalized

theorem retryKey_injective (h : retryKey t = retryKey token) : t = token :=
  (String.append_right_inj _).mp h

section Rows

variable [LinearOrder τ] [Add τ] [Zero τ] {now : τ}

/-- Beginning a token either takes an open one, whose row is unfinalized from then on, or does
nothing. -/
theorem beginRetryToken_cases (token : String) (now : τ) (s : Store τ) :
    ((JobStore.beginRetryTokenSync token now s).1 = .ok true ∧ Open s token ∧
      Unfinalized (JobStore.beginRetryTokenSync token now s).2 token ∧
      ∀ t, t ≠ token → rowOf (JobStore.beginRetryTokenSync token now s).2 t = rowOf s t) ∨
    ((JobStore.beginRetryTokenSync token now s).1 = .ok false ∧
      (JobStore.beginRetryTokenSync token now s).2 = s) := by
  have hother : ∀ t, t ≠ token → rowOf (JobStore.beginRetryTokenSync token now s).2 t =
      rowOf s t := by
    intro t ht
    rcases JobStore.deliveries_step s (.beginRetryToken token now) (retryKey t, "__job__") with
      hsame | ⟨d, -, hchange⟩
    · exact hsame
    · generalize hkey : (retryKey t, "__job__") = key at hchange
      cases hchange
      exact absurd (retryKey_injective (Prod.mk.inj hkey).1) ht
  unfold Open Unfinalized rowOf at *
  cases hrow : s.deliveries.lookup (retryKey token, "__job__") with
  | none =>
    left
    refine ⟨?_, by simp, ?_, hother⟩
    · simp [JobStore.beginRetryTokenSync, JobStore.transaction, hrow]
    · simp [JobStore.beginRetryTokenSync, JobStore.transaction, hrow, Table.lookup_upsert,
        DeliveryRow.key]
  | some d =>
    by_cases hfailed : d.outcome = .failed ∧ d.finalized = true
    · left
      refine ⟨?_, ?_, ?_, hother⟩
      · simp [JobStore.beginRetryTokenSync, JobStore.transaction, hrow, hfailed]
      · rintro d' hd'
        obtain rfl := Option.some.inj hd'
        exact hfailed
      · simp [JobStore.beginRetryTokenSync, JobStore.transaction, hrow, hfailed,
          Table.lookup_upsert, JobStore.retriedRow, DeliveryRow.key]
    · right
      simp [JobStore.beginRetryTokenSync, JobStore.transaction, hrow, hfailed]

theorem recordDelivery_other (outcome : DeliveryOutcome) (ht : t ≠ token) :
    rowOf (JobStore.recordDelivery (retryKey token) outcome "__job__" none now s).2 t =
      rowOf s t := by
  rcases JobStore.deliveries_step s (.recordDelivery (retryKey token) outcome "__job__" none now)
    (retryKey t, "__job__") with hsame | ⟨d, -, hchange⟩
  · exact hsame
  · generalize hkey : (retryKey t, "__job__") = key at hchange
    cases hchange
    exact absurd (retryKey_injective (Prod.mk.inj hkey).1) ht

omit [LinearOrder τ] [Add τ] [Zero τ] in
theorem recordDelivery_error {jobId itemKey : String} {outcome : DeliveryOutcome}
    {deliveryId : Option String} {error : JobStore.StoreError}
    (h : (JobStore.recordDelivery jobId outcome itemKey deliveryId now s).1 = .error error) :
    (JobStore.recordDelivery jobId outcome itemKey deliveryId now s).2 = s := by
  simp only [JobStore.recordDelivery, JobStore.recordDeliverySync, JobStore.checked,
    JobStore.transaction] at h ⊢
  split at h
  · split at h
    · cases h
    · rfl
  · rfl

theorem recordDelivery_not_open (h : Unfinalized s token) {outcome : DeliveryOutcome}
    (houtcome : outcome ≠ .failed) :
    ¬ Open (JobStore.recordDelivery (retryKey token) outcome "__job__" none now s).2 token := by
  obtain ⟨old, hold, hfinalized⟩ := h
  rcases JobStore.deliveries_step s (.recordDelivery (retryKey token) outcome "__job__" none now)
    (retryKey token, "__job__") with hsame | ⟨d, hd, hchange⟩
  · exact Unfinalized.not_open ⟨old, hsame.trans hold, hfinalized⟩
  · intro hopen
    have hfailed := (hopen d hd).1
    rw [show s.deliveries.lookup (retryKey token, "__job__") = some old from hold] at hchange
    cases hchange
    have hfinal : old.isFinal = false := by simp [DeliveryRow.isFinal, hfinalized]
    simp [JobStore.recordRow, JobStore.recordedRow, hfinal] at hfailed
    exact houtcome hfailed

/-- No row of a token is touched from elsewhere: a token is no job. -/
theorem rowOf_store {op : JobStore.Op τ} (hop : World.ownCall op = false) (token : String) :
    rowOf (op.run s).2 token = rowOf s token := by
  rcases JobStore.deliveries_step s op (retryKey token, "__job__") with hsame | ⟨d, -, hchange⟩
  · exact hsame
  · have hnoJob : ∀ owner now, JobStore.ownsLiveJob s (retryKey token) owner now = false := by
      intro owner now
      cases hlive : JobStore.ownsLiveJob s (retryKey token) owner now with
      | false => rfl
      | true =>
        obtain ⟨r, hr, -⟩ := JobStore.owner_of_ownsLiveJob hlive
        exact absurd (Table.key_of_lookup hr) (JobStore.str_ne_retry _ _)
    exfalso
    generalize s.deliveries.lookup (retryKey token, "__job__") = old at hchange
    generalize hkey : (retryKey token, "__job__") = key at hchange
    cases hchange with
    | recorded =>
      obtain ⟨rfl, -⟩ := Prod.mk.inj hkey
      have hprefix : "retry:".toList.isPrefixOf (retryKey token).toList = true := by
        rw [List.isPrefixOf_iff_prefix, retryKey, String.toList_append]
        exact List.prefix_append _ _
      rw [World.ownCall, hprefix] at hop
      cases hop
    | reserved live listed open_ =>
      obtain ⟨rfl, -⟩ := Prod.mk.inj hkey
      rw [hnoJob] at live
      cases live
    | finalized live reserved own =>
      obtain ⟨rfl, -⟩ := Prod.mk.inj hkey
      rw [hnoJob] at live
      cases live
    | retried failed => cases hop

end Rows

namespace World

/-- Between two times at which the token is begun it is recorded as failed. -/
def Separated (log : List Event) (token : String) : Prop :=
  ∀ before mid after, log = before ++ .begun token :: (mid ++ .begun token :: after) →
    .recorded token .failed ∈ mid

/-- The token was begun and has not been recorded as failed since. -/
def Pending (log : List Event) (token : String) : Prop :=
  ∃ before after, log = before ++ .begun token :: after ∧ .recorded token .failed ∉ after

def failures (log : List Event) (token : String) : Nat :=
  log.count (.recorded token .failed)

/-- What the log says of a token, given whether its row is open and whether an execution has begun
it without having delivered it. -/
structure Logged (log : List Event) (token : String) (isOpen ready : Prop) : Prop where
  separated : Separated log token
  shut : Pending log token → ¬ isOpen
  delivered : log.count (.delivered token) ≤ log.count (.begun token)
  ready : ready → log.count (.delivered token) + 1 ≤ log.count (.begun token)
  failures : log.count (.begun token) ≤ failures log token + 1
  opened : isOpen → log.count (.begun token) ≤ World.failures log token

section Logs

variable {log : List Event} {isOpen isOpen' ready ready' : Prop}

theorem Logged.weaken (h : Logged log token isOpen ready) (hopen : isOpen' → isOpen)
    (hready : ready' → ready) : Logged log token isOpen' ready' where
  separated := h.separated
  shut hp ho := h.shut hp (hopen ho)
  delivered := h.delivered
  ready hr := h.ready (hready hr)
  failures := h.failures
  opened ho := h.opened (hopen ho)

theorem append_singleton_eq {ev x : Event} {before after : List Event}
    (h : log ++ [ev] = before ++ x :: after) :
    (after = [] ∧ log = before ∧ ev = x) ∨ ∃ rest, after = rest ++ [ev] ∧ log = before ++ x :: rest := by
  rcases List.eq_nil_or_concat after with rfl | ⟨rest, last, rfl⟩
  · left
    obtain ⟨hlog, hev⟩ := List.append_inj' h rfl
    exact ⟨rfl, hlog, (List.cons.inj hev).1⟩
  · right
    rw [List.concat_eq_append, ← List.cons_append, ← List.append_assoc] at h
    obtain ⟨hlog, hev⟩ := List.append_inj' h rfl
    obtain rfl := (List.cons.inj hev).1
    exact ⟨rest, List.concat_eq_append, hlog⟩

theorem separated_append {ev : Event} (h : Separated log token)
    (hev : ev = .begun token → ¬ Pending log token) : Separated (log ++ [ev]) token := by
  intro before mid after heq
  rcases append_singleton_eq heq with ⟨hnil, -, -⟩ | ⟨rest, hrest, hlog⟩
  · simp at hnil
  · rcases List.eq_nil_or_concat after with rfl | ⟨more, last, rfl⟩
    · obtain ⟨rfl, hbegun⟩ := List.append_inj' hrest rfl
      have hnot := hev (List.cons.inj hbegun).1.symm
      by_contra hmid
      exact hnot ⟨before, mid, hlog, hmid⟩
    · rw [List.concat_eq_append, ← List.cons_append, ← List.append_assoc] at hrest
      obtain ⟨rfl, -⟩ := List.append_inj' hrest rfl
      exact h before mid more hlog

theorem pending_append {ev : Event} (h : Pending (log ++ [ev]) token) :
    ev = .begun token ∨ (ev ≠ .recorded token .failed ∧ Pending log token) := by
  obtain ⟨before, after, heq, hafter⟩ := h
  rcases append_singleton_eq heq with ⟨-, -, rfl⟩ | ⟨rest, rfl, hlog⟩
  · exact .inl rfl
  · right
    rw [List.mem_append, not_or, List.mem_singleton] at hafter
    exact ⟨fun h => hafter.2 h.symm, before, rest, hlog, hafter.1⟩

theorem Logged.other {ev : Event} (h : Logged log token isOpen ready)
    (hbegun : ev ≠ .begun token) (hdelivered : ev ≠ .delivered token)
    (hrecorded : ∀ outcome, ev ≠ .recorded token outcome) :
    Logged (log ++ [ev]) token isOpen ready where
  separated := separated_append h.separated fun h => absurd h hbegun
  shut hp := by
    rcases pending_append hp with h' | ⟨-, hp⟩
    · exact absurd h' hbegun
    · exact h.shut hp
  delivered := by simpa [List.count_append, hbegun, hdelivered] using h.delivered
  ready hr := by simpa [List.count_append, hbegun, hdelivered] using h.ready hr
  failures := by simpa [World.failures, List.count_append, hbegun, hrecorded] using h.failures
  opened ho := by simpa [World.failures, List.count_append, hbegun, hrecorded] using h.opened ho

theorem Logged.begin (h : Logged log token isOpen ready) (hopen : isOpen) (hready' : ¬ isOpen') :
    Logged (log ++ [.begun token]) token isOpen' ready' where
  separated := separated_append h.separated fun _ hp => h.shut hp hopen
  shut _ := hready'
  delivered := by
    have hle := h.delivered
    simp [List.count_append]
    omega
  ready _ := by
    have hle := h.delivered
    simp [List.count_append]
    omega
  failures := by
    have hle := h.opened hopen
    simp [World.failures, List.count_append] at hle ⊢
    omega
  opened ho := absurd ho hready'

theorem Logged.deliver (h : Logged log token isOpen ready) (hready : ready) (hready' : ¬ ready') :
    Logged (log ++ [.delivered token]) token isOpen ready' where
  separated := separated_append h.separated fun h => nomatch h
  shut hp := by
    rcases pending_append hp with h' | ⟨-, hp⟩
    · cases h'
    · exact h.shut hp
  delivered := by
    have hle := h.ready hready
    simp [List.count_append]
    omega
  ready hr := absurd hr hready'
  failures := by simpa [World.failures, List.count_append] using h.failures
  opened ho := by simpa [World.failures, List.count_append] using h.opened ho

theorem Logged.record {outcome : DeliveryOutcome} (h : Logged log token isOpen ready)
    (hopen : outcome ≠ .failed → ¬ isOpen') (hready' : ¬ ready') :
    Logged (log ++ [.recorded token outcome]) token isOpen' ready' where
  separated := separated_append h.separated fun h => nomatch h
  shut hp := by
    rcases pending_append hp with h' | ⟨hne, -⟩
    · cases h'
    · exact hopen fun houtcome => hne (by rw [houtcome])
  delivered := by simpa [List.count_append] using h.delivered
  ready hr := absurd hr hready'
  failures := by
    have hle := h.failures
    simp only [World.failures, List.count_append] at hle ⊢
    simp
    omega
  opened ho := by
    have hfailed : outcome = .failed := by
      by_contra hne
      exact hopen hne ho
    have hle := h.failures
    simp [World.failures, List.count_append, hfailed] at hle ⊢
    omega

end Logs

variable {w w' : World τ} {i : Nat} {e : Execution}

/-- An execution has begun the token and not delivered it. -/
def Ready (w : World τ) (token : String) : Prop :=
  ∃ i e, w.executions i = some e ∧ e.token = token ∧ e.phase = .begun

structure Inv (w : World τ) : Prop where
  follows : ∀ i e, w.executions i = some e →
    Follows (protocol e.token) e.phase e.program fun _ _ => True
  one : ∀ i j e e', w.executions i = some e → w.executions j = some e' → Reserved e.phase →
    Reserved e'.phase → e.token = e'.token → i = j
  held : ∀ i e, w.executions i = some e → Reserved e.phase → Unfinalized w.store e.token
  logged : ∀ token, Logged w.log token (Open w.store token) (w.Ready token)

theorem inv_initial (s : Store τ) : Inv (initial s) where
  follows := by
    intro i e he
    cases he
  one := by
    intro i j e e' he
    cases he
  held := by
    intro i e he
    cases he
  logged := by
    intro token
    refine ⟨?_, ?_, ?_, ?_, ?_, ?_⟩
    · intro before mid after heq
      simp [initial] at heq
    · rintro ⟨before, after, heq, -⟩
      simp [initial] at heq
    · exact Nat.le_refl _
    · rintro ⟨i, e, he, -⟩
      cases he
    · exact Nat.zero_le _
    · exact fun _ => Nat.zero_le _

theorem unfinalized_of_row {s s' : Store τ} (hrow : rowOf s' token = rowOf s token)
    (h : Unfinalized s token) : Unfinalized s' token := by
  unfold Unfinalized at h ⊢
  rwa [hrow]

theorem open_of_row {s s' : Store τ} (hrow : rowOf s' token = rowOf s token)
    (h : Open s' token) : Open s token := by
  unfold Open at h ⊢
  rwa [← hrow]

/-- A step that writes no row of a token and logs nothing: every execution that holds a token after
it held the token before, perhaps under another number. -/
theorem Inv.frame (hw : Inv w) (hlog : w'.log = w.log)
    (hrows : ∀ token, rowOf w'.store token = rowOf w.store token)
    (hfollows : ∀ k e', w'.executions k = some e' →
      Follows (protocol e'.token) e'.phase e'.program fun _ _ => True)
    (f : Nat → Nat)
    (hold : ∀ k e', w'.executions k = some e' → Reserved e'.phase →
      ∃ e, w.executions (f k) = some e ∧ e.token = e'.token ∧ e.phase = e'.phase)
    (hinj : ∀ k l e e', w'.executions k = some e → w'.executions l = some e' → Reserved e.phase →
      Reserved e'.phase → f k = f l → k = l) : Inv w' where
  follows := hfollows
  one := by
    intro k l e₁ e₂ hk hl hr₁ hr₂ htoken
    obtain ⟨d₁, hd₁, ht₁, hp₁⟩ := hold k e₁ hk hr₁
    obtain ⟨d₂, hd₂, ht₂, hp₂⟩ := hold l e₂ hl hr₂
    apply hinj k l e₁ e₂ hk hl hr₁ hr₂
    exact hw.one _ _ d₁ d₂ hd₁ hd₂ (hp₁ ▸ hr₁) (hp₂ ▸ hr₂) (ht₁.trans (htoken.trans ht₂.symm))
  held := by
    intro k e' hk hr
    obtain ⟨e, he, ht, hp⟩ := hold k e' hk hr
    have hheld := hw.held _ e he (hp ▸ hr)
    rw [ht] at hheld
    exact unfinalized_of_row (hrows _) hheld
  logged := by
    intro token
    rw [hlog]
    apply (hw.logged token).weaken
    · exact open_of_row (hrows token)
    · rintro ⟨k, e', hk, ht, hp⟩
      obtain ⟨e, he, ht', hp'⟩ := hold k e' hk (.inl hp)
      exact ⟨_, e, he, ht'.trans ht, hp'.trans hp⟩

theorem replaced_cases {e' : Option Execution} {k : Nat} {d : Execution}
    (hexecutions : w'.executions = Function.update w.executions i e')
    (hd : w'.executions k = some d) :
    (k = i ∧ e' = some d) ∨ (k ≠ i ∧ w.executions k = some d) := by
  rw [hexecutions] at hd
  by_cases hk : k = i
  · rw [hk, Function.update_self] at hd
    exact .inl ⟨hk, hd⟩
  · rw [Function.update_of_ne hk] at hd
    exact .inr ⟨hk, hd⟩

theorem setExecution_cases {w₁ : World τ} (hexecutions : w₁.executions = w.executions)
    {e' d : Execution} {k : Nat} (hd : (w₁.setExecution i (some e')).executions k = some d) :
    (k = i ∧ e' = d) ∨ (k ≠ i ∧ w.executions k = some d) :=
  (replaced_cases (congrArg (Function.update · i (some e')) hexecutions) hd).imp_left
    fun h => ⟨h.1, Option.some.inj h.2⟩

theorem Inv.move (hw : Inv w) (token : String) (w₁ : World τ) (e' : Execution)
    (hexecutions : w₁.executions = w.executions) (htoken : e'.token = token)
    (hfollows : Follows (protocol e'.token) e'.phase e'.program fun _ _ => True)
    (hrows : ∀ t, t ≠ token → rowOf w₁.store t = rowOf w.store t)
    (hsole : ∀ j d, w.executions j = some d → Reserved d.phase → d.token = token → j = i)
    (hheld : Reserved e'.phase → Unfinalized w₁.store token)
    (hlogged : Logged w₁.log token (Open w₁.store token) (e'.phase = .begun))
    (hothers : ∀ t isOpen ready, t ≠ token → Logged w.log t isOpen ready →
      Logged w₁.log t isOpen ready) : Inv (w₁.setExecution i (some e')) := by
  constructor
  case follows =>
    intro k d hd
    rcases setExecution_cases hexecutions hd with ⟨-, rfl⟩ | ⟨-, hd⟩
    · exact hfollows
    · exact hw.follows k d hd
  case one =>
    intro k l d d' hd hd' hr hr' hsame
    rcases setExecution_cases hexecutions hd with ⟨hk, rfl⟩ | ⟨hk, hd⟩
    · rcases setExecution_cases hexecutions hd' with ⟨hl, -⟩ | ⟨hl, hd'⟩
      · exact hk.trans hl.symm
      · exact absurd (hsole l d' hd' hr' (hsame.symm.trans htoken)) hl
    · rcases setExecution_cases hexecutions hd' with ⟨-, rfl⟩ | ⟨-, hd'⟩
      · exact absurd (hsole k d hd hr (hsame.trans htoken)) hk
      · exact hw.one k l d d' hd hd' hr hr' hsame
  case held =>
    intro k d hd hr
    rcases setExecution_cases hexecutions hd with ⟨-, rfl⟩ | ⟨hk, hd⟩
    · rw [htoken]
      exact hheld hr
    · have hne : d.token ≠ token := fun heq => hk (hsole k d hd hr heq)
      exact unfinalized_of_row (hrows _ hne) (hw.held k d hd hr)
  case logged =>
    intro t
    by_cases ht : t = token
    · rw [ht]
      apply hlogged.weaken (fun h => h)
      rintro ⟨k, d, hd, hdt, hdp⟩
      rcases setExecution_cases hexecutions hd with ⟨-, rfl⟩ | ⟨hk, hd⟩
      · exact hdp
      · exact absurd (hsole k d hd (.inl hdp) hdt) hk
    · apply (hothers t _ _ ht (hw.logged t)).weaken
      · exact open_of_row (hrows t ht)
      · rintro ⟨k, d, hd, hdt, hdp⟩
        rcases setExecution_cases hexecutions hd with ⟨-, rfl⟩ | ⟨hk, hd⟩
        · exact absurd (hdt.symm.trans htoken) ht
        · exact ⟨k, d, hd, hdt, hdp⟩

theorem Inv.quiet (hw : Inv w) (hi : w.executions i = some e) (w₁ : World τ) (e' : Execution)
    (hexecutions : w₁.executions = w.executions) (htoken : e'.token = e.token)
    (hfollows : Follows (protocol e'.token) e'.phase e'.program fun _ _ => True)
    (hlog : w₁.log = w.log) (hrows : ∀ t, rowOf w₁.store t = rowOf w.store t)
    (hphase : Reserved e'.phase → e.phase = e'.phase) : Inv (w₁.setExecution i (some e')) := by
  have hlog' : (w₁.setExecution i (some e')).log = w.log := hlog
  apply hw.frame hlog' hrows _ id
  · intro k d hd hr
    rcases setExecution_cases hexecutions hd with ⟨rfl, rfl⟩ | ⟨-, hd⟩
    · exact ⟨e, hi, htoken.symm, hphase hr⟩
    · exact ⟨d, hd, rfl, rfl⟩
  · exact fun k l _ _ _ _ _ _ h => h
  · intro k d hd
    rcases setExecution_cases hexecutions hd with ⟨-, rfl⟩ | ⟨-, hd⟩
    · exact hfollows
    · exact hw.follows k d hd

theorem Inv.drop (hw : Inv w) {e' : Option Execution}
    (hexecutions : w'.executions = Function.update w.executions i e')
    (hnew : ∀ d, e' = some d → ¬ Reserved d.phase ∧
      Follows (protocol d.token) d.phase d.program fun _ _ => True)
    (hlog : w'.log = w.log) (hrows : ∀ t, rowOf w'.store t = rowOf w.store t) : Inv w' := by
  apply hw.frame hlog hrows _ id
  · intro k d hd hr
    rcases replaced_cases hexecutions hd with ⟨-, hd⟩ | ⟨-, hd⟩
    · exact absurd hr (hnew d hd).1
    · exact ⟨d, hd, rfl, rfl⟩
  · exact fun k l _ _ _ _ _ _ h => h
  · intro k d hd
    rcases replaced_cases hexecutions hd with ⟨-, hd⟩ | ⟨-, hd⟩
    · exact (hnew d hd).2
    · exact hw.follows k d hd

theorem perform_other (w : World τ) (token : String) (now : τ) {effect : Effect} (hbegin : ∀ t, effect ≠ .beginRetryToken t)
    (hdeliver : ∀ t saved, effect ≠ .deliver t saved)
    (hrecord : ∀ t outcome, effect ≠ .recordDelivery t outcome) (p : Nat) (fate : Fate)
    (answer : (effect : Effect) → effect.Response) :
    (w.perform p now fate answer effect).2.store = w.store ∧
      (w.perform p now fate answer effect).2.log = w.log ∧
      (w.perform p now fate answer effect).2.executions = w.executions ∧
      ∀ phase r, (protocol token).next phase effect r = phase := by
  cases effect
  case beginRetryToken t => exact absurd rfl (hbegin t)
  case deliver t saved => exact absurd rfl (hdeliver t saved)
  case recordDelivery t outcome => exact absurd rfl (hrecord t outcome)
  case claimActive t =>
    simp only [perform]
    split_ifs
    · exact ⟨rfl, rfl, rfl, fun _ _ => rfl⟩
    · exact ⟨rfl, rfl, rfl, fun _ _ => rfl⟩
    · exact ⟨rfl, rfl, rfl, fun _ _ => rfl⟩
  all_goals exact ⟨rfl, rfl, rfl, fun _ _ => rfl⟩

section Steps

variable [LinearOrder τ] [Add τ] [Zero τ] {now : τ} {fate : Fate}
  {answer : (effect : Effect) → effect.Response}

omit [LinearOrder τ] [Add τ] [Zero τ] in
theorem call_of_commits {ρ : Type} (hcommits : fate.commits = true)
    (result : Except JobStore.StoreError ρ × Store τ)
    (events : Except JobStore.StoreError ρ → List Event) :
    w.call fate result events = { w with store := result.2, log := w.log ++ events result.1 } :=
  if_pos hcommits

omit [LinearOrder τ] [Add τ] [Zero τ] in
theorem call_of_not_commits {ρ : Type} (hcommits : fate.commits = false)
    (result : Except JobStore.StoreError ρ × Store τ)
    (events : Except JobStore.StoreError ρ → List Event) : w.call fate result events = w :=
  if_neg (by simp [hcommits])

theorem next_begin_refused {phase : Phase} {reply : Except Interruption Bool}
    (h : reply ≠ .ok true) : (protocol token).next phase (.beginRetryToken token) reply = .done := by
  rcases reply with _ | _ | _
  · rfl
  · rfl
  · exact absurd rfl h

theorem reply_of_not_commits {ρ : Type} (hcommits : fate.commits = false)
    (result : Except JobStore.StoreError ρ) (value : ρ) : fate.reply result ≠ .ok value := by
  cases fate with
  | completes => cases hcommits
  | fails interruption committed => exact fun h => nomatch h

omit [LinearOrder τ] [Add τ] [Zero τ] in
theorem Inv.refuse (hw : Inv w) (hi : w.executions i = some e) (w₁ : World τ)
    (hexecutions : w₁.executions = w.executions) (hlog : w₁.log = w.log)
    (hrows : ∀ t, rowOf w₁.store t = rowOf w.store t)
    {next : Except Interruption Bool →
      Program Empty Effect Effect.Response (Except RetryError Unit × Unit)}
    {reply : Except Interruption Bool} (hreply : reply ≠ .ok true)
    (hnext : Follows (protocol e.token)
      ((protocol e.token).next e.phase (.beginRetryToken e.token) reply) (next reply)
      fun _ _ => True) :
    Inv (w₁.setExecution i (some (e.advance (.beginRetryToken e.token) next reply))) := by
  apply hw.quiet hi w₁ (e.advance (.beginRetryToken e.token) next reply) hexecutions rfl hnext hlog
    hrows
  intro hr
  simp only [Execution.advance, next_begin_refused hreply] at hr
  rcases hr with hr | hr
  · cases hr
  · cases hr

theorem Inv.begin (hw : Inv w) (hi : w.executions i = some e)
    {next : Except Interruption Bool →
      Program Empty Effect Effect.Response (Except RetryError Unit × Unit)}
    (hprogram : e.program = .perform (.beginRetryToken token) next)
    {result : Except JobStore.StoreError Bool × Store τ}
    (hresult : JobStore.beginRetryTokenSync token now w.store = result) :
    Inv ((w.call fate result (begun token)).setExecution i
      (some (e.advance (.beginRetryToken token) next (fate.reply result.1)))) := by
  have hfollows := hw.follows i e hi
  rw [hprogram] at hfollows
  obtain ⟨⟨rfl, hphase⟩, hnext⟩ := hfollows
  have hcases := beginRetryToken_cases e.token now w.store
  rw [hresult] at hcases
  rcases hcases with ⟨htaken, hopen, hunfinalized, hother⟩ | ⟨hrefused, hstore⟩
  · cases hcommits : fate.commits with
    | true =>
      rw [call_of_commits hcommits, htaken]
      refine hw.move e.token _ _ rfl rfl (hnext _) hother ?_ (fun _ => hunfinalized) ?_ ?_
      · intro j d hd hr hdt
        have hheld := hw.held j d hd hr
        rw [hdt] at hheld
        exact absurd hopen hheld.not_open
      · exact (hw.logged e.token).begin hopen hunfinalized.not_open
      · intro t isOpen ready ht h
        exact h.other (by simpa using Ne.symm ht) (by simp) (by simp)
    | false =>
      rw [call_of_not_commits hcommits]
      exact hw.refuse hi _ rfl rfl (fun _ => rfl) (reply_of_not_commits hcommits _ _) (hnext _)
  · have hreply : fate.reply result.1 ≠ .ok true := by
      rw [hrefused]
      cases fate with
      | completes => exact fun h => nomatch h
      | fails interruption committed => exact fun h => nomatch h
    cases hcommits : fate.commits with
    | true =>
      rw [call_of_commits hcommits]
      have hlog : w.log ++ begun e.token result.1 = w.log := by
        rw [hrefused]
        exact List.append_nil _
      rw [hstore, hlog]
      exact hw.refuse hi w rfl rfl (fun _ => rfl) hreply (hnext _)
    | false =>
      rw [call_of_not_commits hcommits]
      exact hw.refuse hi _ rfl rfl (fun _ => rfl) hreply (hnext _)

omit [LinearOrder τ] [Add τ] [Zero τ] in
theorem Inv.sole (hw : Inv w) (hi : w.executions i = some e) (hr : Reserved e.phase) :
    ∀ j d, w.executions j = some d → Reserved d.phase → d.token = e.token → j = i :=
  fun j d hd hr' htoken => hw.one j i d e hd hi hr' hr htoken

omit [LinearOrder τ] [Add τ] [Zero τ] in
theorem Inv.deliver (hw : Inv w) (hi : w.executions i = some e) {saved : RetryRequest}
    {next : (Effect.deliver token saved).Response →
      Program Empty Effect Effect.Response (Except RetryError Unit × Unit)}
    (hprogram : e.program = .perform (.deliver token saved) next)
    (response : (Effect.deliver token saved).Response) :
    Inv (({ w with log := w.log ++ [.delivered token] } : World τ).setExecution i
      (some (e.advance (.deliver token saved) next response))) := by
  have hfollows := hw.follows i e hi
  rw [hprogram] at hfollows
  obtain ⟨⟨rfl, hphase⟩, hnext⟩ := hfollows
  have hr : Reserved e.phase := .inl hphase
  refine hw.move e.token _ _ rfl rfl (hnext _) (fun _ _ => rfl) (hw.sole hi hr)
    (fun _ => hw.held i e hi hr) ?_ ?_
  · exact (hw.logged e.token).deliver ⟨i, e, hi, rfl, hphase⟩ (fun h => nomatch h)
  · intro t isOpen ready ht h
    exact h.other (by simp) (by simpa using Ne.symm ht) (by simp)

theorem Inv.record (hw : Inv w) (hi : w.executions i = some e) {outcome : DeliveryOutcome}
    {next : Except Interruption DeliveryOutcome →
      Program Empty Effect Effect.Response (Except RetryError Unit × Unit)}
    (hprogram : e.program = .perform (.recordDelivery token outcome) next)
    {result : Except JobStore.StoreError DeliveryOutcome × Store τ}
    (hresult : JobStore.recordDelivery (retryKey token) outcome "__job__" none now w.store = result)
    (response : Except Interruption DeliveryOutcome) :
    Inv ((w.call fate result (recorded token outcome)).setExecution i
      (some (e.advance (.recordDelivery token outcome) next response))) := by
  have hfollows := hw.follows i e hi
  rw [hprogram] at hfollows
  obtain ⟨⟨rfl, hr⟩, hnext⟩ := hfollows
  have hdone : ¬ Reserved (e.advance (.recordDelivery e.token outcome) next response).phase :=
    fun h => by rcases h with h | h <;> cases h
  have hheld := hw.held i e hi hr
  have hrows : ∀ t, t ≠ e.token → rowOf result.2 t = rowOf w.store t :=
    fun t ht => hresult ▸ recordDelivery_other outcome ht
  have hshut : outcome ≠ .failed → ¬ Open result.2 e.token :=
    fun houtcome => hresult ▸ recordDelivery_not_open hheld houtcome
  have hquiet : Inv (w.setExecution i
      (some (e.advance (.recordDelivery e.token outcome) next response))) :=
    hw.quiet hi w _ rfl rfl (hnext _) rfl (fun _ => rfl) fun h => absurd h hdone
  cases hcommits : fate.commits with
  | false =>
    rw [call_of_not_commits hcommits]
    exact hquiet
  | true =>
    rw [call_of_commits hcommits]
    cases hreply : result.1 with
    | error error =>
      have hstore : result.2 = w.store := by
        rw [← hresult] at hreply ⊢
        exact recordDelivery_error hreply
      rw [hstore, recorded, List.append_nil]
      exact hquiet
    | ok d =>
      refine hw.move e.token _ _ rfl rfl (hnext _) hrows (hw.sole hi hr)
        (fun h => absurd h hdone) ?_ ?_
      · exact (hw.logged e.token).record hshut fun h => nomatch h
      · intro t isOpen ready ht h
        exact h.other (by simp) (by simp) (by simpa using fun h' => absurd h' (Ne.symm ht))

theorem Inv.perform (hw : Inv w) (hi : w.executions i = some e) {effect : Effect}
    {next : effect.Response →
      Program Empty Effect Effect.Response (Except RetryError Unit × Unit)}
    (hprogram : e.program = .perform effect next) :
    Inv ((w.perform e.process now fate answer effect).2.setExecution i
      (some (e.advance effect next (w.perform e.process now fate answer effect).1))) := by
  by_cases hbegin : ∃ t, effect = .beginRetryToken t
  · obtain ⟨t, rfl⟩ := hbegin
    exact hw.begin hi hprogram rfl
  by_cases hdeliver : ∃ t saved, effect = .deliver t saved
  · obtain ⟨t, saved, rfl⟩ := hdeliver
    exact hw.deliver hi hprogram _
  by_cases hrecord : ∃ t outcome, effect = .recordDelivery t outcome
  · obtain ⟨t, outcome, rfl⟩ := hrecord
    exact hw.record hi hprogram rfl _
  obtain ⟨hstore, hlog, hexecutions, hnext⟩ := perform_other w e.token now
    (fun t h => hbegin ⟨t, h⟩) (fun t saved h => hdeliver ⟨t, saved, h⟩)
    (fun t outcome h => hrecord ⟨t, outcome, h⟩) e.process fate answer
  have hfollows := hw.follows i e hi
  rw [hprogram] at hfollows
  exact hw.quiet hi _ _ hexecutions rfl (hfollows.2 _) hlog (fun t => by rw [hstore])
    fun _ => (hnext _ _).symm

omit [LinearOrder τ] [Add τ] [Zero τ] in
theorem Inv.cancel (hw : Inv w) (hi : w.executions i = some e) {j : Nat}
    (hj : w.executions j = none) {effect : Effect}
    {next : effect.Response →
      Program Empty Effect Effect.Response (Except RetryError Unit × Unit)}
    (hprogram : e.program = .perform effect next) {response : effect.Response}
    (hdone : (protocol e.token).next e.phase effect response = .done) :
    Inv ((w.setExecution i (some (e.advance effect next response))).setExecution j
      (some { e with program := .perform effect fun _ => .pure (.ok (), ()) })) := by
  have hfollows := hw.follows i e hi
  rw [hprogram] at hfollows
  obtain ⟨hallowed, hnext⟩ := hfollows
  have hij : j ≠ i := by
    rintro rfl
    rw [hi] at hj
    cases hj
  have hgone : ¬ Reserved (e.advance effect next response).phase := by
    show ¬ Reserved ((protocol e.token).next e.phase effect response)
    rw [hdone]
    rintro (h | h) <;> cases h
  have hmid : Inv (w.setExecution i (some (e.advance effect next response))) :=
    hw.quiet hi w _ rfl rfl (hnext _) rfl (fun _ => rfl) fun h => absurd h hgone
  have hcases : ∀ k d, ((w.setExecution i (some (e.advance effect next response))).setExecution j
      (some { e with program := .perform effect fun _ => .pure (.ok (), ()) })).executions k =
        some d → Reserved d.phase →
      ∃ d', w.executions (if k = j then i else k) = some d' ∧ d'.token = d.token ∧
        d'.phase = d.phase ∧ (k ≠ j → k ≠ i) := by
    intro k d hd hr
    rcases setExecution_cases rfl hd with ⟨hk, rfl⟩ | ⟨hk, hd⟩
    · rw [if_pos hk]
      exact ⟨e, hi, rfl, rfl, fun h => absurd hk h⟩
    · rcases setExecution_cases rfl hd with ⟨-, rfl⟩ | ⟨hki, hd⟩
      · exact absurd hr hgone
      · rw [if_neg hk]
        exact ⟨d, hd, rfl, rfl, fun _ => hki⟩
  refine @Inv.frame _ w _ hw rfl (fun _ => rfl) ?_ (fun k => if k = j then i else k) ?_ ?_
  · intro k d hd
    rcases setExecution_cases rfl hd with ⟨-, rfl⟩ | ⟨-, hd⟩
    · exact ⟨hallowed, fun _ => trivial⟩
    · exact hmid.follows k d hd
  · intro k d hd hr
    obtain ⟨d', hd', ht, hp, -⟩ := hcases k d hd hr
    exact ⟨d', hd', ht, hp⟩
  · intro k l d d' hd hd' hr hr' heq
    obtain ⟨-, -, -, -, hk⟩ := hcases k d hd hr
    obtain ⟨-, -, -, -, hl⟩ := hcases l d' hd' hr'
    by_cases hkj : k = j
    · by_cases hlj : l = j
      · rw [hkj, hlj]
      · simp only [if_pos hkj, if_neg hlj] at heq
        exact absurd heq.symm (hl hlj)
    · by_cases hlj : l = j
      · simp only [if_neg hkj, if_pos hlj] at heq
        exact absurd heq (hk hkj)
      · simpa only [if_neg hkj, if_neg hlj] using heq

theorem inv_step {a : Action τ} (hw : Inv w) (hstep : step w a = some w') : Inv w' := by
  cases a with
  | start i p q =>
    simp only [step] at hstep
    split_ifs at hstep
    obtain rfl := Option.some.inj hstep
    refine @Inv.drop _ w _ i hw _ rfl ?_ rfl fun _ => rfl
    intro d hd
    obtain rfl := Option.some.inj hd
    constructor
    · rintro (h | h) <;> cases h
    · have hmeets : Routine.Meets (protocol (q.token.getD "")) (fun _ => True) .before (onRetry q)
          fun _ _ => True := meets_onRetry q
      exact (hmeets () trivial).mono fun _ _ _ => trivial
  | resume i now fate answer =>
    simp only [step, Option.map_eq_some_iff] at hstep
    obtain ⟨e, hi, rfl⟩ := hstep
    cases hprogram : e.program with
    | perform effect next => exact hw.perform hi hprogram
    | pure result => exact @Inv.drop _ w _ i hw none rfl (fun _ h => nomatch h) rfl fun _ => rfl
    | raise error => exact error.elim
  | cancel i j =>
    simp only [step, Option.bind_eq_some_iff] at hstep
    obtain ⟨e, hi, hstep⟩ := hstep
    split_ifs at hstep with hj
    have hj : w.executions j = none := by simpa using hj
    split at hstep
    next t next hprogram =>
      obtain rfl := Option.some.inj hstep
      exact hw.cancel hi hj hprogram rfl
    next t outcome next hprogram =>
      obtain rfl := Option.some.inj hstep
      exact hw.cancel hi hj hprogram rfl
    next => cases hstep
  | crash p =>
    obtain rfl := Option.some.inj hstep
    have hkept : ∀ k d, ((w.executions k).filter fun e => decide (e.process ≠ p)) = some d →
        w.executions k = some d := fun k d hd => (Option.filter_eq_some_iff.mp hd).1
    refine @Inv.frame _ w _ hw rfl (fun _ => rfl) ?_ id ?_ fun _ _ _ _ _ _ _ _ h => h
    · exact fun k d hd => hw.follows k d (hkept k d hd)
    · exact fun k d hd _ => ⟨d, hkept k d hd, rfl, rfl⟩
  | evict p t =>
    obtain rfl := Option.some.inj hstep
    exact @Inv.frame _ w _ hw rfl (fun _ => rfl) hw.follows id
      (fun k d hd _ => ⟨d, hd, rfl, rfl⟩) fun _ _ _ _ _ _ _ _ h => h
  | store op =>
    simp only [step] at hstep
    split_ifs at hstep with hop
    obtain rfl := Option.some.inj hstep
    exact @Inv.frame _ w _ hw rfl (rowOf_store (by simpa using hop)) hw.follows id
      (fun k d hd _ => ⟨d, hd, rfl, rfl⟩) fun _ _ _ _ _ _ _ _ h => h

theorem inv_run {as : List (Action τ)} (hr : machine.run (initial s) as = some w) : Inv w :=
  machine.invariant (fun _ _ _ hw hstep => inv_step hw hstep) (inv_initial s) hr

/-- What one step may do to the store and the log: at most one call, at most one event, and a token
is only begun while it is open. -/
structure Adds (w w' : World τ) : Prop where
  store : w'.store = w.store ∨ ∃ op : JobStore.Op τ, w'.store = (op.run w.store).2
  log : w'.log = w.log ∨ ∃ ev, w'.log = w.log ++ [ev] ∧
    ∀ token, ev = .begun token → Open w.store token

theorem Adds.unchanged (hstore : w'.store = w.store) (hlog : w'.log = w.log) : Adds w w' :=
  ⟨.inl hstore, .inl hlog⟩

theorem adds_call {ρ : Type} {result : Except JobStore.StoreError ρ × Store τ}
    {events : Except JobStore.StoreError ρ → List Event} (op : JobStore.Op τ)
    (hstore : result.2 = (op.run w.store).2)
    (hevents : events result.1 = [] ∨
      ∃ ev, events result.1 = [ev] ∧ ∀ token, ev = .begun token → Open w.store token) :
    Adds w (w.call fate result events) := by
  cases hcommits : fate.commits with
  | false =>
    rw [call_of_not_commits hcommits]
    exact .unchanged rfl rfl
  | true =>
    rw [call_of_commits hcommits]
    refine ⟨.inr ⟨op, hstore⟩, ?_⟩
    rcases hevents with hnone | ⟨ev, hev, hopen⟩
    · left
      show w.log ++ events result.1 = w.log
      rw [hnone, List.append_nil]
    · right
      refine ⟨ev, ?_, hopen⟩
      show w.log ++ events result.1 = w.log ++ [ev]
      rw [hev]

theorem adds_perform (p : Nat) (effect : Effect) :
    Adds w (w.perform p now fate answer effect).2 := by
  by_cases hbegin : ∃ t, effect = .beginRetryToken t
  · obtain ⟨t, rfl⟩ := hbegin
    apply adds_call (.beginRetryToken t now)
    · rfl
    rcases beginRetryToken_cases t now w.store with ⟨htaken, hopen, -⟩ | ⟨hrefused, -⟩
    · right
      rw [htaken]
      refine ⟨.begun t, rfl, fun token heq => ?_⟩
      obtain rfl := Event.begun.inj heq
      exact hopen
    · left
      rw [hrefused]
      rfl
  by_cases hrecord : ∃ t outcome, effect = .recordDelivery t outcome
  · obtain ⟨t, outcome, rfl⟩ := hrecord
    apply adds_call (.recordDelivery (retryKey t) outcome "__job__" none now)
    · rfl
    cases (JobStore.recordDelivery (retryKey t) outcome "__job__" none now w.store).1 with
    | error error => exact .inl rfl
    | ok d => exact .inr ⟨_, rfl, fun _ h => nomatch h⟩
  by_cases hdeliver : ∃ t saved, effect = .deliver t saved
  · obtain ⟨t, saved, rfl⟩ := hdeliver
    exact ⟨.inl rfl, .inr ⟨_, rfl, fun _ h => nomatch h⟩⟩
  obtain ⟨hstore, hlog, -⟩ := perform_other w "" now
    (fun t h => hbegin ⟨t, h⟩) (fun t saved h => hdeliver ⟨t, saved, h⟩)
    (fun t outcome h => hrecord ⟨t, outcome, h⟩) p fate answer
  exact .unchanged hstore hlog

theorem adds_step {a : Action τ} (hstep : step w a = some w') : Adds w w' := by
  cases a with
  | start i p q =>
    simp only [step] at hstep
    split_ifs at hstep
    obtain rfl := Option.some.inj hstep
    exact .unchanged rfl rfl
  | resume i now fate answer =>
    simp only [step, Option.map_eq_some_iff] at hstep
    obtain ⟨e, hi, rfl⟩ := hstep
    cases e.program with
    | perform effect next =>
      have hadds : Adds w (w.perform e.process now fate answer effect).2 :=
        adds_perform e.process effect
      exact ⟨hadds.store, hadds.log⟩
    | pure result => exact .unchanged rfl rfl
    | raise error => exact error.elim
  | cancel i j =>
    simp only [step, Option.bind_eq_some_iff] at hstep
    obtain ⟨e, hi, hstep⟩ := hstep
    split_ifs at hstep
    split at hstep
    · obtain rfl := Option.some.inj hstep
      exact .unchanged rfl rfl
    · obtain rfl := Option.some.inj hstep
      exact .unchanged rfl rfl
    · cases hstep
  | crash p =>
    obtain rfl := Option.some.inj hstep
    exact .unchanged rfl rfl
  | evict p t =>
    obtain rfl := Option.some.inj hstep
    exact .unchanged rfl rfl
  | store op =>
    simp only [step] at hstep
    split_ifs at hstep
    obtain rfl := Option.some.inj hstep
    exact ⟨.inr ⟨op, rfl⟩, .inl rfl⟩

theorem open_of_begun {a : Action τ} (hstep : step w a = some w')
    (h : w.log.count (.begun token) < w'.log.count (.begun token)) : Open w.store token := by
  rcases (adds_step hstep).log with hlog | ⟨ev, hlog, hopen⟩
  · rw [hlog] at h
    exact absurd h (Nat.lt_irrefl _)
  · apply hopen
    by_contra hne
    rw [hlog] at h
    simp [List.count_append, hne] at h

theorem final_step {a : Action τ} (hstep : step w a = some w')
    (h : ∃ d, rowOf w.store token = some d ∧ d.isFinal) :
    ∃ d, rowOf w'.store token = some d ∧ d.isFinal := by
  obtain ⟨d, hrow, hd⟩ := h
  rcases (adds_step hstep).store with hstore | ⟨op, hstore⟩
  · exact ⟨d, hstore ▸ hrow, hd⟩
  · obtain ⟨d', hd', hkeeps⟩ := JobStore.finalReceipt_step op hrow hd
    exact ⟨d', hstore ▸ hd', JobStore.DeliveryRow.Keeps.isFinal hkeeps hd⟩

/-- A token whose row is final is never begun again. -/
theorem final_run {as : List (Action τ)} (hr : machine.run w as = some w')
    (h : ∃ d, rowOf w.store token = some d ∧ d.isFinal) :
    w'.log.count (.begun token) = w.log.count (.begun token) := by
  have hinv := machine.invariant (I := fun v : World τ =>
    (∃ d, rowOf v.store token = some d ∧ d.isFinal) ∧
      v.log.count (.begun token) = w.log.count (.begun token)) ?_ ⟨h, rfl⟩ hr
  · exact hinv.2
  · rintro v a v' ⟨hfinal, hcount⟩ hstep
    refine ⟨final_step hstep hfinal, ?_⟩
    obtain ⟨d, hrow, hd⟩ := hfinal
    have hnot : ¬ Open v.store token := by
      intro hopen
      exact (JobStore.DeliveryRow.isFinal_iff.mp hd).2 (hopen d hrow).1
    have hle : v.log.count (.begun token) ≤ v'.log.count (.begun token) := by
      rcases (adds_step hstep).log with hlog | ⟨ev, hlog, -⟩
      · rw [hlog]
      · rw [hlog, List.count_append]
        exact Nat.le_add_right _ _
    have hge : ¬ v.log.count (.begun token) < v'.log.count (.begun token) :=
      fun hlt => hnot (open_of_begun hstep hlt)
    omega

/-- Between two times at which a token is begun it is recorded as failed; it is only begun while its
row, if there is one, is finalized as failed; and it is delivered at most once more often than it is
recorded as failed. -/
theorem retry_tokens_exclusive {as : List (Action τ)}
    (hr : machine.run (initial s) as = some w) (token : String) :
    Separated w.log token ∧
    (∀ a w', step w a = some w' → w.log.count (.begun token) < w'.log.count (.begun token) →
      Open w.store token ∧ ¬ Unfinalized w.store token) ∧
    (∀ d, rowOf w.store token = some d → d.finalized = true → d.outcome ≠ .failed →
      ∀ as' w', machine.run w as' = some w' →
        w'.log.count (.begun token) = w.log.count (.begun token)) ∧
    w.log.count (.delivered token) ≤ 1 + w.log.count (.recorded token .failed) := by
  have hw := inv_run hr
  refine ⟨(hw.logged token).separated, ?_, ?_, ?_⟩
  · intro a w' hstep hbegun
    have hopen := open_of_begun hstep hbegun
    exact ⟨hopen, fun h => h.not_open hopen⟩
  · intro d hrow hfinalized houtcome as' w' hr'
    exact final_run hr' ⟨d, hrow, JobStore.DeliveryRow.isFinal_iff.mpr ⟨hfinalized, houtcome⟩⟩
  · have hdelivered := (hw.logged token).delivered
    have hfailures := (hw.logged token).failures
    simp only [failures] at hfailures
    omega

end Steps

section Witness

/-- The button of one message. -/
def pressed : Query := ⟨true, some "t", 7, 42, 1⟩

/-- Every await is answered; the delivery fails before anything was sent. -/
def failing : (effect : Effect) → effect.Response
  | .isFinished _ => false
  | .hasPipeline | .hasJobStore => true
  | .claimActive _ => .claimed
  | .discardActive _ | .markFinished _ => ()
  | .offerSlideshow _ => .ok false
  | .deliver _ _ => .error (.mediaPipeline "timed out" true)
  | .getSaved _ => .ok (some ⟨⟨"k"⟩, 7, 42, 1, "", none⟩)
  | .allowUser _ | .allowChat _ | .beginRetryToken _ => .ok true
  | .deliveryOutcome _ => .ok none
  | .recordDelivery _ outcome => .ok outcome
  | .setSaved _ _ | .answer _ _ | .editText _ _ | .deleteSaved _ | .deleteStatus
  | .deleteMessage _ _ => .ok ()

/-- Process 0 fails to deliver; process 1 begins the token again and crashes; process 2 then finds
it begun. -/
def retried : List (Action Nat) :=
  .start 0 0 pressed :: List.replicate 18 (.resume 0 1 .completes failing) ++
  .start 1 1 pressed :: List.replicate 13 (.resume 1 2 .completes failing) ++
  .crash 1 :: .start 2 2 pressed :: List.replicate 11 (.resume 2 3 .completes failing)

theorem retry_tokens_exclusive_retried :
    ∃ w, machine.run (initial Store.initial) retried = some w ∧
      w.log = [.begun "t", .delivered "t", .recorded "t" .failed, .begun "t"] ∧
      Separated w.log "t" ∧
      w.log.count (.delivered "t") ≤ 1 + w.log.count (.recorded "t" .failed) := by
  have hlog : (machine.run (initial Store.initial) retried).map World.log =
      some [.begun "t", .delivered "t", .recorded "t" .failed, .begun "t"] := by
    decide +kernel
  obtain ⟨w, hr, hw⟩ := Option.map_eq_some_iff.mp hlog
  obtain ⟨hseparated, -, -, hcount⟩ := retry_tokens_exclusive hr "t"
  exact ⟨w, hr, hw, hseparated, hcount⟩

end Witness

end World

end YtdlBot.Retry
