import YtdlBot.Delivery.Discipline
import YtdlBot.Delivery.World

/-!
# Reservations and attempts

The receipts table and what all handlers know, together: a reservation has one holder, an item
that may have been sent never gets a failed receipt, and a handler that still believes an item
to be unsent has lost the job or is right.
-/

namespace YtdlBot.Delivery

open Framework
open Framework.Program
open JobStore (Store Op StoreError DeliveryOutcome ReceiptsReserved)

section Attempts

theorem mem_unfailed {attempts : List Attempt} {job key : String} {a : Attempt} :
    a ∈ unfailed attempts job key ↔
      a ∈ attempts ∧ a.jobId = job ∧ a.itemKey = key ∧ a.mayHaveSent = true := by
  simp only [unfailed, List.mem_filter, Bool.and_eq_true, decide_eq_true_eq, and_assoc]

theorem unfailed_append (front attempts : List Attempt) (job key : String) :
    unfailed (front ++ attempts) job key = unfailed front job key ++ unfailed attempts job key :=
  List.filter_append ..

theorem unfailed_started (keys : List String) (hnodup : keys.Nodup) (call : Nat) (job job' key : String) :
    unfailed (keys.map fun key => ⟨call, job, key, none⟩) job' key =
      if job' = job ∧ key ∈ keys then [⟨call, job, key, none⟩] else [] := by
  induction keys with
  | nil => simp [unfailed]
  | cons first keys ih =>
    rw [List.nodup_cons] at hnodup
    have hrest := ih hnodup.2
    rw [List.map_cons, ← List.singleton_append, unfailed_append, hrest]
    by_cases hjob : job' = job
    · subst hjob
      by_cases hkey : key = first
      · subst hkey
        simp [unfailed, hnodup.1, Attempt.mayHaveSent]
      · have hne : first ≠ key := fun heq => hkey heq.symm
        simp [unfailed, hkey, hne]
    · have hne : job ≠ job' := fun heq => hjob heq.symm
      simp [unfailed, hjob, hne]

theorem length_unfailed_settle (attempts : List Attempt) (call : Nat) (result : SendResult)
    (job key : String) :
    (unfailed (settle attempts call result) job key).length ≤
      (unfailed attempts job key).length := by
  unfold unfailed settle
  rw [← List.countP_eq_length_filter, ← List.countP_eq_length_filter, List.countP_map]
  apply List.countP_mono_left
  intro a _ ha
  by_cases hcall : a.call = call ∧ a.result = none
  · have hsent : a.mayHaveSent = true := by simp [Attempt.mayHaveSent, hcall.2]
    simp only [Function.comp_apply, hcall, and_self, if_true, Bool.and_eq_true] at ha ⊢
    exact ⟨ha.1, hsent⟩
  · simpa only [Function.comp_apply, hcall, if_false] using ha

theorem mem_unfailed_settle {attempts : List Attempt} {call : Nat} {result : SendResult}
    {job key : String} {a : Attempt} (ha : a ∈ unfailed (settle attempts call result) job key) :
    (a ∈ unfailed attempts job key ∧ ¬ (a.call = call ∧ a.result = none)) ∨
      (result.rejected = false ∧ ∃ b ∈ unfailed attempts job key, b.call = call ∧
        b.result = none) := by
  obtain ⟨hmem, hjob, hkey, hsent⟩ := mem_unfailed.mp ha
  obtain ⟨b, hb, hab⟩ := List.mem_map.mp hmem
  by_cases hcall : b.call = call ∧ b.result = none
  · rw [if_pos hcall] at hab
    subst hab
    refine .inr ⟨?_, b, mem_unfailed.mpr ⟨hb, hjob, hkey, ?_⟩, hcall⟩
    · simpa [Attempt.mayHaveSent] using hsent
    · simp [Attempt.mayHaveSent, hcall.2]
  · rw [if_neg hcall] at hab
    subst hab
    exact .inl ⟨mem_unfailed.mpr ⟨hb, hjob, hkey, hsent⟩, hcall⟩

end Attempts

/-- Who a handler works for. -/
structure Who where
  ownerId : String
  jobId : String
  active : Bool

variable {τ : Type}

/-- No attempt may have sent the item, and nobody is about to. -/
def Unsent (who : Nat → Option Who) (ph : Nat → Phases) (attempts : List Attempt)
    (job key : String) : Prop :=
  unfailed attempts job key = [] ∧
    ∀ j b, who j = some b → b.jobId = job → (ph j key).held = false

/-- The shared part of the invariant: the store, the attempts, and what every handler knows. -/
structure Consistent (who : Nat → Option Who) (ph : Nat → Phases) (s : Store τ)
    (attempts : List Attempt) (calls : Nat) (begun : List (Nat × String)) : Prop where
  stranger : ∀ i, who i = none → ph i = .idle
  unique : ∀ i j a b, who i = some a → who j = some b → a.active → b.active →
    a.ownerId = b.ownerId → a.jobId = b.jobId → i = j
  once : ∀ job key, (unfailed attempts job key).length ≤ 1
  kept : ∀ job key, unfailed attempts job key ≠ [] →
    ∃ d, s.deliveries.lookup (job, key) = some d ∧ d.outcome ≠ .failed
  held : ∀ i a key, who i = some a → (ph i key).held →
    ∃ d, s.deliveries.lookup (a.jobId, key) = some d ∧ d.outcome = .uncertain ∧
      d.finalized = false
  sent_row : ∀ job key, unfailed attempts job key ≠ [] → (s.jobs.lookup job).isSome
  held_row : ∀ i a key, who i = some a → (ph i key).held → (s.jobs.lookup a.jobId).isSome
  exclusive : ∀ i j a b key, who i = some a → who j = some b → a.jobId = b.jobId →
    (ph i key).held → (ph j key).held → i = j
  fresh_active : ∀ i a key, who i = some a → ph i key = .fresh → a.active
  -- a handler that lost the job may be wrong about it, but its reservation will be refused
  fresh : ∀ i a key r, who i = some a → ph i key = .fresh → s.jobs.lookup a.jobId = some r →
    r.ownerId = some a.ownerId → Unsent who ph attempts a.jobId key
  reserved : ∀ i a key, who i = some a → ph i key = .reserved → unfailed attempts a.jobId key = []
  inFlight : ∀ i a key id, who i = some a → ph i key = .inFlight id → id < calls ∧
    ∀ x ∈ unfailed attempts a.jobId key, x.call = id ∧ x.result = none
  ownCall : ∀ i j key key' id, ph i key = .inFlight id → ph j key' = .inFlight id → i = j
  begun : ∀ i a key, who i = some a → a.active → (ph i key).held → (i, key) ∈ begun

section Phases

variable (ph : Nat → Phases) (i : Nat) (keys : List String) (phase : Phase)

/-- Handler `i` moves some items to one phase. -/
abbrev move : Nat → Phases := Function.update ph i ((ph i).setAll keys phase)

theorem move_eq (j : Nat) (key : String) :
    move ph i keys phase j key = if j = i ∧ key ∈ keys then phase else ph j key := by
  by_cases hj : j = i
  · subst hj
    simp [move, Phases.setAll]
  · simp [move, hj]

end Phases

namespace Consistent

variable {who : Nat → Option Who} {ph : Nat → Phases} {s : Store τ} {attempts : List Attempt}
  {calls : Nat} {begun : List (Nat × String)}

/-- Handlers may stop, may forget, and may learn what is true. -/
theorem revise (h : Consistent who ph s attempts calls begun) {who' : Nat → Option Who}
    {ph' : Nat → Phases}
    (hwho : ∀ i a', who' i = some a' → ∃ a, who i = some a ∧ a'.ownerId = a.ownerId ∧
      a'.jobId = a.jobId ∧ (a'.active → a.active))
    (hph : ∀ i key, ph' i key = ph i key ∨ (ph' i key).held = false)
    (hfresh : ∀ i a' key, who' i = some a' → ph' i key = .fresh →
      a'.active ∧ (ph i key = .fresh ∨ Unsent who ph attempts a'.jobId key))
    (hnone : ∀ i, who' i = none → ph' i = .idle) :
    Consistent who' ph' s attempts calls begun := by
  have hkept {i : Nat} {key : String} {phase : Phase} (hphase : ph' i key = phase)
      (hne : phase.held = true) : ph i key = phase := by
    rcases hph i key with hsame | hfalse
    · exact hsame ▸ hphase
    · rw [hphase, hne] at hfalse
      exact absurd hfalse (by decide)
  have hheld {i : Nat} {key : String} (hphase : (ph' i key).held = true) :
      (ph i key).held = true := by
    rw [hkept rfl hphase]
    exact hphase
  have hunsent {job key : String} (hfree : Unsent who ph attempts job key) :
      Unsent who' ph' attempts job key := by
    refine ⟨hfree.1, ?_⟩
    intro j b' hj hjob
    obtain ⟨b, hb, -, hbj, -⟩ := hwho j b' hj
    have hfalse := hfree.2 j b hb (hbj.symm.trans hjob)
    by_contra hphase
    rw [hheld (by simpa using hphase)] at hfalse
    exact absurd hfalse (by decide)
  constructor
  case stranger => exact hnone
  case unique =>
    intro i j a' b' hi hj hai hbj howner hjob
    obtain ⟨a, ha, hao, haj, haa⟩ := hwho i a' hi
    obtain ⟨b, hb, hbo, hbj', hba⟩ := hwho j b' hj
    apply h.unique i j a b ha hb (haa hai) (hba hbj)
    · rw [← hao, ← hbo, howner]
    · rw [← haj, ← hbj', hjob]
  case once => exact h.once
  case kept => exact h.kept
  case held =>
    intro i a' key hi hphase
    obtain ⟨a, ha, -, hjob, -⟩ := hwho i a' hi
    rw [hjob]
    exact h.held i a key ha (hheld hphase)
  case sent_row => exact h.sent_row
  case held_row =>
    intro i a' key hi hphase
    obtain ⟨a, ha, -, hjob, -⟩ := hwho i a' hi
    rw [hjob]
    exact h.held_row i a key ha (hheld hphase)
  case exclusive =>
    intro i j a' b' key hi hj hjob hphase hphase'
    obtain ⟨a, ha, -, haj, -⟩ := hwho i a' hi
    obtain ⟨b, hb, -, hbj, -⟩ := hwho j b' hj
    have hsame : a.jobId = b.jobId := by rw [← haj, ← hbj, hjob]
    exact h.exclusive i j a b key ha hb hsame (hheld hphase) (hheld hphase')
  case fresh_active =>
    intro i a' key hi hphase
    exact (hfresh i a' key hi hphase).1
  case fresh =>
    intro i a' key r hi hphase hr howner
    obtain ⟨a, ha, hao, haj, -⟩ := hwho i a' hi
    rcases (hfresh i a' key hi hphase).2 with hold | hfree
    · rw [haj] at hr ⊢
      rw [hao] at howner
      exact hunsent (h.fresh i a key r ha hold hr howner)
    · exact hunsent hfree
  case reserved =>
    intro i a' key hi hphase
    obtain ⟨a, ha, -, hjob, -⟩ := hwho i a' hi
    rw [hjob]
    exact h.reserved i a key ha (hkept hphase rfl)
  case inFlight =>
    intro i a' key id hi hphase
    obtain ⟨a, ha, -, hjob, -⟩ := hwho i a' hi
    rw [hjob]
    exact h.inFlight i a key id ha (hkept hphase rfl)
  case ownCall =>
    intro i j key key' id hphase hphase'
    exact h.ownCall i j key key' id (hkept hphase rfl) (hkept hphase' rfl)
  case begun =>
    intro i a' key hi hactive hphase
    obtain ⟨a, ha, -, -, haa⟩ := hwho i a' hi
    exact h.begun i a key ha (haa hactive) (hheld hphase)

theorem reviseOne (h : Consistent who ph s attempts calls begun) {i : Nat} {a : Who} {g : Phases}
    (hi : who i = some a) (hg : ∀ key, g key = ph i key ∨ (g key).held = false)
    (hfresh : ∀ key, g key = .fresh →
      ph i key = .fresh ∨ (a.active ∧ Unsent who ph attempts a.jobId key)) :
    Consistent who (Function.update ph i g) s attempts calls begun := by
  apply h.revise
  · intro j b hj
    exact ⟨b, hj, rfl, rfl, id⟩
  · intro j key
    by_cases hji : j = i
    · subst hji
      rw [Function.update_self]
      exact hg key
    · rw [Function.update_of_ne hji]
      exact .inl rfl
  · intro j b key hj hphase
    by_cases hji : j = i
    · subst hji
      obtain rfl : a = b := Option.some.inj (hi.symm.trans hj)
      rw [Function.update_self] at hphase
      rcases hfresh key hphase with hold | ⟨hactive, hfree⟩
      · exact ⟨h.fresh_active j a key hi hold, .inl hold⟩
      · exact ⟨hactive, .inr hfree⟩
    · rw [Function.update_of_ne hji] at hphase
      exact ⟨h.fresh_active j b key hj hphase, .inl hphase⟩
  · intro j hj
    have hji : j ≠ i := by
      rintro rfl
      rw [hi] at hj
      exact absurd hj (by simp)
    rw [Function.update_of_ne hji]
    exact h.stranger j hj

theorem unsent_of_receipt (h : Consistent who ph s attempts calls begun) {job key : String}
    (houtcome : JobStore.deliveryOutcome s job key = none ∨
      JobStore.deliveryOutcome s job key = some .failed) : Unsent who ph attempts job key := by
  have hrow : ∀ d, s.deliveries.lookup (job, key) = some d → d.outcome = .failed := by
    intro d hd
    simpa [JobStore.deliveryOutcome, hd] using houtcome
  constructor
  · by_contra hsent
    obtain ⟨d, hd, hne⟩ := h.kept job key hsent
    exact hne (hrow d hd)
  · rintro j b hj rfl
    by_contra hphase
    obtain ⟨d, hd, huncertain, -⟩ := h.held j b key hj (by simpa using hphase)
    rw [hrow d hd] at huncertain
    exact absurd huncertain (by decide)

theorem restore (h : Consistent who ph s attempts calls begun) {s' : Store τ}
    (hrows : ∀ job, (s.jobs.lookup job).isSome → (s'.jobs.lookup job).isSome)
    (howner : ∀ i a key r', who i = some a → ph i key = .fresh →
      s'.jobs.lookup a.jobId = some r' → r'.ownerId = some a.ownerId →
      ∃ r, s.jobs.lookup a.jobId = some r ∧ r.ownerId = some a.ownerId)
    (hkept : ∀ job key d, unfailed attempts job key ≠ [] →
      s.deliveries.lookup (job, key) = some d → d.outcome ≠ .failed →
      ∃ d', s'.deliveries.lookup (job, key) = some d' ∧ d'.outcome ≠ .failed)
    (hheld : ∀ i a key d, who i = some a → (ph i key).held →
      s.deliveries.lookup (a.jobId, key) = some d → d.outcome = .uncertain → d.finalized = false →
      ∃ d', s'.deliveries.lookup (a.jobId, key) = some d' ∧ d'.outcome = .uncertain ∧
        d'.finalized = false) :
    Consistent who ph s' attempts calls begun := by
  refine { h with kept := ?_, held := ?_, sent_row := ?_, held_row := ?_, fresh := ?_ }
  · intro job key hsent
    obtain ⟨d, hd, houtcome⟩ := h.kept job key hsent
    exact hkept job key d hsent hd houtcome
  · intro i a key hi hphase
    obtain ⟨d, hd, houtcome, hfinal⟩ := h.held i a key hi hphase
    exact hheld i a key d hi hphase hd houtcome hfinal
  · intro job key hsent
    exact hrows job (h.sent_row job key hsent)
  · intro i a key hi hphase
    exact hrows a.jobId (h.held_row i a key hi hphase)
  · intro i a key r' hi hfresh hr' howned
    obtain ⟨r, hr, howned⟩ := howner i a key r' hi hfresh hr' howned
    exact h.fresh i a key r hi hfresh hr howned

private theorem unfailed_start (h : Consistent who ph s attempts calls begun) {i : Nat} {a : Who}
    {keys : List String} (hi : who i = some a) (hnodup : keys.Nodup)
    (hreserved : ∀ key ∈ keys, ph i key = .reserved) (job key : String) :
    unfailed (keys.map (fun key => ⟨calls, a.jobId, key, none⟩) ++ attempts) job key =
      if job = a.jobId ∧ key ∈ keys then [⟨calls, a.jobId, key, none⟩]
      else unfailed attempts job key := by
  rw [unfailed_append, unfailed_started keys hnodup]
  by_cases hnew : job = a.jobId ∧ key ∈ keys
  · obtain ⟨rfl, hmem⟩ := hnew
    have hold := h.reserved i a key hi (hreserved key hmem)
    simp [hmem, hold]
  · simp [hnew]

theorem start (h : Consistent who ph s attempts calls begun) {i : Nat} {a : Who}
    {keys : List String} (hi : who i = some a) (hnodup : keys.Nodup)
    (hreserved : ∀ key ∈ keys, ph i key = .reserved) :
    Consistent who (move ph i keys (.inFlight calls)) s
      (keys.map (fun key => ⟨calls, a.jobId, key, none⟩) ++ attempts) (calls + 1) begun := by
  have hunfailed := h.unfailed_start hi hnodup hreserved
  have hheld : ∀ j key, (move ph i keys (.inFlight calls) j key).held = (ph j key).held := by
    intro j key
    rw [move_eq]
    split
    · rename_i hmine
      rw [hmine.1, hreserved key hmine.2]
      rfl
    · rfl
  -- nobody else knows more than nothing about the items of the call
  have hmine : ∀ j b key, who j = some b → (ph j key).held = true →
      b.jobId = a.jobId ∧ key ∈ keys → j = i := by
    rintro j b key hj hphase ⟨hjob, hmem⟩
    refine h.exclusive j i b a key hj hi hjob hphase ?_
    rw [hreserved key hmem]
    rfl
  constructor
  case stranger =>
    intro j hj
    have hji : j ≠ i := by
      rintro rfl
      rw [hi] at hj
      exact absurd hj (by simp)
    rw [move, Function.update_of_ne hji]
    exact h.stranger j hj
  case unique => exact h.unique
  case once =>
    intro job key
    rw [hunfailed]
    split
    · exact Nat.le_refl 1
    · exact h.once job key
  case kept =>
    intro job key hsent
    rw [hunfailed] at hsent
    split at hsent
    · rename_i hnew
      obtain ⟨rfl, hmem⟩ := hnew
      obtain ⟨d, hd, huncertain, -⟩ := h.held i a key hi (by rw [hreserved key hmem]; rfl)
      exact ⟨d, hd, by simp [huncertain]⟩
    · exact h.kept job key hsent
  case held =>
    intro j b key hj hphase
    exact h.held j b key hj (hheld j key ▸ hphase)
  case sent_row =>
    intro job key hsent
    rw [hunfailed] at hsent
    split at hsent
    · rename_i hnew
      obtain ⟨rfl, hmem⟩ := hnew
      exact h.held_row i a key hi (by rw [hreserved key hmem]; rfl)
    · exact h.sent_row job key hsent
  case held_row =>
    intro j b key hj hphase
    exact h.held_row j b key hj (hheld j key ▸ hphase)
  case exclusive =>
    intro j k b c key hj hk hjob hphase hphase'
    exact h.exclusive j k b c key hj hk hjob (hheld j key ▸ hphase) (hheld k key ▸ hphase')
  case fresh_active =>
    intro j b key hj hphase
    rw [move_eq] at hphase
    split at hphase
    · exact absurd hphase (by simp)
    · exact h.fresh_active j b key hj hphase
  case fresh =>
    intro j b key r hj hphase hr howner
    rw [move_eq] at hphase
    split at hphase
    · exact absurd hphase (by simp)
    · obtain ⟨hnone, hfree⟩ := h.fresh j b key r hj hphase hr howner
      have hother : ¬ (b.jobId = a.jobId ∧ key ∈ keys) := by
        rintro ⟨hjob, hmem⟩
        have hfalse := hfree i a hi hjob.symm
        rw [hreserved key hmem] at hfalse
        exact absurd hfalse (by decide)
      refine ⟨?_, ?_⟩
      · rw [hunfailed, if_neg hother]
        exact hnone
      · intro k c hk hjob
        rw [hheld]
        exact hfree k c hk hjob
  case reserved =>
    intro j b key hj hphase
    rw [move_eq] at hphase
    split at hphase
    · exact absurd hphase (by simp)
    · rename_i hnot
      have hother : ¬ (b.jobId = a.jobId ∧ key ∈ keys) := by
        intro hnew
        have hji := hmine j b key hj (by rw [hphase]; rfl) hnew
        exact hnot ⟨hji, hnew.2⟩
      rw [hunfailed, if_neg hother]
      exact h.reserved j b key hj hphase
  case inFlight =>
    intro j b key id hj hphase
    rw [move_eq] at hphase
    split at hphase
    · rename_i hnew
      obtain ⟨rfl, hmem⟩ := hnew
      obtain rfl := Phase.inFlight.inj hphase
      obtain rfl : a = b := Option.some.inj (hi.symm.trans hj)
      refine ⟨Nat.lt_succ_self _, ?_⟩
      intro x hx
      rw [hunfailed, if_pos ⟨rfl, hmem⟩, List.mem_singleton] at hx
      rw [hx]
      exact ⟨rfl, rfl⟩
    · rename_i hnot
      have hother : ¬ (b.jobId = a.jobId ∧ key ∈ keys) := by
        intro hnew
        have hji := hmine j b key hj (by rw [hphase]; rfl) hnew
        exact hnot ⟨hji, hnew.2⟩
      obtain ⟨hlt, hcall⟩ := h.inFlight j b key id hj hphase
      refine ⟨Nat.lt_succ_of_lt hlt, ?_⟩
      rw [hunfailed, if_neg hother]
      exact hcall
  case ownCall =>
    have hold : ∀ j key id, ph j key = .inFlight id → id < calls := by
      intro j key id hphase
      cases hj : who j with
      | none =>
        rw [h.stranger j hj] at hphase
        exact absurd hphase (by simp [Phases.idle])
      | some b => exact (h.inFlight j b key id hj hphase).1
    intro j k key key' id hphase hphase'
    rw [move_eq] at hphase hphase'
    split at hphase
    · rename_i hj
      split at hphase'
      · rename_i hk
        rw [hj.1, hk.1]
      · have hlt := hold k key' id hphase'
        obtain rfl := Phase.inFlight.inj hphase
        omega
    · split at hphase'
      · have hlt := hold j key id hphase
        obtain rfl := Phase.inFlight.inj hphase'
        omega
      · exact h.ownCall j k key key' id hphase hphase'
  case begun =>
    intro j b key hj hactive hphase
    exact h.begun j b key hj hactive (hheld j key ▸ hphase)

/-- What a handler knows when call `id` is over. -/
def settled (g : Phases) (id : Nat) (result : SendResult) : Phases := fun key =>
  if g key = .inFlight id then (if result.rejected then .reserved else .spent) else g key

theorem settled_held (g : Phases) (id : Nat) (result : SendResult) (key : String) :
    (settled g id result key).held = (g key).held := by
  unfold settled
  split
  · rename_i hphase
    rw [hphase]
    split <;> rfl
  · rfl

theorem finish (h : Consistent who ph s attempts calls begun) {i : Nat} {a : Who}
    (hi : who i = some a) {id : Nat} (hcall : ∃ key, ph i key = .inFlight id)
    (result : SendResult) :
    Consistent who (Function.update ph i (settled (ph i) id result)) s
      (settle attempts id result) calls begun := by
  obtain ⟨own, hown⟩ := hcall
  have hother : ∀ j, j ≠ i → Function.update ph i (settled (ph i) id result) j = ph j :=
    fun j hji => Function.update_of_ne hji ..
  have hself : Function.update ph i (settled (ph i) id result) i = settled (ph i) id result :=
    Function.update_self ..
  have hheld : ∀ j key,
      (Function.update ph i (settled (ph i) id result) j key).held = (ph j key).held := by
    intro j key
    by_cases hji : j = i
    · rw [hji, hself, settled_held]
    · rw [hother j hji]
  have hsent : ∀ job key, unfailed (settle attempts id result) job key ≠ [] →
      unfailed attempts job key ≠ [] := by
    intro job key hne hnil
    have hle := length_unfailed_settle attempts id result job key
    rw [hnil] at hle
    exact hne (List.eq_nil_of_length_eq_zero (Nat.le_zero.mp hle))
  have hunsent : ∀ job key, unfailed attempts job key = [] →
      unfailed (settle attempts id result) job key = [] := by
    intro job key hnil
    by_contra hne
    exact hsent job key hne hnil
  -- a phase that is not about call `id` is an old one
  have hphases : ∀ j key phase, Function.update ph i (settled (ph i) id result) j key = phase →
      ph j key = phase ∨ (j = i ∧ ph i key = .inFlight id ∧
        phase = if result.rejected then .reserved else .spent) := by
    rintro j key phase rfl
    by_cases hji : j = i
    · subst hji
      rw [hself]
      by_cases hphase : ph j key = .inFlight id
      · exact .inr ⟨rfl, hphase, if_pos hphase⟩
      · exact .inl (if_neg hphase).symm
    · rw [hother j hji]
      exact .inl rfl
  constructor
  case stranger =>
    intro j hj
    have hji : j ≠ i := by
      rintro rfl
      rw [hi] at hj
      exact absurd hj (by simp)
    rw [hother j hji]
    exact h.stranger j hj
  case unique => exact h.unique
  case once =>
    intro job key
    exact (length_unfailed_settle attempts id result job key).trans (h.once job key)
  case kept =>
    intro job key hne
    exact h.kept job key (hsent job key hne)
  case held =>
    intro j b key hj hphase
    exact h.held j b key hj (hheld j key ▸ hphase)
  case sent_row =>
    intro job key hne
    exact h.sent_row job key (hsent job key hne)
  case held_row =>
    intro j b key hj hphase
    exact h.held_row j b key hj (hheld j key ▸ hphase)
  case exclusive =>
    intro j k b c key hj hk hjob hphase hphase'
    exact h.exclusive j k b c key hj hk hjob (hheld j key ▸ hphase) (hheld k key ▸ hphase')
  case fresh_active =>
    intro j b key hj hphase
    rcases hphases j key _ hphase with hold | ⟨-, -, hnew⟩
    · exact h.fresh_active j b key hj hold
    · split at hnew <;> cases hnew
  case fresh =>
    intro j b key r hj hphase hr howner
    rcases hphases j key _ hphase with hold | ⟨-, -, hnew⟩
    · obtain ⟨hnone, hfree⟩ := h.fresh j b key r hj hold hr howner
      refine ⟨hunsent b.jobId key hnone, ?_⟩
      intro k c hk hjob
      rw [hheld]
      exact hfree k c hk hjob
    · split at hnew <;> cases hnew
  case reserved =>
    intro j b key hj hphase
    rcases hphases j key _ hphase with hold | ⟨rfl, hin, hnew⟩
    · exact hunsent b.jobId key (h.reserved j b key hj hold)
    · have hrejected : result.rejected = true := by
        by_contra hfalse
        rw [if_neg hfalse] at hnew
        cases hnew
      rw [List.eq_nil_iff_forall_not_mem]
      intro x hx
      have hmine := (h.inFlight j b key id hj hin).2
      rcases mem_unfailed_settle hx with ⟨hold, hne⟩ | ⟨hfalse, -⟩
      · exact hne (hmine x hold)
      · rw [hrejected] at hfalse
        exact absurd hfalse (by decide)
  case inFlight =>
    intro j b key id' hj hphase
    rcases hphases j key _ hphase with hold | ⟨-, -, hnew⟩
    · obtain ⟨hlt, hmine⟩ := h.inFlight j b key id' hj hold
      have hne : id' ≠ id := by
        rintro rfl
        obtain rfl := h.ownCall j i key own id' hold hown
        rw [hself, settled, if_pos hold] at hphase
        split at hphase <;> cases hphase
      refine ⟨hlt, ?_⟩
      intro x hx
      rcases mem_unfailed_settle hx with ⟨hx, -⟩ | ⟨-, y, hy, hyid, -⟩
      · exact hmine x hx
      · exact absurd ((hmine y hy).1.symm.trans hyid) hne
    · split at hnew <;> cases hnew
  case ownCall =>
    intro j k key key' id' hphase hphase'
    rcases hphases j key _ hphase with hold | ⟨-, -, hnew⟩
    · rcases hphases k key' _ hphase' with hold' | ⟨-, -, hnew'⟩
      · exact h.ownCall j k key key' id' hold hold'
      · split at hnew' <;> cases hnew'
    · split at hnew <;> cases hnew
  case begun =>
    intro j b key hj hactive hphase
    exact h.begun j b key hj hactive (hheld j key ▸ hphase)

theorem join (h : Consistent who ph s attempts calls begun) {i : Nat} (hi : who i = none)
    (new : Who)
    (hunique : ∀ j b, who j = some b → b.active → new.active →
      ¬ (b.ownerId = new.ownerId ∧ b.jobId = new.jobId)) :
    Consistent (Function.update who i (some new)) ph s attempts calls begun := by
  have hidle := h.stranger i hi
  have hold : ∀ j b key, Function.update who i (some new) j = some b → ph j key ≠ .unknown →
      who j = some b := by
    intro j b key hj hphase
    by_cases hji : j = i
    · subst hji
      rw [hidle] at hphase
      exact absurd rfl hphase
    · rwa [Function.update_of_ne hji] at hj
  have hheld : ∀ j b key, Function.update who i (some new) j = some b →
      (ph j key).held = true → who j = some b := by
    intro j b key hj hphase
    refine hold j b key hj ?_
    intro hunknown
    rw [hunknown] at hphase
    exact absurd hphase (by decide)
  constructor
  case stranger =>
    intro j hj
    by_cases hji : j = i
    · exact hji ▸ hidle
    · rw [Function.update_of_ne hji] at hj
      exact h.stranger j hj
  case unique =>
    intro j k b c hj hk hb hc howner hjob
    by_cases hji : j = i
    · subst hji
      rw [Function.update_self] at hj
      obtain rfl := Option.some.inj hj
      by_cases hkj : k = j
      · exact hkj.symm
      · rw [Function.update_of_ne hkj] at hk
        exact absurd ⟨howner.symm, hjob.symm⟩ (hunique k c hk hc hb)
    · rw [Function.update_of_ne hji] at hj
      by_cases hki : k = i
      · subst hki
        rw [Function.update_self] at hk
        obtain rfl := Option.some.inj hk
        exact absurd ⟨howner, hjob⟩ (hunique j b hj hb hc)
      · rw [Function.update_of_ne hki] at hk
        exact h.unique j k b c hj hk hb hc howner hjob
  case once => exact h.once
  case kept => exact h.kept
  case held =>
    intro j b key hj hphase
    exact h.held j b key (hheld j b key hj hphase) hphase
  case sent_row => exact h.sent_row
  case held_row =>
    intro j b key hj hphase
    exact h.held_row j b key (hheld j b key hj hphase) hphase
  case exclusive =>
    intro j k b c key hj hk hjob hphase hphase'
    exact h.exclusive j k b c key (hheld j b key hj hphase) (hheld k c key hk hphase') hjob
      hphase hphase'
  case fresh_active =>
    intro j b key hj hphase
    exact h.fresh_active j b key (hold j b key hj (by simp [hphase])) hphase
  case fresh =>
    intro j b key r hj hphase hr howner
    obtain ⟨hnone, hfree⟩ :=
      h.fresh j b key r (hold j b key hj (by simp [hphase])) hphase hr howner
    refine ⟨hnone, ?_⟩
    intro k c hk hjob
    by_contra hheldk
    have hk' := hheld k c key hk (by simpa using hheldk)
    exact hheldk (hfree k c hk' hjob)
  case reserved =>
    intro j b key hj hphase
    exact h.reserved j b key (hold j b key hj (by simp [hphase])) hphase
  case inFlight =>
    intro j b key id hj hphase
    exact h.inFlight j b key id (hold j b key hj (by simp [hphase])) hphase
  case ownCall => exact h.ownCall
  case begun =>
    intro j b key hj hactive hphase
    exact h.begun j b key (hheld j b key hj hphase) hactive hphase

theorem handOver (h : Consistent who ph s attempts calls begun) {i j : Nat} {a b : Who}
    {key : String} (hi : who i = some a) (hj : who j = some b) (hjob : b.jobId = a.jobId)
    (hactive : b.active = false) (hphase : ph i key = .reserved ∨ ph i key = .spent) :
    Consistent who
      (Function.update (Function.update ph i .idle) j (Phases.idle.setAll [key] (ph i key)))
      s attempts calls begun := by
  generalize hnew :
    Function.update (Function.update ph i .idle) j (Phases.idle.setAll [key] (ph i key)) = ph'
  have hcases : ∀ k other, ph' k other = .unknown ∨
      (k = j ∧ other = key ∧ ph' k other = ph i key) ∨
      (k ≠ i ∧ k ≠ j ∧ ph' k other = ph k other) := by
    intro k other
    rw [← hnew]
    by_cases hkj : k = j
    · subst hkj
      rw [Function.update_self]
      by_cases hkey : other = key
      · subst hkey
        exact .inr (.inl ⟨rfl, rfl, Phases.setAll_of_mem (List.mem_singleton.mpr rfl)⟩)
      · rw [Phases.setAll_of_notMem (by simpa using hkey)]
        exact .inl rfl
    · rw [Function.update_of_ne hkj]
      by_cases hki : k = i
      · subst hki
        rw [Function.update_self]
        exact .inl rfl
      · rw [Function.update_of_ne hki]
        exact .inr (.inr ⟨hki, hkj, rfl⟩)
  have hheldKey : (ph i key).held = true := by
    rcases hphase with hphase | hphase
    · rw [hphase]
      rfl
    · rw [hphase]
      rfl
  -- every item held afterwards was held before, for the same job, by the same handler or by `i`
  have hheld : ∀ k c other, who k = some c → (ph' k other).held = true →
      ∃ k' c', who k' = some c' ∧ c'.jobId = c.jobId ∧ (ph k' other).held = true ∧
        ((k = j ∧ k' = i) ∨ (k ≠ i ∧ k ≠ j ∧ k' = k)) := by
    intro k c other hk hheld
    rcases hcases k other with hunknown | ⟨rfl, rfl, -⟩ | ⟨hki, hkj, hsame⟩
    · rw [hunknown] at hheld
      exact absurd hheld (by decide)
    · obtain rfl : b = c := Option.some.inj (hj.symm.trans hk)
      exact ⟨i, a, hi, hjob.symm, hheldKey, .inl ⟨rfl, rfl⟩⟩
    · exact ⟨k, c, hk, rfl, hsame ▸ hheld, .inr ⟨hki, hkj, rfl⟩⟩
  constructor
  case stranger =>
    intro k hk
    have hkj : k ≠ j := by
      rintro rfl
      rw [hj] at hk
      exact absurd hk (by simp)
    have hki : k ≠ i := by
      rintro rfl
      rw [hi] at hk
      exact absurd hk (by simp)
    rw [← hnew, Function.update_of_ne hkj, Function.update_of_ne hki]
    exact h.stranger k hk
  case unique => exact h.unique
  case once => exact h.once
  case kept => exact h.kept
  case held =>
    intro k c other hk hphase'
    obtain ⟨k', c', hk', hsame, hold, -⟩ := hheld k c other hk hphase'
    rw [← hsame]
    exact h.held k' c' other hk' hold
  case sent_row => exact h.sent_row
  case held_row =>
    intro k c other hk hphase'
    obtain ⟨k', c', hk', hsame, hold, -⟩ := hheld k c other hk hphase'
    rw [← hsame]
    exact h.held_row k' c' other hk' hold
  case exclusive =>
    intro k l c e other hk hl hsame hphase₁ hphase₂
    obtain ⟨k', c', hk', hjobc, holdk, hfromk⟩ := hheld k c other hk hphase₁
    obtain ⟨l', e', hl', hjobe, holdl, hfroml⟩ := hheld l e other hl hphase₂
    have hkl := h.exclusive k' l' c' e' other hk' hl' (by rw [hjobc, hjobe, hsame]) holdk holdl
    omega
  case fresh_active =>
    intro k c other hk hfresh
    rcases hcases k other with hunknown | ⟨-, -, hsame⟩ | ⟨-, -, hsame⟩
    · rw [hunknown] at hfresh
      cases hfresh
    · rw [← hsame, hfresh] at hheldKey
      exact absurd hheldKey (by decide)
    · exact h.fresh_active k c other hk (hsame ▸ hfresh)
  case fresh =>
    intro k c other r hk hfresh hr howner
    rcases hcases k other with hunknown | ⟨-, -, hsame⟩ | ⟨-, -, hsame⟩
    · rw [hunknown] at hfresh
      cases hfresh
    · rw [← hsame, hfresh] at hheldKey
      exact absurd hheldKey (by decide)
    · obtain ⟨hnone, hfree⟩ := h.fresh k c other r hk (hsame ▸ hfresh) hr howner
      refine ⟨hnone, ?_⟩
      intro l e hl hjobl
      by_contra hheldl
      obtain ⟨l', e', hl', hjobe, hold, -⟩ := hheld l e other hl (by simpa using hheldl)
      rw [hfree l' e' hl' (hjobe.trans hjobl)] at hold
      exact absurd hold (by decide)
  case reserved =>
    intro k c other hk hreserved
    rcases hcases k other with hunknown | ⟨rfl, rfl, hsame⟩ | ⟨-, -, hsame⟩
    · rw [hunknown] at hreserved
      cases hreserved
    · obtain rfl : b = c := Option.some.inj (hj.symm.trans hk)
      rw [hjob]
      exact h.reserved i a other hi (hsame ▸ hreserved)
    · exact h.reserved k c other hk (hsame ▸ hreserved)
  case inFlight =>
    intro k c other id hk hin
    rcases hcases k other with hunknown | ⟨-, -, hsame⟩ | ⟨-, -, hsame⟩
    · rw [hunknown] at hin
      cases hin
    · rw [← hsame, hin] at hphase
      simp at hphase
    · exact h.inFlight k c other id hk (hsame ▸ hin)
  case ownCall =>
    have hinFlight : ∀ k other id, ph' k other = .inFlight id → ph k other = .inFlight id := by
      intro k other id hin
      rcases hcases k other with hunknown | ⟨-, -, hsame⟩ | ⟨-, -, hsame⟩
      · rw [hunknown] at hin
        cases hin
      · rw [← hsame, hin] at hphase
        simp at hphase
      · exact hsame ▸ hin
    intro k l other other' id hk hl
    exact h.ownCall k l other other' id (hinFlight k other id hk) (hinFlight l other' id hl)
  case begun =>
    intro k c other hk hactivek hheldk
    rcases hcases k other with hunknown | ⟨rfl, -, -⟩ | ⟨-, -, hsame⟩
    · rw [hunknown] at hheldk
      exact absurd hheldk (by decide)
    · obtain rfl : b = c := Option.some.inj (hj.symm.trans hk)
      rw [hactive] at hactivek
      exact absurd hactivek (by decide)
    · exact h.begun k c other hk hactivek (hsame ▸ hheldk)

end Consistent

section Store

variable [LinearOrder τ] [Add τ] [Zero τ]

theorem receipt_kept {s : Store τ} {op : Op τ} (hop : ReceiptsReserved s op)
    (hfinalize : ∀ job item outcome owner deliveryId now,
      op ≠ .finalizeDeliveryAttempt job item outcome owner deliveryId now)
    {job key : String} {d : JobStore.DeliveryRow τ} (hjob : (s.jobs.lookup job).isSome)
    (hd : s.deliveries.lookup (job, key) = some d) (houtcome : d.outcome ≠ .failed) :
    ∃ d', (op.run s).2.deliveries.lookup (job, key) = some d' ∧
      (d' = d ∨ (d'.outcome = .uncertain ∧ d'.finalized = false)) := by
  rcases JobStore.deliveries_step s op (job, key) with hsame | ⟨d', hd', hchange⟩
  · exact ⟨d, hsame.trans hd, .inl rfl⟩
  · refine ⟨d', hd', .inr ?_⟩
    rw [hd] at hchange
    generalize hkey : (job, key) = k at hchange
    generalize hold : some d = old at hchange
    cases hchange with
    | recorded =>
      obtain ⟨rfl, rfl⟩ := Prod.mk.inj hkey
      rw [hop _ _ _ _ _ rfl] at hjob
      exact absurd hjob (by simp)
    | reserved live listed open_ =>
      exact ⟨JobStore.reserveRow_outcome, JobStore.reserveRow_finalized⟩
    | finalized live reserved own => exact absurd rfl (hfinalize _ _ _ _ _ _)
    | retried failed => exact absurd (failed d hold.symm).1 houtcome

theorem jobs_of_receipt_call (job : String) (op : Op τ) (s : Store τ)
    (hop : (∃ job items owner now sqlFails,
        op = .beginDeliveryAttempts job items owner now sqlFails) ∨
      ∃ job item outcome owner deliveryId now,
        op = .finalizeDeliveryAttempt job item outcome owner deliveryId now) :
    (op.run s).2.jobs.lookup job = s.jobs.lookup job := by
  rcases JobStore.jobs_step s op job with hsame | ⟨r, r', -, -, hchange⟩ |
    ⟨payload, retention, now, updateId, minimal, haccept, -⟩
  · exact hsame
  · rcases hop with ⟨job, items, owner, now, sqlFails, rfl⟩ |
      ⟨job, item, outcome, owner, deliveryId, now, rfl⟩
    · cases hchange
    · cases hchange
  · rcases hop with ⟨job, items, owner, now, sqlFails, rfl⟩ |
      ⟨job, item, outcome, owner, deliveryId, now, rfl⟩
    · cases haccept
    · cases haccept

namespace Consistent

variable {who : Nat → Option Who} {ph : Nat → Phases} {s : Store τ} {attempts : List Attempt}
  {calls : Nat} {begun : List (Nat × String)}

theorem storeCall (h : Consistent who ph s attempts calls begun) {op : Op τ}
    (hop : ReceiptsReserved s op)
    (hfinalize : ∀ job item outcome owner deliveryId now,
      op ≠ .finalizeDeliveryAttempt job item outcome owner deliveryId now)
    (hclaims : ∀ i a, who i = some a → a.active → ¬ op.Claims a.ownerId a.jobId s) :
    Consistent who ph (op.run s).2 attempts calls begun := by
  apply h.restore
  · intro job hjob
    obtain ⟨r, hr⟩ := Option.isSome_iff_exists.mp hjob
    obtain ⟨r', hr', -⟩ := JobStore.jobRow_step op hr
    exact Option.isSome_iff_exists.mpr ⟨r', hr'⟩
  · intro i a key r' hi hfresh hr' howner
    by_contra hnone
    have hnot : JobStore.NotOwned a.ownerId a.jobId s :=
      fun r hr hown => hnone ⟨r, hr, hown⟩
    have hactive := h.fresh_active i a key hi hfresh
    exact JobStore.notOwned_step hnot (hclaims i a hi hactive) r' hr' howner
  · intro job key d hsent hd houtcome
    obtain ⟨d', hd', rfl | ⟨huncertain, -⟩⟩ :=
      receipt_kept hop hfinalize (h.sent_row job key hsent) hd houtcome
    · exact ⟨d', hd', houtcome⟩
    · exact ⟨d', hd', by simp [huncertain]⟩
  · intro i a key d hi hphase hd houtcome hfinal
    obtain ⟨d', hd', rfl | hreserved⟩ :=
      receipt_kept hop hfinalize (h.held_row i a key hi hphase) hd (by simp [houtcome])
    · exact ⟨d', hd', houtcome, hfinal⟩
    · exact ⟨d', hd', hreserved⟩

omit [LinearOrder τ] [Add τ] [Zero τ] in
theorem reserve (h : Consistent who ph s attempts calls begun) {i : Nat} {a : Who}
    {keys : List String} {now : τ} {s' : Store τ} (hi : who i = some a)
    (hfresh : ∀ key ∈ keys, ph i key = .fresh)
    (howned : ∃ r, s.jobs.lookup a.jobId = some r ∧ r.ownerId = some a.ownerId)
    (hjobs : ∀ job, s'.jobs.lookup job = s.jobs.lookup job)
    (hrows : ∀ key, s'.deliveries.lookup key =
      if key.1 = a.jobId ∧ key.2 ∈ keys then
        some (JobStore.reserveRow a.jobId key.2 a.ownerId now (s.deliveries.lookup key))
      else s.deliveries.lookup key) :
    Consistent who (move ph i keys .reserved) s' attempts calls
      (keys.map (fun key => (i, key)) ++ begun) := by
  obtain ⟨row, hrow, howner⟩ := howned
  have hfree : ∀ key ∈ keys, Unsent who ph attempts a.jobId key :=
    fun key hmem => h.fresh i a key row hi (hfresh key hmem) hrow howner
  have hnew : ∀ key ∈ keys, ∃ d, s'.deliveries.lookup (a.jobId, key) = some d ∧
      d.outcome = .uncertain ∧ d.finalized = false := by
    intro key hmem
    exact ⟨_, (hrows (a.jobId, key)).trans (if_pos ⟨rfl, hmem⟩), JobStore.reserveRow_outcome,
      JobStore.reserveRow_finalized⟩
  -- an old holder of an item is not affected, and nobody held the reserved ones
  have hheld : ∀ j b key, who j = some b → (move ph i keys .reserved j key).held = true →
      (j = i ∧ key ∈ keys) ∨ ((ph j key).held = true ∧ ¬ (b.jobId = a.jobId ∧ key ∈ keys)) := by
    intro j b key hj hphase
    rw [move_eq] at hphase
    split at hphase
    · rename_i hmine
      exact .inl hmine
    · refine .inr ⟨hphase, ?_⟩
      rintro ⟨hjob, hmem⟩
      rw [(hfree key hmem).2 j b hj hjob] at hphase
      exact absurd hphase (by decide)
  constructor
  case stranger =>
    intro j hj
    have hji : j ≠ i := by
      rintro rfl
      rw [hi] at hj
      exact absurd hj (by simp)
    rw [move, Function.update_of_ne hji]
    exact h.stranger j hj
  case unique => exact h.unique
  case once => exact h.once
  case kept =>
    intro job key hsent
    by_cases hmine : job = a.jobId ∧ key ∈ keys
    · obtain ⟨rfl, hmem⟩ := hmine
      exact absurd (hfree key hmem).1 hsent
    · rw [hrows, if_neg hmine]
      exact h.kept job key hsent
  case held =>
    intro j b key hj hphase
    rcases hheld j b key hj hphase with ⟨rfl, hmem⟩ | ⟨hold, hother⟩
    · obtain rfl : a = b := Option.some.inj (hi.symm.trans hj)
      exact hnew key hmem
    · rw [hrows, if_neg hother]
      exact h.held j b key hj hold
  case sent_row =>
    intro job key hsent
    rw [hjobs]
    exact h.sent_row job key hsent
  case held_row =>
    intro j b key hj hphase
    rw [hjobs]
    rcases hheld j b key hj hphase with ⟨rfl, -⟩ | ⟨hold, -⟩
    · obtain rfl : a = b := Option.some.inj (hi.symm.trans hj)
      exact Option.isSome_iff_exists.mpr ⟨row, hrow⟩
    · exact h.held_row j b key hj hold
  case exclusive =>
    intro j k b c key hj hk hjob hphase hphase'
    rcases hheld j b key hj hphase with ⟨rfl, hmem⟩ | ⟨hold, hother⟩
    · obtain rfl : a = b := Option.some.inj (hi.symm.trans hj)
      rcases hheld k c key hk hphase' with ⟨rfl, -⟩ | ⟨-, hother⟩
      · rfl
      · exact absurd ⟨hjob.symm, hmem⟩ hother
    · rcases hheld k c key hk hphase' with ⟨rfl, hmem⟩ | ⟨hold', -⟩
      · obtain rfl : a = c := Option.some.inj (hi.symm.trans hk)
        exact absurd ⟨hjob, hmem⟩ hother
      · exact h.exclusive j k b c key hj hk hjob hold hold'
  case fresh_active =>
    intro j b key hj hphase
    rw [move_eq] at hphase
    split at hphase
    · exact absurd hphase (by decide)
    · exact h.fresh_active j b key hj hphase
  case fresh =>
    intro j b key r hj hphase hr hown
    rw [move_eq] at hphase
    split at hphase
    · exact absurd hphase (by decide)
    · rename_i hnot
      rw [hjobs] at hr
      obtain ⟨hnone, hothers⟩ := h.fresh j b key r hj hphase hr hown
      refine ⟨hnone, ?_⟩
      intro k c hk hjob
      by_contra hphase'
      rcases hheld k c key hk (by simpa using hphase') with ⟨rfl, hmem⟩ | ⟨hold, -⟩
      · -- the job has one owner, and one active handler of it
        obtain rfl : a = c := Option.some.inj (hi.symm.trans hk)
        rw [← hjob, hrow] at hr
        obtain rfl := Option.some.inj hr
        have hsame : b.ownerId = a.ownerId := Option.some.inj (hown.symm.trans howner)
        have hji := h.unique j k b a hj hi (h.fresh_active j b key hj hphase)
          (h.fresh_active k a key hi (hfresh key hmem)) hsame hjob.symm
        exact hnot ⟨hji, hmem⟩
      · rw [hothers k c hk hjob] at hold
        exact absurd hold (by decide)
  case reserved =>
    intro j b key hj hphase
    rw [move_eq] at hphase
    split at hphase
    · rename_i hmine
      obtain ⟨rfl, hmem⟩ := hmine
      obtain rfl : a = b := Option.some.inj (hi.symm.trans hj)
      exact (hfree key hmem).1
    · exact h.reserved j b key hj hphase
  case inFlight =>
    intro j b key id hj hphase
    rw [move_eq] at hphase
    split at hphase
    · exact absurd hphase (by simp)
    · exact h.inFlight j b key id hj hphase
  case ownCall =>
    intro j k key key' id hphase hphase'
    rw [move_eq] at hphase hphase'
    split at hphase
    · exact absurd hphase (by simp)
    · split at hphase'
      · exact absurd hphase' (by simp)
      · exact h.ownCall j k key key' id hphase hphase'
  case begun =>
    intro j b key hj hactive hphase
    rcases hheld j b key hj hphase with ⟨rfl, hmem⟩ | ⟨hold, -⟩
    · exact List.mem_append_left _ (List.mem_map_of_mem hmem)
    · exact List.mem_append_right _ (h.begun j b key hj hactive hold)

/-- A holder finalizes an item: as failed only when nothing may have been sent. -/
theorem finalize (h : Consistent who ph s attempts calls begun) {i : Nat} {a : Who}
    (hi : who i = some a) {key : String} {outcome : DeliveryOutcome} (deliveryId : Option String)
    (now : τ) (hready : (ph i key = .reserved ∧ outcome = .failed) ∨
      (ph i key = .spent ∧ outcome ≠ .failed)) :
    Consistent who (move ph i [key] .unknown)
      ((Op.finalizeDeliveryAttempt a.jobId key outcome a.ownerId deliveryId now).run s).2
      attempts calls begun := by
  have hheldKey : (ph i key).held = true := by
    rcases hready with ⟨hphase, -⟩ | ⟨hphase, -⟩
    · rw [hphase]
      rfl
    · rw [hphase]
      rfl
  have hjobs := fun job => jobs_of_receipt_call job
    (Op.finalizeDeliveryAttempt a.jobId key outcome a.ownerId deliveryId now) s
    (.inr ⟨_, _, _, _, _, _, rfl⟩)
  have hrow : ∀ k, k ≠ (a.jobId, key) →
      ((Op.finalizeDeliveryAttempt a.jobId key outcome a.ownerId deliveryId now).run
        s).2.deliveries.lookup k = s.deliveries.lookup k := by
    intro k hk
    rcases JobStore.deliveries_step s
      (.finalizeDeliveryAttempt a.jobId key outcome a.ownerId deliveryId now) k with
      hsame | ⟨d, -, hchange⟩
    · exact hsame
    · generalize s.deliveries.lookup k = old at hchange
      cases hchange
      exact absurd rfl hk
  have hforget : Consistent who (move ph i [key] .unknown) s attempts calls begun := by
    refine h.reviseOne hi ?_ ?_
    · intro other
      by_cases hmem : other ∈ [key]
      · rw [Phases.setAll_of_mem hmem]
        exact .inr rfl
      · rw [Phases.setAll_of_notMem hmem]
        exact .inl rfl
    · intro other hphase
      by_cases hmem : other ∈ [key]
      · rw [Phases.setAll_of_mem hmem] at hphase
        exact absurd hphase (by decide)
      · rw [Phases.setAll_of_notMem hmem] at hphase
        exact .inl hphase
  apply hforget.restore
  · intro job hjob
    rw [hjobs]
    exact hjob
  · intro j b other r' hj hphase hr' howner
    rw [hjobs] at hr'
    exact ⟨r', hr', howner⟩
  · intro job other d hsent hd houtcome
    rcases JobStore.deliveries_step s
      (.finalizeDeliveryAttempt a.jobId key outcome a.ownerId deliveryId now) (job, other) with
      hsame | ⟨d', hd', hchange⟩
    · exact ⟨d, hsame.trans hd, houtcome⟩
    · refine ⟨d', hd', ?_⟩
      generalize hkey : (job, other) = k at hchange
      generalize s.deliveries.lookup k = old at hchange
      cases hchange
      obtain ⟨rfl, rfl⟩ := Prod.mk.inj hkey
      rcases hready with ⟨hphase, -⟩ | ⟨-, hne⟩
      · exact absurd (h.reserved i a other hi hphase) hsent
      · exact hne
  · intro j b other d hj hphase hd huncertain hfinal
    have hother : (b.jobId, other) ≠ (a.jobId, key) := by
      intro hsame
      obtain ⟨hjob, rfl⟩ := Prod.mk.inj hsame
      rw [move_eq] at hphase
      split at hphase
      · exact absurd hphase (by decide)
      · rename_i hnot
        have hji := h.exclusive j i b a other hj hi hjob hphase hheldKey
        exact hnot ⟨hji, List.mem_singleton.mpr rfl⟩
    exact ⟨d, (hrow _ hother).trans hd, huncertain, hfinal⟩

end Consistent

end Store

end YtdlBot.Delivery
