import YtdlBot.Process.Supervisor

/-!
# Conservation of the process slots

A launch owes its process slot and its reference to the owner's slot to the call, then to the
handle, then to the task that closes the handle. A handle that is not finished always has a call
or a task that will finish it; a cancellation inside the cleanup of `_start` or `open` is what
breaks this.
-/

namespace YtdlBot.Process

open Framework

variable {Owner : Type} [DecidableEq Owner]

/-- The call, and no handle, owes a process slot. -/
def Phase.slot : Phase → Nat
  | .exec | .unadopted _ _ | .unadoptedTree _ _ => 1
  | _ => 0

/-- The call, and no handle, owes a reference to the slot of its owner. -/
def Phase.ref : Phase → Nat
  | .processWait | .exec | .unadopted _ _ | .unadoptedTree _ _ => 1
  | _ => 0

def callRef (owner : Owner) (c : Call Owner) : Nat := if c.owner = owner then c.phase.ref else 0

def Handle.slot (x : Handle Owner) : Nat := if x.temporary = true ∨ x.finished = true then 0 else 1

def handleRef (owner : Owner) (x : Handle Owner) : Nat := if x.owner = owner then x.slot else 0

def Task.slot : Task Owner → Nat
  | .closing _ _ => 1
  | _ => 0

def taskRef (owner : Owner) : Task Owner → Nat
  | .closing _ owner' | .releaseOwner owner' => if owner' = owner then 1 else 0
  | _ => 0

/-- The shielded task the call awaits. -/
def Phase.awaits : Phase → Option Nat
  | .unadopted _ k | .unadoptedTree _ k | .startCancelling _ k | .runCancelling _ k
  | .openCancelling _ k | .leaving k => some k
  | .created | .workloadWait | .processWait | .exec | .fencing _ | .body _ | .openStderr _
  | .ended => none

/-- The call has the handle and will finish it. -/
def Phase.holds : Phase → Option Nat
  | .fencing h | .startCancelling h _ | .body h | .runCancelling h _ | .openCancelling h _
  | .openStderr h => some h
  | _ => none

/-- The task will finish the handle. -/
def Task.finishes : Task Owner → Option Nat
  | .cancelling h true | .terminating h true | .finishing h => some h
  | _ => none

section Over

variable {t : Task Owner}

omit [DecidableEq Owner] in
theorem Task.finishes_of_isOver (h : t.isOver = true) : t.finishes = none := by
  cases t <;> simp_all [Task.isOver, Task.finishes]

omit [DecidableEq Owner] in
theorem Task.slot_of_isOver (h : t.isOver = true) : t.slot = 0 := by
  cases t <;> simp_all [Task.isOver, Task.slot]

theorem taskRef_of_isOver (owner : Owner) (h : t.isOver = true) : taskRef owner t = 0 := by
  cases t <;> simp_all [Task.isOver, taskRef]

end Over

namespace Supervisor

def slots (s : Supervisor Owner) : Nat :=
  s.processSlots + tally (fun c => c.phase.slot) s.calls + tally Handle.slot s.handles +
    tally Task.slot s.tasks

def owed (s : Supervisor Owner) (owner : Owner) : Nat :=
  tally (callRef owner) s.calls + tally (handleRef owner) s.handles + tally (taskRef owner) s.tasks

/-- The handle is finished, or a `cancel_handle` task of `cancel_owner` or a `_finish` task will
finish it. -/
def Covered (s : Supervisor Owner) (h : Nat) : Prop :=
  (∃ x ∈ s.handles[h]?, x.finished = true) ∨ ∃ t ∈ s.tasks, t.finishes = some h

/-- What a call in this phase still owes is owed by somebody else, too. -/
def CoveredAt (s : Supervisor Owner) : Phase → Prop
  | .unadopted _ _ | .unadoptedTree _ _ => False
  | .startCancelling h _ | .openCancelling h _ | .openStderr h => s.Covered h
  | .created | .workloadWait | .processWait | .exec | .fencing _ | .body _ | .runCancelling _ _
  | .leaving _ | .ended => True

/-- Neither a cancellation nor a failure of `handle.cancel()` or of the stderr reader arrives while a
call awaits the cleanup that stands before its releases in `_start` or in `open`, unless its handle
is covered by somebody else; and a `cancel_handle` task of `cancel_owner` fails only when a call or
another task will finish the handle. -/
def Undisturbed (s : Supervisor Owner) : Action Owner → Prop
  | .cancel i | .stderrFails i => ∀ c ∈ s.calls[i]?, s.CoveredAt c.phase
  | .resume i =>
    ∀ c ∈ s.calls[i]?, ∀ k ∈ c.phase.awaits, s.tasks[k]? = some .failed → s.CoveredAt c.phase
  | .taskFails k =>
    ∀ t ∈ s.tasks[k]?, ∀ h ∈ t.finishes,
      (s.setTask k .failed).Covered h ∨ ∃ c ∈ s.calls, c.phase.holds = some h
  | _ => True

instance (s : Supervisor Owner) (h : Nat) : Decidable (s.Covered h) :=
  inferInstanceAs (Decidable
    ((∃ x ∈ s.handles[h]?, x.finished = true) ∨ ∃ t ∈ s.tasks, t.finishes = some h))

instance (s : Supervisor Owner) : (phase : Phase) → Decidable (s.CoveredAt phase)
  | .unadopted _ _ | .unadoptedTree _ _ => isFalse id
  | .startCancelling h _ | .openCancelling h _ | .openStderr h =>
    inferInstanceAs (Decidable (s.Covered h))
  | .created | .workloadWait | .processWait | .exec | .fencing _ | .body _ | .runCancelling _ _
  | .leaving _ | .ended => isTrue trivial

instance (s : Supervisor Owner) : (a : Action Owner) → Decidable (s.Undisturbed a)
  | .cancel i | .stderrFails i =>
    inferInstanceAs (Decidable (∀ c ∈ s.calls[i]?, s.CoveredAt c.phase))
  | .resume i =>
    inferInstanceAs (Decidable (∀ c ∈ s.calls[i]?, ∀ k ∈ c.phase.awaits,
      s.tasks[k]? = some .failed → s.CoveredAt c.phase))
  | .taskFails k =>
    inferInstanceAs (Decidable (∀ t ∈ s.tasks[k]?, ∀ h ∈ t.finishes,
      (s.setTask k .failed).Covered h ∨ ∃ c ∈ s.calls, c.phase.holds = some h))
  | .run _ | .open _ _ | .start _ | .workload _ | .process _ | .exec _ _ | .exit _ | .leaveBody _ _
  | .stderrDone _ | .cancelOwner _ | .task _ => isTrue trivial

/-- The counts add up. -/
structure Books (W P : Nat) (s : Supervisor Owner) : Prop where
  slots : s.slots = P
  owed : ∀ owner, (s.ownerSlotRefs.lookup owner).getD 0 = s.owed owner
  positive : ∀ owner, s.ownerSlotRefs.lookup owner ≠ some 0
  workloads : s.workloadSlots + s.ownerSlotRefs.keys.length = W

/-- Some call or task will finish the handle. -/
def Refers (s : Supervisor Owner) (h : Nat) : Prop :=
  (∃ c ∈ s.calls, c.phase.holds = some h) ∨ ∃ t ∈ s.tasks, t.finishes = some h

/-- Every handle that is not finished has somebody who will finish it. -/
structure Links (s : Supervisor Owner) : Prop where
  referred : ∀ h, s.Refers h → ∃ x, s.handles[h]? = some x ∧ x.temporary = false
  attended : ∀ (h : Nat) x, s.handles[h]? = some x → x.temporary = false → x.finished = false →
    s.Refers h
  recorded : ∀ (h : Nat) x, s.handles[h]? = some x → x.registered = true ∨ x.active = true →
    x.temporary = false ∧ x.finished = false

section Tallies

variable {s s' : Supervisor Owner} {i h k : Nat} {c : Call Owner} {x : Handle Owner}
  {t : Task Owner} {o : Owner}

omit [DecidableEq Owner] in
theorem slots_setCall (hc : s.calls[i]? = some c) (c' : Call Owner) :
    (s.setCall i c').slots + c.phase.slot = s.slots + c'.phase.slot := by
  have hmoved := tally_replaced (w := fun c : Call Owner => c.phase.slot) (b := c') hc
  simp only [slots, setCall]
  omega

theorem owed_setCall (hc : s.calls[i]? = some c) (c' : Call Owner) :
    (s.setCall i c').owed o + callRef o c = s.owed o + callRef o c' := by
  have hmoved := tally_replaced (w := callRef o) (b := c') hc
  simp only [owed, setCall]
  omega

omit [DecidableEq Owner] in
theorem slots_setTask (ht : s.tasks[k]? = some t) (t' : Task Owner) :
    (s.setTask k t').slots + t.slot = s.slots + t'.slot := by
  have hmoved := tally_replaced (w := Task.slot) (b := t') ht
  simp only [slots, setTask]
  omega

theorem owed_setTask (ht : s.tasks[k]? = some t) (t' : Task Owner) :
    (s.setTask k t').owed o + taskRef o t = s.owed o + taskRef o t' := by
  have hmoved := tally_replaced (w := taskRef o) (b := t') ht
  simp only [owed, setTask]
  omega

omit [DecidableEq Owner] in
theorem slots_setHandle (hx : s.handles[h]? = some x) (x' : Handle Owner) :
    (s.setHandle h x').slots + x.slot = s.slots + x'.slot := by
  have hmoved := tally_replaced (w := Handle.slot) (b := x') hx
  simp only [slots, setHandle]
  omega

theorem owed_setHandle (hx : s.handles[h]? = some x) (x' : Handle Owner) :
    (s.setHandle h x').owed o + handleRef o x = s.owed o + handleRef o x' := by
  have hmoved := tally_replaced (w := handleRef o) (b := x') hx
  simp only [owed, setHandle]
  omega

omit [DecidableEq Owner] in
theorem slots_shield (hc : s.calls[i]? = some c) (phase : Nat → Phase) (t : Task Owner) :
    (s.shield i c phase t).slots + c.phase.slot =
      s.slots + (phase s.tasks.length).slot + t.slot := by
  have hmoved := tally_replaced (w := fun c : Call Owner => c.phase.slot)
    (b := { c with phase := phase s.tasks.length }) hc
  simp only [slots, shield, tally_joined] at hmoved ⊢
  omega

theorem owed_shield (hc : s.calls[i]? = some c) (phase : Nat → Phase) (t : Task Owner) :
    (s.shield i c phase t).owed o + callRef o c =
      s.owed o + callRef o { c with phase := phase s.tasks.length } + taskRef o t := by
  have hmoved := tally_replaced (w := callRef o) (b := { c with phase := phase s.tasks.length }) hc
  simp only [owed, shield, tally_joined] at hmoved ⊢
  omega

omit [DecidableEq Owner] in
theorem slots_setFree {free n : Nat} (h : s.slots + free = n + s.processSlots) :
    ({ s with processSlots := free } : Supervisor Owner).slots = n := by
  simp only [slots] at h ⊢
  omega

end Tallies

section Books

variable {W P : Nat} {s s' : Supervisor Owner} {i h k : Nat} {c : Call Owner} {x : Handle Owner}
  {t : Task Owner} {o : Owner}

theorem books_initial (W P : Nat) : Books W P (initial W P : Supervisor Owner) := by
  constructor <;> intros <;> simp [initial, slots, owed]

/-- Slots and references change hands among calls, handles and tasks. -/
theorem Books.moved (hb : Books W P s) (hrefs : s'.ownerSlotRefs = s.ownerSlotRefs)
    (hworkload : s'.workloadSlots = s.workloadSlots) (hslots : s'.slots = s.slots)
    (howed : ∀ o, s'.owed o = s.owed o) : Books W P s' where
  slots := hslots.trans hb.slots
  owed o := by rw [hrefs, howed]; exact hb.owed o
  positive := by rw [hrefs]; exact hb.positive
  workloads := by rw [hrefs, hworkload]; exact hb.workloads

theorem Books.addOwnerRef (hb : Books W P s) (s' : Supervisor Owner) (hmem : o ∈ s.ownerSlotRefs)
    (hrefs : s'.ownerSlotRefs = s.ownerSlotRefs) (hworkload : s'.workloadSlots = s.workloadSlots)
    (hslots : s'.slots = s.slots)
    (howed : ∀ o', s'.owed o' = s.owed o' + if o' = o then 1 else 0) :
    Books W P (s'.addOwnerRef o) := by
  constructor
  case slots => exact hslots.trans hb.slots
  case owed =>
    intro o'
    have hbefore := hb.owed o'
    have hafter := howed o'
    show ((s'.ownerSlotRefs.insert o _).lookup o').getD 0 = s'.owed o'
    by_cases ho : o' = o
    · subst ho
      rw [AList.lookup_insert, Option.getD_some, hrefs]
      simp only [if_true] at hafter
      omega
    · rw [AList.lookup_insert_ne ho, hrefs]
      simp only [if_neg ho] at hafter
      omega
  case positive =>
    intro o'
    show (s'.ownerSlotRefs.insert o _).lookup o' ≠ some 0
    by_cases ho : o' = o
    · subst ho
      simp
    · rw [AList.lookup_insert_ne ho, hrefs]
      exact hb.positive o'
  case workloads =>
    have hbefore := hb.workloads
    have hkeys : o ∈ s.ownerSlotRefs.keys := AList.mem_keys.mp hmem
    have hlength := List.length_erase_of_mem hkeys
    have hpos : 0 < s.ownerSlotRefs.keys.length := List.length_pos_of_mem hkeys
    show s'.workloadSlots + (s'.ownerSlotRefs.insert o _).keys.length = W
    rw [AList.keys_insert, List.length_cons, hrefs, hworkload, hlength]
    omega

theorem Books.firstOwnerRef (hb : Books W P s) (s' : Supervisor Owner)
    (hmem : o ∉ s.ownerSlotRefs)
    (hrefs : s'.ownerSlotRefs = s.ownerSlotRefs)
    (hworkload : s'.workloadSlots + 1 = s.workloadSlots) (hslots : s'.slots = s.slots)
    (howed : ∀ o', s'.owed o' = s.owed o' + if o' = o then 1 else 0) :
    Books W P (s'.addOwnerRef o) := by
  have hnone : s.ownerSlotRefs.lookup o = none := AList.lookup_eq_none.mpr hmem
  constructor
  case slots => exact hslots.trans hb.slots
  case owed =>
    intro o'
    have hbefore := hb.owed o'
    have hafter := howed o'
    show ((s'.ownerSlotRefs.insert o _).lookup o').getD 0 = s'.owed o'
    by_cases ho : o' = o
    · subst ho
      rw [AList.lookup_insert, Option.getD_some, hrefs]
      simp only [if_true] at hafter
      omega
    · rw [AList.lookup_insert_ne ho, hrefs]
      simp only [if_neg ho] at hafter
      omega
  case positive =>
    intro o'
    show (s'.ownerSlotRefs.insert o _).lookup o' ≠ some 0
    by_cases ho : o' = o
    · subst ho
      simp
    · rw [AList.lookup_insert_ne ho, hrefs]
      exact hb.positive o'
  case workloads =>
    have hbefore := hb.workloads
    have hkeys : o ∉ s.ownerSlotRefs.keys := fun hk => hmem (AList.mem_keys.mpr hk)
    show s'.workloadSlots + (s'.ownerSlotRefs.insert o _).keys.length = W
    rw [AList.keys_insert, List.length_cons, hrefs, List.erase_of_not_mem hkeys]
    omega

theorem Books.releaseOwnerSlot (hb : Books W P s) (hrefs : s'.ownerSlotRefs = s.ownerSlotRefs)
    (hworkload : s'.workloadSlots = s.workloadSlots) (hslots : s'.slots = s.slots)
    (howed : ∀ o', (s'.owed o' + if o' = o then 1 else 0) = s.owed o') :
    Books W P (s'.releaseOwnerSlot o) := by
  have hbefore := hb.owed o
  have hone := howed o
  simp only [if_true] at hone
  have hsome : o ∈ s.ownerSlotRefs := by
    rw [← AList.lookup_isSome]
    cases hl : s.ownerSlotRefs.lookup o with
    | some n => rfl
    | none =>
      rw [hl, Option.getD_none] at hbefore
      omega
  have hkeys : o ∈ s.ownerSlotRefs.keys := AList.mem_keys.mp hsome
  have hlength := List.length_erase_of_mem hkeys
  have hpos : 0 < s.ownerSlotRefs.keys.length := List.length_pos_of_mem hkeys
  have hworkloads := hb.workloads
  unfold Supervisor.releaseOwnerSlot
  rw [hrefs]
  dsimp only
  split
  · rename_i hlast
    constructor
    case slots => exact hslots.trans hb.slots
    case owed =>
      intro o'
      have hafter := howed o'
      have hbefore' := hb.owed o'
      show ((s.ownerSlotRefs.erase o).lookup o').getD 0 = s'.owed o'
      by_cases ho : o' = o
      · subst ho
        rw [AList.lookup_erase, Option.getD_none]
        omega
      · rw [AList.lookup_erase_ne ho]
        simp only [if_neg ho] at hafter
        omega
    case positive =>
      intro o'
      show (s.ownerSlotRefs.erase o).lookup o' ≠ some 0
      by_cases ho : o' = o
      · subst ho
        simp
      · rw [AList.lookup_erase_ne ho]
        exact hb.positive o'
    case workloads =>
      have hexact : (s.ownerSlotRefs.lookup o).getD 0 = 1 := by omega
      show s'.workloadSlots + (if _ then 1 else 0) + (s.ownerSlotRefs.erase o).keys.length = W
      rw [if_pos hexact, AList.keys_erase, hlength, hworkload]
      omega
  · rename_i hmore
    constructor
    case slots => exact hslots.trans hb.slots
    case owed =>
      intro o'
      have hafter := howed o'
      have hbefore' := hb.owed o'
      show ((s.ownerSlotRefs.insert o _).lookup o').getD 0 = s'.owed o'
      by_cases ho : o' = o
      · subst ho
        rw [AList.lookup_insert, Option.getD_some]
        omega
      · rw [AList.lookup_insert_ne ho]
        simp only [if_neg ho] at hafter
        omega
    case positive =>
      intro o'
      show (s.ownerSlotRefs.insert o _).lookup o' ≠ some 0
      by_cases ho : o' = o
      · subst ho
        rw [AList.lookup_insert]
        simp only [ne_eq, Option.some.injEq]
        omega
      · rw [AList.lookup_insert_ne ho]
        exact hb.positive o'
    case workloads =>
      show s'.workloadSlots + (s.ownerSlotRefs.insert o _).keys.length = W
      rw [AList.keys_insert, List.length_cons, hlength, hworkload]
      omega

end Books

section Links

omit [DecidableEq Owner]

variable {s s' : Supervisor Owner} {i h k : Nat} {c : Call Owner} {x : Handle Owner}
  {t : Task Owner} {o : Owner}

theorem links_initial (W P : Nat) : Links (initial W P : Supervisor Owner) := by
  constructor <;> intros <;> simp_all [initial, Refers]

theorem Links.congr (hl : Links s) (hhandles : s'.handles = s.handles)
    (href : ∀ h, s'.Refers h ↔ s.Refers h) : Links s' where
  referred h hr := hhandles ▸ hl.referred h ((href h).mp hr)
  attended h x hx htemp hfin := (href h).mpr (hl.attended h x (hhandles ▸ hx) htemp hfin)
  recorded h x hx := hl.recorded h x (hhandles ▸ hx)

theorem Links.rereferred (hl : Links s) (hhandles : s'.handles = s.handles)
    (hnew : ∀ h, s'.Refers h → s.Refers h)
    (hkept : ∀ h, s.Refers h → s'.Refers h ∨ ∃ x ∈ s.handles[h]?, x.finished = true) :
    Links s' where
  referred h hr := hhandles ▸ hl.referred h (hnew h hr)
  attended h x hx htemp hfin := by
    rw [hhandles] at hx
    rcases hkept h (hl.attended h x hx htemp hfin) with hr | ⟨y, hy, hdone⟩
    · exact hr
    · obtain rfl := Option.some.inj (hx.symm.trans hy)
      rw [hfin] at hdone
      cases hdone
  recorded h x hx := hl.recorded h x (hhandles ▸ hx)

theorem Links.setCall (hl : Links s) (hc : s.calls[i]? = some c) (c' : Call Owner)
    (hholds : ∀ h, c'.phase.holds = some h → c.phase.holds = some h)
    (hleft : ∀ h, c.phase.holds = some h → c'.phase.holds = some h ∨ s.Covered h) :
    Links (s.setCall i c') := by
  apply hl.rereferred
  · rfl
  · intro h hr
    rcases hr with ⟨d, hd, hdh⟩ | htask
    · rcases List.mem_or_eq_of_mem_set hd with hold | rfl
      · exact .inl ⟨d, hold, hdh⟩
      · exact .inl ⟨c, List.mem_of_getElem? hc, hholds h hdh⟩
    · exact .inr htask
  · intro h hr
    rcases hr with ⟨d, hd, hdh⟩ | htask
    · rcases mem_replaced_of_mem (b := c') hc hd with rfl | hstays
      · rcases hleft h hdh with hnow | hfinished | htask
        · exact .inl (.inl ⟨c', mem_replaced hc, hnow⟩)
        · exact .inr hfinished
        · exact .inl (.inr htask)
      · exact .inl (.inl ⟨d, hstays, hdh⟩)
    · exact .inl (.inr htask)

theorem Links.shield (hl : Links s) (hc : s.calls[i]? = some c) (phase : Nat → Phase)
    (t : Task Owner)
    (hnew : ∀ h, (phase s.tasks.length).holds = some h ∨ t.finishes = some h →
      c.phase.holds = some h)
    (hkept : ∀ h, c.phase.holds = some h →
      (phase s.tasks.length).holds = some h ∨ t.finishes = some h) :
    Links (s.shield i c phase t) := by
  apply hl.rereferred
  · rfl
  · intro h hr
    rcases hr with ⟨d, hd, hdh⟩ | ⟨u, hu, huh⟩
    · rcases List.mem_or_eq_of_mem_set hd with hold | rfl
      · exact .inl ⟨d, hold, hdh⟩
      · exact .inl ⟨c, List.mem_of_getElem? hc, hnew h (.inl hdh)⟩
    · rcases List.mem_append.mp hu with hold | hlast
      · exact .inr ⟨u, hold, huh⟩
      · obtain rfl := List.mem_singleton.mp hlast
        exact .inl ⟨c, List.mem_of_getElem? hc, hnew h (.inr huh)⟩
  · intro h hr
    left
    rcases hr with ⟨d, hd, hdh⟩ | ⟨u, hu, huh⟩
    · rcases mem_replaced_of_mem (b := { c with phase := phase s.tasks.length }) hc hd with
        rfl | hstays
      · rcases hkept h hdh with hnow | htask
        · exact .inl ⟨_, mem_replaced hc, hnow⟩
        · exact .inr ⟨t, by simp [Supervisor.shield], htask⟩
      · exact .inl ⟨d, hstays, hdh⟩
    · exact .inr ⟨u, List.mem_append_left _ hu, huh⟩

theorem Links.setTask (hl : Links s) (ht : s.tasks[k]? = some t) (t' : Task Owner)
    (hnew : ∀ h, t'.finishes = some h → t.finishes = some h)
    (hkept : ∀ h, t.finishes = some h →
      (s.setTask k t').Refers h ∨ ∃ x ∈ s.handles[h]?, x.finished = true) :
    Links (s.setTask k t') := by
  apply hl.rereferred
  · rfl
  · intro h hr
    rcases hr with hcall | ⟨u, hu, huh⟩
    · exact .inl hcall
    · rcases List.mem_or_eq_of_mem_set hu with hold | rfl
      · exact .inr ⟨u, hold, huh⟩
      · exact .inr ⟨t, List.mem_of_getElem? ht, hnew h huh⟩
  · intro h hr
    rcases hr with hcall | ⟨u, hu, huh⟩
    · exact .inl (.inl hcall)
    · rcases mem_replaced_of_mem (b := t') ht hu with rfl | hstays
      · exact hkept h huh
      · exact .inl (.inr ⟨u, hstays, huh⟩)

theorem Links.setHandle (hl : Links s) (hx : s.handles[h]? = some x) (x' : Handle Owner)
    (htemp : x'.temporary = x.temporary) (hfin : x'.finished = false → x.finished = false)
    (hrec : x'.registered = true ∨ x'.active = true →
      (x.registered = true ∨ x.active = true) ∧ x'.finished = false) :
    Links (s.setHandle h x') := by
  constructor
  case referred =>
    intro g hr
    obtain ⟨y, hy, hyt⟩ := hl.referred g hr
    simp only [Supervisor.setHandle, getElem?_replaced hx]
    by_cases hg : g = h
    · subst hg
      obtain rfl := Option.some.inj (hx.symm.trans hy)
      exact ⟨x', if_pos rfl, htemp.trans hyt⟩
    · exact ⟨y, (if_neg hg).trans hy, hyt⟩
  case attended =>
    intro g y hy hyt hyf
    simp only [Supervisor.setHandle, getElem?_replaced hx] at hy
    split at hy
    · rename_i hg
      obtain rfl := Option.some.inj hy
      exact hl.attended g x (hg ▸ hx) (htemp.symm.trans hyt) (hfin hyf)
    · exact hl.attended g y hy hyt hyf
  case recorded =>
    intro g y hy hyr
    simp only [Supervisor.setHandle, getElem?_replaced hx] at hy
    split at hy
    · rename_i hg
      obtain rfl := Option.some.inj hy
      have hbefore := hl.recorded g x (hg ▸ hx) (hrec hyr).1
      exact ⟨htemp.trans hbefore.1, (hrec hyr).2⟩
    · exact hl.recorded g y hy hyr

theorem Links.temporary (hl : Links s) (htemp : x.temporary = true)
    (hrec : x.registered = false ∧ x.active = false) :
    Links { s with handles := s.handles ++ [x] } := by
  constructor
  case referred =>
    intro g hr
    obtain ⟨y, hy, hyt⟩ := hl.referred g hr
    exact ⟨y, getElem?_joined_of_some hy, hyt⟩
  case attended =>
    intro g y hy hyt hyf
    rcases joined_cases hy with ⟨-, rfl⟩ | ⟨-, hy⟩
    · rw [htemp] at hyt
      cases hyt
    · exact hl.attended g y hy hyt hyf
  case recorded =>
    intro g y hy hyr
    rcases joined_cases hy with ⟨-, rfl⟩ | ⟨-, hy⟩
    · simp [hrec.1, hrec.2] at hyr
    · exact hl.recorded g y hy hyr

theorem Links.launch (hl : Links s) (hc : s.calls[i]? = some c) (c' : Call Owner)
    (hnone : c.phase.holds = none) (hholds : c'.phase.holds = some s.handles.length)
    (htemp : x.temporary = false) (hfin : x.finished = false) :
    Links { s.setCall i c' with handles := s.handles ++ [x] } := by
  have hkept : ∀ g, s.Refers g → (s.setCall i c').Refers g := by
    intro g hr
    rcases hr with ⟨d, hd, hdh⟩ | htask
    · rcases mem_replaced_of_mem (b := c') hc hd with rfl | hstays
      · rw [hnone] at hdh
        cases hdh
      · exact .inl ⟨d, hstays, hdh⟩
    · exact .inr htask
  constructor
  case referred =>
    intro g hr
    have hcases : g = s.handles.length ∨ s.Refers g := by
      rcases hr with ⟨d, hd, hdh⟩ | htask
      · rcases List.mem_or_eq_of_mem_set hd with hold | rfl
        · exact .inr (.inl ⟨d, hold, hdh⟩)
        · exact .inl (Option.some.inj (hdh.symm.trans hholds))
      · exact .inr (.inr htask)
    rcases hcases with rfl | hold
    · exact ⟨x, getElem?_joined.trans (if_pos rfl), htemp⟩
    · obtain ⟨y, hy, hyt⟩ := hl.referred g hold
      exact ⟨y, getElem?_joined_of_some hy, hyt⟩
  case attended =>
    intro g y hy hyt hyf
    simp only [getElem?_joined] at hy
    split at hy
    · rename_i hg
      subst hg
      exact .inl ⟨c', mem_replaced hc, hholds⟩
    · exact hkept g (hl.attended g y hy hyt hyf)
  case recorded =>
    intro g y hy hyr
    rcases joined_cases hy with ⟨-, rfl⟩ | ⟨-, hy⟩
    · exact ⟨htemp, hfin⟩
    · exact hl.recorded g y hy hyr

end Links

structure Inv (W P : Nat) (s : Supervisor Owner) : Prop where
  books : Books W P s
  links : Links s

section Steps

variable {W P : Nat} {s s' : Supervisor Owner} {i h k : Nat} {c : Call Owner} {x : Handle Owner}
  {t : Task Owner} {o : Owner}

theorem Inv.setPhase (hi : Inv W P s) (hc : s.calls[i]? = some c) (phase : Phase)
    (hslot : phase.slot = c.phase.slot) (href : phase.ref = c.phase.ref)
    (hholds : ∀ h, phase.holds = some h → c.phase.holds = some h)
    (hleft : ∀ h, c.phase.holds = some h → phase.holds = some h ∨ s.Covered h) :
    Inv W P (s.setCall i { c with phase := phase }) := by
  constructor
  · apply hi.books.moved
    · rfl
    · rfl
    · have hslots := slots_setCall hc { c with phase := phase }
      simp only at hslots
      omega
    · intro o
      have howed := owed_setCall (o := o) hc { c with phase := phase }
      simp only [callRef, href] at howed
      omega
  · exact hi.links.setCall hc _ hholds hleft

theorem Inv.shield (hi : Inv W P s) (hc : s.calls[i]? = some c) (phase : Nat → Phase)
    (t : Task Owner) (hslot : (phase s.tasks.length).slot + t.slot = c.phase.slot)
    (howed : ∀ o, callRef o { c with phase := phase s.tasks.length } + taskRef o t = callRef o c)
    (hnew : ∀ h, (phase s.tasks.length).holds = some h ∨ t.finishes = some h →
      c.phase.holds = some h)
    (hkept : ∀ h, c.phase.holds = some h →
      (phase s.tasks.length).holds = some h ∨ t.finishes = some h) :
    Inv W P (s.shield i c phase t) := by
  constructor
  · apply hi.books.moved
    · rfl
    · rfl
    · have hslots := slots_shield hc phase t
      omega
    · intro o
      have hmoved := owed_shield (o := o) hc phase t
      have hsame := howed o
      omega
  · exact hi.links.shield hc phase t hnew hkept

theorem Inv.abandon (hi : Inv W P s) (hc : s.calls[i]? = some c) (href : c.phase.ref = 1)
    (hnone : c.phase.holds = none) {free : Nat} (hfree : free = s.processSlots + c.phase.slot) :
    Inv W P { s.shield i c .leaving (.releaseOwner c.owner) with processSlots := free } := by
  have hlinks : Links (s.shield i c .leaving (.releaseOwner c.owner)) := by
    apply hi.links.shield hc
    · intro h hr
      simp [Phase.holds, Task.finishes] at hr
    · intro h hr
      rw [hnone] at hr
      cases hr
  constructor
  · apply hi.books.moved
    · rfl
    · rfl
    · have hslots : (s.shield i c .leaving (.releaseOwner c.owner)).slots + c.phase.slot =
          s.slots + 0 + 0 := slots_shield hc .leaving (.releaseOwner c.owner)
      apply slots_setFree
      show _ = s.slots + s.processSlots
      omega
    · intro o
      have hmoved : (s.shield i c .leaving (.releaseOwner c.owner)).owed o + callRef o c =
          s.owed o + callRef o { c with phase := .leaving s.tasks.length } +
            taskRef o (.releaseOwner c.owner) := owed_shield hc .leaving (.releaseOwner c.owner)
      have hzero : callRef o { c with phase := .leaving s.tasks.length } = 0 := by
        simp [callRef, Phase.ref]
      have hsame : taskRef o (.releaseOwner c.owner) = callRef o c := by
        simp [callRef, taskRef, href]
      show (s.shield i c .leaving (.releaseOwner c.owner)).owed o = s.owed o
      omega
  · exact hlinks.congr rfl (fun _ => Iff.rfl)

theorem Inv.start (hi : Inv W P s) (hc : s.calls[i]? = some c) (hphase : c.phase = .created) :
    Inv W P (s.startCall i c) := by
  have hlinks : ∀ (generation : Nat) (phase : Phase), phase.holds = none →
      Links (s.setCall i { c with generation := generation, phase := phase }) := by
    intro generation phase hnone
    apply hi.links.setCall hc
    · intro h hr
      simp [hnone] at hr
    · intro h hr
      simp [hphase, Phase.holds] at hr
  unfold startCall
  dsimp only
  generalize s.launchGeneration c = generation
  have hslots : ∀ phase : Phase, phase.slot = 0 →
      (s.setCall i { c with generation := generation, phase := phase }).slots = s.slots := by
    intro phase hzero
    have hmoved := slots_setCall hc { c with generation := generation, phase := phase }
    have hbefore : c.phase.slot = 0 := by rw [hphase]; rfl
    simp only at hmoved
    omega
  have howed : ∀ (phase : Phase) (o : Owner),
      (s.setCall i { c with generation := generation, phase := phase }).owed o =
        s.owed o + callRef o { c with generation := generation, phase := phase } := by
    intro phase o
    have hmoved := owed_setCall (o := o) hc { c with generation := generation, phase := phase }
    have hbefore : callRef o c = 0 := by simp [callRef, hphase, Phase.ref]
    omega
  split
  · rename_i hmem
    constructor
    · apply hi.books.addOwnerRef
        (s.setCall i { c with generation := generation, phase := .processWait }) hmem
      · rfl
      · rfl
      · exact hslots .processWait rfl
      · intro o
        rw [howed]
        simp [callRef, Phase.ref, eq_comm]
    · exact (hlinks generation .processWait rfl).congr rfl (fun _ => Iff.rfl)
  · constructor
    · apply hi.books.moved
      · rfl
      · rfl
      · exact hslots .workloadWait rfl
      · intro o
        rw [howed]
        simp [callRef, Phase.ref]
    · exact hlinks generation .workloadWait rfl

theorem Inv.workload (hi : Inv W P s) (hc : s.calls[i]? = some c)
    (hphase : c.phase = .workloadWait) (hfree : 0 < s.workloadSlots) :
    Inv W P (s.takeWorkload i c) := by
  have hlinks : Links (s.setCall i { c with phase := .processWait }) := by
    apply hi.links.setCall hc
    · intro h hr
      simp [Phase.holds] at hr
    · intro h hr
      simp [hphase, Phase.holds] at hr
  have hslots : (s.setCall i { c with phase := .processWait }).slots = s.slots := by
    have hmoved := slots_setCall hc { c with phase := .processWait }
    have hbefore : c.phase.slot = 0 := by rw [hphase]; rfl
    have hafter : Phase.processWait.slot = 0 := rfl
    simp only at hmoved
    omega
  have howed : ∀ o, (s.setCall i { c with phase := .processWait }).owed o =
      s.owed o + if o = c.owner then 1 else 0 := by
    intro o
    have hmoved := owed_setCall (o := o) hc { c with phase := .processWait }
    have hbefore : callRef o c = 0 := by simp [callRef, hphase, Phase.ref]
    have hafter : callRef o { c with phase := .processWait } = if o = c.owner then 1 else 0 := by
      simp [callRef, Phase.ref, eq_comm]
    omega
  unfold takeWorkload
  split
  · rename_i hmem
    constructor
    · exact hi.books.addOwnerRef (s.setCall i { c with phase := .processWait }) hmem rfl rfl
        hslots howed
    · exact hlinks.congr rfl (fun _ => Iff.rfl)
  · rename_i hmem
    constructor
    · apply hi.books.firstOwnerRef { s.setCall i { c with phase := .processWait } with
          workloadSlots := s.workloadSlots - 1 } hmem
      · rfl
      · show s.workloadSlots - 1 + 1 = s.workloadSlots
        omega
      · exact hslots
      · exact howed
    · exact hlinks.congr rfl (fun _ => Iff.rfl)

theorem Inv.process (hi : Inv W P s) (hc : s.calls[i]? = some c)
    (hphase : c.phase = .processWait) (hfree : 0 < s.processSlots) :
    Inv W P (s.takeProcess i c) := by
  unfold takeProcess
  split
  · exact hi.abandon hc (by rw [hphase]; rfl) (by rw [hphase]; rfl) (by rw [hphase]; rfl)
  · constructor
    · apply hi.books.moved
      · rfl
      · rfl
      · apply slots_setFree
        have hmoved := slots_setCall hc { c with phase := .exec }
        have hbefore : c.phase.slot = 0 := by rw [hphase]; rfl
        have hafter : Phase.exec.slot = 1 := rfl
        simp only at hmoved
        show _ = s.slots + s.processSlots
        omega
      · intro o
        have hmoved := owed_setCall (o := o) hc { c with phase := .exec }
        simp only [callRef, hphase, Phase.ref] at hmoved
        show (s.setCall i { c with phase := .exec }).owed o = s.owed o
        omega
    · have hlinks : Links (s.setCall i { c with phase := .exec }) := by
        apply hi.links.setCall hc
        · intro h hr
          simp [Phase.holds] at hr
        · intro h hr
          simp [hphase, Phase.holds] at hr
      exact hlinks.congr rfl (fun _ => Iff.rfl)

theorem Inv.exec (hi : Inv W P s) (hc : s.calls[i]? = some c) (hphase : c.phase = .exec)
    (result : ExecResult) : Inv W P (s.execDone i c result) := by
  cases result with
  | failed => exact hi.abandon hc (by rw [hphase]; rfl) (by rw [hphase]; rfl) (by rw [hphase]; rfl)
  | unadopted =>
    have hshield : Inv W P
        (s.shield i c (.unadopted s.handles.length) (.cancelling s.handles.length false)) := by
      apply hi.shield hc
      · rw [hphase]; rfl
      · intro o
        simp [callRef, taskRef, hphase, Phase.ref]
      · intro h hr
        simp [Phase.holds, Task.finishes] at hr
      · intro h hr
        simp [hphase, Phase.holds] at hr
    constructor
    · apply hshield.books.moved
      · rfl
      · rfl
      · simp [execDone, slots, tally_joined, Handle.slot, Supervisor.shield]
      · intro o
        simp [execDone, owed, tally_joined, handleRef, Handle.slot, Supervisor.shield]
    · exact hshield.links.temporary rfl ⟨rfl, rfl⟩
  | started =>
    have hparts : ∀ (phase : Phase) (x : Handle Owner), phase.slot = 0 → phase.ref = 0 →
        phase.holds = some s.handles.length → x.owner = c.owner → x.temporary = false →
        x.finished = false →
        Inv W P { s.setCall i { c with phase := phase } with handles := s.handles ++ [x] } := by
      intro phase x hslot href hholds howner htemp hfin
      have hone : x.slot = 1 := by simp [Handle.slot, htemp, hfin]
      constructor
      · apply hi.books.moved
        · rfl
        · rfl
        · have hmoved := slots_setCall hc { c with phase := phase }
          have hbefore : c.phase.slot = 1 := by rw [hphase]; rfl
          simp only [slots, Supervisor.setCall, tally_joined] at hmoved ⊢
          omega
        · intro o
          have hmoved := owed_setCall (o := o) hc { c with phase := phase }
          have hsame : handleRef o x = callRef o c := by
            simp [handleRef, callRef, howner, hone, hphase, Phase.ref]
          have hafter : callRef o { c with phase := phase } = 0 := by simp [callRef, href]
          simp only [owed, Supervisor.setCall, tally_joined] at hmoved ⊢
          omega
      · exact hi.links.launch hc _ (by rw [hphase]; rfl) hholds htemp hfin
    unfold execDone
    dsimp only
    by_cases hgen : s.ownerGeneration c.owner ≠ c.generation
    · rw [decide_eq_true hgen]
      exact hparts _ _ rfl rfl rfl rfl rfl rfl
    · rw [decide_eq_false hgen]
      exact hparts _ _ rfl rfl rfl rfl rfl rfl

theorem Inv.toFinish (hi : Inv W P s) (hc : s.calls[i]? = some c)
    (hholds : c.phase.holds = some h) (hslot : c.phase.slot = 0) (href : c.phase.ref = 0) :
    Inv W P (s.shield i c .leaving (.finishing h)) := by
  apply hi.shield hc
  · rw [hslot]; rfl
  · intro o
    have hleft : (Phase.leaving s.tasks.length).ref = 0 := rfl
    simp [callRef, taskRef, href, hleft]
  · intro g hr
    rcases hr with hr | hr
    · cases hr
    · exact hholds.trans hr
  · intro g hr
    rw [hholds] at hr
    exact .inr hr

theorem Inv.toCancel (hi : Inv W P s) (hc : s.calls[i]? = some c)
    (hholds : c.phase.holds = some h) (hslot : c.phase.slot = 0) (href : c.phase.ref = 0)
    (phase : Nat → Phase) (hholds' : ∀ k, (phase k).holds = some h)
    (hslot' : ∀ k, (phase k).slot = 0) (href' : ∀ k, (phase k).ref = 0) :
    Inv W P (s.shield i c phase (.cancelling h false)) := by
  apply hi.shield hc
  · rw [hslot, hslot']; rfl
  · intro o
    simp [callRef, taskRef, href, href']
  · intro g hr
    rcases hr with hr | hr
    · exact hholds.trans ((hholds' _).symm.trans hr)
    · cases hr
  · intro g hr
    rw [hholds] at hr
    exact .inl ((hholds' _).trans hr)

theorem Inv.setHandle (hi : Inv W P s) (hx : s.handles[h]? = some x) (x' : Handle Owner)
    (hcall : x'.owner = x.owner) (htemp : x'.temporary = x.temporary)
    (hfin : x'.finished = x.finished) (hreg : x'.registered = x.registered)
    (hactive : x'.active = true → x.active = true) : Inv W P (s.setHandle h x') := by
  have hslot : x'.slot = x.slot := by simp [Handle.slot, htemp, hfin]
  constructor
  · apply hi.books.moved
    · rfl
    · rfl
    · have hmoved := slots_setHandle hx x'
      omega
    · intro o
      have hmoved := owed_setHandle (o := o) hx x'
      simp only [handleRef, hcall, hslot] at hmoved
      omega
  · apply hi.links.setHandle hx x' htemp
    · rw [hfin]
      exact id
    · intro hrec
      have hbefore : x.registered = true ∨ x.active = true := by
        rcases hrec with hr | ha
        · exact .inl (hreg ▸ hr)
        · exact .inr (hactive ha)
      exact ⟨hbefore, hfin.trans (hi.links.recorded h x hx hbefore).2⟩

theorem Inv.leave (hi : Inv W P s) (hc : s.calls[i]? = some c) (hslot : c.phase.slot = 0)
    (href : c.phase.ref = 0) (hcovered : ∀ h, c.phase.holds = some h → s.Covered h) :
    Inv W P (s.setCall i { c with phase := .ended }) := by
  apply hi.setPhase hc
  · exact hslot.symm
  · exact href.symm
  · intro h hr
    cases hr
  · exact fun h hr => .inr (hcovered h hr)

theorem Inv.leaveCovered (hi : Inv W P s) (hc : s.calls[i]? = some c) (hslot : c.phase.slot = 0)
    (href : c.phase.ref = 0) (hholds : c.phase.holds = some h) (hcovered : s.Covered h) :
    Inv W P (s.setCall i { c with phase := .ended }) := by
  apply hi.leave hc hslot href
  intro g hg
  obtain rfl := Option.some.inj (hholds.symm.trans hg)
  exact hcovered

theorem Inv.leaveBody (hi : Inv W P s) (hc : s.calls[i]? = some c) (hphase : c.phase = .body h)
    {raised : Bool} (hs : s.leaveBody i c h x raised = some s') : Inv W P s' := by
  have hholds : c.phase.holds = some h := by rw [hphase]; rfl
  have hslot : c.phase.slot = 0 := by rw [hphase]; rfl
  have href : c.phase.ref = 0 := by rw [hphase]; rfl
  unfold Supervisor.leaveBody at hs
  split at hs
  · split at hs
    · obtain rfl := Option.some.inj hs
      exact hi.toCancel hc hholds hslot href _ (fun _ => rfl) (fun _ => rfl) (fun _ => rfl)
    · split at hs
      · obtain rfl := Option.some.inj hs
        exact hi.toFinish hc hholds hslot href
      · cases hs
  · split at hs
    · obtain rfl := Option.some.inj hs
      exact hi.toCancel hc hholds hslot href _ (fun _ => rfl) (fun _ => rfl) (fun _ => rfl)
    · split at hs
      · obtain rfl := Option.some.inj hs
        apply hi.setPhase hc
        · exact hslot.symm
        · exact href.symm
        · exact fun g hr => hholds.trans hr
        · exact fun g hr => .inl (hholds.symm.trans hr)
      · obtain rfl := Option.some.inj hs
        exact hi.toFinish hc hholds hslot href

theorem Inv.resume (hi : Inv W P s) (hc : s.calls[i]? = some c) (hG : s.Undisturbed (.resume i))
    (hs : s.resume i c = some s') : Inv W P s' := by
  have hquiet := hG c hc
  unfold Supervisor.resume at hs
  cases hphase : c.phase <;> simp only [hphase] at hs
  case created | workloadWait | processWait | exec | body | openStderr | ended => cases hs
  case unadopted h k =>
    split at hs
    · obtain rfl := Option.some.inj hs
      apply hi.shield hc
      · rw [hphase]; rfl
      · intro o
        simp [callRef, taskRef, hphase, Phase.ref]
      · intro g hr
        simp [Phase.holds, Task.finishes] at hr
      · intro g hr
        simp [hphase, Phase.holds] at hr
    · cases hs
  case unadoptedTree h k =>
    split at hs
    · obtain rfl := Option.some.inj hs
      exact hi.abandon hc (by rw [hphase]; rfl) (by rw [hphase]; rfl) (by rw [hphase]; rfl)
    · cases hs
  case fencing h =>
    obtain ⟨x, hx, rfl⟩ := Option.map_eq_some_iff.mp hs
    have hset : Inv W P (s.setHandle h { x with killed := true, teardown := false }) :=
      hi.setHandle hx _ rfl rfl rfl rfl id
    exact hset.toCancel hc (by rw [hphase]; rfl) (by rw [hphase]; rfl) (by rw [hphase]; rfl) _
      (fun _ => rfl) (fun _ => rfl) (fun _ => rfl)
  case startCancelling h k =>
    split at hs
    · obtain rfl := Option.some.inj hs
      exact hi.toFinish hc (by rw [hphase]; rfl) (by rw [hphase]; rfl) (by rw [hphase]; rfl)
    next hfailed =>
      obtain rfl := Option.some.inj hs
      have hcovered : s.CoveredAt c.phase := hquiet k (by rw [hphase]; rfl) hfailed
      rw [hphase] at hcovered
      exact hi.leaveCovered hc (by rw [hphase]; rfl) (by rw [hphase]; rfl) (by rw [hphase]; rfl)
        hcovered
    · cases hs
  case runCancelling h k =>
    split at hs
    · obtain rfl := Option.some.inj hs
      exact hi.toFinish hc (by rw [hphase]; rfl) (by rw [hphase]; rfl) (by rw [hphase]; rfl)
    · obtain rfl := Option.some.inj hs
      exact hi.toFinish hc (by rw [hphase]; rfl) (by rw [hphase]; rfl) (by rw [hphase]; rfl)
    · cases hs
  case openCancelling h k =>
    split at hs
    · obtain rfl := Option.some.inj hs
      apply hi.setPhase hc
      · rw [hphase]; rfl
      · rw [hphase]; rfl
      · intro g hr
        rw [hphase]
        exact hr
      · intro g hr
        rw [hphase] at hr
        exact .inl hr
    · obtain rfl := Option.some.inj hs
      exact hi.toFinish hc (by rw [hphase]; rfl) (by rw [hphase]; rfl) (by rw [hphase]; rfl)
    next hfailed =>
      obtain rfl := Option.some.inj hs
      have hcovered : s.CoveredAt c.phase := hquiet k (by rw [hphase]; rfl) hfailed
      rw [hphase] at hcovered
      exact hi.leaveCovered hc (by rw [hphase]; rfl) (by rw [hphase]; rfl) (by rw [hphase]; rfl)
        hcovered
    · cases hs
  case leaving k =>
    split at hs
    · obtain rfl := Option.some.inj hs
      apply hi.leave hc
      · rw [hphase]; rfl
      · rw [hphase]; rfl
      · intro g hr
        simp [hphase, Phase.holds] at hr
    · cases hs

theorem Inv.cancel (hi : Inv W P s) (hc : s.calls[i]? = some c) (hG : s.Undisturbed (.cancel i)) :
    Inv W P (s.cancelCall i c) := by
  have hquiet := hG c hc
  unfold Supervisor.cancelCall
  cases hphase : c.phase <;> simp only [hphase, CoveredAt] at hquiet ⊢
  case ended => exact hi
  case created | workloadWait | leaving =>
    apply hi.leave hc
    · rw [hphase]; rfl
    · rw [hphase]; rfl
    · intro g hr
      simp [hphase, Phase.holds] at hr
  case processWait =>
    exact hi.abandon hc (by rw [hphase]; rfl) (by rw [hphase]; rfl) (by rw [hphase]; rfl)
  case exec =>
    exact hi.abandon hc (by rw [hphase]; rfl) (by rw [hphase]; rfl) (by rw [hphase]; rfl)
  case startCancelling | openCancelling | openStderr =>
    exact hi.leaveCovered hc (by rw [hphase]; rfl) (by rw [hphase]; rfl) (by rw [hphase]; rfl)
      hquiet
  case fencing h =>
    split
    · rename_i x hx
      have hset : Inv W P (s.setHandle h { x with teardown := false }) :=
        hi.setHandle hx _ rfl rfl rfl rfl id
      exact hset.toCancel hc (by rw [hphase]; rfl) (by rw [hphase]; rfl) (by rw [hphase]; rfl) _
        (fun _ => rfl) (fun _ => rfl) (fun _ => rfl)
    · exact hi
  case runCancelling h k =>
    exact hi.toFinish hc (by rw [hphase]; rfl) (by rw [hphase]; rfl) (by rw [hphase]; rfl)
  case body h =>
    split
    · exact hi.toCancel hc (by rw [hphase]; rfl) (by rw [hphase]; rfl) (by rw [hphase]; rfl) _
        (fun _ => rfl) (fun _ => rfl) (fun _ => rfl)
    · exact hi

theorem Inv.setTask (hi : Inv W P s) (ht : s.tasks[k]? = some t) (t' : Task Owner)
    (hslot : t'.slot = t.slot) (href : ∀ o, taskRef o t' = taskRef o t)
    (hfinishes : t'.finishes = t.finishes) : Inv W P (s.setTask k t') := by
  constructor
  · apply hi.books.moved
    · rfl
    · rfl
    · have hmoved := slots_setTask ht t'
      omega
    · intro o
      have hmoved := owed_setTask (o := o) ht t'
      have hsame := href o
      omega
  · apply hi.links.setTask ht
    · intro h hr
      rw [← hfinishes]
      exact hr
    · intro h hr
      rw [← hfinishes] at hr
      exact .inl (.inr ⟨t', mem_replaced ht, hr⟩)

omit [DecidableEq Owner] in
theorem finishes_afterCancel (h : Nat) (finish : Bool) :
    (afterCancel h finish : Task Owner).finishes = (Task.cancelling h finish : Task Owner).finishes := by
  cases finish <;> rfl

theorem Inv.toAfterCancel (hi : Inv W P s) (ht : s.tasks[k]? = some t) {finish : Bool}
    (hslot : t.slot = 0) (href : ∀ o, taskRef o t = 0)
    (hfinishes : t.finishes = (Task.cancelling h finish : Task Owner).finishes) :
    Inv W P (s.setTask k (afterCancel h finish)) := by
  apply hi.setTask ht
  · rw [hslot]
    cases finish <;> rfl
  · intro o
    rw [href]
    cases finish <;> rfl
  · rw [hfinishes, finishes_afterCancel]

omit [DecidableEq Owner] in
theorem handle_of_finishes (hi : Links s) (ht : s.tasks[k]? = some t) (hf : t.finishes = some h)
    (hx : s.handles[h]? = some x) : x.temporary = false := by
  obtain ⟨y, hy, htemp⟩ := hi.referred h (.inr ⟨t, List.mem_of_getElem? ht, hf⟩)
  obtain rfl := Option.some.inj (hx.symm.trans hy)
  exact htemp

/-- The locked block of `_finish`: the debt of the handle passes to the task. -/
theorem Inv.finish (hi : Inv W P s) (ht : s.tasks[k]? = some (.finishing h))
    (hx : s.handles[h]? = some x) :
    Inv W P (if x.finished then (s.setHandle h { x with active := false }).setTask k .done
      else (s.setHandle h { x with finished := true, registered := false, active := false }).setTask k
        (.closing h x.owner)) := by
  have htemp : x.temporary = false := handle_of_finishes hi.links ht rfl hx
  split
  · rename_i hfin
    have hset : Inv W P (s.setHandle h { x with active := false }) :=
      hi.setHandle hx _ rfl rfl rfl rfl (by simp)
    constructor
    · apply hset.books.moved
      · rfl
      · rfl
      · have hmoved := slots_setTask (s := s.setHandle h { x with active := false }) ht .done
        simpa [Task.slot] using hmoved
      · intro o
        have hmoved := owed_setTask (o := o) (s := s.setHandle h { x with active := false }) ht .done
        simpa [taskRef] using hmoved
    · apply hset.links.setTask ht
      · intro g hr
        cases hr
      · intro g hr
        obtain rfl := Option.some.inj hr
        exact .inr ⟨_, getElem?_replaced_self hx, hfin⟩
  · rename_i hfin
    let x' : Handle Owner := { x with finished := true, registered := false, active := false }
    have hlinks : Links (s.setHandle h x') := by
      apply hi.links.setHandle hx x' rfl
      · simp [x']
      · simp [x']
    show Inv W P ((s.setHandle h x').setTask k (.closing h x.owner))
    have hone : x.slot = 1 := by simpa [Handle.slot, htemp] using hfin
    have hzero : x'.slot = 0 := by simp [x', Handle.slot]
    constructor
    · apply hi.books.moved
      · rfl
      · rfl
      · have hhandle := slots_setHandle hx x'
        have htask := slots_setTask (s := s.setHandle h x') ht (.closing h x.owner)
        simp only [Task.slot] at htask
        omega
      · intro o
        have hhandle := owed_setHandle (o := o) hx x'
        have htask := owed_setTask (o := o) (s := s.setHandle h x') ht (.closing h x.owner)
        have hbefore : handleRef o x = if x.owner = o then 1 else 0 := by simp [handleRef, hone]
        have hafter : handleRef o x' = 0 := by simp [handleRef, hzero]
        simp only [taskRef] at htask
        omega
    · apply hlinks.setTask ht
      · intro g hr
        cases hr
      · intro g hr
        obtain rfl := Option.some.inj hr
        exact .inr ⟨x', getElem?_replaced_self hx, rfl⟩

theorem setTask_releaseOwnerSlot (s : Supervisor Owner) (o : Owner) (k : Nat) (t : Task Owner) :
    (s.releaseOwnerSlot o).setTask k t = (s.setTask k t).releaseOwnerSlot o := by
  by_cases hlast : (s.ownerSlotRefs.lookup o).getD 0 ≤ 1
  · simp only [Supervisor.releaseOwnerSlot, Supervisor.setTask, if_pos hlast]
    exact (if_pos hlast).symm
  · simp only [Supervisor.releaseOwnerSlot, Supervisor.setTask, if_neg hlast]
    exact (if_neg hlast).symm

theorem Links.releaseOwnerSlot (hl : Links s) (o : Owner) : Links (s.releaseOwnerSlot o) := by
  unfold Supervisor.releaseOwnerSlot
  dsimp only
  split
  · exact hl.congr rfl (fun _ => Iff.rfl)
  · exact hl.congr rfl (fun _ => Iff.rfl)

theorem Inv.giveBack (hi : Inv W P s) (ht : s.tasks[k]? = some t)
    (href : ∀ o', taskRef o' t = if o' = o then 1 else 0) (hnone : t.finishes = none) {free : Nat}
    (hfree : free = s.processSlots + t.slot) :
    Inv W P (({ s with processSlots := free } : Supervisor Owner).releaseOwnerSlot o |>.setTask k
      .done) := by
  have hlinks : Links (s.setTask k .done) := by
    apply hi.links.setTask ht
    · intro g hr
      cases hr
    · intro g hr
      rw [hnone] at hr
      cases hr
  rw [setTask_releaseOwnerSlot]
  constructor
  · apply hi.books.releaseOwnerSlot
    · rfl
    · rfl
    · have hmoved : (s.setTask k .done).slots + t.slot = s.slots + 0 := slots_setTask ht .done
      apply slots_setFree (s := s.setTask k .done)
      show (s.setTask k .done).slots + free = s.slots + s.processSlots
      omega
    · intro o'
      have hmoved : (s.setTask k .done).owed o' + taskRef o' t = s.owed o' + 0 :=
        owed_setTask ht .done
      have hone := href o'
      show (s.setTask k .done).owed o' + _ = s.owed o'
      omega
  · apply Links.releaseOwnerSlot
    exact hlinks.congr rfl (fun _ => Iff.rfl)

theorem Inv.task (hi : Inv W P s) (ht : s.tasks[k]? = some t) (hs : s.stepTask k t = some s') :
    Inv W P s' := by
  cases t with
  | cancelling h finish =>
    obtain ⟨x, hx, hs⟩ := Option.bind_eq_some_iff.mp hs
    split at hs
    · cases hs
    · split at hs
      · obtain rfl := Option.some.inj hs
        exact hi.toAfterCancel ht rfl (fun _ => rfl) rfl
      · obtain rfl := Option.some.inj hs
        have hset : Inv W P (s.setHandle h { x with cancelRequested := true, teardown := true }) :=
          hi.setHandle hx _ rfl rfl rfl rfl id
        apply hset.setTask ht
        · rfl
        · exact fun _ => rfl
        · cases finish <;> rfl
  | terminating h finish =>
    obtain ⟨x, hx, rfl⟩ := Option.map_eq_some_iff.mp hs
    have hset : Inv W P (s.setHandle h { x with killed := true, teardown := false }) :=
      hi.setHandle hx _ rfl rfl rfl rfl id
    apply hset.toAfterCancel ht rfl (fun _ => rfl)
    cases finish <;> rfl
  | finishing h =>
    obtain ⟨x, hx, rfl⟩ := Option.map_eq_some_iff.mp hs
    exact hi.finish ht hx
  | closing h o =>
    obtain ⟨x, hx, hs⟩ := Option.bind_eq_some_iff.mp hs
    split at hs
    · cases hs
    · obtain rfl := Option.some.inj hs
      exact hi.giveBack ht (fun o' => by simp [taskRef, eq_comm]) rfl rfl
  | closeTree h =>
    obtain ⟨x, hx, hs⟩ := Option.bind_eq_some_iff.mp hs
    split at hs
    · cases hs
    · obtain rfl := Option.some.inj hs
      exact hi.setTask ht .done rfl (fun _ => rfl) rfl
  | releaseOwner o =>
    obtain rfl := Option.some.inj hs
    exact hi.giveBack ht (fun o' => by simp [taskRef, eq_comm]) rfl rfl
  | done | failed => cases hs

/-- A task that fails will not finish its handle; a call or another task will. -/
theorem Inv.failTask (hi : Inv W P s) (ht : s.tasks[k]? = some t) (hG : s.Undisturbed (.taskFails k))
    (hs : s.failTask k t = some s') : Inv W P s' := by
  obtain ⟨h, finish, x, rfl, hx, rfl⟩ := failTask_cases hs
  let x' : Handle Owner := { x with killed := true, teardown := false }
  have hset : Inv W P (s.setHandle h x') := hi.setHandle hx _ rfl rfl rfl rfl id
  constructor
  · apply hset.books.moved
    · rfl
    · rfl
    · exact slots_setTask (s := s.setHandle h x') ht .failed
    · intro o
      exact owed_setTask (o := o) (s := s.setHandle h x') ht .failed
  · apply hset.links.setTask ht
    · intro g hr
      cases hr
    · intro g hr
      rcases hG _ ht g hr with (⟨y, hy, hfin⟩ | htask) | hcall
      · right
        simp only [Option.mem_def, Supervisor.setHandle, getElem?_replaced hx]
        by_cases hg : g = h
        · subst hg
          obtain rfl := Option.some.inj (hx.symm.trans hy)
          exact ⟨x', if_pos rfl, hfin⟩
        · exact ⟨y, (if_neg hg).trans hy, hfin⟩
      · exact .inl (.inr htask)
      · exact .inl (.inl hcall)

theorem snapshot_spec {owner : Owner} {handles : List (Handle Owner)} {n g : Nat}
    (hg : g ∈ snapshot owner n handles) :
    ∃ j x, g = n + j ∧ handles[j]? = some x ∧ x.registered = true ∧ x.owner = owner := by
  induction handles generalizing n with
  | nil => simp [snapshot] at hg
  | cons first rest ih =>
    have hlater : g ∈ snapshot owner (n + 1) rest →
        ∃ j x, g = n + j ∧ (first :: rest)[j]? = some x ∧ x.registered = true ∧
          x.owner = owner := by
      intro hin
      obtain ⟨j, x, rfl, hx, hrest⟩ := ih hin
      exact ⟨j + 1, x, by omega, by simpa using hx, hrest⟩
    unfold snapshot at hg
    split at hg
    · rename_i hfirst
      rcases List.mem_cons.mp hg with rfl | hin
      · exact ⟨0, first, rfl, rfl, hfirst⟩
      · exact hlater hin
    · exact hlater hg

theorem Inv.cancelOwner (hi : Inv W P s) (owner : Owner) : Inv W P (s.cancelOwner owner) := by
  have hzero : ∀ (w : Task Owner → Nat), (∀ h, w (.cancelling h true) = 0) →
      tally w ((snapshot owner 0 s.handles).map fun h => Task.cancelling h true) = 0 := by
    intro w hw
    rw [tally_eq_zero]
    intro t ht
    obtain ⟨h, -, rfl⟩ := List.mem_map.mp ht
    exact hw h
  constructor
  · apply hi.books.moved
    · rfl
    · rfl
    · simp only [slots, Supervisor.cancelOwner, tally_append, hzero Task.slot (fun _ => rfl)]
      omega
    · intro o
      simp only [owed, Supervisor.cancelOwner, tally_append, hzero (taskRef o) (fun _ => rfl)]
      omega
  · constructor
    case referred =>
      intro h hr
      rcases hr with hcall | ⟨t, ht, htf⟩
      · exact hi.links.referred h (.inl hcall)
      · rcases List.mem_append.mp ht with hold | hnew
        · exact hi.links.referred h (.inr ⟨t, hold, htf⟩)
        · obtain ⟨g, hg, rfl⟩ := List.mem_map.mp hnew
          obtain ⟨j, x, hgj, hx, hreg, -⟩ := snapshot_spec hg
          obtain rfl := Option.some.inj htf
          obtain rfl : g = j := by omega
          exact ⟨x, hx, (hi.links.recorded g x hx (.inl hreg)).1⟩
    case attended =>
      intro h x hx htemp hfin
      rcases hi.links.attended h x hx htemp hfin with hcall | ⟨t, ht, htf⟩
      · exact .inl hcall
      · exact .inr ⟨t, List.mem_append_left _ ht, htf⟩
    case recorded => exact hi.links.recorded

theorem Inv.join (hi : Inv W P s) (hphase : c.phase = .created) :
    Inv W P { s with calls := s.calls ++ [c] } := by
  constructor
  · apply hi.books.moved
    · rfl
    · rfl
    · simp [slots, tally_joined, hphase, Phase.slot]
    · intro o
      simp [owed, tally_joined, callRef, hphase, Phase.ref]
  · apply hi.links.rereferred
    · rfl
    · intro h hr
      rcases hr with ⟨d, hd, hdh⟩ | htask
      · rcases List.mem_append.mp hd with hold | hnew
        · exact .inl ⟨d, hold, hdh⟩
        · obtain rfl := List.mem_singleton.mp hnew
          rw [hphase] at hdh
          cases hdh
      · exact .inr htask
    · intro h hr
      rcases hr with ⟨d, hd, hdh⟩ | htask
      · exact .inl (.inl ⟨d, List.mem_append_left _ hd, hdh⟩)
      · exact .inl (.inr htask)

theorem inv_step {a : Action Owner} (hi : Inv W P s) (hG : s.Undisturbed a)
    (hs : s.step a = some s') : Inv W P s' := by
  cases a with
  | run owner =>
    obtain rfl := Option.some.inj hs
    exact hi.join rfl
  | «open» owner stderrPipe =>
    obtain rfl := Option.some.inj hs
    exact hi.join rfl
  | start i =>
    obtain ⟨c, hc, hs⟩ := Option.bind_eq_some_iff.mp hs
    split at hs
    · rename_i hphase
      obtain rfl := Option.some.inj hs
      exact hi.start hc hphase
    · cases hs
  | workload i =>
    obtain ⟨c, hc, hs⟩ := Option.bind_eq_some_iff.mp hs
    split at hs
    · rename_i hphase
      obtain ⟨hfree, hs⟩ := Option.ite_none_right_eq_some.mp hs
      obtain rfl := Option.some.inj hs
      exact hi.workload hc hphase hfree
    · cases hs
  | process i =>
    obtain ⟨c, hc, hs⟩ := Option.bind_eq_some_iff.mp hs
    split at hs
    · rename_i hphase
      obtain ⟨hfree, hs⟩ := Option.ite_none_right_eq_some.mp hs
      obtain rfl := Option.some.inj hs
      exact hi.process hc hphase hfree
    · cases hs
  | exec i result =>
    obtain ⟨c, hc, hs⟩ := Option.bind_eq_some_iff.mp hs
    split at hs
    · rename_i hphase
      obtain rfl := Option.some.inj hs
      exact hi.exec hc hphase result
    · cases hs
  | exit h =>
    obtain ⟨x, hx, rfl⟩ := Option.map_eq_some_iff.mp hs
    exact hi.setHandle hx _ rfl rfl rfl rfl id
  | leaveBody i raised =>
    obtain ⟨c, hc, hs⟩ := Option.bind_eq_some_iff.mp hs
    split at hs
    · rename_i h hphase
      obtain ⟨x, hx, hs⟩ := Option.bind_eq_some_iff.mp hs
      exact hi.leaveBody hc hphase hs
    · cases hs
  | stderrDone i =>
    obtain ⟨c, hc, hs⟩ := Option.bind_eq_some_iff.mp hs
    split at hs
    · rename_i h hphase
      obtain rfl := Option.some.inj hs
      exact hi.toFinish hc (by rw [hphase]; rfl) (by rw [hphase]; rfl) (by rw [hphase]; rfl)
    · cases hs
  | stderrFails i =>
    obtain ⟨c, hc, hs⟩ := Option.bind_eq_some_iff.mp hs
    have hquiet := hG c hc
    split at hs
    · rename_i h hphase
      obtain rfl := Option.some.inj hs
      rw [hphase] at hquiet
      exact hi.leaveCovered hc (by rw [hphase]; rfl) (by rw [hphase]; rfl) (by rw [hphase]; rfl)
        hquiet
    · cases hs
  | resume i =>
    obtain ⟨c, hc, hs⟩ := Option.bind_eq_some_iff.mp hs
    exact hi.resume hc hG hs
  | cancel i =>
    obtain ⟨c, hc, rfl⟩ := Option.map_eq_some_iff.mp hs
    exact hi.cancel hc hG
  | cancelOwner owner =>
    obtain rfl := Option.some.inj hs
    exact hi.cancelOwner owner
  | task k =>
    obtain ⟨t, ht, hs⟩ := Option.bind_eq_some_iff.mp hs
    exact hi.task ht hs
  | taskFails k =>
    obtain ⟨t, ht, hs⟩ := Option.bind_eq_some_iff.mp hs
    exact hi.failTask ht hG hs

end Steps

/-- Along every run in which nothing disturbs the cleanup that stands before a `_finish`: once
every call has returned and every spawned task is over, both semaphores are full again and no
owner, no registered handle and no active process is left. -/
theorem slots_conserved {W P : Nat} {as : List (Action Owner)} {s : Supervisor Owner}
    (hr : (machine Owner).run (initial W P) as = some s)
    (hG : (machine Owner).Admits Undisturbed (initial W P) as)
    (hcalls : ∀ c ∈ s.calls, c.phase = .ended) (htasks : ∀ t ∈ s.tasks, t.isOver = true) :
    s.workloadSlots = W ∧ s.processSlots = P ∧ s.ownerSlotRefs.keys = [] ∧
      ∀ x ∈ s.handles, x.registered = false ∧ x.active = false := by
  have hinv : Inv W P s := (machine Owner).invariant_of_admits (fun _ _ _ => inv_step)
    ⟨books_initial W P, links_initial W P⟩ hG hr
  have hnobody : ∀ h, ¬ s.Refers h := by
    intro h hrefers
    rcases hrefers with ⟨c, hc, hholds⟩ | ⟨t, ht, hfinishes⟩
    · rw [hcalls c hc] at hholds
      cases hholds
    · rw [Task.finishes_of_isOver (htasks t ht)] at hfinishes
      cases hfinishes
  have hfinished : ∀ x ∈ s.handles, x.temporary = true ∨ x.finished = true := by
    intro x hx
    obtain ⟨h, hx⟩ := List.mem_iff_getElem?.mp hx
    by_contra hnot
    rw [not_or, Bool.not_eq_true, Bool.not_eq_true] at hnot
    exact hnobody h (hinv.links.attended h x hx hnot.1 hnot.2)
  have hslot : ∀ x ∈ s.handles, x.slot = 0 := fun x hx => if_pos (hfinished x hx)
  have howed : ∀ o, s.owed o = 0 := by
    intro o
    have hcall : tally (callRef o) s.calls = 0 := by
      rw [tally_eq_zero]
      intro c hc
      simp [callRef, hcalls c hc, Phase.ref]
    have hhandle : tally (handleRef o) s.handles = 0 := by
      rw [tally_eq_zero]
      intro x hx
      simp [handleRef, hslot x hx]
    have htask : tally (taskRef o) s.tasks = 0 := by
      rw [tally_eq_zero]
      intro t ht
      exact taskRef_of_isOver o (htasks t ht)
    simp [owed, hcall, hhandle, htask]
  have hkeys : s.ownerSlotRefs.keys = [] := by
    rw [List.eq_nil_iff_forall_not_mem]
    intro o ho
    have hsome := AList.lookup_isSome.mpr (AList.mem_keys.mpr ho)
    obtain ⟨n, hn⟩ := Option.isSome_iff_exists.mp hsome
    have hcount := hinv.books.owed o
    rw [hn, Option.getD_some, howed] at hcount
    exact hinv.books.positive o (hcount ▸ hn)
  refine ⟨?_, ?_, hkeys, ?_⟩
  · have hworkloads := hinv.books.workloads
    rw [hkeys, List.length_nil] at hworkloads
    omega
  · have hcall : tally (fun c => c.phase.slot) s.calls = 0 := by
      rw [tally_eq_zero]
      intro c hc
      rw [hcalls c hc]
      rfl
    have hhandle : tally Handle.slot s.handles = 0 := tally_eq_zero.mpr hslot
    have htask : tally Task.slot s.tasks = 0 := by
      rw [tally_eq_zero]
      intro t ht
      exact Task.slot_of_isOver (htasks t ht)
    have hslots := hinv.books.slots
    simp only [slots] at hslots
    omega
  · intro x hx
    obtain ⟨h, hxh⟩ := List.mem_iff_getElem?.mp hx
    by_contra hnot
    have hrec : x.registered = true ∨ x.active = true := by
      cases hreg : x.registered <;> cases hact : x.active <;> simp_all
    obtain ⟨htemp, hfin⟩ := hinv.links.recorded h x hxh hrec
    rcases hfinished x hx with htrue | htrue
    · rw [htemp] at htrue
      cases htrue
    · rw [hfin] at htrue
      cases htrue

/-- A nested pair of an `open` and a `run` call of one owner; the owner is cancelled, both end. -/
theorem slots_conserved_owner :
    ∃ s, (machine Nat).run (initial 1 2) [.open 7 true, .start 0, .workload 0, .process 0,
        .exec 0 .started, .run 7, .start 1, .process 1, .exec 1 .started, .cancelOwner 7, .task 0,
        .task 0, .task 0, .task 0, .task 1, .task 1, .task 1, .task 1, .exit 0, .exit 1,
        .leaveBody 0 false, .stderrDone 0, .task 2, .resume 0, .leaveBody 1 false, .task 3,
        .resume 1] = some s ∧
      s.workloadSlots = 1 ∧ s.processSlots = 2 ∧ s.ownerSlotRefs.keys = [] ∧
      ∀ x ∈ s.handles, x.registered = false ∧ x.active = false := by
  refine ⟨_, rfl, ?_⟩
  refine @slots_conserved Nat _ 1 2 [.open 7 true, .start 0, .workload 0, .process 0,
    .exec 0 .started, .run 7, .start 1, .process 1, .exec 1 .started, .cancelOwner 7, .task 0,
    .task 0, .task 0, .task 0, .task 1, .task 1, .task 1, .task 1, .exit 0, .exit 1,
    .leaveBody 0 false, .stderrDone 0, .task 2, .resume 0, .leaveBody 1 false, .task 3,
    .resume 1] _ rfl ?_ ?_ ?_
  · decide
  · decide
  · decide

/-- One slot of each kind; the body of an `open` block ends while the process runs, and the task
is cancelled while it awaits `handle.cancel()`. -/
theorem slots_lost :
    ∃ s, (machine Nat).run (initial 1 1) [.open 7 true, .start 0, .workload 0, .process 0,
        .exec 0 .started, .leaveBody 0 false, .cancel 0, .task 0, .task 0, .exit 0] = some s ∧
      (∀ c ∈ s.calls, c.phase = .ended) ∧ (∀ t ∈ s.tasks, t.isOver = true) ∧
      s.workloadSlots = 0 ∧ s.processSlots = 0 ∧ s.ownerSlotRefs.lookup 7 = some 1 ∧
      ∃ x ∈ s.handles, x.registered = true ∧ x.active = true := by
  refine ⟨_, rfl, ?_, ?_, rfl, rfl, rfl, ?_⟩
  · decide
  · decide
  · decide

end Supervisor

end YtdlBot.Process
