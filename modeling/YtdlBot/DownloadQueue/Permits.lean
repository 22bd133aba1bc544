import YtdlBot.DownloadQueue.Queue

/-!
# Conservation of the queue permits

A permit is free, belongs to an acquired lease that is not released, or is granted to a call
that has not dealt with its waiter yet. A waiter in the list is always one whose call, or whose
withdrawal, is still there; the only step that breaks this is a cancellation of a call whose
withdrawal after a timeout waits for the queue lock. A second cancellation, which reaches a call
in its shielded withdrawal, breaks less: the withdrawal stays and forwards what it is granted,
but the acquirer has left.
-/

namespace YtdlBot.DownloadQueue

open Framework

/-- An acquired lease holds its permit until its release task has run. -/
def heldPermit (x : Lease) : Nat := if x.acquired = true ∧ x.release ≠ .done then 1 else 0

/-- A grant that the call, or the withdrawal it left behind, has not dealt with yet. -/
def grantedPermit (c : Call) : Nat := if c.state = .granted ∧ c.phase.queued = true then 1 else 0

/-- A grant on its way to an acquirer that still awaits `_enter`. -/
def grantOnItsWay (c : Call) : Nat :=
  if c.state = .granted ∧ c.phase.queued = true ∧ c.phase.running = true then 1 else 0

/-- The call has not reached the end of the locked block of `_acquire`. -/
def Phase.arriving : Phase → Bool
  | .maintenance | .entering | .full => true
  | _ => false

namespace Queue

def permits (q : Queue) : Nat := q.free + tally heldPermit q.leases + tally grantedPermit q.calls

/-- The waiter of call `i` has been granted a permit. -/
def Granted (q : Queue) (i : Nat) : Prop := ∃ c, q.calls[i]? = some c ∧ c.state = .granted

/-- Some task awaits `_enter` of lease `l`. -/
def Entered (q : Queue) (l : Nat) : Prop := ∃ c ∈ q.calls, c.phase.running = true ∧ c.lease = l

/-- No cancellation arrives while a call waits for the lock in its withdrawal after a timeout,
and a lease is not entered while another task enters it. -/
def Sheltered (q : Queue) : Action → Prop
  | .cancel i => ∀ c ∈ q.calls[i]?, c.phase ≠ .timedOut
  | .enter l _ => ¬ q.Entered l
  | _ => True

/-- A call that waits for its withdrawal is not cancelled again. -/
def Unrepeated (q : Queue) : Action → Prop
  | .cancel i => ∀ c ∈ q.calls[i]?, c.phase ≠ .cancelled
  | _ => True

instance (q : Queue) (l : Nat) : Decidable (q.Entered l) :=
  inferInstanceAs (Decidable (∃ c ∈ q.calls, c.phase.running = true ∧ c.lease = l))

/-- No cancellation arrives while a call waits for the lock in a withdrawal, after a timeout or
after a first cancellation, and a lease is not entered while another task enters it. -/
def Undisturbed (q : Queue) (a : Action) : Prop := q.Sheltered a ∧ q.Unrepeated a

instance (q : Queue) : (a : Action) → Decidable (q.Sheltered a)
  | .cancel i => inferInstanceAs (Decidable (∀ c ∈ q.calls[i]?, c.phase ≠ .timedOut))
  | .enter l _ => inferInstanceAs (Decidable (¬ q.Entered l))
  | .acquire | .locked _ | .uiDone _ | .wake _ | .timeout _ | .withdraw _ | .release _
  | .releaseSlot _ => isTrue trivial

instance (q : Queue) : (a : Action) → Decidable (q.Unrepeated a)
  | .cancel i => inferInstanceAs (Decidable (∀ c ∈ q.calls[i]?, c.phase ≠ .cancelled))
  | .acquire | .enter _ _ | .locked _ | .uiDone _ | .wake _ | .timeout _ | .withdraw _
  | .release _ | .releaseSlot _ => isTrue trivial

instance (q : Queue) (a : Action) : Decidable (q.Undisturbed a) :=
  inferInstanceAs (Decidable (q.Sheltered a ∧ q.Unrepeated a))

structure Inv (n : Nat) (q : Queue) : Prop where
  counted : q.permits = n
  listed : ∀ i ∈ q.waiters, ∃ c, q.calls[i]? = some c ∧ c.state = .waiting ∧ c.phase.queued = true
  nodup : q.waiters.Nodup
  fresh : ∀ (i : Nat) c, q.calls[i]? = some c → c.phase.arriving = true → c.state = .waiting
  entering : ∀ (i : Nat) c, q.calls[i]? = some c → c.phase.running = true →
    ∃ x, q.leases[c.lease]? = some x ∧ x.acquired = false
  unreleased : ∀ (l : Nat) x, q.leases[l]? = some x → x.acquired = false → x.release = .none
  exclusive : ∀ (i j : Nat) c d, q.calls[i]? = some c → q.calls[j]? = some d →
    c.phase.running = true → d.phase.running = true → c.lease = d.lease → i = j

section Moves

variable {n m : Nat} {q : Queue} {i l : Nat} {c : Call} {x : Lease}

theorem inv_initial (n maxQueue : Nat) : Inv n (initial n maxQueue) := by
  constructor <;> intros <;> simp_all [initial, permits]

theorem Inv.delist (h : Inv n q) (waiters : List Nat) (positions : Nat → Nat)
    (hsub : waiters.Sublist q.waiters) :
    Inv n { q with waiters := waiters, positions := positions } where
  counted := h.counted
  listed i hi := h.listed i (hsub.subset hi)
  nodup := h.nodup.sublist hsub
  fresh := h.fresh
  entering := h.entering
  unreleased := h.unreleased
  exclusive := h.exclusive

theorem Inv.setLock (h : Inv n q) (lock : Option Nat) : Inv n { q with lock := lock } where
  counted := h.counted
  listed := h.listed
  nodup := h.nodup
  fresh := h.fresh
  entering := h.entering
  unreleased := h.unreleased
  exclusive := h.exclusive

theorem Inv.setFree (h : Inv n q) {free : Nat} (hfree : n + free = m + q.free) :
    Inv m { q with free := free } where
  counted := by
    have hcount := h.counted
    simp only [permits] at hcount ⊢
    omega
  listed := h.listed
  nodup := h.nodup
  fresh := h.fresh
  entering := h.entering
  unreleased := h.unreleased
  exclusive := h.exclusive

theorem Inv.setCall (h : Inv n q) (hc : q.calls[i]? = some c) (c' : Call)
    (hlease : c'.lease = c.lease)
    (hrunning : c'.phase.running = true → c.phase.running = true)
    (hlisted : i ∈ q.waiters → c'.state = .waiting ∧ c'.phase.queued = true)
    (hfresh : c'.phase.arriving = true → c'.state = .waiting)
    (hcount : n + grantedPermit c' = m + grantedPermit c) : Inv m (q.setCall i c') := by
  constructor
  case counted =>
    have hbefore := h.counted
    have hmoved := tally_replaced (w := grantedPermit) (b := c') hc
    simp only [permits, Queue.setCall] at hbefore ⊢
    omega
  case listed =>
    intro j hj
    by_cases hji : j = i
    · subst hji
      exact ⟨c', getElem?_replaced_self hc, hlisted hj⟩
    · obtain ⟨d, hd, hwaiting⟩ := h.listed j hj
      exact ⟨d, (getElem?_replaced hc).trans ((if_neg hji).trans hd), hwaiting⟩
  case nodup => exact h.nodup
  case fresh =>
    intro j d hd harriving
    rcases replaced_cases hc hd with ⟨-, rfl⟩ | ⟨-, hd⟩
    · exact hfresh harriving
    · exact h.fresh j d hd harriving
  case entering =>
    intro j d hd hrun
    rcases replaced_cases hc hd with ⟨-, rfl⟩ | ⟨-, hd⟩
    · rw [hlease]
      exact h.entering i c hc (hrunning hrun)
    · exact h.entering j d hd hrun
  case unreleased => exact h.unreleased
  case exclusive =>
    intro j k d e hd he hdrun herun hsame
    rcases replaced_cases hc hd with ⟨hj, rfl⟩ | ⟨-, hdold⟩
    · rcases replaced_cases hc he with ⟨hk, -⟩ | ⟨-, heold⟩
      · rw [hj, hk]
      · exact hj.trans (h.exclusive i k c e hc heold (hrunning hdrun) herun (hlease ▸ hsame))
    · rcases replaced_cases hc he with ⟨hk, rfl⟩ | ⟨-, heold⟩
      · exact (h.exclusive j i d c hdold hc hdrun (hrunning herun) (hlease ▸ hsame)).trans hk.symm
      · exact h.exclusive j k d e hdold heold hdrun herun hsame

theorem Inv.unacquired (h : Inv n q) (hx : q.leases[l]? = some x) (hentered : q.Entered l) :
    x.acquired = false := by
  obtain ⟨c, hc, hrun, hsame⟩ := hentered
  obtain ⟨i, hc⟩ := List.mem_iff_getElem?.mp hc
  obtain ⟨y, hy, hfree⟩ := h.entering i c hc hrun
  rw [hsame] at hy
  obtain rfl := Option.some.inj (hx.symm.trans hy)
  exact hfree

theorem Inv.not_listed (h : Inv n q) (hc : q.calls[i]? = some c) (hstate : c.state ≠ .waiting) :
    i ∉ q.waiters := by
  intro hi
  obtain ⟨d, hd, hwaiting, -⟩ := h.listed i hi
  obtain rfl := Option.some.inj (hc.symm.trans hd)
  exact hstate hwaiting

theorem Inv.setLease (h : Inv n q) (hx : q.leases[l]? = some x) (x' : Lease)
    (hentering : q.Entered l → x'.acquired = false)
    (hrelease : x'.acquired = false → x'.release = .none)
    (hcount : n + heldPermit x' = m + heldPermit x) :
    Inv m { q with leases := q.leases.set l x' } := by
  constructor
  case counted =>
    have hbefore := h.counted
    have hmoved := tally_replaced (w := heldPermit) (b := x') hx
    simp only [permits] at hbefore ⊢
    omega
  case listed => exact h.listed
  case nodup => exact h.nodup
  case fresh => exact h.fresh
  case entering =>
    intro j d hd hrun
    obtain ⟨y, hy, hfree⟩ := h.entering j d hd hrun
    simp only [getElem?_replaced hx]
    by_cases hl : d.lease = l
    · exact ⟨x', if_pos hl, hentering ⟨d, List.mem_of_getElem? hd, hrun, hl⟩⟩
    · exact ⟨y, (if_neg hl).trans hy, hfree⟩
  case unreleased =>
    intro k y hy hfree
    rcases replaced_cases hx hy with ⟨-, rfl⟩ | ⟨-, hy⟩
    · exact hrelease hfree
    · exact h.unreleased k y hy hfree
  case exclusive => exact h.exclusive

/-- The waiter at the head of the list gets the permit, or the semaphore does. -/
theorem handoff_eq
    (h : ∀ i ∈ q.waiters, ∃ c, q.calls[i]? = some c ∧ c.state = .waiting) :
    handoff q.waiters q =
      match q.waiters with
      | [] => { q with waiters := [], free := q.free + 1 }
      | i :: rest =>
        match q.calls[i]? with
        | none => q
        | some c =>
          { q.setCall i { c with state := .granted } with
            waiters := rest
            positions := reposition rest 1 q.positions } := by
  cases hw : q.waiters with
  | nil => rfl
  | cons i rest =>
    obtain ⟨c, hc, hwaiting⟩ := h i (by simp [hw])
    simp [handoff, hc, hwaiting]

theorem Inv.handoff (h : Inv n q) : Inv (n + 1) (handoff q.waiters q) := by
  rw [handoff_eq fun i hi => (h.listed i hi).imp fun c hc => ⟨hc.1, hc.2.1⟩]
  cases hw : q.waiters with
  | nil =>
    have hempty := h.delist [] q.positions (List.nil_sublist _)
    apply hempty.setFree
    show n + (q.free + 1) = n + 1 + q.free
    omega
  | cons i rest =>
    obtain ⟨c, hc, hwaiting, hqueued⟩ := h.listed i (by simp [hw])
    simp only [hc]
    have hrest : rest.Sublist q.waiters := by
      rw [hw]
      exact List.sublist_cons_self i rest
    have hnodup := h.nodup
    rw [hw, List.nodup_cons] at hnodup
    have hnot : i ∉ rest := hnodup.1
    have hdelisted := h.delist rest (reposition rest 1 q.positions) hrest
    apply hdelisted.setCall (c := c) hc { c with state := .granted } rfl (fun hrun => hrun)
      (fun hi => absurd hi hnot)
    · intro harriving
      have hphase : c.phase.arriving = false := by
        cases hp : c.phase <;> simp_all [Phase.queued, Phase.arriving]
      simp [hphase] at harriving
    · simp [grantedPermit, hwaiting, hqueued]

theorem Inv.withdraw (h : Inv n q) (hc : q.calls[i]? = some c) (hqueued : c.phase.queued = true)
    {phase : Phase} (hrunning : phase.running = true → c.phase.running = true)
    (harriving : phase.arriving = false) : Inv n (q.withdraw i c phase) := by
  unfold Queue.withdraw
  cases hstate : c.state with
  | waiting =>
    have hdelisted := h.delist _ (reposition (q.waiters.erase i) 1 q.positions)
      (List.erase_sublist (a := i) (l := q.waiters))
    apply hdelisted.setCall (c := c) hc { c with phase := phase, state := .cancelled } rfl hrunning
    · intro hi
      exact absurd hi (List.Nodup.not_mem_erase h.nodup)
    · simp [harriving]
    · simp [grantedPermit, hstate]
  | granted =>
    have hpos : n = (n - 1) + 1 := by
      have hle := le_tally (w := grantedPermit) hc
      have hone : grantedPermit c = 1 := by simp [grantedPermit, hstate, hqueued]
      have hcount := h.counted
      simp only [permits] at hcount
      omega
    have hset : Inv (n - 1) (q.setCall i { c with phase := phase, state := .cancelled }) := by
      apply h.setCall hc { c with phase := phase, state := .cancelled } rfl hrunning
      · exact fun hi => absurd hi (h.not_listed hc (by simp [hstate]))
      · simp [harriving]
      · simp only [grantedPermit, hstate, hqueued]
        simp
        omega
    have hback := hset.handoff
    rw [← hpos] at hback
    exact hback
  | cancelled =>
    apply h.setCall hc { c with phase := phase, state := .cancelled } rfl hrunning
    · exact fun hi => absurd hi (h.not_listed hc (by simp [hstate]))
    · simp [harriving]
    · simp [grantedPermit, hstate]

theorem Inv.hold (h : Inv n q) (hc : q.calls[i]? = some c) (hx : q.leases[c.lease]? = some x)
    (hrunning : c.phase.running = true) (hlisted : i ∉ q.waiters)
    (hcount : n + 1 = m + grantedPermit c) : Inv m (q.hold i c x) := by
  obtain ⟨y, hy, hfree⟩ := h.entering i c hc hrunning
  obtain rfl := Option.some.inj (hx.symm.trans hy)
  have hended : grantedPermit { c with phase := .ended } = 0 := by simp [grantedPermit, Phase.queued]
  have hle : grantedPermit c ≤ n := by
    have hle := le_tally (w := grantedPermit) hc
    have hn := h.counted
    simp only [permits] at hn
    omega
  have hset : Inv (n - grantedPermit c) (q.setCall i { c with phase := .ended }) := by
    apply h.setCall hc { c with phase := .ended } rfl
    · simp [Phase.running]
    · exact fun hi => absurd hi hlisted
    · simp [Phase.arriving]
    · omega
  apply hset.setLease (l := c.lease) hx { x with acquired := true }
  · intro hentered
    obtain ⟨d, hd, hrun, hsame⟩ := hentered
    obtain ⟨j, hd⟩ := List.mem_iff_getElem?.mp hd
    rcases replaced_cases hc hd with ⟨-, rfl⟩ | ⟨hji, hd⟩
    · simp [Phase.running] at hrun
    · exact absurd (h.exclusive j i d c hd hc hrun hrunning hsame) hji
  · simp
  · have hnone := h.unreleased c.lease x hx hfree
    simp only [heldPermit, hfree, hnone]
    simp
    omega

end Moves

section Steps

variable {n : Nat} {q q' : Queue}

theorem Inv.joins (h : Inv n q) {l : Nat} {x : Lease} (hx : q.leases[l]? = some x)
    (hfree : x.acquired = false) (hentered : ¬ q.Entered l) {phase : Phase} :
    Inv n { q with calls := q.calls ++ [⟨l, phase, .waiting⟩] } := by
  constructor
  case counted =>
    have hcount := h.counted
    simp only [permits, tally_joined, grantedPermit] at hcount ⊢
    simpa using hcount
  case listed =>
    intro j hj
    obtain ⟨d, hd, hwaiting⟩ := h.listed j hj
    exact ⟨d, getElem?_joined_of_some hd, hwaiting⟩
  case nodup => exact h.nodup
  case fresh =>
    intro j d hd harriving
    rcases joined_cases hd with ⟨-, rfl⟩ | ⟨-, hd⟩
    · rfl
    · exact h.fresh j d hd harriving
  case entering =>
    intro j d hd hrun
    rcases joined_cases hd with ⟨-, rfl⟩ | ⟨-, hd⟩
    · exact ⟨x, hx, hfree⟩
    · exact h.entering j d hd hrun
  case unreleased => exact h.unreleased
  case exclusive =>
    intro j k d e hd he hdrun herun hsame
    rcases joined_cases hd with ⟨hj, rfl⟩ | ⟨-, hd⟩
    · rcases joined_cases he with ⟨hk, -⟩ | ⟨-, he⟩
      · rw [hj, hk]
      · exact absurd ⟨e, List.mem_of_getElem? he, herun, hsame.symm⟩ hentered
    · rcases joined_cases he with ⟨-, rfl⟩ | ⟨-, he⟩
      · exact absurd ⟨d, List.mem_of_getElem? hd, hdrun, hsame⟩ hentered
      · exact h.exclusive j k d e hd he hdrun herun hsame

theorem Inv.locked (h : Inv n q) {i : Nat} {c : Call} {x : Lease} (hc : q.calls[i]? = some c)
    (hx : q.leases[c.lease]? = some x) (hphase : c.phase = .entering) :
    Inv n (q.lockedBlock i c x) := by
  have hstate : c.state = .waiting := h.fresh i c hc (by simp [hphase, Phase.arriving])
  have hnot : i ∉ q.waiters := by
    intro hi
    obtain ⟨d, hd, -, hqueued⟩ := h.listed i hi
    obtain rfl := Option.some.inj (hc.symm.trans hd)
    simp [hphase, Phase.queued] at hqueued
  have hnone : grantedPermit c = 0 := by simp [grantedPermit, hstate]
  unfold lockedBlock
  split
  · rename_i hfree
    have hheld : Inv (n + 1) (q.hold i c x) :=
      h.hold hc hx (by simp [hphase, Phase.running]) hnot (by omega)
    apply hheld.setFree
    show n + 1 + (q.free - 1) = n + q.free
    omega
  · split
    · refine (h.setCall hc { c with phase := .full } rfl ?_ ?_ ?_ ?_).setLock (some i)
      · simp [hphase, Phase.running]
      · exact fun hi => absurd hi hnot
      · exact fun _ => hstate
      · simp [grantedPermit, hstate]
    · have hset : Inv n (q.setCall i { c with phase := .positioning }) := by
        apply h.setCall hc { c with phase := .positioning } rfl
        · simp [hphase, Phase.running]
        · exact fun hi => absurd hi hnot
        · simp [Phase.arriving]
        · simp [grantedPermit, hstate]
      constructor
      case counted => exact hset.counted
      case listed =>
        intro j hj
        rcases List.mem_append.mp hj with hold | hnew
        · exact hset.listed j hold
        · obtain rfl := List.mem_singleton.mp hnew
          exact ⟨_, getElem?_replaced_self hc, hstate, rfl⟩
      case nodup =>
        rw [List.nodup_append]
        refine ⟨h.nodup, by simp, ?_⟩
        intro j hj k hk hjk
        exact hnot (List.mem_singleton.mp hk ▸ hjk ▸ hj)
      case fresh => exact hset.fresh
      case entering => exact hset.entering
      case unreleased => exact hset.unreleased
      case exclusive => exact hset.exclusive

theorem Inv.leave (h : Inv n q) {i : Nat} {c : Call} (hc : q.calls[i]? = some c) (phase : Phase)
    (hrunning : phase.running = true → c.phase.running = true)
    (hqueued : phase.queued = c.phase.queued)
    (harriving : phase.arriving = false) : Inv n (q.setCall i { c with phase := phase }) := by
  apply h.setCall hc { c with phase := phase } rfl hrunning
  · intro hi
    obtain ⟨d, hd, hwaiting, hstill⟩ := h.listed i hi
    obtain rfl := Option.some.inj (hc.symm.trans hd)
    exact ⟨hwaiting, hqueued.trans hstill⟩
  · simp [harriving]
  · simp [grantedPermit, hqueued]

theorem Inv.cancel (h : Inv n q) {i : Nat} {c : Call} (hc : q.calls[i]? = some c)
    (hphase : c.phase ≠ .timedOut) : Inv n (q.cancelCall i c) := by
  unfold cancelCall
  cases hp : c.phase with
  | timedOut => exact absurd hp hphase
  | full =>
    have hset := h.leave hc .ended (by simp [Phase.running]) (by rw [hp]; rfl) rfl
    exact hset.setLock none
  | maintenance => exact h.leave hc _ (by simp [Phase.running]) (by rw [hp]; rfl) rfl
  | entering => exact h.leave hc _ (by simp [Phase.running]) (by rw [hp]; rfl) rfl
  | timeoutUi => exact h.leave hc _ (by simp [Phase.running]) (by rw [hp]; rfl) rfl
  | positioning => exact h.leave hc _ (by simp [hp, Phase.running]) (by rw [hp]; rfl) rfl
  | waiting => exact h.leave hc _ (by simp [hp, Phase.running]) (by rw [hp]; rfl) rfl
  | cancelled => exact h.leave hc _ (by simp [Phase.running]) (by rw [hp]; rfl) rfl
  | abandoned => exact h
  | ended => exact h

theorem Inv.acquire (h : Inv n q) : Inv n { q with leases := q.leases ++ [⟨false, .none⟩] } := by
  constructor
  case counted =>
    have hcount := h.counted
    simp only [permits, tally_joined, heldPermit] at hcount ⊢
    simpa using hcount
  case listed => exact h.listed
  case nodup => exact h.nodup
  case fresh => exact h.fresh
  case entering =>
    intro i c hc hrun
    obtain ⟨x, hx, hfree⟩ := h.entering i c hc hrun
    exact ⟨x, getElem?_joined_of_some hx, hfree⟩
  case unreleased =>
    intro l x hx hfree
    rcases joined_cases hx with ⟨-, rfl⟩ | ⟨-, hx⟩
    · rfl
    · exact h.unreleased l x hx hfree
  case exclusive => exact h.exclusive

theorem Inv.releaseSlot (h : Inv n q) {l : Nat} {x : Lease} (hx : q.leases[l]? = some x)
    (hrelease : x.release = .pending) :
    Inv n (Queue.handoff q.waiters { q with leases := q.leases.set l { x with release := .done } }) := by
  have hacquired : x.acquired = true := by
    by_contra hne
    have hnone := h.unreleased l x hx (by simpa using hne)
    rw [hrelease] at hnone
    cases hnone
  have hpos : n = (n - 1) + 1 := by
    have hle := le_tally (w := heldPermit) hx
    have hone : heldPermit x = 1 := by simp [heldPermit, hacquired, hrelease]
    have hcount := h.counted
    simp only [permits] at hcount
    omega
  have hentered : q.Entered l → x.acquired = false := h.unacquired hx
  have hset : Inv (n - 1) { q with leases := q.leases.set l { x with release := .done } } := by
    apply h.setLease hx { x with release := .done }
    · exact hentered
    · simp [hacquired]
    · simp only [heldPermit, hacquired, hrelease]
      simp
      omega
  have hback := hset.handoff
  rw [← hpos] at hback
  exact hback

theorem inv_step {a : Action} (h : Inv n q) (hG : q.Sheltered a) (hs : q.step a = some q') :
    Inv n q' := by
  cases a with
  | acquire =>
    obtain rfl := Option.some.inj hs
    exact h.acquire
  | enter l diskCritical =>
    obtain ⟨x, hx, rfl⟩ := Option.map_eq_some_iff.mp hs
    split
    · exact h
    · rename_i hfree
      rw [not_or, Bool.not_eq_true] at hfree
      exact h.joins hx hfree.2 hG
  | locked i =>
    obtain ⟨c, hc, hs⟩ := Option.bind_eq_some_iff.mp hs
    obtain ⟨x, hx, hs⟩ := Option.bind_eq_some_iff.mp hs
    split at hs
    · rename_i hphase hlock
      obtain rfl := Option.some.inj hs
      exact h.locked hc hx hphase
    · cases hs
  | uiDone i =>
    obtain ⟨c, hc, hs⟩ := Option.bind_eq_some_iff.mp hs
    split at hs
    · rename_i hphase
      obtain rfl := Option.some.inj hs
      exact h.leave hc _ (by simp [Phase.running]) (by rw [hphase]; rfl) rfl
    · rename_i hphase
      obtain rfl := Option.some.inj hs
      exact h.leave hc _ (by simp [Phase.running]) (by rw [hphase]; rfl) rfl
    · rename_i hphase
      obtain rfl := Option.some.inj hs
      have hset := h.leave hc .ended (by simp [Phase.running]) (by rw [hphase]; rfl) rfl
      exact hset.setLock none
    · rename_i hphase
      obtain rfl := Option.some.inj hs
      exact h.leave hc _ (by simp [hphase, Phase.running]) (by rw [hphase]; rfl) rfl
    · cases hs
  | wake i =>
    obtain ⟨c, hc, hs⟩ := Option.bind_eq_some_iff.mp hs
    obtain ⟨x, hx, hs⟩ := Option.bind_eq_some_iff.mp hs
    split at hs
    · rename_i hphase hstate
      obtain rfl := Option.some.inj hs
      apply h.hold hc hx (by simp [hphase, Phase.running])
      · exact h.not_listed hc (by simp [hstate])
      · simp [grantedPermit, hphase, hstate, Phase.queued]
    · cases hs
  | timeout i =>
    obtain ⟨c, hc, hs⟩ := Option.bind_eq_some_iff.mp hs
    split at hs
    · rename_i hphase
      obtain rfl := Option.some.inj hs
      exact h.leave hc _ (by simp [hphase, Phase.running]) (by rw [hphase]; rfl) rfl
    · cases hs
  | withdraw i =>
    obtain ⟨c, hc, hs⟩ := Option.bind_eq_some_iff.mp hs
    split at hs
    · rename_i hphase hlock
      obtain rfl := Option.some.inj hs
      exact h.withdraw hc (by rw [hphase]; rfl) (by simp [hphase, Phase.running]) rfl
    · rename_i hphase hlock
      obtain rfl := Option.some.inj hs
      exact h.withdraw hc (by rw [hphase]; rfl) (by simp [Phase.running]) rfl
    · rename_i hphase hlock
      obtain rfl := Option.some.inj hs
      exact h.withdraw hc (by rw [hphase]; rfl) (by simp [Phase.running]) rfl
    · cases hs
  | cancel i =>
    obtain ⟨c, hc, rfl⟩ := Option.map_eq_some_iff.mp hs
    exact h.cancel hc (hG c hc)
  | release l =>
    obtain ⟨x, hx, rfl⟩ := Option.map_eq_some_iff.mp hs
    split
    · rename_i hheld
      have hentered : q.Entered l → x.acquired = false := h.unacquired hx
      apply h.setLease hx { x with release := .pending }
      · exact hentered
      · simp [hheld.1]
      · simp [heldPermit, hheld.1, hheld.2]
    · exact h
  | releaseSlot l =>
    obtain ⟨x, hx, hs⟩ := Option.bind_eq_some_iff.mp hs
    split at hs
    · rename_i hrelease hlock
      obtain rfl := Option.some.inj hs
      exact h.releaseSlot hx hrelease
    · cases hs

end Steps

section Grants

variable {q q' : Queue} {i j : Nat} {c : Call}

theorem granted_setCall (hc : q.calls[i]? = some c) (c' : Call)
    (hstate : c'.state = .granted → c.state = .granted) (hj : (q.setCall i c').Granted j) :
    q.Granted j := by
  obtain ⟨d, hd, hgranted⟩ := hj
  rcases replaced_cases hc hd with ⟨rfl, rfl⟩ | ⟨-, hd⟩
  · exact ⟨c, hc, hstate hgranted⟩
  · exact ⟨d, hd, hgranted⟩

theorem granted_moved (hc : q.calls[i]? = some c) (phase : Phase)
    (hj : (q.setCall i { c with phase := phase }).Granted j) : q.Granted j :=
  granted_setCall hc { c with phase := phase } (fun hgranted => hgranted) hj

theorem granted_handoff {waiters : List Nat} (hj : (handoff waiters q).Granted j) :
    q.Granted j ∨ j ∈ waiters := by
  induction waiters generalizing q with
  | nil => exact .inl hj
  | cons i rest ih =>
    unfold handoff at hj
    split at hj
    · exact (ih hj).imp_right (List.mem_cons_of_mem i)
    · rename_i c hc
      split at hj
      · rcases ih hj with hgranted | hrest
        · exact .inl (granted_setCall hc _ (by simp) hgranted)
        · exact .inr (List.mem_cons_of_mem i hrest)
      · by_cases hji : j = i
        · simp [hji]
        · obtain ⟨d, hd, hgranted⟩ := hj
          simp only [setCall, getElem?_replaced hc, if_neg hji] at hd
          exact .inl ⟨d, hd, hgranted⟩

theorem granted_withdraw (hc : q.calls[i]? = some c) {phase : Phase}
    (hj : (q.withdraw i c phase).Granted j) : q.Granted j ∨ j ∈ q.waiters := by
  unfold withdraw at hj
  cases hstate : c.state with
  | waiting =>
    rw [hstate] at hj
    exact .inl (granted_setCall hc { c with phase := phase, state := .cancelled } (by simp) hj)
  | granted =>
    rw [hstate] at hj
    rcases granted_handoff hj with hgranted | hlisted
    · exact .inl (granted_setCall hc _ (by simp) hgranted)
    · exact .inr hlisted
  | cancelled =>
    rw [hstate] at hj
    exact .inl (granted_setCall hc _ (by simp) hj)

/-- A step grants to waiters of the list only. -/
theorem granted_step {a : Action} (hs : q.step a = some q') (hj : q'.Granted j) :
    q.Granted j ∨ j ∈ q.waiters := by
  cases a with
  | acquire =>
    obtain rfl := Option.some.inj hs
    exact .inl hj
  | enter l diskCritical =>
    obtain ⟨x, hx, rfl⟩ := Option.map_eq_some_iff.mp hs
    split at hj
    · exact .inl hj
    · obtain ⟨d, hd, hgranted⟩ := hj
      rcases joined_cases hd with ⟨-, rfl⟩ | ⟨-, hd⟩
      · cases hgranted
      · exact .inl ⟨d, hd, hgranted⟩
  | locked i =>
    obtain ⟨c, hc, hs⟩ := Option.bind_eq_some_iff.mp hs
    obtain ⟨x, hx, hs⟩ := Option.bind_eq_some_iff.mp hs
    split at hs
    · obtain rfl := Option.some.inj hs
      unfold lockedBlock at hj
      split at hj
      · exact .inl (granted_moved hc .ended hj)
      · split at hj
        · exact .inl (granted_moved hc .full hj)
        · exact .inl (granted_moved hc .positioning hj)
    · cases hs
  | uiDone i =>
    obtain ⟨c, hc, hs⟩ := Option.bind_eq_some_iff.mp hs
    split at hs
    · obtain rfl := Option.some.inj hs
      exact .inl (granted_moved hc .ended hj)
    · obtain rfl := Option.some.inj hs
      exact .inl (granted_moved hc .ended hj)
    · obtain rfl := Option.some.inj hs
      exact .inl (granted_moved hc .ended hj)
    · obtain rfl := Option.some.inj hs
      exact .inl (granted_moved hc .waiting hj)
    · cases hs
  | wake i =>
    obtain ⟨c, hc, hs⟩ := Option.bind_eq_some_iff.mp hs
    obtain ⟨x, hx, hs⟩ := Option.bind_eq_some_iff.mp hs
    split at hs
    · obtain rfl := Option.some.inj hs
      exact .inl (granted_moved hc .ended hj)
    · cases hs
  | timeout i =>
    obtain ⟨c, hc, hs⟩ := Option.bind_eq_some_iff.mp hs
    split at hs
    · obtain rfl := Option.some.inj hs
      exact .inl (granted_moved hc .timedOut hj)
    · cases hs
  | withdraw i =>
    obtain ⟨c, hc, hs⟩ := Option.bind_eq_some_iff.mp hs
    split at hs
    · obtain rfl := Option.some.inj hs
      exact granted_withdraw hc hj
    · obtain rfl := Option.some.inj hs
      exact granted_withdraw hc hj
    · obtain rfl := Option.some.inj hs
      exact granted_withdraw hc hj
    · cases hs
  | cancel i =>
    obtain ⟨c, hc, rfl⟩ := Option.map_eq_some_iff.mp hs
    left
    unfold cancelCall at hj
    cases hp : c.phase <;> simp only [hp] at hj
    case maintenance | entering | timeoutUi | full | timedOut => exact granted_moved hc .ended hj
    case positioning | waiting => exact granted_moved hc .cancelled hj
    case cancelled => exact granted_moved hc .abandoned hj
    case abandoned | ended => exact hj
  | release l =>
    obtain ⟨x, hx, rfl⟩ := Option.map_eq_some_iff.mp hs
    split at hj
    · exact .inl hj
    · exact .inl hj
  | releaseSlot l =>
    obtain ⟨x, hx, hs⟩ := Option.bind_eq_some_iff.mp hs
    split at hs
    · obtain rfl := Option.some.inj hs
      have hgranted := granted_handoff hj
      exact hgranted
    · cases hs

end Grants

section Attended

variable {q q' : Queue} {i : Nat} {c : Call}

/-- No caller is gone while its withdrawal still waits for the lock. -/
def Attended (q : Queue) : Prop := ∀ c ∈ q.calls, c.phase ≠ .abandoned

theorem attended_setCall (h : q.Attended) (c' : Call) (hphase : c'.phase ≠ .abandoned) :
    (q.setCall i c').Attended := by
  intro d hd
  rcases List.mem_or_eq_of_mem_set hd with hold | rfl
  · exact h d hold
  · exact hphase

theorem attended_handoff {waiters : List Nat} (h : q.Attended) :
    (handoff waiters q).Attended := by
  induction waiters generalizing q with
  | nil => exact h
  | cons i rest ih =>
    unfold handoff
    split
    · exact ih h
    · rename_i c hc
      have hphase := h c (List.mem_of_getElem? hc)
      split
      · exact ih (attended_setCall h { c with state := .cancelled } hphase)
      · exact attended_setCall h { c with state := .granted } hphase

theorem attended_withdraw (h : q.Attended) {phase : Phase} (hphase : phase ≠ .abandoned) :
    (q.withdraw i c phase).Attended := by
  have hset := attended_setCall (i := i) h { c with phase := phase, state := .cancelled } hphase
  unfold withdraw
  split
  · exact hset
  · exact attended_handoff hset
  · exact attended_setCall h { c with phase := phase } hphase

theorem attended_step {a : Action} (h : q.Attended) (hG : q.Unrepeated a)
    (hs : q.step a = some q') : q'.Attended := by
  have hmove : ∀ (i : Nat) (c : Call) (phase : Phase), phase ≠ .abandoned →
      (q.setCall i { c with phase := phase }).Attended :=
    fun i c phase hphase => attended_setCall h { c with phase := phase } hphase
  cases a with
  | acquire =>
    obtain rfl := Option.some.inj hs
    exact h
  | enter l diskCritical =>
    obtain ⟨x, hx, rfl⟩ := Option.map_eq_some_iff.mp hs
    split
    · exact h
    · intro d hd
      rcases List.mem_append.mp hd with hold | hnew
      · exact h d hold
      · obtain rfl := List.mem_singleton.mp hnew
        cases diskCritical <;> simp
  | locked i =>
    obtain ⟨c, hc, hs⟩ := Option.bind_eq_some_iff.mp hs
    obtain ⟨x, hx, hs⟩ := Option.bind_eq_some_iff.mp hs
    split at hs
    · obtain rfl := Option.some.inj hs
      unfold lockedBlock
      split
      · exact hmove i c .ended (by decide)
      · split
        · exact hmove i c .full (by decide)
        · exact hmove i c .positioning (by decide)
    · cases hs
  | uiDone i =>
    obtain ⟨c, hc, hs⟩ := Option.bind_eq_some_iff.mp hs
    split at hs
    · obtain rfl := Option.some.inj hs
      exact hmove i c .ended (by decide)
    · obtain rfl := Option.some.inj hs
      exact hmove i c .ended (by decide)
    · obtain rfl := Option.some.inj hs
      exact hmove i c .ended (by decide)
    · obtain rfl := Option.some.inj hs
      exact hmove i c .waiting (by decide)
    · cases hs
  | wake i =>
    obtain ⟨c, hc, hs⟩ := Option.bind_eq_some_iff.mp hs
    obtain ⟨x, hx, hs⟩ := Option.bind_eq_some_iff.mp hs
    split at hs
    · obtain rfl := Option.some.inj hs
      exact hmove i c .ended (by decide)
    · cases hs
  | timeout i =>
    obtain ⟨c, hc, hs⟩ := Option.bind_eq_some_iff.mp hs
    split at hs
    · obtain rfl := Option.some.inj hs
      exact hmove i c .timedOut (by decide)
    · cases hs
  | withdraw i =>
    obtain ⟨c, hc, hs⟩ := Option.bind_eq_some_iff.mp hs
    split at hs
    · obtain rfl := Option.some.inj hs
      exact attended_withdraw h (by decide)
    · obtain rfl := Option.some.inj hs
      exact attended_withdraw h (by decide)
    · obtain rfl := Option.some.inj hs
      exact attended_withdraw h (by decide)
    · cases hs
  | cancel i =>
    obtain ⟨c, hc, rfl⟩ := Option.map_eq_some_iff.mp hs
    have hphase := hG c hc
    unfold cancelCall
    cases hp : c.phase
    case cancelled => exact absurd hp hphase
    case maintenance | entering | timeoutUi | full | timedOut => exact hmove i c .ended (by decide)
    case positioning | waiting => exact hmove i c .cancelled (by decide)
    case abandoned | ended => exact h
  | release l =>
    obtain ⟨x, hx, rfl⟩ := Option.map_eq_some_iff.mp hs
    split
    · exact h
    · exact h
  | releaseSlot l =>
    obtain ⟨x, hx, hs⟩ := Option.bind_eq_some_iff.mp hs
    split at hs
    · obtain rfl := Option.some.inj hs
      apply attended_handoff
      exact h
    · cases hs

end Attended

/-- Where no caller has left its withdrawal behind, what is granted is on its way to a caller. -/
theorem tally_granted_of_attended {q : Queue} (h : q.Attended) :
    tally grantOnItsWay q.calls = tally grantedPermit q.calls := by
  apply tally_congr
  intro c hc
  have hphase := h c hc
  cases hp : c.phase <;> simp_all [grantOnItsWay, grantedPermit, Phase.queued, Phase.running]

section Runs

variable {n maxQueue : Nat} {as : List Action} {q : Queue}

/-- Second cancellations apart, no permit is lost: a permit that is not free or held is granted to
a call, or to the withdrawal it left behind, and each grant is made to such a one. -/
theorem permits_balanced (hr : machine.run (initial n maxQueue) as = some q)
    (hG : machine.Admits Sheltered (initial n maxQueue) as) :
    Inv n q ∧
    ∀ a q' i, q.step a = some q' → q'.Granted i → ¬ q.Granted i →
      ∃ c, q.calls[i]? = some c ∧ c.state = .waiting ∧ c.phase.queued = true := by
  have hinv : Inv n q := machine.invariant_of_admits (fun _ _ _ => inv_step) (inv_initial n _) hG hr
  refine ⟨hinv, ?_⟩
  intro a q' i hs hgranted hnot
  exact hinv.listed i ((granted_step hs hgranted).resolve_left hnot)

/-- Along every run in which no cancellation reaches a call that waits for the lock in its
withdrawal, and no lease is entered twice at once: the permits add up, a waiter is granted only
while its caller waits, and nothing is lost at the end. -/
theorem permits_conserved (hr : machine.run (initial n maxQueue) as = some q)
    (hG : machine.Admits Undisturbed (initial n maxQueue) as) :
    q.free + tally heldPermit q.leases + tally grantOnItsWay q.calls = n ∧
    (∀ a q' i, q.step a = some q' → q'.Granted i → ¬ q.Granted i →
      ∃ c, q.calls[i]? = some c ∧ c.state = .waiting ∧ c.phase.running = true) ∧
    ((∀ c ∈ q.calls, c.phase = .ended) →
      (∀ x ∈ q.leases, x.acquired = true → x.release = .done) → q.free = n) := by
  have hsheltered := machine.admits_mono (fun _ _ h => h.1) hG
  have hunrepeated := machine.admits_mono (fun _ _ h => h.2) hG
  obtain ⟨hinv, hgrants⟩ := permits_balanced hr hsheltered
  have hattended : q.Attended :=
    machine.invariant_of_admits (fun _ _ _ => attended_step) (by simp [Attended, initial])
      hunrepeated hr
  have hcount : q.free + tally heldPermit q.leases + tally grantOnItsWay q.calls = n := by
    rw [tally_granted_of_attended hattended]
    exact hinv.counted
  refine ⟨hcount, ?_, ?_⟩
  · intro a q' i hs hgranted hnot
    obtain ⟨c, hc, hwaiting, hqueued⟩ := hgrants a q' i hs hgranted hnot
    have hphase := hattended c (List.mem_of_getElem? hc)
    refine ⟨c, hc, hwaiting, ?_⟩
    cases hp : c.phase <;> simp_all [Phase.queued, Phase.running]
  · intro hended hreleased
    have hgrants : tally grantOnItsWay q.calls = 0 := by
      rw [tally_eq_zero]
      intro c hc
      simp [grantOnItsWay, hended c hc, Phase.queued]
    have hleases : tally heldPermit q.leases = 0 := by
      rw [tally_eq_zero]
      intro x hx
      simpa [heldPermit] using hreleased x hx
    omega

end Runs

/-- One permit; the second lease waits, is granted the permit at its timeout and forwards it. -/
theorem permits_conserved_timeout :
    ∃ q, machine.run (initial 1 1) [.acquire, .acquire, .enter 0 false, .locked 0, .enter 1 false,
        .locked 1, .uiDone 1, .timeout 1, .release 0, .releaseSlot 0, .withdraw 1, .uiDone 1]
        = some q ∧
      q.free + tally heldPermit q.leases + tally grantOnItsWay q.calls = 1 ∧ q.free = 1 := by
  refine ⟨_, rfl, ?_⟩
  have hconserved := @permits_conserved 1 1
    [.acquire, .acquire, .enter 0 false, .locked 0, .enter 1 false,
      .locked 1, .uiDone 1, .timeout 1, .release 0, .releaseSlot 0, .withdraw 1, .uiDone 1] _ rfl ?_
  · exact ⟨hconserved.1, hconserved.2.2 (by decide) (by decide)⟩
  · decide

/-- One permit and a queue of one: the second lease times out while a third acquirer holds the
lock for its `QUEUE_FULL` message, and is cancelled before its withdrawal gets the lock. The
waiter that it leaves behind is granted the permit. -/
theorem permit_lost :
    ∃ q, machine.run (initial 1 1) [.acquire, .acquire, .acquire, .enter 0 false, .locked 0,
        .enter 1 false, .locked 1, .uiDone 1, .enter 2 false, .locked 2, .timeout 1, .cancel 1,
        .uiDone 2, .release 0, .releaseSlot 0] = some q ∧
      (∀ c ∈ q.calls, c.phase = .ended) ∧
      (∀ x ∈ q.leases, x.acquired = true → x.release = .done) ∧
      q.free + tally heldPermit q.leases + tally grantOnItsWay q.calls ≠ 1 ∧ q.free = 0 :=
  ⟨_, rfl, by decide, by decide, by decide, rfl⟩

end Queue

end YtdlBot.DownloadQueue
