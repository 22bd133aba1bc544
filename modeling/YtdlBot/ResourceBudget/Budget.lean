import YtdlBot.Framework.Machine
import YtdlBot.Framework.Tally

/-!
# The disk budget

`DiskBudget` with any number of reservations and of `reserve`, `ensure` and `release` calls. A
call waits for the budget lock until its locked block, which is one step, or its cancellation;
the debit of a release has a task of its own that no cancellation reaches. Byte counts that
passed their sign checks are natural numbers.
-/

namespace YtdlBot.ResourceBudget

open Framework

/-- `_release_task` of a reservation; `_released` is set when the task is created. -/
inductive ReleaseTask where
  | none
  | created
  /-- `budget._release(size_bytes)` waits for the lock, its argument is evaluated. -/
  | debiting (amount : Nat)
  | debited
deriving DecidableEq

structure Reservation where
  sizeBytes : Nat
  release : ReleaseTask
deriving DecidableEq

/-- A call that waits for the budget lock, or waits no more. -/
inductive Waiting where
  | reserve (sizeBytes : Nat)
  | grow (r : Nat) (newSize : Int)
  | gone
deriving DecidableEq

/-- How a locked block ends. -/
inductive Outcome where
  | reserved
  | grown
  /-- The reservation has that size already. -/
  | unchanged
  /-- `InsufficientDiskSpace`. -/
  | insufficient
  /-- `RuntimeError("reservation already released")`. -/
  | released
deriving DecidableEq

structure Budget where
  capacity : Option Nat
  reservedBytes : Nat
  reservations : List Reservation
  calls : List Waiting

inductive Action where
  /-- `reserve`, up to the lock. -/
  | reserve (sizeBytes : Int) (leaseTtl : Rat)
  /-- `ensure` of a reservation, up to the lock. -/
  | ensure (r : Nat) (newSize : Int)
  /-- The locked block of a call; `free` is what `disk_usage` reports. -/
  | locked (i : Nat) (free : Nat)
  | cancel (i : Nat)
  /-- A call of `release`; a cancellation of the caller changes nothing. -/
  | release (r : Nat)
  /-- `_finish_release` up to the lock. -/
  | finishRelease (r : Nat)
  /-- The locked block of `_release`. -/
  | debit (r : Nat)

namespace Budget

def initial (capacity : Option Nat) : Budget := ⟨capacity, 0, [], []⟩

/-- `min(real_free, capacity)`. -/
def limit (capacity : Option Nat) (free : Nat) : Nat :=
  match capacity with
  | some capacity => min free capacity
  | none => free

/-- `_available_bytes`. -/
def availableBytes (s : Budget) (free : Nat) : Nat := limit s.capacity free - s.reservedBytes

/-- The locked blocks of `reserve` and `_grow`. -/
def lockedBlock (s : Budget) (free : Nat) : Waiting → Option (Outcome × Budget)
  | .reserve sizeBytes =>
    if s.availableBytes free < sizeBytes then some (.insufficient, s)
    else
      some (.reserved,
        { s with
          reservedBytes := s.reservedBytes + sizeBytes
          reservations := s.reservations ++ [⟨sizeBytes, .none⟩] })
  | .grow r newSize =>
    s.reservations[r]?.map fun x =>
      if x.release ≠ .none then (.released, s)
      else
        let delta := newSize - x.sizeBytes
        if delta ≤ 0 then (.unchanged, s)
        else if (s.availableBytes free : Int) < delta then (.insufficient, s)
        else
          (.grown,
            { s with
              reservedBytes := s.reservedBytes + delta.toNat
              reservations := s.reservations.set r { x with sizeBytes := newSize.toNat } })
  | .gone => none

def step (s : Budget) : Action → Option Budget
  | .reserve sizeBytes leaseTtl =>
    if sizeBytes < 0 ∨ leaseTtl ≤ 0 then some s
    else some { s with calls := s.calls ++ [.reserve sizeBytes.toNat] }
  | .ensure r newSize =>
    s.reservations[r]?.map fun x =>
      if x.release ≠ .none then s else { s with calls := s.calls ++ [.grow r newSize] }
  | .locked i free =>
    s.calls[i]?.bind fun w =>
      (s.lockedBlock free w).map fun result => { result.2 with calls := s.calls.set i .gone }
  | .cancel i => s.calls[i]?.map fun _ => { s with calls := s.calls.set i .gone }
  | .release r =>
    s.reservations[r]?.map fun x =>
      if x.release = .none then
        { s with reservations := s.reservations.set r { x with release := .created } }
      else s
  | .finishRelease r =>
    s.reservations[r]?.bind fun x =>
      match x.release with
      | .created =>
        some { s with
          reservations := s.reservations.set r { x with release := .debiting x.sizeBytes } }
      | _ => none
  | .debit r =>
    s.reservations[r]?.bind fun x =>
      match x.release with
      | .debiting amount =>
        some { s with
          reservedBytes := s.reservedBytes - amount
          reservations := s.reservations.set r { x with release := .debited } }
      | _ => none

def machine : Machine Budget Action := ⟨step⟩

/-- What a reservation has in the books. -/
def outstanding (x : Reservation) : Nat := if x.release = .debited then 0 else x.sizeBytes

/-- The number of times reservation `r` is debited in a run. -/
def debits (r : Nat) (as : List Action) : Nat :=
  as.countP fun a =>
    match a with
    | .debit r' => r' == r
    | _ => false

structure Inv (s : Budget) : Prop where
  exact : s.reservedBytes = tally outstanding s.reservations
  amount : ∀ (r : Nat) x amount, s.reservations[r]? = some x → x.release = .debiting amount →
    amount = x.sizeBytes
  capacity : ∀ c, s.capacity = some c → s.reservedBytes ≤ c

section Steps

variable {s s' : Budget} {r i free : Nat} {x : Reservation}

theorem inv_initial (capacity : Option Nat) : Inv (initial capacity) := by
  constructor <;> intros <;> simp_all [initial]

theorem limit_le_capacity {c : Nat} : limit (some c) free ≤ c := by
  simp only [limit]
  omega

theorem Inv.setCalls (h : Inv s) (calls : List Waiting) : Inv { s with calls := calls } :=
  ⟨h.exact, h.amount, h.capacity⟩

theorem Inv.setReservation (h : Inv s) (hx : s.reservations[r]? = some x) (x' : Reservation)
    {reservedBytes : Nat}
    (hbooks : reservedBytes + outstanding x = s.reservedBytes + outstanding x')
    (hamount : ∀ amount, x'.release = .debiting amount → amount = x'.sizeBytes)
    (hcapacity : ∀ c, s.capacity = some c → reservedBytes ≤ c) :
    Inv { s with reservedBytes := reservedBytes, reservations := s.reservations.set r x' } := by
  constructor
  case exact =>
    have hmoved := tally_replaced (w := outstanding) (b := x') hx
    have hbefore := h.exact
    show reservedBytes = tally outstanding (s.reservations.set r x')
    omega
  case amount =>
    intro r' y amount hy hdebiting
    rcases replaced_cases hx hy with ⟨-, rfl⟩ | ⟨-, hy⟩
    · exact hamount amount hdebiting
    · exact h.amount r' y amount hy hdebiting
  case capacity => exact hcapacity

/-- What a locked block does, by its outcome. -/
theorem lockedBlock_spec {w : Waiting} {outcome : Outcome}
    (hs : s.lockedBlock free w = some (outcome, s')) :
    (outcome = .reserved ∧ ∃ sizeBytes, w = .reserve sizeBytes ∧
        sizeBytes ≤ s.availableBytes free ∧
        s' = { s with
          reservedBytes := s.reservedBytes + sizeBytes
          reservations := s.reservations ++ [⟨sizeBytes, .none⟩] }) ∨
    (outcome = .grown ∧ ∃ r newSize x, s.reservations[r]? = some x ∧ x.release = .none ∧
        x.sizeBytes < newSize ∧ newSize - x.sizeBytes ≤ s.availableBytes free ∧
        s' = { s with
          reservedBytes := s.reservedBytes + (newSize - x.sizeBytes)
          reservations := s.reservations.set r { x with sizeBytes := newSize } }) ∨
    ((outcome = .unchanged ∨ outcome = .insufficient ∨ outcome = .released) ∧ s' = s) := by
  cases w with
  | reserve sizeBytes =>
    simp only [lockedBlock] at hs
    split at hs
    · simp only [Option.some.injEq, Prod.mk.injEq] at hs
      obtain ⟨rfl, rfl⟩ := hs
      exact .inr (.inr ⟨.inr (.inl rfl), rfl⟩)
    · rename_i hfits
      simp only [Option.some.injEq, Prod.mk.injEq] at hs
      obtain ⟨rfl, rfl⟩ := hs
      exact .inl ⟨rfl, sizeBytes, rfl, by omega, rfl⟩
  | grow r newSize =>
    obtain ⟨x, hx, hs⟩ := Option.map_eq_some_iff.mp hs
    split at hs
    · simp only [Prod.mk.injEq] at hs
      obtain ⟨rfl, rfl⟩ := hs
      exact .inr (.inr ⟨.inr (.inr rfl), rfl⟩)
    · rename_i hlive
      dsimp only at hs
      split at hs
      · simp only [Prod.mk.injEq] at hs
        obtain ⟨rfl, rfl⟩ := hs
        exact .inr (.inr ⟨.inl rfl, rfl⟩)
      · rename_i hdelta
        split at hs
        · simp only [Prod.mk.injEq] at hs
          obtain ⟨rfl, rfl⟩ := hs
          exact .inr (.inr ⟨.inr (.inl rfl), rfl⟩)
        · rename_i hfits
          simp only [Prod.mk.injEq] at hs
          obtain ⟨rfl, rfl⟩ := hs
          have hgrowth : (newSize - (x.sizeBytes : Int)).toNat = newSize.toNat - x.sizeBytes := by
            omega
          refine .inr (.inl ⟨rfl, r, newSize.toNat, x, hx, by simpa using hlive, by omega, by omega, ?_⟩)
          rw [hgrowth]
  | gone => cases hs

theorem inv_lockedBlock (h : Inv s) {w : Waiting} {outcome : Outcome}
    (hs : s.lockedBlock free w = some (outcome, s')) : Inv s' := by
  have hroom : ∀ n, n ≤ s.availableBytes free → ∀ c, s.capacity = some c →
      s.reservedBytes + n ≤ c := by
    intro n hn c hc
    have hbefore := h.capacity c hc
    have hlimit : limit s.capacity free ≤ c := by
      rw [hc]
      exact limit_le_capacity
    unfold availableBytes at hn
    omega
  rcases lockedBlock_spec hs with ⟨-, n, -, hn, rfl⟩ | ⟨-, r, n, x, hx, hlive, hlt, hn, rfl⟩ | ⟨-, rfl⟩
  · constructor
    case exact =>
      have hbefore := h.exact
      show s.reservedBytes + n = tally outstanding (s.reservations ++ [⟨n, .none⟩])
      rw [tally_joined, ← hbefore]
      simp [outstanding]
    case amount =>
      intro r' y amount hy hdebiting
      rcases joined_cases hy with ⟨-, rfl⟩ | ⟨-, hy⟩
      · cases hdebiting
      · exact h.amount r' y amount hy hdebiting
    case capacity => exact hroom n hn
  · apply h.setReservation hx
    · simp only [outstanding, hlive]
      simp
      omega
    · intro amount hdebiting
      simp [hlive] at hdebiting
    · exact hroom _ hn
  · exact h

theorem inv_step {a : Action} (h : Inv s) (hs : s.step a = some s') : Inv s' := by
  cases a with
  | reserve sizeBytes leaseTtl =>
    simp only [step] at hs
    split at hs
    · obtain rfl := Option.some.inj hs
      exact h
    · obtain rfl := Option.some.inj hs
      exact h.setCalls _
  | ensure r newSize =>
    obtain ⟨x, hx, rfl⟩ := Option.map_eq_some_iff.mp hs
    split
    · exact h
    · exact h.setCalls _
  | locked i free =>
    obtain ⟨w, hw, hs⟩ := Option.bind_eq_some_iff.mp hs
    obtain ⟨⟨outcome, s₁⟩, hblock, rfl⟩ := Option.map_eq_some_iff.mp hs
    exact (inv_lockedBlock h hblock).setCalls _
  | cancel i =>
    obtain ⟨w, hw, rfl⟩ := Option.map_eq_some_iff.mp hs
    exact h.setCalls _
  | release r =>
    obtain ⟨x, hx, rfl⟩ := Option.map_eq_some_iff.mp hs
    split
    · rename_i hlive
      apply h.setReservation hx
      · simp [outstanding, hlive]
      · simp
      · exact h.capacity
    · exact h
  | finishRelease r =>
    obtain ⟨x, hx, hs⟩ := Option.bind_eq_some_iff.mp hs
    split at hs
    · rename_i hcreated
      obtain rfl := Option.some.inj hs
      apply h.setReservation hx
      · simp [outstanding, hcreated]
      · simp
      · exact h.capacity
    · cases hs
  | debit r =>
    obtain ⟨x, hx, hs⟩ := Option.bind_eq_some_iff.mp hs
    split at hs
    · rename_i amount hdebiting
      obtain rfl := Option.some.inj hs
      have hamount := h.amount r x amount hx hdebiting
      have hle := le_tally (w := outstanding) hx
      have hexact := h.exact
      have hone : outstanding x = x.sizeBytes := by simp [outstanding, hdebiting]
      apply h.setReservation hx
      · simp only [outstanding, hdebiting]
        simp
        omega
      · simp
      · intro c hc
        have hbefore := h.capacity c hc
        omega
    · cases hs

end Steps

section Runs

variable {s s' : Budget} {r : Nat} {x : Reservation} {a : Action}

theorem reservation_step (hs : s.step a = some s') (hx : s.reservations[r]? = some x) :
    ∃ x', s'.reservations[r]? = some x' ∧
      (x' = x ∨
        (x.release = .none ∧ x'.release = .none ∧ x.sizeBytes < x'.sizeBytes) ∨
        (x'.sizeBytes = x.sizeBytes ∧ x.release = .none ∧ x'.release = .created) ∨
        (x'.sizeBytes = x.sizeBytes ∧ x.release = .created ∧ x'.release = .debiting x.sizeBytes) ∨
        (a = .debit r ∧ x'.sizeBytes = x.sizeBytes ∧ (∃ amount, x.release = .debiting amount) ∧
          x'.release = .debited)) := by
  have hset : ∀ {k : Nat} {y : Reservation} (y' : Reservation), s.reservations[k]? = some y →
      ∃ x', (s.reservations.set k y')[r]? = some x' ∧ ((k = r ∧ y = x ∧ x' = y') ∨ x' = x) := by
    intro k y y' hy
    rw [getElem?_replaced hy]
    by_cases hr : r = k
    · subst hr
      exact ⟨y', if_pos rfl, .inl ⟨rfl, Option.some.inj (hy.symm.trans hx), rfl⟩⟩
    · exact ⟨x, (if_neg hr).trans hx, .inr rfl⟩
  cases a with
  | reserve sizeBytes leaseTtl =>
    simp only [step] at hs
    split at hs
    · obtain rfl := Option.some.inj hs
      exact ⟨x, hx, .inl rfl⟩
    · obtain rfl := Option.some.inj hs
      exact ⟨x, hx, .inl rfl⟩
  | ensure k newSize =>
    obtain ⟨y, hy, rfl⟩ := Option.map_eq_some_iff.mp hs
    split
    · exact ⟨x, hx, .inl rfl⟩
    · exact ⟨x, hx, .inl rfl⟩
  | locked i free =>
    obtain ⟨w, hw, hs⟩ := Option.bind_eq_some_iff.mp hs
    obtain ⟨⟨outcome, s₁⟩, hblock, rfl⟩ := Option.map_eq_some_iff.mp hs
    rcases lockedBlock_spec hblock with ⟨-, n, -, -, rfl⟩ | ⟨-, k, n, y, hy, hlive, hlt, -, rfl⟩ | ⟨-, rfl⟩
    · exact ⟨x, getElem?_joined_of_some hx, .inl rfl⟩
    · obtain ⟨x', hx', ⟨-, rfl, rfl⟩ | rfl⟩ := hset { y with sizeBytes := n } hy
      · exact ⟨_, hx', .inr (.inl ⟨hlive, hlive, hlt⟩)⟩
      · exact ⟨x', hx', .inl rfl⟩
    · exact ⟨x, hx, .inl rfl⟩
  | cancel i =>
    obtain ⟨w, hw, rfl⟩ := Option.map_eq_some_iff.mp hs
    exact ⟨x, hx, .inl rfl⟩
  | release k =>
    obtain ⟨y, hy, rfl⟩ := Option.map_eq_some_iff.mp hs
    split
    · rename_i hlive
      obtain ⟨x', hx', ⟨-, rfl, rfl⟩ | rfl⟩ := hset { y with release := .created } hy
      · exact ⟨_, hx', .inr (.inr (.inl ⟨rfl, hlive, rfl⟩))⟩
      · exact ⟨x', hx', .inl rfl⟩
    · exact ⟨x, hx, .inl rfl⟩
  | finishRelease k =>
    obtain ⟨y, hy, hs⟩ := Option.bind_eq_some_iff.mp hs
    split at hs
    · rename_i hcreated
      obtain rfl := Option.some.inj hs
      obtain ⟨x', hx', ⟨-, rfl, rfl⟩ | rfl⟩ := hset { y with release := .debiting y.sizeBytes } hy
      · exact ⟨_, hx', .inr (.inr (.inr (.inl ⟨rfl, hcreated, rfl⟩)))⟩
      · exact ⟨x', hx', .inl rfl⟩
    · cases hs
  | debit k =>
    obtain ⟨y, hy, hs⟩ := Option.bind_eq_some_iff.mp hs
    split at hs
    · rename_i amount hdebiting
      obtain rfl := Option.some.inj hs
      obtain ⟨x', hx', ⟨rfl, rfl, rfl⟩ | rfl⟩ := hset { y with release := .debited } hy
      · exact ⟨_, hx', .inr (.inr (.inr (.inr ⟨rfl, rfl, ⟨amount, hdebiting⟩, rfl⟩)))⟩
      · exact ⟨x', hx', .inl rfl⟩
    · cases hs

theorem reservation_new (hs : s.step a = some s') (hx : s.reservations[r]? = none)
    (hx' : s'.reservations[r]? = some x) : x.release = .none := by
  have hset : ∀ (k : Nat) (y : Reservation), (s.reservations.set k y)[r]? ≠ some x := by
    intro k y hy
    have hlt := (List.getElem?_eq_some_iff.mp hy).1
    rw [List.length_set] at hlt
    rw [List.getElem?_eq_none_iff] at hx
    omega
  cases a with
  | reserve sizeBytes leaseTtl =>
    simp only [step] at hs
    split at hs
    · obtain rfl := Option.some.inj hs
      rw [hx] at hx'
      cases hx'
    · obtain rfl := Option.some.inj hs
      rw [hx] at hx'
      cases hx'
  | ensure k newSize =>
    obtain ⟨y, hy, rfl⟩ := Option.map_eq_some_iff.mp hs
    split at hx'
    · rw [hx] at hx'
      cases hx'
    · rw [hx] at hx'
      cases hx'
  | locked i free =>
    obtain ⟨w, hw, hs⟩ := Option.bind_eq_some_iff.mp hs
    obtain ⟨⟨outcome, s₁⟩, hblock, rfl⟩ := Option.map_eq_some_iff.mp hs
    rcases lockedBlock_spec hblock with ⟨-, n, -, -, rfl⟩ | ⟨-, k, n, y, hy, -, -, -, rfl⟩ | ⟨-, rfl⟩
    · simp only [getElem?_joined] at hx'
      split at hx'
      · obtain rfl := Option.some.inj hx'
        rfl
      · rw [hx] at hx'
        cases hx'
    · exact absurd hx' (hset k _)
    · rw [hx] at hx'
      cases hx'
  | cancel i =>
    obtain ⟨w, hw, rfl⟩ := Option.map_eq_some_iff.mp hs
    rw [hx] at hx'
    cases hx'
  | release k =>
    obtain ⟨y, hy, rfl⟩ := Option.map_eq_some_iff.mp hs
    split at hx'
    · exact absurd hx' (hset k _)
    · rw [hx] at hx'
      cases hx'
  | finishRelease k =>
    obtain ⟨y, hy, hs⟩ := Option.bind_eq_some_iff.mp hs
    split at hs
    · obtain rfl := Option.some.inj hs
      exact absurd hx' (hset k _)
    · cases hs
  | debit k =>
    obtain ⟨y, hy, hs⟩ := Option.bind_eq_some_iff.mp hs
    split at hs
    · obtain rfl := Option.some.inj hs
      exact absurd hx' (hset k _)
    · cases hs

/-- Whether reservation `r` has been debited, as a number. -/
def settled (s : Budget) (r : Nat) : Nat :=
  match s.reservations[r]? with
  | some x => if x.release = .debited then 1 else 0
  | none => 0

theorem settled_some (hx : s.reservations[r]? = some x) :
    s.settled r = if x.release = .debited then 1 else 0 := by
  simp [settled, hx]

theorem settled_step (hs : s.step a = some s') : s.settled r + debits r [a] = s'.settled r := by
  by_cases ha : a = .debit r
  · subst ha
    obtain ⟨x, hx, hs⟩ := Option.bind_eq_some_iff.mp hs
    split at hs
    · rename_i amount hdebiting
      obtain rfl := Option.some.inj hs
      have hafter : ({ s with
          reservedBytes := s.reservedBytes - amount
          reservations := s.reservations.set r { x with release := .debited } } :
            Budget).reservations[r]? = some { x with release := .debited } :=
        getElem?_replaced_self hx
      rw [settled_some hx, settled_some hafter, hdebiting]
      simp [debits]
    · cases hs
  · have hnone : debits r [a] = 0 := by
      unfold debits
      rw [List.countP_singleton]
      cases a with
      | debit k =>
        have hk : ¬ k = r := fun heq => ha (by rw [heq])
        simp [hk]
      | _ => rfl
    rw [hnone]
    cases hx : s.reservations[r]? with
    | none =>
      cases hx' : s'.reservations[r]? with
      | none => simp [settled, hx, hx']
      | some x' => simp [settled, hx, hx', reservation_new hs hx hx']
    | some x =>
      obtain ⟨x', hx', hcases⟩ := reservation_step hs hx
      rw [settled_some hx, settled_some hx']
      rcases hcases with rfl | ⟨h, h', -⟩ | ⟨-, h, h'⟩ | ⟨-, h, h'⟩ | ⟨hdebit, -⟩
      · rfl
      · simp [h, h']
      · simp [h, h']
      · simp [h, h']
      · exact absurd hdebit ha

theorem settled_run {as : List Action} (hr : machine.run s as = some s') :
    s.settled r + debits r as = s'.settled r := by
  induction as generalizing s with
  | nil =>
    obtain rfl := Option.some.inj hr
    rfl
  | cons a as ih =>
    obtain ⟨s₁, hs, hr⟩ := machine.run_cons_eq_some.mp hr
    have hfirst := settled_step (r := r) hs
    have hrest := ih hr
    have hsplit : debits r (a :: as) = debits r [a] + debits r as := by
      unfold debits
      rw [← List.countP_append, List.singleton_append]
    omega

/-- The release task of a released reservation can always go on to its debit. -/
theorem debit_enabled (hx : s.reservations[r]? = some x) (hreleased : x.release ≠ .none)
    (hopen : x.release ≠ .debited) :
    ∃ as s', machine.run s as = some s' ∧ s'.settled r = 1 := by
  have hdebit : ∀ {s : Budget} {x : Reservation} {amount : Nat}, s.reservations[r]? = some x →
      x.release = .debiting amount → ∃ s', s.step (.debit r) = some s' ∧ s'.settled r = 1 := by
    intro s x amount hx hdebiting
    have hs : s.step (.debit r) = some { s with
        reservedBytes := s.reservedBytes - amount
        reservations := s.reservations.set r { x with release := .debited } } := by
      simp [step, hx, hdebiting]
    refine ⟨_, hs, ?_⟩
    simp [settled, getElem?_replaced hx]
  cases hrelease : x.release with
  | none => exact absurd hrelease hreleased
  | debited => exact absurd hrelease hopen
  | debiting amount =>
    obtain ⟨s', hs, hsettled⟩ := hdebit hx hrelease
    exact ⟨[.debit r], s', machine.run_cons_eq_some.mpr ⟨s', hs, rfl⟩, hsettled⟩
  | created =>
    have hfinish : s.step (.finishRelease r) = some { s with
        reservations := s.reservations.set r { x with release := .debiting x.sizeBytes } } := by
      simp [step, hx, hrelease]
    obtain ⟨s', hs, hsettled⟩ := hdebit (s := { s with
        reservations := s.reservations.set r { x with release := .debiting x.sizeBytes } })
      (getElem?_replaced_self hx) rfl
    refine ⟨[.finishRelease r, .debit r], s', ?_, hsettled⟩
    exact machine.run_cons_eq_some.mpr ⟨_, hfinish, machine.run_cons_eq_some.mpr ⟨s', hs, rfl⟩⟩

theorem capacity_step (hs : s.step a = some s') : s'.capacity = s.capacity := by
  cases a with
  | reserve sizeBytes leaseTtl =>
    simp only [step] at hs
    split at hs
    · obtain rfl := Option.some.inj hs
      rfl
    · obtain rfl := Option.some.inj hs
      rfl
  | ensure k newSize =>
    obtain ⟨y, hy, rfl⟩ := Option.map_eq_some_iff.mp hs
    split
    · rfl
    · rfl
  | locked i free =>
    obtain ⟨w, hw, hs⟩ := Option.bind_eq_some_iff.mp hs
    obtain ⟨⟨outcome, s₁⟩, hblock, rfl⟩ := Option.map_eq_some_iff.mp hs
    rcases lockedBlock_spec hblock with ⟨-, n, -, -, rfl⟩ | ⟨-, k, n, y, -, -, -, -, rfl⟩ | ⟨-, rfl⟩
    · rfl
    · rfl
    · rfl
  | cancel i =>
    obtain ⟨w, hw, rfl⟩ := Option.map_eq_some_iff.mp hs
    rfl
  | release k =>
    obtain ⟨y, hy, rfl⟩ := Option.map_eq_some_iff.mp hs
    split
    · rfl
    · rfl
  | finishRelease k | debit k =>
    obtain ⟨y, hy, hs⟩ := Option.bind_eq_some_iff.mp hs
    split at hs
    · obtain rfl := Option.some.inj hs
      rfl
    · cases hs

theorem tally_outstanding (l : List Reservation) :
    tally outstanding l =
      ((l.filter fun x => x.release ≠ .debited).map Reservation.sizeBytes).sum := by
  induction l with
  | nil => rfl
  | cons x rest ih =>
    rw [tally_cons, ih]
    by_cases hx : x.release = .debited
    · simp [outstanding, hx]
    · simp [outstanding, hx]

theorem released_step (hs : s.step a = some s') (hx : s.reservations[r]? = some x) :
    ∃ x', s'.reservations[r]? = some x' ∧
      (x.release ≠ .none → x'.release ≠ .none ∧ x'.sizeBytes = x.sizeBytes) := by
  obtain ⟨x', hx', hcases⟩ := reservation_step hs hx
  refine ⟨x', hx', ?_⟩
  intro hreleased
  rcases hcases with rfl | ⟨hlive, -⟩ | ⟨-, hlive, -⟩ | ⟨hsize, -, h'⟩ | ⟨-, hsize, -, h'⟩
  · exact ⟨hreleased, rfl⟩
  · exact absurd hlive hreleased
  · exact absurd hlive hreleased
  · exact ⟨by simp [h'], hsize⟩
  · exact ⟨by simp [h'], hsize⟩

/-- A debit takes the size of its reservation out of the books. -/
theorem debit_exact (h : Inv s) (hx : s.reservations[r]? = some x)
    (hs : s.step (.debit r) = some s') : s'.reservedBytes + x.sizeBytes = s.reservedBytes := by
  obtain ⟨y, hy, hs⟩ := Option.bind_eq_some_iff.mp hs
  obtain rfl := Option.some.inj (hx.symm.trans hy)
  split at hs
  · rename_i amount hdebiting
    obtain rfl := Option.some.inj hs
    have hamount := h.amount r x amount hx hdebiting
    have hle := le_tally (w := outstanding) hx
    have hexact := h.exact
    have hone : outstanding x = x.sizeBytes := by simp [outstanding, hdebiting]
    show s.reservedBytes - amount + x.sizeBytes = s.reservedBytes
    omega
  · cases hs

theorem lockedBlock_fits {free : Nat} {w : Waiting} {outcome : Outcome}
    (hs : s.lockedBlock free w = some (outcome, s'))
    (hgrows : outcome = .grown ∨ (outcome = .reserved ∧ w ≠ .reserve 0)) :
    s'.reservedBytes ≤ limit s.capacity free := by
  rcases lockedBlock_spec hs with ⟨rfl, n, rfl, hn, rfl⟩ | ⟨rfl, k, n, y, -, -, hlt, hn, rfl⟩ |
    ⟨hrefused, rfl⟩
  · have hpos : n ≠ 0 := by
      rintro rfl
      simp at hgrows
    unfold availableBytes at hn
    show s.reservedBytes + n ≤ _
    omega
  · unfold availableBytes at hn
    show s.reservedBytes + (n - y.sizeBytes) ≤ _
    omega
  · rcases hgrows with rfl | ⟨rfl, -⟩
    · simp at hrefused
    · simp at hrefused

end Runs

/-- In every reachable state the books are exact and within the capacity. Each reservation is
debited at most once, and by its size; a released one can always still be debited and never
grows. A locked block that reserves a positive size or grows a reservation leaves the reserved
bytes within `min(free, capacity)`, one that refuses changes nothing. -/
theorem accounting_exact {capacity : Option Nat} {as : List Action} {s : Budget}
    (hr : machine.run (initial capacity) as = some s) :
    s.reservedBytes =
      ((s.reservations.filter fun x => x.release ≠ .debited).map Reservation.sizeBytes).sum ∧
    (∀ c, capacity = some c → s.reservedBytes ≤ c) ∧
    (∀ (r : Nat) x, s.reservations[r]? = some x →
      debits r as = (if x.release = .debited then 1 else 0) ∧
      (x.release ≠ .none → x.release ≠ .debited →
        ∃ bs s', machine.run s bs = some s' ∧ s'.settled r = 1) ∧
      (∀ s', s.step (.debit r) = some s' → s'.reservedBytes + x.sizeBytes = s.reservedBytes) ∧
      ∀ a s', s.step a = some s' → ∃ x', s'.reservations[r]? = some x' ∧
        (x.release ≠ .none → x'.release ≠ .none ∧ x'.sizeBytes = x.sizeBytes)) ∧
    (∀ free w outcome s', w ∈ s.calls → s.lockedBlock free w = some (outcome, s') →
      (outcome = .grown ∨ (outcome = .reserved ∧ w ≠ .reserve 0) →
        s'.reservedBytes ≤ limit capacity free) ∧
      (outcome = .insufficient ∨ outcome = .released → s' = s)) := by
  have hinv : Inv s := machine.invariant (fun _ _ _ => inv_step) (inv_initial capacity) hr
  have hcapacity : s.capacity = capacity :=
    machine.invariant (fun _ _ _ heq hs => (capacity_step hs).trans heq)
      (I := fun s => s.capacity = capacity) rfl hr
  refine ⟨hinv.exact.trans (tally_outstanding _), ?_, ?_, ?_⟩
  · intro c hc
    exact hinv.capacity c (hcapacity.trans hc)
  · intro r x hx
    refine ⟨?_, debit_enabled hx, fun s' => debit_exact hinv hx, fun a s' hs => released_step hs hx⟩
    have hcount := settled_run (r := r) hr
    have hzero : (initial capacity).settled r = 0 := rfl
    rw [settled_some hx] at hcount
    omega
  · intro free w outcome s' hw hblock
    constructor
    · intro hgrows
      rw [← hcapacity]
      exact lockedBlock_fits hblock hgrows
    · intro hrefused
      rcases lockedBlock_spec hblock with ⟨rfl, -⟩ | ⟨rfl, -⟩ | ⟨-, rfl⟩
      · simp at hrefused
      · simp at hrefused
      · rfl

/-- A growth that waits for the lock is refused once the release has started. -/
theorem accounting_exact_release :
    ∃ s, machine.run (initial (some 100)) [.reserve 10 3600, .locked 0 500, .reserve 20 3600,
        .locked 1 500, .ensure 0 30, .release 0, .finishRelease 0, .locked 2 500, .debit 0]
        = some s ∧
      s.reservedBytes =
        ((s.reservations.filter fun x => x.release ≠ .debited).map Reservation.sizeBytes).sum ∧
      s.reservedBytes = 20 := by
  refine ⟨_, rfl, ?_, rfl⟩
  exact (@accounting_exact (some 100) [.reserve 10 3600, .locked 0 500,
    .reserve 20 3600, .locked 1 500, .ensure 0 30, .release 0, .finishRelease 0, .locked 2 500,
    .debit 0] _ rfl).1

end Budget

end YtdlBot.ResourceBudget
