import YtdlBot.SingleFlight.Sharing

/-!
# What the owner of a group sees

Which flight each call rides and whether it ended, and how far the task of each flight is. Most
steps of the group change neither.
-/

namespace YtdlBot.SingleFlight

open Framework

variable {κ ε T : Type} [DecidableEq κ]

def Call.isEnded (c : Call κ ε T) : Bool :=
  match c.phase with
  | .ended _ => true
  | _ => false

namespace Group

/-- The key and the flight of a call, and whether it ended. -/
def ride (g : Group κ ε T) (i : Nat) : Option (κ × Nat × Bool) :=
  g.calls[i]?.map fun c => (c.key, c.flight, c.isEnded)

/-- The key and the task of a flight. -/
def status (g : Group κ ε T) (f : Nat) : Option (κ × Task ε T) :=
  g.heap[f]?.map fun x => (x.key, x.task)

variable {g g' : Group κ ε T}

section Frames

omit [DecidableEq κ] in
theorem ride_replaced {flights : κ → Option Nat} {heap : List (Flight κ ε T)} {i : Nat}
    {c c' : Call κ ε T} (hc : g.calls[i]? = some c) (hkey : c'.key = c.key)
    (hflight : c'.flight = c.flight) (hended : c'.isEnded = c.isEnded) :
    ride ⟨flights, heap, g.calls.set i c'⟩ = g.ride := by
  funext j
  show ((g.calls.set i c')[j]?).map _ = _
  rw [getElem?_replaced hc]
  split
  · rename_i hj
    rw [ride, hj, hc, Option.map_some, Option.map_some, hkey, hflight, hended]
  · rfl

omit [DecidableEq κ] in
theorem status_replaced {flights : κ → Option Nat} {calls : List (Call κ ε T)} {f : Nat}
    {x x' : Flight κ ε T} (hx : g.heap[f]? = some x) (hkey : x'.key = x.key)
    (htask : x'.task = x.task) : status ⟨flights, g.heap.set f x', calls⟩ = g.status := by
  funext f'
  show ((g.heap.set f x')[f']?).map _ = _
  rw [getElem?_replaced hx]
  split
  · rename_i hf
    rw [status, hf, hx, Option.map_some, Option.map_some, hkey, htask]
  · rfl

end Frames

section Steps

theorem ride_wake {i : Nat} (hstep : g.step (.wake i) = some g') :
    g'.ride = g.ride ∧ g'.status = g.status := by
  obtain ⟨c, hc, hstep⟩ := Option.bind_eq_some_iff.mp hstep
  split at hstep
  · rename_i hphase _
    obtain rfl := Option.some.inj hstep
    exact ⟨ride_replaced hc rfl rfl (by simp only [Call.isEnded, hphase]), rfl⟩
  · cases hstep

theorem ride_cancel {i : Nat} (hstep : g.step (.cancel i) = some g') :
    g'.ride = g.ride ∧ g'.status = g.status := by
  obtain ⟨c, hc, rfl⟩ := Option.map_eq_some_iff.mp hstep
  obtain ⟨key, flight, phase, cancelled⟩ := c
  refine ⟨ride_replaced hc ?_ ?_ ?_, rfl⟩
  · cases phase <;> rfl
  · cases phase <;> rfl
  · cases phase <;> rfl

theorem ride_unsubscribe (h : g.Inv) {i : Nat} (hstep : g.step (.unsubscribe i) = some g') :
    g'.ride = g.ride ∧ g'.status = g.status := by
  obtain ⟨c, hc, hstep⟩ := Option.bind_eq_some_iff.mp hstep
  split at hstep
  · rename_i result cancellation x hphase hx
    obtain rfl := Option.some.inj hstep
    rw [unsubscribe_eq h hc hphase]
    split
    · refine ⟨ride_replaced hc rfl rfl ?_, status_replaced hx rfl rfl⟩
      cases x.task.isDone <;> simp [Call.isEnded, hphase]
    · refine ⟨ride_replaced hc rfl rfl ?_, status_replaced hx rfl rfl⟩
      simp only [Call.isEnded, hphase]
  · cases hstep

theorem ride_unwound {i : Nat} (hstep : g.step (.unwound i) = some g') :
    g'.ride = g.ride ∧ g'.status = g.status := by
  obtain ⟨c, hc, hstep⟩ := Option.bind_eq_some_iff.mp hstep
  split at hstep
  · rename_i hphase _
    obtain rfl := Option.some.inj hstep
    exact ⟨ride_replaced hc rfl rfl (by simp only [Call.isEnded, hphase]), rfl⟩
  · cases hstep

theorem ride_start {f : Nat} (hstep : g.step (.start f) = some g') :
    g'.ride = g.ride ∧ ∃ key task, g.status f = some (key, .created) ∧
      (task = .running ∨ task = .done .cancelled) ∧
      g'.status = Function.update g.status f (some (key, task)) := by
  obtain ⟨x, hx, hstep⟩ := Option.bind_eq_some_iff.mp hstep
  split at hstep
  · rename_i htask
    obtain rfl := Option.some.inj hstep
    refine ⟨rfl, x.key, if x.cancelled then .done .cancelled else .running, ?_, ?_, ?_⟩
    · rw [status, hx, Option.map_some, htask]
    · cases x.cancelled with
      | true => exact .inr rfl
      | false => exact .inl rfl
    · funext f'
      show ((g.heap.set f _)[f']?).map _ = _
      rw [getElem?_replaced hx]
      by_cases hf : f' = f
      · subst hf
        rw [if_pos rfl, Function.update_self]
        rfl
      · rw [if_neg hf, Function.update_of_ne hf]
        rfl
  · cases hstep

theorem ride_finish {f : Nat} {outcome : Outcome ε T} (hstep : g.step (.finish f outcome) = some g') :
    g'.ride = g.ride ∧ ∃ key, g.status f = some (key, .running) ∧
      g'.status = Function.update g.status f (some (key, .done outcome)) := by
  obtain ⟨x, hx, hstep⟩ := Option.bind_eq_some_iff.mp hstep
  split at hstep
  · rename_i htask
    obtain rfl := Option.some.inj hstep
    refine ⟨rfl, x.key, ?_, ?_⟩
    · rw [status, hx, Option.map_some, htask]
    · funext f'
      show ((g.heap.set f _)[f']?).map _ = _
      rw [getElem?_replaced hx]
      by_cases hf : f' = f
      · subst hf
        rw [if_pos rfl, Function.update_self]
        rfl
      · rw [if_neg hf, Function.update_of_ne hf]
        rfl
  · cases hstep

theorem ride_return (h : g.Inv) {i : Nat} (hstep : g.step (.return i) = some g') :
    ∃ key f result, g.ride i = some (key, f, false) ∧
      g'.ride = Function.update g.ride i (some (key, f, true)) ∧ g'.status = g.status ∧
      (g'.calls[i]?.map Call.phase) = some (.ended result) ∧
      ∀ value, result = .value value → g.status f = some (key, .done (.value value)) := by
  obtain ⟨c, hc, hstep⟩ := Option.bind_eq_some_iff.mp hstep
  split at hstep
  · rename_i result cancellation hphase
    obtain rfl := Option.some.inj hstep
    have hnew := fun j => getElem?_replaced (j := j)
      (b := { c with phase := .ended (if cancellation then .cancelled else result) }) hc
    refine ⟨c.key, c.flight, if cancellation then .cancelled else result, ?_, ?_, rfl, ?_, ?_⟩
    · simp only [ride, hc, Option.map_some, Call.isEnded, hphase]
    · funext j
      show ((g.calls.set i _)[j]?).map _ = _
      rw [hnew]
      by_cases hj : j = i
      · subst hj
        rw [if_pos rfl, Function.update_self]
        rfl
      · rw [if_neg hj, Function.update_of_ne hj]
        rfl
    · show ((g.calls.set i _)[i]?).map _ = _
      rw [hnew, if_pos rfl, Option.map_some]
    · intro value hvalue
      obtain ⟨x, hx, hkey⟩ := h.joined i c hc
      have hsettled := h.settled i c x hc hx
      rw [Settled, hphase] at hsettled
      cases cancellation with
      | true => cases hvalue
      | false =>
        rw [if_neg Bool.false_ne_true] at hvalue
        rcases hsettled.2 with ⟨hcancelled, -⟩ | htask
        · rw [hcancelled] at hvalue
          cases hvalue
        · rw [status, hx, Option.map_some, hkey, htask, hvalue]
  · cases hstep

theorem ride_subscribe (h : g.Inv) (key : κ) :
    ∃ f, (g.subscribe key).ride = Function.update g.ride g.calls.length (some (key, f, false)) ∧
      ((g.status f = none ∧
          (g.subscribe key).status = Function.update g.status f (some (key, .created))) ∨
        (g.flights key = some f ∧ (g.subscribe key).status = g.status)) := by
  have hride (heap : List (Flight κ ε T)) (flights : κ → Option Nat) (f : Nat) :
      ride ⟨flights, heap, g.calls ++ [⟨key, f, .waiting, false⟩]⟩ =
        Function.update g.ride g.calls.length (some (key, f, false)) := by
    funext i
    show ((g.calls ++ [_])[i]?).map _ = _
    rw [getElem?_joined]
    by_cases hi : i = g.calls.length
    · subst hi
      rw [if_pos rfl, Function.update_self]
      rfl
    · rw [if_neg hi, Function.update_of_ne hi]
      rfl
  cases hflight : g.flights key with
  | none =>
    rw [subscribe_of_none hflight]
    refine ⟨g.heap.length, hride _ _ _, .inl ⟨?_, ?_⟩⟩
    · simp [status]
    · funext f
      show ((g.heap ++ [_])[f]?).map _ = _
      rw [getElem?_joined]
      by_cases hf : f = g.heap.length
      · subst hf
        rw [if_pos rfl, Function.update_self]
        rfl
      · rw [if_neg hf, Function.update_of_ne hf]
        rfl
  | some f =>
    obtain ⟨x, hx, -⟩ := h.current key f hflight
    rw [subscribe_of_some hflight hx]
    exact ⟨f, hride _ _ _, .inr ⟨rfl, status_replaced hx rfl rfl⟩⟩

omit [DecidableEq κ] in
theorem ride_length : g.ride g.calls.length = none := by
  simp [ride]

end Steps

section Riders

variable {f : Nat} {key : κ}

omit [DecidableEq κ] in
private theorem Inv.ride_of_call (h : g.Inv) {i : Nat} {c : Call κ ε T}
    (hc : g.calls[i]? = some c) {x : Flight κ ε T} (hx : g.heap[c.flight]? = some x)
    (hended : c.isEnded = false) : g.ride i = some (x.key, c.flight, false) := by
  obtain ⟨y, hy, hkey⟩ := h.joined i c hc
  obtain rfl : x = y := Option.some.inj (hx.symm.trans hy)
  rw [ride, hc, Option.map_some, hended, hkey]

omit [DecidableEq κ] in
theorem Inv.status_of_ride (h : g.Inv) {i : Nat} {ended : Bool}
    (hi : g.ride i = some (key, f, ended)) : ∃ task, g.status f = some (key, task) := by
  obtain ⟨c, hc, hpair⟩ := Option.map_eq_some_iff.mp hi
  obtain ⟨rfl, hrest⟩ := Prod.mk.inj hpair
  obtain ⟨rfl, -⟩ := Prod.mk.inj hrest
  obtain ⟨x, hx, hkey⟩ := h.joined i c hc
  exact ⟨x.task, by rw [status, hx, Option.map_some, hkey]⟩

omit [DecidableEq κ] in
theorem Inv.ridden_of_current (h : g.Inv) (hf : g.flights key = some f) :
    ∃ i, g.ride i = some (key, f, false) := by
  obtain ⟨x, hx, rfl, -, hpos⟩ := h.current key f hf
  have hcount := h.counted f x hx
  obtain ⟨i, c, hc, hweight⟩ := tally_pos.mp (show 0 < tally (subscriber f) g.calls by omega)
  have hsub : c.flight = f ∧ c.subscribed = true := by
    by_contra hnot
    rw [subscriber, if_neg hnot] at hweight
    exact absurd hweight (Nat.lt_irrefl 0)
  obtain ⟨rfl, hsub⟩ := hsub
  refine ⟨i, h.ride_of_call hc hx ?_⟩
  unfold Call.subscribed at hsub
  unfold Call.isEnded
  split
  · rename_i hphase
    rw [hphase] at hsub
    cases hsub
  · rfl

omit [DecidableEq κ] in
/-- So has every flight whose task is not done: its last caller waits for it. -/
theorem Inv.ridden_of_running (h : g.Inv) {task : Task ε T} (hf : g.status f = some (key, task))
    (hdone : task.isDone = false) : ∃ i, g.ride i = some (key, f, false) := by
  obtain ⟨x, hx, hpair⟩ := Option.map_eq_some_iff.mp hf
  obtain ⟨rfl, rfl⟩ := Prod.mk.inj hpair
  by_cases hcurrent : g.flights x.key = some f
  · exact h.ridden_of_current hcurrent
  · obtain ⟨i, c, hc, rfl, hunwinding⟩ := h.unwound f x hx hcurrent hdone
    refine ⟨i, h.ride_of_call hc hx ?_⟩
    unfold Call.isEnded
    split
    · rename_i hphase
      rw [hphase] at hunwinding
      cases hunwinding
    · rfl

end Riders

end Group

end YtdlBot.SingleFlight
