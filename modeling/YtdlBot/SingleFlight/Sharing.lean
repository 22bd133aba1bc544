import YtdlBot.SingleFlight.Group

/-!
# Sharing of one flight

The stored count of a flight is the number of its subscribers, a popped flight is done or
cancelled, and a call that is not cancelled ends with the outcome of the flight it joined.
-/

namespace YtdlBot.SingleFlight

open Framework

variable {κ ε T : Type} [DecidableEq κ]

/-- The weight of a call in the count of flight `f`. -/
def subscriber (f : Nat) (c : Call κ ε T) : Nat := if c.flight = f ∧ c.subscribed then 1 else 0

def Phase.isUnwinding : Phase ε T → Bool
  | .unwinding _ _ => true
  | _ => false

/-- What a call may return or raise: the outcome of its flight, or its own cancellation. -/
def Holds (c : Call κ ε T) (result : Outcome ε T) (task : Task ε T) : Prop :=
  (result = .cancelled ∧ c.cancelled = true) ∨ task = .done result

def Settled (c : Call κ ε T) (task : Task ε T) : Prop :=
  match c.phase with
  | .waiting => True
  | .leaving result cancellation | .unwinding result cancellation | .cleaned result cancellation =>
    (cancellation = true → c.cancelled = true) ∧ Holds c result task
  | .ended result => Holds c result task

omit [DecidableEq κ] in
theorem Holds.of_task {c : Call κ ε T} {result : Outcome ε T} {task task' : Task ε T}
    (h : Holds c result task) (hsame : task.isDone = true → task' = task) :
    Holds c result task' := by
  rcases h with hcancelled | htask
  · exact .inl hcancelled
  · exact .inr ((hsame (by rw [htask]; rfl)).trans htask)

omit [DecidableEq κ] in
theorem Holds.done {c : Call κ ε T} {result : Outcome ε T} {task : Task ε T}
    (h : Holds c result task) (hlive : c.cancelled = false) : task = .done result := by
  rcases h with ⟨-, hcancelled⟩ | htask
  · rw [hlive] at hcancelled
    cases hcancelled
  · exact htask

omit [DecidableEq κ] in
theorem Settled.of_task {c : Call κ ε T} {task task' : Task ε T} (h : Settled c task)
    (hsame : task.isDone = true → task' = task) : Settled c task' := by
  unfold Settled at h ⊢
  cases hphase : c.phase with
  | waiting => trivial
  | leaving result cancellation =>
    rw [hphase] at h
    exact ⟨h.1, h.2.of_task hsame⟩
  | unwinding result cancellation =>
    rw [hphase] at h
    exact ⟨h.1, h.2.of_task hsame⟩
  | cleaned result cancellation =>
    rw [hphase] at h
    exact ⟨h.1, h.2.of_task hsame⟩
  | ended result =>
    rw [hphase] at h
    exact h.of_task hsame

omit [DecidableEq κ] in
theorem Settled.cancelled {c : Call κ ε T} {task : Task ε T} (h : Settled c task)
    (hrunning : task.isDone = false) (hwaiting : c.phase ≠ .waiting) : c.cancelled = true := by
  have hnot : ∀ {outcome : Outcome ε T}, Holds c outcome task → c.cancelled = true := by
    rintro outcome (⟨-, hcancelled⟩ | rfl)
    · exact hcancelled
    · cases hrunning
  unfold Settled at h
  split at h
  next hphase => exact absurd hphase hwaiting
  next => exact hnot h.2
  next => exact hnot h.2
  next => exact hnot h.2
  next => exact hnot h

namespace Group

structure Inv (g : Group κ ε T) : Prop where
  joined : ∀ (i : Nat) c, g.calls[i]? = some c → ∃ x, g.heap[c.flight]? = some x ∧ x.key = c.key
  current : ∀ key f, g.flights key = some f →
    ∃ x, g.heap[f]? = some x ∧ x.key = key ∧ x.cancelled = false ∧ 0 < x.subscribers
  counted : ∀ (f : Nat) x, g.heap[f]? = some x → x.subscribers = (tally (subscriber f) g.calls : Int)
  popped : ∀ (f : Nat) x, g.heap[f]? = some x → g.flights x.key ≠ some f →
    x.subscribers = 0 ∧ (x.task.isDone = true ∨ x.cancelled = true)
  unwound : ∀ (f : Nat) x, g.heap[f]? = some x → g.flights x.key ≠ some f → x.task.isDone = false →
    ∃ (i : Nat) (c : Call κ ε T), g.calls[i]? = some c ∧ c.flight = f ∧ c.phase.isUnwinding = true
  settled : ∀ (i : Nat) c x, g.calls[i]? = some c → g.heap[c.flight]? = some x → Settled c x.task
  abandoned : ∀ (i : Nat) c x, g.calls[i]? = some c → g.heap[c.flight]? = some x →
    x.cancelled = true → c.cancelled = true

variable {g : Group κ ε T}

section Steps

omit [DecidableEq κ] in
theorem inv_initial : Inv (initial : Group κ ε T) := by
  constructor <;> intros <;> simp_all [initial]

omit [DecidableEq κ] in
/-- A subscribed call counts for its flight, which is then the current one of its key. -/
theorem Inv.current_of_subscribed (h : g.Inv) {i : Nat} {c : Call κ ε T}
    (hc : g.calls[i]? = some c) (hsub : c.subscribed = true) : g.flights c.key = some c.flight := by
  obtain ⟨x, hx, hkey⟩ := h.joined i c hc
  by_contra hne
  rw [← hkey] at hne
  have hzero := (h.popped c.flight x hx hne).1
  have hcount := h.counted c.flight x hx
  have hle := le_tally (w := subscriber c.flight) hc
  have hone : subscriber c.flight c = 1 := if_pos ⟨rfl, hsub⟩
  omega

omit [DecidableEq κ] in
theorem Inv.replaceCall (h : g.Inv) {i : Nat} {c c' : Call κ ε T} (hc : g.calls[i]? = some c)
    (hflight : c'.flight = c.flight) (hkey : c'.key = c.key) (hsub : c'.subscribed = c.subscribed)
    (hcancelled : c.cancelled = true → c'.cancelled = true)
    (hsettled : ∀ x, g.heap[c.flight]? = some x → Settled c' x.task)
    (hunwinding : c.phase.isUnwinding = true →
      c'.phase.isUnwinding = true ∨ ∀ x, g.heap[c.flight]? = some x → x.task.isDone = true) :
    Inv { g with calls := g.calls.set i c' } := by
  constructor
  case joined =>
    intro j d hd
    rcases replaced_cases hc hd with ⟨-, rfl⟩ | ⟨-, hd⟩
    · rw [hflight, hkey]
      exact h.joined i c hc
    · exact h.joined j d hd
  case current => exact h.current
  case counted =>
    intro f x hx
    have hcount := h.counted f x hx
    have hmoved := tally_replaced (w := subscriber f) (b := c') hc
    have hsame : subscriber f c' = subscriber f c := by
      rw [subscriber, subscriber, hflight, hsub]
    show x.subscribers = (tally (subscriber f) (g.calls.set i c') : Int)
    omega
  case popped => exact h.popped
  case unwound =>
    intro f x hx hpopped hdone
    obtain ⟨j, d, hd, hdf, hdu⟩ := h.unwound f x hx hpopped hdone
    by_cases hji : j = i
    · subst hji
      obtain rfl : c = d := Option.some.inj (hc.symm.trans hd)
      rcases hunwinding hdu with hstill | hover
      · exact ⟨j, c', getElem?_replaced_self hc, hflight.trans hdf, hstill⟩
      · rw [hdf] at hover
        rw [hover x hx] at hdone
        exact absurd hdone (by decide)
    · exact ⟨j, d, (getElem?_replaced hc).trans ((if_neg hji).trans hd), hdf, hdu⟩
  case settled =>
    intro j d x hd hx
    rcases replaced_cases hc hd with ⟨-, rfl⟩ | ⟨-, hd⟩
    · rw [hflight] at hx
      exact hsettled x hx
    · exact h.settled j d x hd hx
  case abandoned =>
    intro j d x hd hx hx'
    rcases replaced_cases hc hd with ⟨-, rfl⟩ | ⟨-, hd⟩
    · rw [hflight] at hx
      exact hcancelled (h.abandoned i c x hc hx hx')
    · exact h.abandoned j d x hd hx hx'

omit [DecidableEq κ] in
theorem Inv.setTask (h : g.Inv) {f : Nat} {x : Flight κ ε T} (hx : g.heap[f]? = some x)
    (hdone : x.task.isDone = false) (task : Task ε T) :
    Inv (g.setFlight f { x with task := task }) := by
  have hcases : ∀ (f' : Nat) y, (g.setFlight f { x with task := task }).heap[f']? = some y →
      ∃ y₀, g.heap[f']? = some y₀ ∧ y.key = y₀.key ∧ y.subscribers = y₀.subscribers ∧
        y.cancelled = y₀.cancelled ∧ (y₀.task.isDone = true → y.task = y₀.task) := by
    intro f' y hy
    rcases replaced_cases hx hy with ⟨rfl, rfl⟩ | ⟨-, hold⟩
    · refine ⟨x, hx, rfl, rfl, rfl, ?_⟩
      intro htrue
      rw [hdone] at htrue
      cases htrue
    · exact ⟨y, hold, rfl, rfl, rfl, fun _ => rfl⟩
  have hstays : ∀ (f' : Nat) y₀, g.heap[f']? = some y₀ →
      ∃ y, (g.setFlight f { x with task := task }).heap[f']? = some y ∧ y.key = y₀.key ∧
        y.subscribers = y₀.subscribers ∧ y.cancelled = y₀.cancelled := by
    intro f' y₀ hy₀
    rcases replaced_stays (b := { x with task := task }) hx hy₀ with ⟨-, rfl, hnew⟩ | ⟨-, hold⟩
    · exact ⟨_, hnew, rfl, rfl, rfl⟩
    · exact ⟨y₀, hold, rfl, rfl, rfl⟩
  constructor
  case joined =>
    intro i c hc
    obtain ⟨y₀, hy₀, hkey⟩ := h.joined i c hc
    obtain ⟨y, hy, hsame, -⟩ := hstays c.flight y₀ hy₀
    exact ⟨y, hy, hsame.trans hkey⟩
  case current =>
    intro key f' hf'
    obtain ⟨y₀, hy₀, hkey, hcancelled, hpos⟩ := h.current key f' hf'
    obtain ⟨y, hy, hk, hs, hcan⟩ := hstays f' y₀ hy₀
    exact ⟨y, hy, hk.trans hkey, hcan.trans hcancelled, by omega⟩
  case counted =>
    intro f' y hy
    obtain ⟨y₀, hy₀, -, hs, -⟩ := hcases f' y hy
    rw [hs]
    exact h.counted f' y₀ hy₀
  case popped =>
    intro f' y hy hpopped
    obtain ⟨y₀, hy₀, hk, hs, hcan, htask⟩ := hcases f' y hy
    rw [hk] at hpopped
    obtain ⟨hzero, hover⟩ := h.popped f' y₀ hy₀ hpopped
    refine ⟨hs.trans hzero, ?_⟩
    rcases hover with hdone' | hcancelled
    · rw [htask hdone']
      exact .inl hdone'
    · rw [hcan]
      exact .inr hcancelled
  case unwound =>
    intro f' y hy hpopped hrunning
    obtain ⟨y₀, hy₀, hk, -, -, htask⟩ := hcases f' y hy
    rw [hk] at hpopped
    refine h.unwound f' y₀ hy₀ hpopped ?_
    by_contra hdone'
    have htrue : y₀.task.isDone = true := by simpa using hdone'
    rw [htask htrue, htrue] at hrunning
    exact absurd hrunning (by decide)
  case settled =>
    intro i c y hc hy
    obtain ⟨y₀, hy₀, -, -, -, htask⟩ := hcases c.flight y hy
    exact (h.settled i c y₀ hc hy₀).of_task htask
  case abandoned =>
    intro i c y hc hy hcancelled
    obtain ⟨y₀, hy₀, -, -, hcan, -⟩ := hcases c.flight y hy
    exact h.abandoned i c y₀ hc hy₀ (hcan ▸ hcancelled)

theorem subscribe_of_none {key : κ} (hnone : g.flights key = none) :
    g.subscribe key =
      { flights := Function.update g.flights key (some g.heap.length)
        heap := g.heap ++ [⟨key, .created, 1, false⟩]
        calls := g.calls ++ [⟨key, g.heap.length, .waiting, false⟩] } := by
  rw [subscribe, hnone]

theorem subscribe_of_some {key : κ} {f : Nat} {x : Flight κ ε T} (hsome : g.flights key = some f)
    (hx : g.heap[f]? = some x) :
    g.subscribe key =
      { g.setFlight f { x with subscribers := x.subscribers + 1 } with
        calls := g.calls ++ [⟨key, f, .waiting, false⟩] } := by
  obtain ⟨hlt, rfl⟩ := List.getElem?_eq_some_iff.mp hx
  simp only [subscribe, hsome, setFlight, List.modify_eq_set_get _ hlt, List.get_eq_getElem]

section Subscribing

variable {key : κ}

omit [DecidableEq κ] in
theorem Inv.flight_ne_length (h : g.Inv) {i : Nat} {c : Call κ ε T} (hc : g.calls[i]? = some c) :
    c.flight ≠ g.heap.length := by
  obtain ⟨x, hx, -⟩ := h.joined i c hc
  exact ne_length_of_some hx

omit [DecidableEq κ] in
theorem Inv.tally_length (h : g.Inv) : tally (subscriber g.heap.length) g.calls = 0 := by
  rw [tally_eq_zero]
  intro c hc
  obtain ⟨i, hi⟩ := List.mem_iff_getElem?.mp hc
  exact if_neg fun hcon => h.flight_ne_length hi hcon.1

theorem Inv.startFlight (h : g.Inv) (hnone : g.flights key = none) :
    Inv { flights := Function.update g.flights key (some g.heap.length)
          heap := g.heap ++ [⟨key, .created, 1, false⟩]
          calls := g.calls ++ [⟨key, g.heap.length, .waiting, false⟩] } := by
  have hother : ∀ (f : Nat) x,
      Function.update g.flights key (some g.heap.length) x.key ≠ some f →
      g.flights (x : Flight κ ε T).key ≠ some f := by
    intro f x hne hcurrent
    by_cases hkey : x.key = key
    · rw [hkey, hnone] at hcurrent
      cases hcurrent
    · rw [Function.update_of_ne hkey] at hne
      exact hne hcurrent
  constructor
  case joined =>
    intro i c hc
    rcases joined_cases hc with ⟨-, rfl⟩ | ⟨-, hc⟩
    · exact ⟨_, getElem?_joined.trans (if_pos rfl), rfl⟩
    · obtain ⟨x, hx, hkey⟩ := h.joined i c hc
      exact ⟨x, getElem?_joined_of_some hx, hkey⟩
  case current =>
    intro key' f hf
    dsimp only at hf
    by_cases hkey : key' = key
    · subst hkey
      rw [Function.update_self] at hf
      obtain rfl := Option.some.inj hf
      exact ⟨_, getElem?_joined.trans (if_pos rfl), rfl, rfl, Int.one_pos⟩
    · rw [Function.update_of_ne hkey] at hf
      obtain ⟨x, hx, hrest⟩ := h.current key' f hf
      exact ⟨x, getElem?_joined_of_some hx, hrest⟩
  case counted =>
    intro f x hx
    show x.subscribers = (tally (subscriber f) (g.calls ++ [_]) : Int)
    rw [tally_joined]
    rcases joined_cases hx with ⟨rfl, rfl⟩ | ⟨hne, hold⟩
    · rw [h.tally_length]
      simp [subscriber, Call.subscribed]
    · have hcount := h.counted f x hold
      have hzero : subscriber f (⟨key, g.heap.length, .waiting, false⟩ : Call κ ε T) = 0 :=
        if_neg fun hcon => hne hcon.1.symm
      omega
  case popped =>
    intro f x hx hne
    rcases joined_cases hx with ⟨rfl, rfl⟩ | ⟨-, hold⟩
    · exact absurd (Function.update_self ..) hne
    · exact h.popped f x hold (hother f x hne)
  case unwound =>
    intro f x hx hne hdone
    rcases joined_cases hx with ⟨rfl, rfl⟩ | ⟨-, hold⟩
    · exact absurd (Function.update_self ..) hne
    · obtain ⟨i, c, hc, hrest⟩ := h.unwound f x hold (hother f x hne) hdone
      exact ⟨i, c, getElem?_joined_of_some hc, hrest⟩
  case settled =>
    intro i c x hc hx
    rcases joined_cases hc with ⟨-, rfl⟩ | ⟨-, hc⟩
    · trivial
    · rcases joined_cases hx with ⟨hcon, -⟩ | ⟨-, hold⟩
      · exact absurd hcon (h.flight_ne_length hc)
      · exact h.settled i c x hc hold
  case abandoned =>
    intro i c x hc hx hcancelled
    rcases joined_cases hx with ⟨-, rfl⟩ | ⟨hne, hold⟩
    · cases hcancelled
    · rcases joined_cases hc with ⟨-, rfl⟩ | ⟨-, hc⟩
      · exact absurd rfl hne
      · exact h.abandoned i c x hc hold hcancelled

omit [DecidableEq κ] in
theorem Inv.joinFlight (h : g.Inv) {f : Nat} {x : Flight κ ε T} (hflight : g.flights key = some f)
    (hx : g.heap[f]? = some x) :
    Inv { g.setFlight f { x with subscribers := x.subscribers + 1 } with
      calls := g.calls ++ [⟨key, f, .waiting, false⟩] } := by
  obtain ⟨x', hx', hkey, hlive, -⟩ := h.current key f hflight
  obtain rfl : x = x' := Option.some.inj (hx.symm.trans hx')
  constructor
  case joined =>
    intro i c hc
    rcases joined_cases hc with ⟨-, rfl⟩ | ⟨-, hc⟩
    · exact ⟨_, getElem?_replaced_self hx, hkey⟩
    · obtain ⟨y, hy, hkey'⟩ := h.joined i c hc
      rcases replaced_stays (b := { x with subscribers := x.subscribers + 1 }) hx hy with ⟨-, rfl, hnew⟩ | ⟨-, hold⟩
      · exact ⟨_, hnew, hkey'⟩
      · exact ⟨y, hold, hkey'⟩
  case current =>
    intro key' f' hf'
    obtain ⟨y, hy, hkey', hlive', hpos⟩ := h.current key' f' hf'
    rcases replaced_stays (b := { x with subscribers := x.subscribers + 1 }) hx hy with ⟨-, rfl, hnew⟩ | ⟨-, hold⟩
    · refine ⟨_, hnew, hkey', hlive', ?_⟩
      show 0 < y.subscribers + 1
      omega
    · exact ⟨y, hold, hkey', hlive', hpos⟩
  case counted =>
    intro f' y hy
    show y.subscribers = (tally (subscriber f') (g.calls ++ [_]) : Int)
    rw [tally_joined]
    rcases replaced_cases hx hy with ⟨rfl, rfl⟩ | ⟨hne, hold⟩
    · have hcount := h.counted f' x hx
      have hone : subscriber f' (⟨key, f', .waiting, false⟩ : Call κ ε T) = 1 :=
        if_pos ⟨rfl, rfl⟩
      show x.subscribers + 1 = _
      omega
    · have hcount := h.counted f' y hold
      have hzero : subscriber f' (⟨key, f, .waiting, false⟩ : Call κ ε T) = 0 :=
        if_neg fun hcon => hne hcon.1.symm
      omega
  case popped =>
    intro f' y hy hne
    rcases replaced_cases hx hy with ⟨rfl, rfl⟩ | ⟨-, hold⟩
    · exact absurd (hkey ▸ hflight) hne
    · exact h.popped f' y hold hne
  case unwound =>
    intro f' y hy hne hdone
    rcases replaced_cases hx hy with ⟨rfl, rfl⟩ | ⟨-, hold⟩
    · exact absurd (hkey ▸ hflight) hne
    · obtain ⟨i, c, hc, hrest⟩ := h.unwound f' y hold hne hdone
      exact ⟨i, c, getElem?_joined_of_some hc, hrest⟩
  case settled =>
    intro i c y hc hy
    rcases joined_cases hc with ⟨-, rfl⟩ | ⟨-, hc⟩
    · trivial
    · rcases replaced_cases hx hy with ⟨hf, rfl⟩ | ⟨-, hold⟩
      · exact h.settled i c x hc (hf ▸ hx)
      · exact h.settled i c y hc hold
  case abandoned =>
    intro i c y hc hy hcancelled
    rcases replaced_cases hx hy with ⟨-, rfl⟩ | ⟨hne, hold⟩
    · rw [show x.cancelled = true from hcancelled] at hlive
      cases hlive
    · rcases joined_cases hc with ⟨-, rfl⟩ | ⟨-, hc⟩
      · exact absurd rfl hne
      · exact h.abandoned i c y hc hold hcancelled

theorem Inv.subscribe (h : g.Inv) (key : κ) : Inv (g.subscribe key) := by
  cases hflight : g.flights key with
  | none =>
    rw [subscribe_of_none hflight]
    exact h.startFlight hflight
  | some f =>
    obtain ⟨x, hx, -⟩ := h.current key f hflight
    rw [subscribe_of_some hflight hx]
    exact h.joinFlight hflight hx

end Subscribing

section Unsubscribing

variable {i : Nat} {c : Call κ ε T} {x : Flight κ ε T} {result : Outcome ε T} {cancellation : Bool}

theorem unsubscribe_eq (h : g.Inv) (hc : g.calls[i]? = some c)
    (hphase : c.phase = .leaving result cancellation) :
    g.unsubscribe i c x result cancellation =
      if x.subscribers = 1 then
        { flights := Function.update g.flights c.key none
          heap := g.heap.set c.flight
            { x with subscribers := 0, cancelled := x.cancelled || !x.task.isDone }
          calls := g.calls.set i { c with
            phase := if x.task.isDone then .cleaned result cancellation
              else .unwinding result cancellation } }
      else
        { g with
          heap := g.heap.set c.flight { x with subscribers := x.subscribers - 1 }
          calls := g.calls.set i { c with phase := .cleaned result cancellation } } := by
  have hcurrent := h.current_of_subscribed hc (by rw [Call.subscribed, hphase])
  unfold unsubscribe
  rw [if_neg (fun hne => hne hcurrent)]
  by_cases hlast : x.subscribers = 1
  · have hzero : x.subscribers - 1 = 0 := by omega
    rw [if_pos hlast]
    cases hdone : x.task.isDone with
    | true => simp [hzero, hdone, setFlight, setCall]
    | false => simp [hzero, hdone, setFlight, setCall]
  · have hne : ¬ x.subscribers - 1 = 0 := by omega
    simp [hlast, hne, setFlight, setCall]

omit [DecidableEq κ] in
theorem call_before {phase : Phase ε T} (hc : g.calls[i]? = some c) {j : Nat} {d : Call κ ε T}
    (hd : (g.calls.set i { c with phase := phase })[j]? = some d) :
    ∃ d₀, g.calls[j]? = some d₀ ∧ d₀.flight = d.flight ∧ d₀.key = d.key ∧
      d₀.cancelled = d.cancelled := by
  rcases replaced_cases hc hd with ⟨rfl, rfl⟩ | ⟨-, hd⟩
  · exact ⟨c, hc, rfl, rfl, rfl⟩
  · exact ⟨d, hd, rfl, rfl, rfl⟩

section Left

variable {n : Int} {cancelled : Bool} {phase : Phase ε T}

omit [DecidableEq κ] in
theorem Inv.joined_left (h : g.Inv) (hc : g.calls[i]? = some c) (hx : g.heap[c.flight]? = some x)
    (j : Nat) (d : Call κ ε T) (hd : (g.calls.set i { c with phase := phase })[j]? = some d) :
    ∃ y, (g.heap.set c.flight { x with subscribers := n, cancelled := cancelled })[d.flight]? =
      some y ∧ y.key = d.key := by
  obtain ⟨d₀, hd₀, hflight, hkey, -⟩ := call_before hc hd
  obtain ⟨y, hy, hyk⟩ := h.joined j d₀ hd₀
  rw [hflight] at hy
  rcases replaced_stays
      (b := { x with subscribers := n, cancelled := cancelled }) hx hy with ⟨-, rfl, hnew⟩ | ⟨-, hold⟩
  · exact ⟨_, hnew, hyk.trans hkey⟩
  · exact ⟨y, hold, hyk.trans hkey⟩

omit [DecidableEq κ] in
theorem Inv.counted_left (h : g.Inv) (hc : g.calls[i]? = some c) (hx : g.heap[c.flight]? = some x)
    (hsub : c.subscribed = true) (hleft : ({ c with phase := phase } : Call κ ε T).subscribed = false)
    (hn : n = x.subscribers - 1) (f : Nat) (y : Flight κ ε T)
    (hy : (g.heap.set c.flight { x with subscribers := n, cancelled := cancelled })[f]? = some y) :
    y.subscribers = (tally (subscriber f) (g.calls.set i { c with phase := phase }) : Int) := by
  have hmoved := tally_replaced (w := subscriber f) (b := { c with phase := phase }) hc
  have hzero : subscriber f ({ c with phase := phase } : Call κ ε T) = 0 := by
    rw [subscriber, hleft]
    simp
  rcases replaced_cases hx hy with ⟨rfl, rfl⟩ | ⟨hf, hold⟩
  · have hcount := h.counted c.flight x hx
    have hone : subscriber c.flight c = 1 := if_pos ⟨rfl, hsub⟩
    show n = _
    omega
  · have hcount := h.counted f y hold
    have hnone : subscriber f c = 0 := if_neg fun hcon => hf hcon.1.symm
    omega

omit [DecidableEq κ] in
theorem Inv.settled_left (h : g.Inv) (hc : g.calls[i]? = some c) (hx : g.heap[c.flight]? = some x)
    (hphase : c.phase = .leaving result cancellation)
    (hleft : phase = .cleaned result cancellation ∨ phase = .unwinding result cancellation)
    (j : Nat) (d : Call κ ε T) (y : Flight κ ε T)
    (hd : (g.calls.set i { c with phase := phase })[j]? = some d)
    (hy : (g.heap.set c.flight { x with subscribers := n, cancelled := cancelled })[d.flight]? =
      some y) : Settled d y.task := by
  obtain ⟨y₀, hy₀, htask⟩ : ∃ y₀, g.heap[d.flight]? = some y₀ ∧ y.task = y₀.task := by
    rcases replaced_cases hx hy with ⟨hf, rfl⟩ | ⟨-, hold⟩
    · exact ⟨x, hf ▸ hx, rfl⟩
    · exact ⟨y, hold, rfl⟩
  rw [htask]
  rcases replaced_cases hc hd with ⟨-, rfl⟩ | ⟨-, hd⟩
  · have hsettled := h.settled i c y₀ hc hy₀
    rw [Settled, hphase] at hsettled
    rcases hleft with rfl | rfl
    · exact hsettled
    · exact hsettled
  · exact h.settled j d y₀ hd hy₀

end Left

omit [DecidableEq κ] in
theorem Inv.sole_subscriber (h : g.Inv) (hc : g.calls[i]? = some c)
    (hx : g.heap[c.flight]? = some x) (hsub : c.subscribed = true) (hlast : x.subscribers = 1)
    {j : Nat} {d : Call κ ε T} (hd : g.calls[j]? = some d) (hflight : d.flight = c.flight)
    (hdsub : d.subscribed = true) : j = i := by
  by_contra hne
  -- the count without call `i`
  have hcount := h.counted c.flight x hx
  have hmoved := tally_replaced (w := subscriber c.flight) (b := { c with flight := c.flight + 1 }) hc
  have hone : subscriber c.flight c = 1 := if_pos ⟨rfl, hsub⟩
  have hzero : subscriber c.flight { c with flight := c.flight + 1 } = 0 := by simp [subscriber]
  have hd' : (g.calls.set i { c with flight := c.flight + 1 })[j]? = some d :=
    (getElem?_replaced hc).trans ((if_neg hne).trans hd)
  have hle := le_tally (w := subscriber c.flight) hd'
  have hother : subscriber c.flight d = 1 := if_pos ⟨hflight, hdsub⟩
  omega

omit [DecidableEq κ] in
/-- When the last subscriber leaves a task that is not done, every call of the flight was
cancelled. -/
theorem Inv.all_cancelled (h : g.Inv) (hc : g.calls[i]? = some c)
    (hx : g.heap[c.flight]? = some x) (hphase : c.phase = .leaving result cancellation)
    (hlast : x.subscribers = 1) (hrunning : x.task.isDone = false) {j : Nat} {d : Call κ ε T}
    (hd : g.calls[j]? = some d) (hflight : d.flight = c.flight) : d.cancelled = true := by
  refine (h.settled j d x hd (hflight ▸ hx)).cancelled hrunning fun hwaiting => ?_
  have hsub : c.subscribed = true := by rw [Call.subscribed, hphase]
  obtain rfl := h.sole_subscriber hc hx hsub hlast hd hflight (by rw [Call.subscribed, hwaiting])
  obtain rfl : c = d := Option.some.inj (hc.symm.trans hd)
  rw [hwaiting] at hphase
  cases hphase

omit [DecidableEq κ] in
theorem Inv.leaveShared (h : g.Inv) (hc : g.calls[i]? = some c) (hx : g.heap[c.flight]? = some x)
    (hphase : c.phase = .leaving result cancellation) (hlast : x.subscribers ≠ 1) :
    Inv { g with
      heap := g.heap.set c.flight { x with subscribers := x.subscribers - 1 }
      calls := g.calls.set i { c with phase := .cleaned result cancellation } } := by
  have hsub : c.subscribed = true := by rw [Call.subscribed, hphase]
  have hcurrent := h.current_of_subscribed hc hsub
  obtain ⟨x', hx', hkey, hlive, hpos⟩ := h.current c.key c.flight hcurrent
  obtain rfl : x = x' := Option.some.inj (hx.symm.trans hx')
  constructor
  case joined => exact h.joined_left hc hx
  case current =>
    intro key f hf
    obtain ⟨y, hy, hyk, hyc, hyp⟩ := h.current key f hf
    rcases replaced_stays (b := { x with subscribers := x.subscribers - 1 }) hx hy with ⟨-, rfl, hnew⟩ | ⟨-, hold⟩
    · refine ⟨_, hnew, hyk, hyc, ?_⟩
      show 0 < y.subscribers - 1
      omega
    · exact ⟨y, hold, hyk, hyc, hyp⟩
  case counted => exact h.counted_left hc hx hsub rfl rfl
  case popped =>
    intro f y hy hne
    rcases replaced_cases hx hy with ⟨rfl, rfl⟩ | ⟨-, hold⟩
    · exact absurd (hkey ▸ hcurrent) hne
    · exact h.popped f y hold hne
  case unwound =>
    intro f y hy hne hdone
    rcases replaced_cases hx hy with ⟨rfl, rfl⟩ | ⟨-, hold⟩
    · exact absurd (hkey ▸ hcurrent) hne
    · obtain ⟨j, d, hd, hdf, hdu⟩ := h.unwound f y hold hne hdone
      rcases replaced_stays (b := { c with phase := .cleaned result cancellation }) hc hd with ⟨-, rfl, -⟩ | ⟨-, hstays⟩
      · rw [hphase] at hdu
        cases hdu
      · exact ⟨j, d, hstays, hdf, hdu⟩
  case settled => exact h.settled_left hc hx hphase (.inl rfl)
  case abandoned =>
    intro j d y hd hy hcan
    obtain ⟨d₀, hd₀, hflight, -, hcancelled⟩ := call_before hc hd
    rw [← hcancelled]
    rcases replaced_cases hx hy with ⟨-, rfl⟩ | ⟨-, hold⟩
    · rw [show x.cancelled = true from hcan] at hlive
      cases hlive
    · exact h.abandoned j d₀ y hd₀ (hflight ▸ hold) hcan

theorem Inv.leaveLast (h : g.Inv) (hc : g.calls[i]? = some c) (hx : g.heap[c.flight]? = some x)
    (hphase : c.phase = .leaving result cancellation) (hlast : x.subscribers = 1) :
    Inv {
      flights := Function.update g.flights c.key none
      heap := g.heap.set c.flight
        { x with subscribers := 0, cancelled := x.cancelled || !x.task.isDone }
      calls := g.calls.set i { c with
        phase := if x.task.isDone then .cleaned result cancellation
          else .unwinding result cancellation } } := by
  have hsub : c.subscribed = true := by rw [Call.subscribed, hphase]
  have hcurrent := h.current_of_subscribed hc hsub
  obtain ⟨x', hx', hkey, hlive, -⟩ := h.current c.key c.flight hcurrent
  obtain rfl : x = x' := Option.some.inj (hx.symm.trans hx')
  have hother : ∀ (f : Nat) (y : Flight κ ε T), f ≠ c.flight →
      Function.update g.flights c.key none y.key ≠ some f → g.flights y.key ≠ some f := by
    intro f y hf hne hcur
    by_cases hk : y.key = c.key
    · rw [hk, hcurrent] at hcur
      exact hf (Option.some.inj hcur).symm
    · rw [Function.update_of_ne hk] at hne
      exact hne hcur
  constructor
  case joined => exact h.joined_left hc hx
  case current =>
    intro key f hf
    dsimp only at hf
    by_cases hk : key = c.key
    · subst hk
      rw [Function.update_self] at hf
      cases hf
    · rw [Function.update_of_ne hk] at hf
      obtain ⟨y, hy, hyk, hrest⟩ := h.current key f hf
      have hne : c.flight ≠ f := by
        rintro rfl
        obtain rfl : x = y := Option.some.inj (hx.symm.trans hy)
        exact hk (hyk.symm.trans hkey)
      exact ⟨y, (List.getElem?_set_ne hne).trans hy, hyk, hrest⟩
  case counted =>
    refine h.counted_left hc hx hsub ?_ (by omega)
    cases x.task.isDone with
    | true => rfl
    | false => rfl
  case popped =>
    intro f y hy hne
    rcases replaced_cases hx hy with ⟨rfl, rfl⟩ | ⟨hf, hold⟩
    · refine ⟨rfl, ?_⟩
      cases hdone : x.task.isDone with
      | true => exact .inl rfl
      | false => exact .inr (by simp)
    · exact h.popped f y hold (hother f y hf hne)
  case unwound =>
    intro f y hy hne hdone
    rcases replaced_cases hx hy with ⟨rfl, rfl⟩ | ⟨hf, hold⟩
    · refine ⟨i, _, getElem?_replaced_self hc, rfl, ?_⟩
      rw [if_neg (by simpa using hdone)]
      rfl
    · obtain ⟨j, d, hd, hdf, hdu⟩ := h.unwound f y hold (hother f y hf hne) hdone
      have hne : i ≠ j := by
        rintro rfl
        obtain rfl : c = d := Option.some.inj (hc.symm.trans hd)
        rw [hphase] at hdu
        cases hdu
      exact ⟨j, d, (List.getElem?_set_ne hne).trans hd, hdf, hdu⟩
  case settled =>
    refine h.settled_left hc hx hphase ?_
    cases x.task.isDone with
    | true => exact .inl rfl
    | false => exact .inr rfl
  case abandoned =>
    intro j d y hd hy hcan
    obtain ⟨d₀, hd₀, hflight, -, hcancelled⟩ := call_before hc hd
    rw [← hcancelled]
    rcases replaced_cases hx hy with ⟨hf, rfl⟩ | ⟨-, hold⟩
    · have hrunning : x.task.isDone = false := by simpa [hlive] using hcan
      exact h.all_cancelled hc hx hphase hlast hrunning hd₀ (hflight.trans hf)
    · exact h.abandoned j d₀ y hd₀ (hflight ▸ hold) hcan

theorem Inv.unsubscribe (h : g.Inv) (hc : g.calls[i]? = some c) (hx : g.heap[c.flight]? = some x)
    (hphase : c.phase = .leaving result cancellation) :
    Inv (g.unsubscribe i c x result cancellation) := by
  rw [unsubscribe_eq h hc hphase]
  by_cases hlast : x.subscribers = 1
  · rw [if_pos hlast]
    exact h.leaveLast hc hx hphase hlast
  · rw [if_neg hlast]
    exact h.leaveShared hc hx hphase hlast

end Unsubscribing

omit [DecidableEq κ] in
theorem Inv.cancelCall (h : g.Inv) {i : Nat} {c : Call κ ε T} (hc : g.calls[i]? = some c) :
    Inv { g with calls := g.calls.set i (Group.cancelCall c) } := by
  obtain ⟨key, flight, phase, cancelled⟩ := c
  refine h.replaceCall hc ?_ ?_ ?_ ?_ ?_ ?_
  · cases phase <;> rfl
  · cases phase <;> rfl
  · cases phase <;> rfl
  · intro hcancelled
    cases phase with
    | ended result => exact hcancelled
    | _ => rfl
  · intro x hx
    have hold := h.settled i _ x hc hx
    cases phase with
    | waiting => exact ⟨nofun, .inl ⟨rfl, rfl⟩⟩
    | leaving result cancellation =>
      exact ⟨fun _ => rfl, hold.2.imp (fun hrest => ⟨hrest.1, rfl⟩) id⟩
    | unwinding result cancellation =>
      exact ⟨fun _ => rfl, hold.2.imp (fun hrest => ⟨hrest.1, rfl⟩) id⟩
    | cleaned result cancellation =>
      exact ⟨fun _ => rfl, hold.2.imp (fun hrest => ⟨hrest.1, rfl⟩) id⟩
    | ended result => exact hold
  · intro hunwinding
    cases phase with
    | unwinding result cancellation => exact .inl rfl
    | _ => cases hunwinding

theorem inv_step {g' : Group κ ε T} {a : Action κ ε T} (h : g.Inv) (hstep : g.step a = some g') :
    g'.Inv := by
  cases a with
  | «do» key markers task =>
    simp only [step] at hstep
    split at hstep
    · exact Option.some.inj hstep ▸ h
    · exact Option.some.inj hstep ▸ h.subscribe key
  | start f =>
    obtain ⟨x, hx, hstep⟩ := Option.bind_eq_some_iff.mp hstep
    split at hstep
    · rename_i htask
      obtain rfl := Option.some.inj hstep
      exact h.setTask hx (by rw [htask]; rfl) _
    · cases hstep
  | finish f outcome =>
    obtain ⟨x, hx, hstep⟩ := Option.bind_eq_some_iff.mp hstep
    split at hstep
    · rename_i htask
      obtain rfl := Option.some.inj hstep
      exact h.setTask hx (by rw [htask]; rfl) _
    · cases hstep
  | wake i =>
    obtain ⟨c, hc, hstep⟩ := Option.bind_eq_some_iff.mp hstep
    split at hstep
    · rename_i outcome hphase htask
      obtain rfl := Option.some.inj hstep
      refine h.replaceCall hc rfl rfl ?_ id ?_ ?_
      · simp only [Call.subscribed, hphase]
      · intro x hx
        rw [hx, Option.map_some, Option.some.injEq] at htask
        exact ⟨nofun, .inr htask⟩
      · intro hunwinding
        rw [hphase] at hunwinding
        cases hunwinding
    · cases hstep
  | cancel i =>
    obtain ⟨c, hc, rfl⟩ := Option.map_eq_some_iff.mp hstep
    exact h.cancelCall hc
  | unsubscribe i =>
    obtain ⟨c, hc, hstep⟩ := Option.bind_eq_some_iff.mp hstep
    split at hstep
    · rename_i result cancellation x hphase hx
      obtain rfl := Option.some.inj hstep
      exact h.unsubscribe hc hx hphase
    · cases hstep
  | unwound i =>
    obtain ⟨c, hc, hstep⟩ := Option.bind_eq_some_iff.mp hstep
    split at hstep
    · rename_i result cancellation outcome hphase htask
      obtain rfl := Option.some.inj hstep
      refine h.replaceCall hc rfl rfl ?_ id ?_ ?_
      · simp only [Call.subscribed, hphase]
      · intro x hx
        have hold := h.settled i c x hc hx
        rw [Settled, hphase] at hold
        exact hold
      · intro _
        refine .inr fun x hx => ?_
        rw [hx, Option.map_some, Option.some.injEq] at htask
        rw [htask]
        rfl
    · cases hstep
  | «return» i =>
    obtain ⟨c, hc, hstep⟩ := Option.bind_eq_some_iff.mp hstep
    split at hstep
    · rename_i result cancellation hphase
      obtain rfl := Option.some.inj hstep
      refine h.replaceCall hc rfl rfl ?_ id ?_ ?_
      · simp only [Call.subscribed, hphase]
      · intro x hx
        have hold := h.settled i c x hc hx
        rw [Settled, hphase] at hold
        cases cancellation with
        | true => exact .inl ⟨rfl, hold.1 rfl⟩
        | false => exact hold.2
      · intro hunwinding
        rw [hphase] at hunwinding
        cases hunwinding
    · cases hstep

theorem inv_run {actions : List (Action κ ε T)}
    (hrun : (machine κ ε T).run initial actions = some g) : g.Inv :=
  (machine κ ε T).invariant (fun _ _ _ hinv hstep => inv_step hinv hstep) inv_initial hrun

end Steps

/-- The calls that have subscribed to flight `f` and not unsubscribed. -/
def subscribers (g : Group κ ε T) (f : Nat) : List (Call κ ε T) :=
  g.calls.filter fun c => decide (c.flight = f) && c.subscribed

omit [DecidableEq κ] in
theorem length_subscribers (f : Nat) : (g.subscribers f).length = tally (subscriber f) g.calls := by
  rw [subscribers, length_filter_eq_tally]
  refine tally_congr fun c _ => ?_
  simp only [subscriber, Bool.and_eq_true, decide_eq_true_eq]

section Sharing

omit [DecidableEq κ] in
theorem Inv.one_running (h : g.Inv) {f f' : Nat} {x x' : Flight κ ε T} (hx : g.heap[f]? = some x)
    (hx' : g.heap[f']? = some x') (hkey : x.key = x'.key) (hdone : x.task.isDone = false)
    (hdone' : x'.task.isDone = false) (hlive : x.cancelled = false) (hlive' : x'.cancelled = false) :
    f = f' := by
  have hcurrent {f : Nat} {x : Flight κ ε T} (hx : g.heap[f]? = some x)
      (hdone : x.task.isDone = false) (hlive : x.cancelled = false) : g.flights x.key = some f := by
    by_contra hne
    rcases (h.popped f x hx hne).2 with htrue | htrue
    · rw [hdone] at htrue
      cases htrue
    · rw [hlive] at htrue
      cases htrue
  have hf := hcurrent hx hdone hlive
  rw [hkey, hcurrent hx' hdone' hlive'] at hf
  exact (Option.some.inj hf).symm

omit [DecidableEq κ] in
theorem cancelled_replaced {f f₀ : Nat} {x x' y y' : Flight κ ε T} (hy : g.heap[f₀]? = some y)
    (hx : g.heap[f]? = some x) (hx' : (g.heap.set f₀ y')[f]? = some x')
    (hsame : y'.cancelled = y.cancelled) : x'.cancelled = x.cancelled := by
  rcases replaced_cases hy hx' with ⟨rfl, rfl⟩ | ⟨-, hold⟩
  · rw [hsame, Option.some.inj (hy.symm.trans hx)]
  · rw [Option.some.inj (hold.symm.trans hx)]

theorem Inv.cancelled_subscribe (h : g.Inv) (key : κ) {f : Nat} {x x' : Flight κ ε T}
    (hx : g.heap[f]? = some x) (hx' : (g.subscribe key).heap[f]? = some x') :
    x'.cancelled = x.cancelled := by
  cases hflight : g.flights key with
  | none =>
    rw [subscribe_of_none hflight] at hx'
    rw [Option.some.inj ((getElem?_joined_of_some hx).symm.trans hx')]
  | some f₀ =>
    obtain ⟨y, hy, -⟩ := h.current key f₀ hflight
    rw [subscribe_of_some hflight hy] at hx'
    exact cancelled_replaced hy hx hx' rfl

/-- Only a subscriber that leaves cancels a flight. -/
theorem Inv.cancelled_eq (h : g.Inv) {g' : Group κ ε T} {a : Action κ ε T}
    (hstep : g.step a = some g') (ha : ∀ i, a ≠ .unsubscribe i) {f : Nat} {x x' : Flight κ ε T}
    (hx : g.heap[f]? = some x) (hx' : g'.heap[f]? = some x') : x'.cancelled = x.cancelled := by
  have hkeeps (hheap : g'.heap = g.heap) : x'.cancelled = x.cancelled := by
    rw [hheap] at hx'
    rw [Option.some.inj (hx'.symm.trans hx)]
  cases a with
  | «do» key markers task =>
    simp only [step] at hstep
    split at hstep
    · exact hkeeps (by rw [← Option.some.inj hstep])
    · obtain rfl := Option.some.inj hstep
      exact h.cancelled_subscribe key hx hx'
  | start f₀ =>
    obtain ⟨y, hy, hstep⟩ := Option.bind_eq_some_iff.mp hstep
    split at hstep
    · obtain rfl := Option.some.inj hstep
      exact cancelled_replaced hy hx hx' rfl
    · cases hstep
  | finish f₀ outcome =>
    obtain ⟨y, hy, hstep⟩ := Option.bind_eq_some_iff.mp hstep
    split at hstep
    · obtain rfl := Option.some.inj hstep
      exact cancelled_replaced hy hx hx' rfl
    · cases hstep
  | wake i =>
    obtain ⟨c, hc, hstep⟩ := Option.bind_eq_some_iff.mp hstep
    split at hstep
    · exact hkeeps (by rw [← Option.some.inj hstep]; rfl)
    · cases hstep
  | cancel i =>
    obtain ⟨c, hc, rfl⟩ := Option.map_eq_some_iff.mp hstep
    exact hkeeps rfl
  | unsubscribe i => exact absurd rfl (ha i)
  | unwound i =>
    obtain ⟨c, hc, hstep⟩ := Option.bind_eq_some_iff.mp hstep
    split at hstep
    · exact hkeeps (by rw [← Option.some.inj hstep]; rfl)
    · cases hstep
  | «return» i =>
    obtain ⟨c, hc, hstep⟩ := Option.bind_eq_some_iff.mp hstep
    split at hstep
    · exact hkeeps (by rw [← Option.some.inj hstep]; rfl)
    · cases hstep

theorem Inv.cancelled_unsubscribe (h : g.Inv) {i : Nat} {c : Call κ ε T} {y : Flight κ ε T}
    (hc : g.calls[i]? = some c) (hy : g.heap[c.flight]? = some y) {result : Outcome ε T}
    {cancellation : Bool} (hphase : c.phase = .leaving result cancellation) {f : Nat}
    {x x' : Flight κ ε T} (hx : g.heap[f]? = some x)
    (hx' : (g.unsubscribe i c y result cancellation).heap[f]? = some x')
    (hlive : x.cancelled = false) (hcancelled : x'.cancelled = true) :
    x.task.isDone = false ∧ (g.subscribers f).length = 1 ∧
      ((g.unsubscribe i c y result cancellation).subscribers f).length = 0 := by
  have hsub : c.subscribed = true := by rw [Call.subscribed, hphase]
  have hchanged : x'.cancelled ≠ x.cancelled := by simp [hlive, hcancelled]
  rw [length_subscribers, length_subscribers]
  rw [unsubscribe_eq h hc hphase] at hx' ⊢
  by_cases hlast : y.subscribers = 1
  · rw [if_pos hlast] at hx' ⊢
    rcases replaced_cases hy hx' with ⟨rfl, rfl⟩ | ⟨-, hold⟩
    · obtain rfl : x = y := Option.some.inj (hx.symm.trans hy)
      have hdone : x.task.isDone = false := by simpa [hlive] using hcancelled
      have hcount := h.counted c.flight x hx
      have hcount' := (h.leaveLast hc hx hphase hlast).counted c.flight _ (getElem?_replaced_self hx)
      exact ⟨hdone, by omega, Int.ofNat_eq_zero.mp hcount'.symm⟩
    · exact absurd (congrArg Flight.cancelled (Option.some.inj (hold.symm.trans hx))) hchanged
  · rw [if_neg hlast] at hx'
    exact absurd (cancelled_replaced hy hx hx' rfl) hchanged

/-- The group cancels a flight in the step in which its last subscriber leaves. -/
theorem Inv.cancelled_step (h : g.Inv) {g' : Group κ ε T} {a : Action κ ε T}
    (hstep : g.step a = some g') {f : Nat} {x x' : Flight κ ε T} (hx : g.heap[f]? = some x)
    (hx' : g'.heap[f]? = some x') (hlive : x.cancelled = false) (hcancelled : x'.cancelled = true) :
    x.task.isDone = false ∧ (g.subscribers f).length = 1 ∧ (g'.subscribers f).length = 0 := by
  by_cases ha : ∃ i, a = .unsubscribe i
  · obtain ⟨i, rfl⟩ := ha
    obtain ⟨c, hc, hstep⟩ := Option.bind_eq_some_iff.mp hstep
    split at hstep
    · rename_i result cancellation y hphase hy
      obtain rfl := Option.some.inj hstep
      exact h.cancelled_unsubscribe hc hy hphase hx hx' hlive hcancelled
    · cases hstep
  · have hsame := h.cancelled_eq hstep (fun i hi => ha ⟨i, hi⟩) hx hx'
    rw [hlive, hcancelled] at hsame
    cases hsame

end Sharing

section Progress

variable {i : Nat} {c : Call κ ε T} {x : Flight κ ε T} {outcome : Outcome ε T}

/-- Call `i` can be brought to its end, which is `outcome`. -/
def CanEnd (g : Group κ ε T) (i : Nat) (outcome : Outcome ε T) : Prop :=
  ∃ actions g' c, (machine κ ε T).run g actions = some g' ∧ g'.calls[i]? = some c ∧
    c.phase = .ended outcome ∧ c.cancelled = false

theorem CanEnd.step {g' : Group κ ε T} {a : Action κ ε T} (hstep : g.step a = some g')
    (h : g'.CanEnd i outcome) : g.CanEnd i outcome := by
  obtain ⟨actions, t, c, hrun, hrest⟩ := h
  exact ⟨a :: actions, t, c, (machine κ ε T).run_cons_eq_some.mpr ⟨g', hstep, hrun⟩, hrest⟩

theorem canEnd_cleaned (hc : g.calls[i]? = some c) (hlive : c.cancelled = false)
    (hphase : c.phase = .cleaned outcome false) : g.CanEnd i outcome := by
  have hstep : g.step (.return i) = some (g.setCall i c (.ended outcome)) := by
    simp [Group.step, hc, hphase]
  refine CanEnd.step hstep ⟨[], _, { c with phase := .ended outcome }, rfl, ?_, rfl, hlive⟩
  exact getElem?_replaced_self hc

theorem canEnd_unwinding (hc : g.calls[i]? = some c) (hlive : c.cancelled = false)
    (hx : g.heap[c.flight]? = some x) (htask : x.task = .done outcome)
    (hphase : c.phase = .unwinding outcome false) : g.CanEnd i outcome := by
  have hstep : g.step (.unwound i) = some (g.setCall i c (.cleaned outcome false)) := by
    simp [Group.step, hc, hphase, hx, htask]
  refine CanEnd.step hstep (canEnd_cleaned (c := { c with phase := .cleaned outcome false }) ?_
    hlive rfl)
  exact getElem?_replaced_self hc

theorem Inv.canEnd_leaving (h : g.Inv) (hc : g.calls[i]? = some c) (hlive : c.cancelled = false)
    (hx : g.heap[c.flight]? = some x) (htask : x.task = .done outcome)
    (hphase : c.phase = .leaving outcome false) : g.CanEnd i outcome := by
  have hstep : g.step (.unsubscribe i) = some (g.unsubscribe i c x outcome false) := by
    simp [Group.step, hc, hphase, hx]
  have hdone : x.task.isDone = true := by rw [htask]; rfl
  refine CanEnd.step hstep (canEnd_cleaned (c := { c with phase := .cleaned outcome false }) ?_
    hlive rfl)
  rw [unsubscribe_eq h hc hphase, hdone]
  split
  · exact getElem?_replaced_self hc
  · exact getElem?_replaced_self hc

/-- A call that is not cancelled can end with the outcome of its flight once that is done. -/
theorem Inv.canEnd (h : g.Inv) (hc : g.calls[i]? = some c) (hlive : c.cancelled = false)
    (hx : g.heap[c.flight]? = some x) (htask : x.task = .done outcome) : g.CanEnd i outcome := by
  have hsettled := h.settled i c x hc hx
  rw [Settled, htask] at hsettled
  cases hphase : c.phase with
  | waiting =>
    have hstep : g.step (.wake i) = some (g.setCall i c (.leaving outcome false)) := by
      simp [Group.step, hc, hphase, hx, htask]
    refine CanEnd.step hstep (Inv.canEnd_leaving (inv_step h hstep)
      (c := { c with phase := .leaving outcome false }) ?_ hlive hx htask rfl)
    exact getElem?_replaced_self hc
  | leaving result cancellation =>
    rw [hphase] at hsettled
    obtain rfl := Task.done.inj (hsettled.2.done hlive)
    obtain rfl : cancellation = false := by
      by_contra htrue
      rw [hsettled.1 (by simpa using htrue)] at hlive
      cases hlive
    exact h.canEnd_leaving hc hlive hx htask hphase
  | unwinding result cancellation =>
    rw [hphase] at hsettled
    obtain rfl := Task.done.inj (hsettled.2.done hlive)
    obtain rfl : cancellation = false := by
      by_contra htrue
      rw [hsettled.1 (by simpa using htrue)] at hlive
      cases hlive
    exact canEnd_unwinding hc hlive hx htask hphase
  | cleaned result cancellation =>
    rw [hphase] at hsettled
    obtain rfl := Task.done.inj (hsettled.2.done hlive)
    obtain rfl : cancellation = false := by
      by_contra htrue
      rw [hsettled.1 (by simpa using htrue)] at hlive
      cases hlive
    exact canEnd_cleaned hc hlive hphase
  | ended result =>
    rw [hphase] at hsettled
    obtain rfl := Task.done.inj (hsettled.done hlive)
    exact ⟨[], g, c, rfl, hc, hphase, hlive⟩

end Progress

/-- What single flight guarantees in every state of every interleaving. -/
theorem single_flight (actions : List (Action κ ε T)) (g : Group κ ε T)
    (hrun : (machine κ ε T).run initial actions = some g) :
    -- a key has an entry exactly while its current flight has subscribers, and they are counted
    (∀ key f, g.flights key = some f → g.subscribers f ≠ [] ∧
      ∃ x, g.heap[f]? = some x ∧ x.key = key ∧ x.subscribers = (g.subscribers f).length) ∧
    (∀ c ∈ g.calls, c.subscribed = true → g.flights c.key = some c.flight) ∧
    -- at most one factory of a key that the group has not cancelled is not done
    (∀ (f f' : Nat) x x', g.heap[f]? = some x → g.heap[f']? = some x' → x.key = x'.key →
      x.task.isDone = false → x'.task.isDone = false → x.cancelled = false →
      x'.cancelled = false → f = f') ∧
    -- the group cancels a factory only when its last subscriber leaves before it is done
    (∀ a g' (f : Nat) x x', g.step a = some g' → g.heap[f]? = some x → g'.heap[f]? = some x' →
      x.cancelled = false → x'.cancelled = true →
      x.task.isDone = false ∧ (g.subscribers f).length = 1 ∧ (g'.subscribers f).length = 0) ∧
    -- a call that is not cancelled shares a flight the group never cancels, and its outcome
    (∀ (i : Nat) c, g.calls[i]? = some c → c.cancelled = false →
      ∃ x, g.heap[c.flight]? = some x ∧ x.key = c.key ∧ x.cancelled = false ∧
        (∀ outcome, c.phase = .ended outcome → x.task = .done outcome) ∧
        ∀ outcome, x.task = .done outcome → g.CanEnd i outcome) := by
  have h := inv_run hrun
  refine ⟨?_, ?_, ?_, ?_, ?_⟩
  · intro key f hf
    obtain ⟨x, hx, hkey, -, hpos⟩ := h.current key f hf
    have hcount := h.counted f x hx
    rw [← length_subscribers] at hcount
    refine ⟨?_, x, hx, hkey, hcount⟩
    intro hnil
    rw [hnil, List.length_nil] at hcount
    omega
  · intro c hc hsub
    obtain ⟨i, hi⟩ := List.mem_iff_getElem?.mp hc
    exact h.current_of_subscribed hi hsub
  · intro f f' x x' hx hx' hkey hdone hdone' hlive hlive'
    exact h.one_running hx hx' hkey hdone hdone' hlive hlive'
  · intro a g' f x x' hstep hx hx' hlive hcancelled
    exact h.cancelled_step hstep hx hx' hlive hcancelled
  · intro i c hc hlive
    obtain ⟨x, hx, hkey⟩ := h.joined i c hc
    refine ⟨x, hx, hkey, ?_, ?_, ?_⟩
    · by_contra hcancelled
      rw [h.abandoned i c x hc hx (by simpa using hcancelled)] at hlive
      cases hlive
    · intro outcome hphase
      have hsettled := h.settled i c x hc hx
      rw [Settled, hphase] at hsettled
      exact hsettled.done hlive
    · intro outcome htask
      exact h.canEnd hc hlive hx htask

/-- One of two callers is cancelled; the other gets the value. -/
theorem single_flight_shared :
    ∃ g : Group Nat Unit Nat, (machine Nat Unit Nat).run initial
        [.do 5 [] none, .do 5 [] none, .start 0, .cancel 0, .unsubscribe 0, .finish 0 (.value 8),
          .wake 1, .unsubscribe 1, .return 1] = some g ∧
      (g.calls[1]?.map Call.phase) = some (.ended (.value 8)) ∧
      ∀ (i : Nat) c, g.calls[i]? = some c → c.cancelled = false →
        ∃ x, g.heap[c.flight]? = some x ∧ x.cancelled = false ∧
          ∀ outcome, c.phase = .ended outcome → x.task = .done outcome := by
  refine ⟨_, rfl, rfl, ?_⟩
  intro i c hc hlive
  obtain ⟨x, hx, -, hcancelled, hended, -⟩ := (single_flight (κ := Nat) (ε := Unit) (T := Nat)
    [.do 5 [] none, .do 5 [] none, .start 0, .cancel 0, .unsubscribe 0, .finish 0 (.value 8),
      .wake 1, .unsubscribe 1, .return 1] _ rfl).2.2.2.2 i c hc hlive
  exact ⟨x, hx, hcancelled, hended⟩

end Group

end YtdlBot.SingleFlight
