import YtdlBot.Materialization.Users

/-!
# Every shared item is released once

The counts in the tables are the users that have not left, every factory that may still publish
has a user waiting for it, and a published record outlives all users of its key. An item that is
published while another one is, is lost.
-/

namespace YtdlBot.Materialization

open Framework
open SingleFlight (Group Outcome Task)

variable {κ ε : Type} [DecidableEq κ]

/-- The weight of a user in the count of a key. -/
def present (key : κ) (user : User κ) : Nat :=
  if user.key = key ∧ user.phase ≠ .left then 1 else 0

/-- Each call of the group that has not ended is one user's. -/
structure Links (users : List (User κ)) (ride : Nat → Option (κ × Nat × Bool)) : Prop where
  riding : ∀ (u : Nat) user call, users[u]? = some user → user.phase = .flying call →
    ∃ f, ride call = some (user.key, f, false)
  carried : ∀ call key f, ride call = some (key, f, false) →
    ∃ (u : Nat) (user : User κ), users[u]? = some user ∧ user.phase = .flying call
  alone : ∀ (u v : Nat) user user' call, users[u]? = some user → users[v]? = some user' →
    user.phase = .flying call → user'.phase = .flying call → u = v

/-- The tables count the users that have not left. -/
structure Counted (users : List (User κ)) (ready : κ → Option ReadyMaterialization)
    (pending : κ → Option Int) : Prop where
  shared : ∀ key record, ready key = some record →
    record.users = (tally (present key) users : Int) ∧ pending key = none ∧
      0 < tally (present key) users
  waiting : ∀ key, ready key = none →
    pending key = if tally (present key) users = 0 then none
      else some (tally (present key) users : Int)

/-- Where each item is. -/
structure Items (users : List (User κ)) (ride : Nat → Option (κ × Nat × Bool))
    (status : Nat → Option (κ × Task ε Item)) (factories : Nat → FactoryPhase)
    (ready : κ → Option ReadyMaterialization) (released : List Item) : Prop where
  begun : ∀ f, factories f ≠ .working → ∃ key task, status f = some (key, task) ∧ task ≠ .created
  busy : ∀ f, factories f = .completed ∨ factories f = .publishing →
    ∃ key, status f = some (key, .running)
  value : ∀ f key item, status f = some (key, .done (.value item)) →
    item = f ∧ factories f = .published
  unreleased : ∀ f, factories f ≠ .raising → factories f ≠ .published → released.count f = 0
  published : ∀ f key task, factories f = .published → status f = some (key, task) →
    ((∃ record, ready key = some record ∧ record.item = f) ∧ released.count f = 0) ∨
      ((∀ record, ready key = some record → record.item ≠ f) ∧ released.count f = 1)
  record : ∀ key record, ready key = some record → factories record.item = .published ∧
    ∃ task, status record.item = some (key, task)
  awaited : ∀ call key f, ride call = some (key, f, false) → factories f = .published →
    ∃ record, ready key = some record ∧ record.item = f
  given : ∀ (u : Nat) user f, users[u]? = some user → user.item = some f → user.phase ≠ .left →
    ∃ record, ready user.key = some record ∧ record.item = f

structure Inv (s : Pipeline κ ε) : Prop where
  group : s.materializeFlights.Inv
  links : Links s.users s.materializeFlights.ride
  counted : Counted s.users s.materializedReady s.materializedPendingUsers
  items : Items s.users s.materializeFlights.ride s.materializeFlights.status s.factories
    s.materializedReady s.released

section Users

variable {users : List (User κ)} {ride : Nat → Option (κ × Nat × Bool)}
  {status : Nat → Option (κ × Task ε Item)} {factories : Nat → FactoryPhase}
  {ready : κ → Option ReadyMaterialization} {pending : κ → Option Int} {released : List Item}
  {u : Nat} {user new : User κ}

theorem present_self (h : user.phase ≠ .left) : present user.key user = 1 := if_pos ⟨rfl, h⟩

theorem present_other {key : κ} (h : user.key ≠ key) : present key user = 0 :=
  if_neg fun hcon => h hcon.1

theorem present_left {key : κ} (h : user.phase = .left) : present key user = 0 :=
  if_neg fun hcon => hcon.2 h

theorem present_pos (hu : users[u]? = some user) (h : user.phase ≠ .left) :
    0 < tally (present user.key) users := by
  have hle := le_tally (w := present user.key) hu
  have hone := present_self h
  omega

omit [DecidableEq κ] in
theorem Links.replace (h : Links users ride) (hu : users[u]? = some user) (new : User κ)
    (hold : ∀ call, user.phase ≠ .flying call) (hnew : ∀ call, new.phase ≠ .flying call) :
    Links (users.set u new) ride := by
  constructor
  case riding =>
    intro v other call hv hphase
    rcases replaced_cases hu hv with ⟨-, rfl⟩ | ⟨-, hv⟩
    · exact absurd hphase (hnew call)
    · exact h.riding v other call hv hphase
  case carried =>
    intro call key f hride
    obtain ⟨v, other, hv, hphase⟩ := h.carried call key f hride
    have hvu : v ≠ u := by
      rintro rfl
      obtain rfl : user = other := Option.some.inj (hu.symm.trans hv)
      exact hold call hphase
    exact ⟨v, other, (getElem?_replaced hu).trans ((if_neg hvu).trans hv), hphase⟩
  case alone =>
    intro v w other other' call hv hw hphase hphase'
    rw [getElem?_replaced hu] at hv hw
    split at hv
    · obtain rfl := Option.some.inj hv
      exact absurd hphase (hnew call)
    · split at hw
      · obtain rfl := Option.some.inj hw
        exact absurd hphase' (hnew call)
      · exact h.alone v w other other' call hv hw hphase hphase'

omit [DecidableEq κ] in
theorem Links.join (h : Links users ride) (hnew : ∀ call, new.phase ≠ .flying call) :
    Links (users ++ [new]) ride := by
  constructor
  case riding =>
    intro v other call hv hphase
    rcases joined_cases hv with ⟨-, rfl⟩ | ⟨-, hv⟩
    · exact absurd hphase (hnew call)
    · exact h.riding v other call hv hphase
  case carried =>
    intro call key f hride
    obtain ⟨v, other, hv, hphase⟩ := h.carried call key f hride
    exact ⟨v, other, getElem?_joined_of_some hv, hphase⟩
  case alone =>
    intro v w other other' call hv hw hphase hphase'
    rw [getElem?_joined] at hv hw
    split at hv
    · obtain rfl := Option.some.inj hv
      exact absurd hphase (hnew call)
    · split at hw
      · obtain rfl := Option.some.inj hw
        exact absurd hphase' (hnew call)
      · exact h.alone v w other other' call hv hw hphase hphase'

theorem Counted.replace (h : Counted users ready pending) (hu : users[u]? = some user)
    (hkey : new.key = user.key) (hold : user.phase ≠ .left) (hnew : new.phase ≠ .left) :
    Counted (users.set u new) ready pending := by
  have hsame : ∀ key, tally (present key) (users.set u new) = tally (present key) users := by
    intro key
    have hmoved := tally_replaced (w := present key) (b := new) hu
    have hweight : present key new = present key user := by
      unfold present
      rw [hkey]
      simp only [hold, hnew, ne_eq, not_false_eq_true, and_true]
    omega
  constructor
  · intro key record hrecord
    rw [hsame]
    exact h.shared key record hrecord
  · intro key hnone
    rw [hsame]
    exact h.waiting key hnone

omit [DecidableEq κ] in
theorem Items.replace (h : Items users ride status factories ready released)
    (hu : users[u]? = some user) (new : User κ)
    (hgiven : ∀ f, new.item = some f → new.phase ≠ .left →
      ∃ record, ready new.key = some record ∧ record.item = f) :
    Items (users.set u new) ride status factories ready released := by
  refine { h with given := ?_ }
  intro v other f hv hitem hphase
  rcases replaced_cases hu hv with ⟨-, rfl⟩ | ⟨-, hv⟩
  · exact hgiven f hitem hphase
  · exact h.given v other f hv hitem hphase

theorem Counted.register (h : Counted users ready pending) (key : κ) :
    (∀ record, ready key = some record → ∀ item,
      Counted (users ++ [⟨key, item, .inside⟩])
        (Function.update ready key (some { record with users := record.users + 1 })) pending) ∧
    (ready key = none →
      Counted (users ++ [⟨key, none, .registered⟩]) ready
        (Function.update pending key (some ((pending key).getD 0 + 1)))) := by
  have hself (item : Option Item) {phase : UserPhase} (hphase : phase ≠ .left) :
      tally (present key) (users ++ [⟨key, item, phase⟩]) = tally (present key) users + 1 := by
    rw [tally_joined]
    have hone : present key (⟨key, item, phase⟩ : User κ) = 1 := if_pos ⟨rfl, hphase⟩
    omega
  have hother (item : Option Item) (phase : UserPhase) {other : κ} (hne : other ≠ key) :
      tally (present other) (users ++ [⟨key, item, phase⟩]) = tally (present other) users := by
    rw [tally_joined]
    have hzero : present other (⟨key, item, phase⟩ : User κ) = 0 :=
      if_neg fun hcon => hne hcon.1.symm
    omega
  constructor
  · intro record hrecord item
    constructor
    · intro other found hfound
      by_cases hkey : other = key
      · subst hkey
        rw [Function.update_self] at hfound
        obtain rfl := Option.some.inj hfound
        obtain ⟨hcount, hnone, hpos⟩ := h.shared other record hrecord
        rw [hself item (by simp)]
        refine ⟨?_, hnone, by omega⟩
        show record.users + 1 = _
        omega
      · rw [Function.update_of_ne hkey] at hfound
        rw [hother item .inside hkey]
        exact h.shared other found hfound
    · intro other hnone
      by_cases hkey : other = key
      · subst hkey
        rw [Function.update_self] at hnone
        cases hnone
      · rw [Function.update_of_ne hkey] at hnone
        rw [hother item .inside hkey]
        exact h.waiting other hnone
  · intro hnone
    have hpending := h.waiting key hnone
    constructor
    · intro other found hfound
      have hkey : other ≠ key := by
        rintro rfl
        rw [hnone] at hfound
        cases hfound
      rw [Function.update_of_ne hkey, hother none .registered hkey]
      exact h.shared other found hfound
    · intro other hnone'
      by_cases hkey : other = key
      · subst hkey
        rw [Function.update_self, hself none (by simp), if_neg (Nat.succ_ne_zero _), hpending]
        split
        · rename_i hzero
          simp [hzero]
        · simp
      · rw [Function.update_of_ne hkey, hother none .registered hkey]
        exact h.waiting other hnone'

omit [DecidableEq κ] in
theorem Items.join (h : Items users ride status factories ready released)
    (hgiven : ∀ f, new.item = some f → ∃ record, ready new.key = some record ∧ record.item = f) :
    Items (users ++ [new]) ride status factories ready released := by
  refine { h with given := ?_ }
  intro v other f hv hitem hphase
  rcases joined_cases hv with ⟨-, rfl⟩ | ⟨-, hv⟩
  · exact hgiven f hitem
  · exact h.given v other f hv hitem hphase

theorem Items.recount (h : Items users ride status factories ready released) {key : κ}
    {record : ReadyMaterialization} (hrecord : ready key = some record) (n : Int) :
    Items users ride status factories
      (Function.update ready key (some { record with users := n })) released := by
  have hforth : ∀ other found, ready other = some found → ∃ found',
      Function.update ready key (some { record with users := n }) other = some found' ∧
        found'.item = found.item := by
    intro other found hfound
    by_cases hkey : other = key
    · subst hkey
      obtain rfl : record = found := Option.some.inj (hrecord.symm.trans hfound)
      exact ⟨_, Function.update_self .., rfl⟩
    · exact ⟨found, (Function.update_of_ne hkey ..).trans hfound, rfl⟩
  have hback : ∀ other found',
      Function.update ready key (some { record with users := n }) other = some found' →
      ∃ found, ready other = some found ∧ found'.item = found.item := by
    intro other found' hfound'
    by_cases hkey : other = key
    · subst hkey
      rw [Function.update_self] at hfound'
      obtain rfl := Option.some.inj hfound'
      exact ⟨record, hrecord, rfl⟩
    · rw [Function.update_of_ne hkey] at hfound'
      exact ⟨found', hfound', rfl⟩
  have hmoved : ∀ other f, (∃ found, ready other = some found ∧ found.item = f) →
      ∃ found', Function.update ready key (some { record with users := n }) other = some found' ∧
        found'.item = f := by
    rintro other f ⟨found, hfound, hitem⟩
    obtain ⟨found', hfound', hsame⟩ := hforth other found hfound
    exact ⟨found', hfound', hsame.trans hitem⟩
  refine { h with published := ?_, record := ?_, awaited := ?_, given := ?_ }
  · intro f other task hphase hstatus
    rcases h.published f other task hphase hstatus with ⟨hready, hcount⟩ | ⟨hgone, hcount⟩
    · exact .inl ⟨hmoved other f hready, hcount⟩
    · refine .inr ⟨?_, hcount⟩
      intro found' hfound' hitem
      obtain ⟨found, hfound, hsame⟩ := hback other found' hfound'
      exact hgone found hfound (hsame.symm.trans hitem)
  · intro other found' hfound'
    obtain ⟨found, hfound, hsame⟩ := hback other found' hfound'
    rw [hsame]
    exact h.record other found hfound
  · intro call other f hride hphase
    exact hmoved other f (h.awaited call other f hride hphase)
  · intro v other f hv hitem hphase
    exact hmoved other.key f (h.given v other f hv hitem hphase)

end Users

section Flights

variable {users : List (User κ)} {ride : Nat → Option (κ × Nat × Bool)}
  {status : Nat → Option (κ × Task ε Item)} {factories : Nat → FactoryPhase}
  {ready : κ → Option ReadyMaterialization} {pending : κ → Option Int} {released : List Item}
  {u f call : Nat} {key : κ} {user new : User κ}

omit [DecidableEq κ] in
theorem Links.fly (h : Links users ride) (hu : users[u]? = some user)
    (hphase : ∀ call, user.phase ≠ .flying call) (hcall : ride call = none) :
    Links (users.set u { user with phase := .flying call })
      (Function.update ride call (some (user.key, f, false))) := by
  have hold : ∀ (v : Nat) other, users[v]? = some other → other.phase ≠ .flying call := by
    intro v other hv hflying
    obtain ⟨f', hride⟩ := h.riding v other call hv hflying
    rw [hcall] at hride
    cases hride
  constructor
  case riding =>
    intro v other call' hv hflying
    rcases replaced_cases hu hv with ⟨-, rfl⟩ | ⟨-, hbefore⟩
    · obtain rfl := UserPhase.flying.inj hflying
      exact ⟨f, Function.update_self ..⟩
    · have hne : call' ≠ call := by
        rintro rfl
        exact hold v other hbefore hflying
      rw [Function.update_of_ne hne]
      exact h.riding v other call' hbefore hflying
  case carried =>
    intro call' key' f' hride
    by_cases hne : call' = call
    · subst hne
      exact ⟨u, _, getElem?_replaced_self hu, rfl⟩
    · rw [Function.update_of_ne hne] at hride
      obtain ⟨v, other, hv, hflying⟩ := h.carried call' key' f' hride
      have hvu : v ≠ u := by
        rintro rfl
        obtain rfl : user = other := Option.some.inj (hu.symm.trans hv)
        exact hphase call' hflying
      exact ⟨v, other, (getElem?_replaced hu).trans ((if_neg hvu).trans hv), hflying⟩
  case alone =>
    intro v w other other' call' hv hw hflying hflying'
    rw [getElem?_replaced hu] at hv hw
    split at hv
    · obtain rfl := Option.some.inj hv
      obtain rfl := UserPhase.flying.inj hflying
      split at hw
      · simp only [*]
      · exact absurd hflying' (hold w other' hw)
    · split at hw
      · obtain rfl := Option.some.inj hw
        obtain rfl := UserPhase.flying.inj hflying'
        exact absurd hflying (hold v other hv)
      · exact h.alone v w other other' call' hv hw hflying hflying'

omit [DecidableEq κ] in
theorem Links.land (h : Links users ride) (hu : users[u]? = some user)
    (hphase : user.phase = .flying call) (hnew : ∀ call, new.phase ≠ .flying call) :
    Links (users.set u new) (Function.update ride call (some (key, f, true))) := by
  constructor
  case riding =>
    intro v other call' hv hflying
    rcases replaced_cases hu hv with ⟨-, rfl⟩ | ⟨hvu, hbefore⟩
    · exact absurd hflying (hnew call')
    · have hne : call' ≠ call := by
        rintro rfl
        exact hvu (h.alone v u other user call' hbefore hu hflying hphase)
      rw [Function.update_of_ne hne]
      exact h.riding v other call' hbefore hflying
  case carried =>
    intro call' key' f' hride
    have hne : call' ≠ call := by
      rintro rfl
      rw [Function.update_self] at hride
      simp at hride
    rw [Function.update_of_ne hne] at hride
    obtain ⟨v, other, hv, hflying⟩ := h.carried call' key' f' hride
    have hvu : v ≠ u := by
      rintro rfl
      obtain rfl : user = other := Option.some.inj (hu.symm.trans hv)
      exact hne (UserPhase.flying.inj (hflying.symm.trans hphase))
    exact ⟨v, other, (getElem?_replaced hu).trans ((if_neg hvu).trans hv), hflying⟩
  case alone =>
    intro v w other other' call' hv hw hflying hflying'
    rw [getElem?_replaced hu] at hv hw
    split at hv
    · obtain rfl := Option.some.inj hv
      exact absurd hflying (hnew call')
    · split at hw
      · obtain rfl := Option.some.inj hw
        exact absurd hflying' (hnew call')
      · exact h.alone v w other other' call' hv hw hflying hflying'

omit [DecidableEq κ] in
theorem Items.fly (h : Items users ride status factories ready released)
    (hawaited : factories f = .published → ∃ record, ready key = some record ∧ record.item = f) :
    Items users (Function.update ride call (some (key, f, false))) status factories ready
      released := by
  refine { h with awaited := ?_ }
  intro call' key' f' hride hphase
  by_cases hne : call' = call
  · subst hne
    rw [Function.update_self] at hride
    obtain ⟨rfl, hrest⟩ := Prod.mk.inj (Option.some.inj hride)
    obtain ⟨rfl, -⟩ := Prod.mk.inj hrest
    exact hawaited hphase
  · rw [Function.update_of_ne hne] at hride
    exact h.awaited call' key' f' hride hphase

omit [DecidableEq κ] in
theorem Items.land (h : Items users ride status factories ready released) :
    Items users (Function.update ride call (some (key, f, true))) status factories ready
      released := by
  refine { h with awaited := ?_ }
  intro call' key' f' hride hphase
  have hne : call' ≠ call := by
    rintro rfl
    rw [Function.update_self] at hride
    simp at hride
  rw [Function.update_of_ne hne] at hride
  exact h.awaited call' key' f' hride hphase

omit [DecidableEq κ] in
theorem Items.newFlight (h : Items users ride status factories ready released)
    (hnone : status f = none) :
    Items users ride (Function.update status f (some (key, .created))) factories ready
      released := by
  have hne : ∀ {f' : Nat} {key' : κ} {task : Task ε Item}, status f' = some (key', task) →
      f' ≠ f := by
    rintro f' key' task hstatus rfl
    rw [hnone] at hstatus
    cases hstatus
  have hsame : ∀ {f' : Nat} {key' : κ} {task : Task ε Item}, status f' = some (key', task) →
      Function.update status f (some (key, .created)) f' = some (key', task) :=
    fun hstatus => (Function.update_of_ne (hne hstatus) ..).trans hstatus
  refine { h with begun := ?_, busy := ?_, value := ?_, published := ?_, record := ?_ }
  · intro f' hphase
    obtain ⟨key', task, hstatus, hcreated⟩ := h.begun f' hphase
    exact ⟨key', task, hsame hstatus, hcreated⟩
  · intro f' hphase
    obtain ⟨key', hstatus⟩ := h.busy f' hphase
    exact ⟨key', hsame hstatus⟩
  · intro f' key' item hstatus
    by_cases hf : f' = f
    · subst hf
      rw [Function.update_self] at hstatus
      cases hstatus
    · rw [Function.update_of_ne hf] at hstatus
      exact h.value f' key' item hstatus
  · intro f' key' task hphase hstatus
    obtain ⟨key₀, task₀, hstatus₀, -⟩ := h.begun f' (by simp [hphase])
    rw [Function.update_of_ne (hne hstatus₀)] at hstatus
    exact h.published f' key' task hphase hstatus
  · intro key' record hrecord
    obtain ⟨hphase, task, hstatus⟩ := h.record key' record hrecord
    exact ⟨hphase, task, hsame hstatus⟩

omit [DecidableEq κ] in
theorem Items.restatus (h : Items users ride status factories ready released)
    {old task : Task ε Item} (hold : status f = some (key, old)) (hcreated : task ≠ .created)
    (hbusy : factories f = .completed ∨ factories f = .publishing → task = .running)
    (hvalue : ∀ item, task = .done (.value item) → item = f ∧ factories f = .published) :
    Items users ride (Function.update status f (some (key, task))) factories ready released := by
  have hstays : ∀ (f' : Nat) key' task', status f' = some (key', task') →
      ∃ task'', Function.update status f (some (key, task)) f' = some (key', task'') ∧
        (f' ≠ f → task'' = task') ∧ (f' = f → task'' = task) := by
    intro f' key' task' hstatus
    by_cases hf : f' = f
    · subst hf
      obtain ⟨rfl, -⟩ := Prod.mk.inj (Option.some.inj (hold.symm.trans hstatus))
      exact ⟨task, Function.update_self .., fun hne => absurd rfl hne, fun _ => rfl⟩
    · exact ⟨task', (Function.update_of_ne hf ..).trans hstatus, fun _ => rfl,
        fun heq => absurd heq hf⟩
  refine { h with begun := ?_, busy := ?_, value := ?_, published := ?_, record := ?_ }
  · intro f' hphase
    obtain ⟨key', task', hstatus, hne⟩ := h.begun f' hphase
    obtain ⟨task'', hstatus', hother, hself⟩ := hstays f' key' task' hstatus
    refine ⟨key', task'', hstatus', ?_⟩
    by_cases hf : f' = f
    · rw [hself hf]
      exact hcreated
    · rw [hother hf]
      exact hne
  · intro f' hphase
    obtain ⟨key', hstatus⟩ := h.busy f' hphase
    obtain ⟨task'', hstatus', hother, hself⟩ := hstays f' key' _ hstatus
    by_cases hf : f' = f
    · have hrunning : task'' = .running := (hself hf).trans (hbusy (hf ▸ hphase))
      rw [hrunning] at hstatus'
      exact ⟨key', hstatus'⟩
    · rw [hother hf] at hstatus'
      exact ⟨key', hstatus'⟩
  · intro f' key' item hstatus
    by_cases hf : f' = f
    · subst hf
      rw [Function.update_self] at hstatus
      exact hvalue item (Prod.mk.inj (Option.some.inj hstatus)).2
    · rw [Function.update_of_ne hf] at hstatus
      exact h.value f' key' item hstatus
  · intro f' key' task' hphase hstatus
    by_cases hf : f' = f
    · subst hf
      rw [Function.update_self] at hstatus
      obtain ⟨rfl, -⟩ := Prod.mk.inj (Option.some.inj hstatus)
      exact h.published f' key old hphase hold
    · rw [Function.update_of_ne hf] at hstatus
      exact h.published f' key' task' hphase hstatus
  · intro key' record hrecord
    obtain ⟨hphase, task', hstatus⟩ := h.record key' record hrecord
    obtain ⟨task'', hstatus', -⟩ := hstays record.item key' task' hstatus
    exact ⟨hphase, task'', hstatus'⟩

omit [DecidableEq κ] in
theorem Items.refactory (h : Items users ride status factories ready released)
    {phase : FactoryPhase} (hrunning : status f = some (key, .running))
    (hold : factories f ≠ .published) (hnew : phase ≠ .published)
    (hcount : phase ≠ .raising → factories f ≠ .raising) :
    Items users ride status (Function.update factories f phase) ready released := by
  have hpublished : ∀ f', Function.update factories f phase f' = .published →
      factories f' = .published := by
    intro f' hphase
    by_cases hf : f' = f
    · subst hf
      rw [Function.update_self] at hphase
      exact absurd hphase hnew
    · rwa [Function.update_of_ne hf] at hphase
  have hstays : ∀ f', factories f' = .published →
      Function.update factories f phase f' = .published := by
    intro f' hphase
    have hf : f' ≠ f := by
      rintro rfl
      exact hold hphase
    rwa [Function.update_of_ne hf]
  constructor
  case begun =>
    intro f' hphase
    by_cases hf : f' = f
    · subst hf
      exact ⟨key, .running, hrunning, by simp⟩
    · rw [Function.update_of_ne hf] at hphase
      exact h.begun f' hphase
  case busy =>
    intro f' hphase
    by_cases hf : f' = f
    · subst hf
      exact ⟨key, hrunning⟩
    · rw [Function.update_of_ne hf] at hphase
      exact h.busy f' hphase
  case value =>
    intro f' key' item hstatus
    obtain ⟨hitem, hphase⟩ := h.value f' key' item hstatus
    exact ⟨hitem, hstays f' hphase⟩
  case unreleased =>
    intro f' hraising hpub
    by_cases hf : f' = f
    · subst hf
      rw [Function.update_self] at hraising
      exact h.unreleased f' (hcount hraising) hold
    · rw [Function.update_of_ne hf] at hraising hpub
      exact h.unreleased f' hraising hpub
  case published =>
    intro f' key' task hphase
    exact h.published f' key' task (hpublished f' hphase)
  case record =>
    intro key' record hrecord
    obtain ⟨hphase, hstatus⟩ := h.record key' record hrecord
    exact ⟨hstays record.item hphase, hstatus⟩
  case awaited =>
    intro call key' f' hride hphase
    exact h.awaited call key' f' hride (hpublished f' hphase)
  case given => exact h.given

omit [DecidableEq κ] in
theorem Items.discard (h : Items users ride status factories ready released)
    (hraising : factories f = .raising) :
    Items users ride status factories ready (f :: released) := by
  have hcount : ∀ f', factories f' ≠ .raising → (f :: released).count f' = released.count f' := by
    intro f' hphase
    have hne : f ≠ f' := by
      rintro rfl
      exact hphase hraising
    rw [List.count_cons_of_ne hne]
  refine { h with unreleased := ?_, published := ?_ }
  · intro f' hphase hpub
    rw [hcount f' hphase]
    exact h.unreleased f' hphase hpub
  · intro f' key' task hphase hstatus
    rw [hcount f' (by simp [hphase])]
    exact h.published f' key' task hphase hstatus

end Flights

section Tables

variable {users : List (User κ)} {ride : Nat → Option (κ × Nat × Bool)}
  {status : Nat → Option (κ × Task ε Item)} {factories : Nat → FactoryPhase}
  {ready : κ → Option ReadyMaterialization} {pending : κ → Option Int} {released : List Item}
  {u f : Nat} {key : κ} {user : User κ}

theorem Counted.publish (h : Counted users ready pending) (hnone : ready key = none)
    (hpos : 0 < tally (present key) users) :
    Counted users
      (Function.update ready key (some ⟨f, (pending key).getD 0⟩))
      (Function.update pending key none) := by
  have hpending := h.waiting key hnone
  rw [if_neg (by omega)] at hpending
  constructor
  · intro other record hrecord
    by_cases hkey : other = key
    · subst hkey
      rw [Function.update_self] at hrecord ⊢
      obtain rfl := Option.some.inj hrecord
      refine ⟨?_, rfl, hpos⟩
      show (pending other).getD 0 = _
      rw [hpending, Option.getD_some]
    · rw [Function.update_of_ne hkey] at hrecord ⊢
      exact h.shared other record hrecord
  · intro other hnone'
    by_cases hkey : other = key
    · subst hkey
      rw [Function.update_self] at hnone'
      cases hnone'
    · rw [Function.update_of_ne hkey] at hnone' ⊢
      exact h.waiting other hnone'

theorem Items.publish (h : Items users ride status factories ready released)
    (hride : ∀ call key f ended, ride call = some (key, f, ended) →
      ∃ task, status f = some (key, task))
    (hphase : factories f = .publishing) (hstatus : status f = some (key, .running))
    (hnone : ready key = none) (n : Int) :
    Items users ride status (Function.update factories f .published)
      (Function.update ready key (some ⟨f, n⟩)) released := by
  have hother : ∀ {f' : Nat}, factories f' = .published → f' ≠ f := by
    rintro f' hpub rfl
    rw [hphase] at hpub
    cases hpub
  have hkeys : ∀ {other : κ} {f' : Nat}, (∃ record, ready other = some record ∧ record.item = f') →
      ∃ record, Function.update ready key (some ⟨f, n⟩) other = some record ∧
        record.item = f' := by
    rintro other f' ⟨record, hrecord, hitem⟩
    have hkey : other ≠ key := by
      rintro rfl
      rw [hnone] at hrecord
      cases hrecord
    exact ⟨record, (Function.update_of_ne hkey ..).trans hrecord, hitem⟩
  constructor
  case begun =>
    intro f' hphase'
    by_cases hf : f' = f
    · subst hf
      exact ⟨key, .running, hstatus, by simp⟩
    · rw [Function.update_of_ne hf] at hphase'
      exact h.begun f' hphase'
  case busy =>
    intro f' hphase'
    by_cases hf : f' = f
    · subst hf
      rw [Function.update_self] at hphase'
      simp at hphase'
    · rw [Function.update_of_ne hf] at hphase'
      exact h.busy f' hphase'
  case value =>
    intro f' key' item hstatus'
    obtain ⟨hitem, hpub⟩ := h.value f' key' item hstatus'
    exact ⟨hitem, (Function.update_of_ne (hother hpub) ..).trans hpub⟩
  case unreleased =>
    intro f' hraising hpub
    by_cases hf : f' = f
    · subst hf
      exact absurd (Function.update_self ..) hpub
    · rw [Function.update_of_ne hf] at hraising hpub
      exact h.unreleased f' hraising hpub
  case published =>
    intro f' key' task hpub hstatus'
    by_cases hf : f' = f
    · subst hf
      obtain ⟨rfl, -⟩ := Prod.mk.inj (Option.some.inj (hstatus.symm.trans hstatus'))
      refine .inl ⟨⟨_, Function.update_self .., rfl⟩, ?_⟩
      exact h.unreleased f' (by simp [hphase]) (by simp [hphase])
    · rw [Function.update_of_ne hf] at hpub
      rcases h.published f' key' task hpub hstatus' with ⟨hready, hcount⟩ | ⟨hgone, hcount⟩
      · exact .inl ⟨hkeys hready, hcount⟩
      · refine .inr ⟨?_, hcount⟩
        intro record hrecord hitem
        by_cases hkey : key' = key
        · subst hkey
          rw [Function.update_self] at hrecord
          obtain rfl := Option.some.inj hrecord
          exact hf hitem.symm
        · rw [Function.update_of_ne hkey] at hrecord
          exact hgone record hrecord hitem
  case record =>
    intro key' record hrecord
    by_cases hkey : key' = key
    · subst hkey
      rw [Function.update_self] at hrecord
      obtain rfl := Option.some.inj hrecord
      exact ⟨Function.update_self .., _, hstatus⟩
    · rw [Function.update_of_ne hkey] at hrecord
      obtain ⟨hpub, hstatus'⟩ := h.record key' record hrecord
      exact ⟨(Function.update_of_ne (hother hpub) ..).trans hpub, hstatus'⟩
  case awaited =>
    intro call key' f' hcall hpub
    by_cases hf : f' = f
    · subst hf
      obtain ⟨task, hstatus'⟩ := hride call key' f' false hcall
      obtain ⟨rfl, -⟩ := Prod.mk.inj (Option.some.inj (hstatus.symm.trans hstatus'))
      exact ⟨_, Function.update_self .., rfl⟩
    · rw [Function.update_of_ne hf] at hpub
      exact hkeys (h.awaited call key' f' hcall hpub)
  case given =>
    intro v other f' hv hitem hleft
    exact hkeys (h.given v other f' hv hitem hleft)

theorem present_replaced_left (hu : users[u]? = some user) (hphase : user.phase ≠ .left)
    (other : κ) :
    tally (present other) (users.set u { user with phase := .left }) =
      if other = user.key then tally (present other) users - 1
      else tally (present other) users := by
  have hmoved := tally_replaced (w := present other) (b := { user with phase := .left }) hu
  have hzero : present other { user with phase := .left } = 0 := present_left rfl
  split
  · rename_i hkey
    subst hkey
    have hone := present_self hphase
    omega
  · rename_i hkey
    have hnone : present other user = 0 := present_other fun heq => hkey heq.symm
    omega

theorem Counted.leave (h : Counted users ready pending) (hu : users[u]? = some user)
    (hphase : user.phase ≠ .left) :
    (ready user.key = none →
      Counted (users.set u { user with phase := .left }) ready
        (Function.update pending user.key
          (if 0 < (pending user.key).getD 0 - 1 then some ((pending user.key).getD 0 - 1)
            else none))) ∧
    ∀ record, ready user.key = some record →
      (record.users - 1 ≤ 0 →
        Counted (users.set u { user with phase := .left }) (Function.update ready user.key none)
          pending) ∧
      (¬ record.users - 1 ≤ 0 →
        Counted (users.set u { user with phase := .left })
          (Function.update ready user.key (some { record with users := record.users - 1 }))
          pending) := by
  have hpos := present_pos hu hphase
  have hcount := present_replaced_left hu hphase
  refine ⟨?_, ?_⟩
  · intro hnone
    have hpending := h.waiting user.key hnone
    rw [if_neg (by omega)] at hpending
    constructor
    · intro other record hrecord
      have hkey : other ≠ user.key := by
        rintro rfl
        rw [hnone] at hrecord
        cases hrecord
      rw [hcount, if_neg hkey, Function.update_of_ne hkey]
      exact h.shared other record hrecord
    · intro other hnone'
      by_cases hkey : other = user.key
      · subst hkey
        rw [hcount, if_pos rfl, Function.update_self, hpending, Option.getD_some]
        by_cases hlast : tally (present user.key) users = 1
        · simp [hlast]
        · rw [if_pos (by omega), if_neg (by omega)]
          congr 1
          omega
      · rw [hcount, if_neg hkey, Function.update_of_ne hkey]
        exact h.waiting other hnone'
  · intro record hrecord
    obtain ⟨hrecordCount, hrecordNone, -⟩ := h.shared user.key record hrecord
    refine ⟨?_, ?_⟩
    · intro hlast
      constructor
      · intro other found hfound
        have hkey : other ≠ user.key := by
          rintro rfl
          rw [Function.update_self] at hfound
          cases hfound
        rw [Function.update_of_ne hkey] at hfound
        rw [hcount, if_neg hkey]
        exact h.shared other found hfound
      · intro other hnone
        by_cases hkey : other = user.key
        · subst hkey
          rw [hcount, if_pos rfl, if_pos (by omega)]
          exact hrecordNone
        · rw [Function.update_of_ne hkey] at hnone
          rw [hcount, if_neg hkey]
          exact h.waiting other hnone
    · intro hmore
      constructor
      · intro other found hfound
        by_cases hkey : other = user.key
        · subst hkey
          rw [Function.update_self] at hfound
          obtain rfl := Option.some.inj hfound
          rw [hcount, if_pos rfl]
          refine ⟨?_, hrecordNone, by omega⟩
          show record.users - 1 = _
          omega
        · rw [Function.update_of_ne hkey] at hfound
          rw [hcount, if_neg hkey]
          exact h.shared other found hfound
      · intro other hnone
        by_cases hkey : other = user.key
        · subst hkey
          rw [Function.update_self] at hnone
          cases hnone
        · rw [Function.update_of_ne hkey] at hnone
          rw [hcount, if_neg hkey]
          exact h.waiting other hnone

theorem Items.release (h : Items users ride status factories ready released)
    (hride : ∀ call, ∀ f, ride call ≠ some (key, f, false))
    (hgone : ∀ (v : Nat) other, users[v]? = some other → other.key = key → other.phase = .left)
    {record : ReadyMaterialization} (hrecord : ready key = some record) :
    Items users ride status factories (Function.update ready key none)
      (record.item :: released) := by
  obtain ⟨hpub, task, hstatus⟩ := h.record key record hrecord
  have hcount : ∀ f', f' ≠ record.item → (record.item :: released).count f' = released.count f' :=
    fun f' hne => List.count_cons_of_ne fun heq => hne heq.symm
  have hkeys : ∀ {other : κ} {f' : Nat}, other ≠ key →
      (∃ found, ready other = some found ∧ found.item = f') →
      ∃ found, Function.update ready key none other = some found ∧ found.item = f' := by
    rintro other f' hkey ⟨found, hfound, hitem⟩
    exact ⟨found, (Function.update_of_ne hkey ..).trans hfound, hitem⟩
  refine { h with unreleased := ?_, published := ?_, record := ?_, awaited := ?_, given := ?_ }
  · intro f' hraising hnot
    have hne : f' ≠ record.item := by
      rintro rfl
      exact hnot hpub
    rw [hcount f' hne]
    exact h.unreleased f' hraising hnot
  · intro f' key' task' hpub' hstatus'
    have hold := h.published f' key' task' hpub' hstatus'
    by_cases hf : f' = record.item
    · subst hf
      obtain ⟨rfl, -⟩ := Prod.mk.inj (Option.some.inj (hstatus.symm.trans hstatus'))
      have hzero : released.count record.item = 0 := by
        rcases hold with ⟨-, hzero⟩ | ⟨hnot, -⟩
        · exact hzero
        · exact absurd rfl (hnot record hrecord)
      refine .inr ⟨?_, ?_⟩
      · intro found hfound
        rw [Function.update_self] at hfound
        cases hfound
      · rw [List.count_cons_self, hzero]
    · rw [hcount f' hf]
      rcases hold with ⟨hready, hzero⟩ | ⟨hnot, hone⟩
      · have hkey : key' ≠ key := by
          rintro rfl
          obtain ⟨found, hfound, hitem⟩ := hready
          obtain rfl : record = found := Option.some.inj (hrecord.symm.trans hfound)
          exact hf hitem.symm
        exact .inl ⟨hkeys hkey hready, hzero⟩
      · refine .inr ⟨?_, hone⟩
        intro found hfound
        by_cases hkey : key' = key
        · subst hkey
          rw [Function.update_self] at hfound
          cases hfound
        · rw [Function.update_of_ne hkey] at hfound
          exact hnot found hfound
  · intro key' found hfound
    by_cases hkey : key' = key
    · subst hkey
      rw [Function.update_self] at hfound
      cases hfound
    · rw [Function.update_of_ne hkey] at hfound
      exact h.record key' found hfound
  · intro call key' f' hcall hpub'
    have hkey : key' ≠ key := by
      rintro rfl
      exact hride call f' hcall
    exact hkeys hkey (h.awaited call key' f' hcall hpub')
  · intro v other f' hv hitem hleft
    have hkey : other.key ≠ key := fun heq => hleft (hgone v other hv heq)
    exact hkeys hkey (h.given v other f' hv hitem hleft)

end Tables

section Runs

variable {s s' : Pipeline κ ε}

theorem inv_initial : Inv (Pipeline.initial : Pipeline κ ε) := by
  refine ⟨Group.inv_initial, ⟨nofun, nofun, nofun⟩, ⟨nofun, ?_⟩, ?_⟩
  · intro key _
    rfl
  · constructor
    case begun =>
      intro f hphase
      exact absurd rfl hphase
    case busy =>
      intro f hphase
      rcases hphase with hphase | hphase
      · cases hphase
      · cases hphase
    case unreleased =>
      intro f _ _
      rfl
    all_goals intros; contradiction

theorem Inv.regroup (h : Inv s) {g : Group κ ε Item} (hg : g.Inv)
    (hsame : g.ride = s.materializeFlights.ride ∧ g.status = s.materializeFlights.status) :
    Inv { s with materializeFlights := g } := by
  obtain ⟨hride, hstatus⟩ := hsame
  refine ⟨hg, ?_, h.counted, ?_⟩
  · show Links s.users g.ride
    rw [hride]
    exact h.links
  · show Items s.users g.ride g.status s.factories s.materializedReady s.released
    rw [hride, hstatus]
    exact h.items

theorem Inv.rideStep (h : Inv s) {u : Nat} {action : Nat → SingleFlight.Action κ ε Item}
    (hstep : s.ride u action = some s')
    (hsame : ∀ call g, s.materializeFlights.step (action call) = some g →
      g.ride = s.materializeFlights.ride ∧ g.status = s.materializeFlights.status) : Inv s' := by
  obtain ⟨user, hu, hstep⟩ := Option.bind_eq_some_iff.mp hstep
  split at hstep
  · rename_i call _
    obtain ⟨g, hg, rfl⟩ := Option.map_eq_some_iff.mp hstep
    exact h.regroup (Group.inv_step h.group hg) (hsame call g hg)
  · cases hstep

theorem Inv.finishStep (h : Inv s) {f : Nat} {outcome : Outcome ε Item} {g : Group κ ε Item}
    (hstep : s.materializeFlights.step (.finish f outcome) = some g)
    (hphase : s.factories f ≠ .completed ∧ s.factories f ≠ .publishing)
    (hvalue : ∀ item, outcome = .value item → item = f ∧ s.factories f = .published) :
    Inv { s with materializeFlights := g } := by
  obtain ⟨hride, key, hrunning, hstatus⟩ := Group.ride_finish hstep
  refine ⟨Group.inv_step h.group hstep, ?_, h.counted, ?_⟩
  · show Links s.users g.ride
    rw [hride]
    exact h.links
  · show Items s.users g.ride g.status s.factories s.materializedReady s.released
    rw [hride, hstatus]
    refine h.items.restatus hrunning (by simp) ?_ ?_
    · rintro (hcompleted | hpublishing)
      · exact absurd hcompleted hphase.1
      · exact absurd hpublishing hphase.2
    · intro item hitem
      exact hvalue item (Task.done.inj hitem)

theorem Inv.joinStep (h : Inv s) {u : Nat} {user : User κ} (hu : s.users[u]? = some user)
    (hphase : user.phase = .registered) :
    Inv { s.setUser u { user with phase := .flying s.materializeFlights.calls.length } with
      materializeFlights := s.materializeFlights.subscribe user.key } := by
  obtain ⟨f, hride, hcases⟩ := Group.ride_subscribe h.group user.key
  have hleft : user.phase ≠ .left := by simp [hphase]
  refine ⟨h.group.subscribe user.key, ?_, ?_, ?_⟩
  · show Links (s.users.set u _) (s.materializeFlights.subscribe user.key).ride
    rw [hride]
    exact h.links.fly hu (by simp [hphase]) Group.ride_length
  · exact h.counted.replace hu rfl hleft (by simp)
  · show Items (s.users.set u _) (s.materializeFlights.subscribe user.key).ride
      (s.materializeFlights.subscribe user.key).status s.factories s.materializedReady s.released
    have hitems := h.items.replace hu { user with phase := .flying s.materializeFlights.calls.length }
      (fun f hitem _ => h.items.given u user f hu hitem hleft)
    rw [hride]
    rcases hcases with ⟨hnone, hstatus⟩ | ⟨hcurrent, hstatus⟩
    · rw [hstatus]
      refine (hitems.fly ?_).newFlight hnone
      intro hpub
      obtain ⟨key, task, hsome, -⟩ := h.items.begun f (by simp [hpub])
      rw [hnone] at hsome
      cases hsome
    · rw [hstatus]
      refine hitems.fly ?_
      intro hpub
      obtain ⟨call, hcall⟩ := h.group.ridden_of_current hcurrent
      exact h.items.awaited call user.key f hcall hpub

theorem Inv.returnStep (h : Inv s) {u call : Nat} {user : User κ} (hu : s.users[u]? = some user)
    (hphase : user.phase = .flying call) {g : Group κ ε Item}
    (hstep : s.materializeFlights.step (.return call) = some g) :
    Inv { s.setUser u (match g.calls[call]?.map SingleFlight.Call.phase with
        | some (.ended (.value item)) => { user with item := some item, phase := .inside }
        | _ => { user with phase := .leaving }) with materializeFlights := g } := by
  obtain ⟨key, f, result, hcall, hride, hstatus, hresult, hvalue⟩ :=
    Group.ride_return h.group hstep
  obtain ⟨f', hcall'⟩ := h.links.riding u user call hu hphase
  obtain ⟨rfl, -⟩ := Prod.mk.inj (Option.some.inj (hcall.symm.trans hcall'))
  have hleft : user.phase ≠ .left := by simp [hphase]
  -- what the user does with the result, whatever it is
  have move (new : User κ) (hkey : new.key = user.key) (hnew : new.phase ≠ .left)
      (hflying : ∀ call, new.phase ≠ .flying call)
      (hgiven : ∀ f, new.item = some f →
        ∃ record, s.materializedReady new.key = some record ∧ record.item = f) :
      Inv { s.setUser u new with materializeFlights := g } := by
    refine ⟨Group.inv_step h.group hstep, ?_, h.counted.replace hu hkey hleft hnew, ?_⟩
    · show Links (s.users.set u new) g.ride
      rw [hride]
      exact h.links.land hu hphase hflying
    · show Items (s.users.set u new) g.ride g.status s.factories s.materializedReady s.released
      rw [hride, hstatus]
      exact (h.items.replace hu _ fun f hitem _ => hgiven f hitem).land
  rw [hresult]
  cases result with
  | value item =>
    refine move _ rfl (by simp) (by simp) ?_
    intro f₀ hitem
    obtain rfl := Option.some.inj hitem
    have hdone := hvalue item rfl
    obtain ⟨rfl, hpub⟩ := h.items.value f user.key item hdone
    exact h.items.awaited call user.key item hcall hpub
  | error error =>
    exact move _ rfl (by simp) (by simp) fun f₀ hitem => h.items.given u user f₀ hu hitem hleft
  | cancelled =>
    exact move _ rfl (by simp) (by simp) fun f₀ hitem => h.items.given u user f₀ hu hitem hleft

theorem Inv.moveStep (h : Inv s) {u : Nat} {user : User κ} (hu : s.users[u]? = some user)
    {phase : UserPhase} (hold : ∀ call, user.phase ≠ .flying call) (hleft : user.phase ≠ .left)
    (hnew : ∀ call, phase ≠ .flying call) (hnot : phase ≠ .left) :
    Inv (s.setUser u { user with phase := phase }) :=
  ⟨h.group, h.links.replace hu _ hold hnew, h.counted.replace hu rfl hleft hnot,
    h.items.replace hu _ fun f hitem _ => h.items.given u user f hu hitem hleft⟩

theorem Inv.releaseStep (h : Inv s) {u : Nat} {user : User κ} (hu : s.users[u]? = some user)
    (hphase : user.phase = .leaving) :
    Inv ((s.releaseMaterializationUser user.key).setUser u { user with phase := .left }) := by
  have hleft : user.phase ≠ .left := by simp [hphase]
  have hlinks := h.links.replace hu { user with phase := .left } (by simp [hphase])
    (by simp)
  have hitems := h.items.replace hu { user with phase := .left }
    (fun f _ hnot => absurd rfl hnot)
  obtain ⟨hunpublished, hpublished⟩ := h.counted.leave hu hleft
  unfold Pipeline.releaseMaterializationUser
  cases hready : s.materializedReady user.key with
  | none => exact ⟨h.group, hlinks, hunpublished hready, hitems⟩
  | some record =>
    obtain ⟨hlast, hmore⟩ := hpublished record hready
    by_cases hdrop : record.users - 1 ≤ 0
    · dsimp only
      rw [if_pos hdrop]
      have hcounted := hlast hdrop
      have hnobody : tally (present user.key) (s.users.set u { user with phase := .left }) = 0 := by
        obtain ⟨hcount, -⟩ := h.counted.shared user.key record hready
        rw [present_replaced_left hu hleft, if_pos rfl]
        omega
      have hgone : ∀ (v : Nat) other,
          (s.users.set u { user with phase := .left })[v]? = some other →
          other.key = user.key → other.phase = .left := by
        intro v other hv hkey
        by_contra hstill
        have hpos := present_pos hv hstill
        rw [hkey, hnobody] at hpos
        exact absurd hpos (Nat.lt_irrefl 0)
      refine ⟨h.group, hlinks, hcounted, hitems.release ?_ hgone hready⟩
      intro call f hcall
      obtain ⟨v, other, hv, hflying⟩ := hlinks.carried call user.key f hcall
      obtain ⟨f', hcall'⟩ := hlinks.riding v other call hv hflying
      obtain ⟨hkey, -⟩ := Prod.mk.inj (Option.some.inj (hcall.symm.trans hcall'))
      rw [hgone v other hv hkey.symm] at hflying
      cases hflying
    · dsimp only
      rw [if_neg hdrop]
      exact ⟨h.group, hlinks, hmore hdrop, hitems.recount hready _⟩

theorem Inv.registerStep (h : Inv s) (key : κ) : Inv (s.registerMaterializationUser key) := by
  obtain ⟨hpublished, hunpublished⟩ := h.counted.register key
  unfold Pipeline.registerMaterializationUser
  cases hready : s.materializedReady key with
  | none =>
    exact ⟨h.group, h.links.join (by simp), hunpublished hready, h.items.join (by simp)⟩
  | some record =>
    refine ⟨h.group, h.links.join (by simp), hpublished record hready (some record.item), ?_⟩
    refine (h.items.recount hready _).join ?_
    intro f hitem
    obtain rfl := Option.some.inj hitem
    exact ⟨_, Function.update_self .., rfl⟩

theorem Inv.publishStep (h : Inv s) {f : Nat} {key : κ} (hkey : s.key? f = some key)
    (hphase : s.factories f = .publishing) (hnone : s.materializedReady key = none) :
    Inv ((s.publishMaterialization key f).setFactory f .published) := by
  obtain ⟨key', hstatus⟩ := h.items.busy f (.inr hphase)
  obtain rfl : key' = key := by
    rw [Pipeline.key?, hstatus] at hkey
    exact Option.some.inj hkey
  -- somebody waits for the factory, so the record starts with a user
  have hpos : 0 < tally (present key') s.users := by
    obtain ⟨call, hcall⟩ := h.group.ridden_of_running hstatus rfl
    obtain ⟨v, other, hv, hflying⟩ := h.links.carried call key' f hcall
    obtain ⟨f', hcall'⟩ := h.links.riding v other call hv hflying
    obtain ⟨rfl, -⟩ := Prod.mk.inj (Option.some.inj (hcall.symm.trans hcall'))
    exact present_pos hv (by simp [hflying])
  unfold Pipeline.publishMaterialization
  rw [hnone]
  exact ⟨h.group, h.links, h.counted.publish hnone hpos,
    h.items.publish (fun _ _ _ _ => h.group.status_of_ride) hphase hstatus hnone _⟩

theorem Inv.factoryStep (h : Inv s) {f : Nat} {phase : FactoryPhase} {key : κ}
    (hrunning : s.materializeFlights.status f = some (key, .running))
    (hold : s.factories f ≠ .published) (hnew : phase ≠ .published)
    (hcount : phase ≠ .raising → s.factories f ≠ .raising) : Inv (s.setFactory f phase) :=
  ⟨h.group, h.links, h.counted, h.items.refactory hrunning hold hnew hcount⟩

omit [DecidableEq κ] in
theorem running_iff {f : Nat} :
    s.running f = true ↔ ∃ key, s.materializeFlights.status f = some (key, .running) := by
  unfold Pipeline.running
  cases hstatus : s.materializeFlights.status f with
  | none => simp
  | some pair =>
    obtain ⟨key, task⟩ := pair
    cases task <;> simp

theorem inv_step {a : Action κ ε} (h : Inv s) (halone : s.PublishesAlone a)
    (hstep : s.step a = some s') : Inv s' := by
  cases a with
  | register key =>
    obtain rfl := Option.some.inj hstep
    exact h.registerStep key
  | join u =>
    obtain ⟨user, hu, hstep⟩ := Option.bind_eq_some_iff.mp hstep
    split at hstep
    · rename_i hphase
      obtain rfl := Option.some.inj hstep
      exact h.joinStep hu hphase
    · cases hstep
  | abort u =>
    obtain ⟨user, hu, hstep⟩ := Option.bind_eq_some_iff.mp hstep
    split at hstep
    · rename_i hphase
      obtain rfl := Option.some.inj hstep
      exact h.moveStep hu (by simp [hphase]) (by simp [hphase]) (by simp) (by simp)
    · cases hstep
  | wake u => exact h.rideStep hstep fun _ _ => Group.ride_wake
  | cancel u => exact h.rideStep hstep fun _ _ => Group.ride_cancel
  | unsubscribe u => exact h.rideStep hstep fun _ _ => Group.ride_unsubscribe h.group
  | unwound u => exact h.rideStep hstep fun _ _ => Group.ride_unwound
  | «return» u =>
    obtain ⟨user, hu, hstep⟩ := Option.bind_eq_some_iff.mp hstep
    split at hstep
    · rename_i call hphase
      obtain ⟨g, hg, rfl⟩ := Option.map_eq_some_iff.mp hstep
      exact h.returnStep hu hphase hg
    · cases hstep
  | leave u =>
    obtain ⟨user, hu, hstep⟩ := Option.bind_eq_some_iff.mp hstep
    split at hstep
    · rename_i hphase
      obtain rfl := Option.some.inj hstep
      exact h.moveStep hu (by simp [hphase]) (by simp [hphase]) (by simp) (by simp)
    · cases hstep
  | releaseUser u =>
    obtain ⟨user, hu, hstep⟩ := Option.bind_eq_some_iff.mp hstep
    split at hstep
    · rename_i hphase
      obtain rfl := Option.some.inj hstep
      exact h.releaseStep hu hphase
    · cases hstep
  | start f =>
    obtain ⟨g, hg, rfl⟩ := Option.map_eq_some_iff.mp hstep
    obtain ⟨hride, key, task, hold, htask, hstatus⟩ := Group.ride_start hg
    have hworking : s.factories f = .working := by
      by_contra hphase
      obtain ⟨key', task', hstatus', hne⟩ := h.items.begun f hphase
      rw [hold] at hstatus'
      exact hne (Prod.mk.inj (Option.some.inj hstatus')).2.symm
    refine ⟨Group.inv_step h.group hg, ?_, h.counted, ?_⟩
    · show Links s.users g.ride
      rw [hride]
      exact h.links
    · show Items s.users g.ride g.status s.factories s.materializedReady s.released
      rw [hride, hstatus]
      refine h.items.restatus hold ?_ (by simp [hworking]) ?_
      · rcases htask with rfl | rfl <;> simp
      · intro item hitem
        rcases htask with rfl | rfl <;> cases hitem
  | complete f =>
    simp only [Pipeline.step] at hstep
    split at hstep
    · rename_i hphase
      obtain rfl := Option.some.inj hstep
      obtain ⟨key, hrunning⟩ := running_iff.mp hphase.1
      exact h.factoryStep hrunning (by simp [hphase.2]) (by simp) (by simp [hphase.2])
    · cases hstep
  | discard f =>
    simp only [Pipeline.step] at hstep
    split at hstep
    · rename_i hphase
      obtain rfl := Option.some.inj hstep
      obtain ⟨key, hrunning⟩ := h.items.busy f (.inl hphase)
      have hraised : Inv (s.setFactory f .raising) :=
        h.factoryStep hrunning (by simp [hphase]) (by simp) (by simp)
      exact ⟨hraised.group, hraised.links, hraised.counted,
        hraised.items.discard (Function.update_self ..)⟩
    · cases hstep
  | beginPublish f =>
    simp only [Pipeline.step] at hstep
    split at hstep
    · rename_i hphase
      obtain rfl := Option.some.inj hstep
      obtain ⟨key, hrunning⟩ := h.items.busy f (.inl hphase)
      exact h.factoryStep hrunning (by simp [hphase]) (by simp) (by simp [hphase])
    · cases hstep
  | publish f =>
    obtain ⟨key, hkey, hstep⟩ := Option.bind_eq_some_iff.mp hstep
    split at hstep
    · rename_i hphase
      obtain rfl := Option.some.inj hstep
      exact h.publishStep hkey hphase (halone f key rfl hkey)
    · cases hstep
  | finish f cancellation =>
    simp only [Pipeline.step] at hstep
    split at hstep
    · rename_i hphase
      obtain ⟨g, hg, rfl⟩ := Option.map_eq_some_iff.mp hstep
      refine h.finishStep hg (by simp [hphase]) ?_
      intro item hitem
      split at hitem
      · cases hitem
      · exact ⟨(Outcome.value.inj hitem).symm, hphase⟩
    · cases hstep
  | fail f error =>
    simp only [Pipeline.step] at hstep
    split at hstep
    · rename_i hphase
      obtain ⟨g, hg, rfl⟩ := Option.map_eq_some_iff.mp hstep
      refine h.finishStep hg ?_ ?_
      · rcases hphase with hphase | hphase <;> simp [hphase]
      · intro item hitem
        cases error <;> cases hitem
    · cases hstep

theorem inv_run {actions : List (Action κ ε)}
    (halone : (Pipeline.machine κ ε).Admits Pipeline.PublishesAlone Pipeline.initial actions)
    (hrun : (Pipeline.machine κ ε).run Pipeline.initial actions = some s) : Inv s :=
  (Pipeline.machine κ ε).invariant_of_admits
    (fun _ _ _ hinv ha hstep => inv_step hinv ha hstep) inv_initial halone hrun

end Runs

/-- The invariant says where every item is, so it gives users what they rely on. -/
theorem Inv.releasedOnce {s : Pipeline κ ε} (h : Inv s) : s.ReleasedOnce := by
  constructor
  case once =>
    intro f hpub
    obtain ⟨key, task, hstatus, -⟩ := h.items.begun f (by simp [hpub])
    rcases h.items.published f key task hpub hstatus with ⟨-, hzero⟩ | ⟨-, hone⟩
    · omega
    · omega
  case kept =>
    intro user huser f hitem hphase
    obtain ⟨u, hu⟩ := List.mem_iff_getElem?.mp huser
    obtain ⟨record, hrecord, rfl⟩ := h.items.given u user f hu hitem hphase
    obtain ⟨hpub, task, hstatus⟩ := h.items.record user.key record hrecord
    rcases h.items.published record.item user.key task hpub hstatus with ⟨-, hzero⟩ | ⟨hgone, -⟩
    · exact List.count_eq_zero.mp hzero
    · exact absurd rfl (hgone record hrecord)
  case drained =>
    intro key hgone
    have hnobody : tally (present key) s.users = 0 := by
      rw [tally_eq_zero]
      intro user huser
      exact if_neg fun hcon => hcon.2 (hgone user huser hcon.1)
    have hready : s.materializedReady key = none := by
      cases hrecord : s.materializedReady key with
      | none => rfl
      | some record =>
        have hpos := (h.counted.shared key record hrecord).2.2
        omega
    have hpending := h.counted.waiting key hready
    rw [if_pos hnobody] at hpending
    refine ⟨hready, hpending, ?_⟩
    intro f hkey
    have hidle : s.materializeFlights.status f ≠ some (key, .running) := by
      intro hrunning
      obtain ⟨call, hcall⟩ := h.group.ridden_of_running hrunning rfl
      obtain ⟨u, user, hu, hflying⟩ := h.links.carried call key f hcall
      obtain ⟨f', hcall'⟩ := h.links.riding u user call hu hflying
      obtain ⟨hsame, -⟩ := Prod.mk.inj (Option.some.inj (hcall.symm.trans hcall'))
      rw [hgone user (List.mem_of_getElem? hu) hsame.symm] at hflying
      cases hflying
    obtain ⟨⟨key', task⟩, hstatus, rfl⟩ := Option.map_eq_some_iff.mp hkey
    have hbusy : ¬ (s.factories f = .completed ∨ s.factories f = .publishing) := by
      intro hphase
      obtain ⟨key₀, hrunning⟩ := h.items.busy f hphase
      obtain ⟨rfl, -⟩ := Prod.mk.inj (Option.some.inj (hrunning.symm.trans hstatus))
      exact hidle hrunning
    refine ⟨fun hphase => hbusy (.inl hphase), fun hphase => hbusy (.inr hphase), ?_⟩
    intro hpub
    rcases h.items.published f key' task hpub hstatus with ⟨⟨record, hrecord, -⟩, -⟩ | ⟨-, hone⟩
    · rw [hready] at hrecord
      cases hrecord
    · exact hone

/-- As long as no factory publishes over a published item, every published item is released
exactly once, after its last user. -/
theorem shared_items_released_once (actions : List (Action κ ε)) (s : Pipeline κ ε)
    (halone : (Pipeline.machine κ ε).Admits Pipeline.PublishesAlone Pipeline.initial actions)
    (hrun : (Pipeline.machine κ ε).run Pipeline.initial actions = some s) : s.ReleasedOnce :=
  (inv_run halone hrun).releasedOnce

/-- One user from registration to release. -/
theorem shared_items_released_once_single :
    ∃ s : Pipeline Nat Unit, (Pipeline.machine Nat Unit).run Pipeline.initial
        [.register 5, .join 0, .start 0, .complete 0, .beginPublish 0, .publish 0,
          .finish 0 false, .wake 0, .unsubscribe 0, .return 0, .leave 0, .releaseUser 0] = some s ∧
      s.released = [0] ∧ s.ReleasedOnce := by
  refine ⟨_, rfl, rfl, shared_items_released_once
    [.register 5, .join 0, .start 0, .complete 0, .beginPublish 0, .publish 0,
      .finish 0 false, .wake 0, .unsubscribe 0, .return 0, .leave 0, .releaseUser 0] _ ?_ rfl⟩
  have quiet {s : Pipeline Nat Unit} {a : Action Nat Unit} (ha : ∀ f, a ≠ .publish f) :
      s.PublishesAlone a := fun f key heq => absurd heq (ha f)
  refine Machine.admits_cons _ rfl (quiet nofun) ?_
  refine Machine.admits_cons _ rfl (quiet nofun) ?_
  refine Machine.admits_cons _ rfl (quiet nofun) ?_
  refine Machine.admits_cons _ rfl (quiet nofun) ?_
  refine Machine.admits_cons _ rfl (quiet nofun) ?_
  refine Machine.admits_cons _ rfl (fun f key _ _ => rfl) ?_
  exact ⟨quiet nofun, fun _ _ => ⟨quiet nofun, fun _ _ => ⟨quiet nofun, fun _ _ =>
    ⟨quiet nofun, fun _ _ => ⟨quiet nofun, fun _ _ => ⟨quiet nofun, fun _ _ => trivial⟩⟩⟩⟩⟩⟩

/-- User 0 is cancelled while its factory is about to publish; user 1 registers and starts a
second flight before the publication; then the item of the second flight is never released. -/
def lostItem : List (Action Nat Unit) :=
  [.register 5, .join 0, .start 0, .complete 0, .cancel 0, .beginPublish 0, .unsubscribe 0,
    .register 5, .join 1, .publish 0, .finish 0 true, .unwound 0, .return 0, .releaseUser 0,
    .start 1, .complete 1, .beginPublish 1, .publish 1, .finish 1 false, .wake 1, .unsubscribe 1,
    .return 1, .leave 1, .releaseUser 1]

theorem shared_item_lost :
    ¬ ∀ (actions : List (Action Nat Unit)) (s : Pipeline Nat Unit),
      (Pipeline.machine Nat Unit).run Pipeline.initial actions = some s → s.ReleasedOnce := by
  intro hall
  obtain ⟨s, hrun, hgone, hkey, hpub, hreleased⟩ : ∃ s : Pipeline Nat Unit,
      (Pipeline.machine Nat Unit).run Pipeline.initial lostItem = some s ∧
      (∀ user ∈ s.users, user.phase = .left) ∧ s.key? 1 = some 5 ∧ s.factories 1 = .published ∧
      s.released = [0] := by
    refine ⟨_, rfl, ?_, rfl, rfl, rfl⟩
    intro user huser
    rcases List.mem_cons.mp huser with rfl | huser
    · rfl
    · rw [List.mem_singleton.mp huser]
  have hone := ((hall lostItem s hrun).drained 5 fun user huser _ => hgone user huser).2.2 1 hkey
  rw [hreleased] at hone
  exact absurd (hone.2.2 hpub) (by decide)

end YtdlBot.Materialization
