import Mathlib.Algebra.Field.Defs
import Mathlib.Algebra.Order.Ring.Defs
import YtdlBot.Framework.ExpiryMap
import YtdlBot.Framework.Machine

/-!
# Lease tables

Leases of keys, each with an owner token and an expiry. A lease counts only before its expiry,
whether or not the table has dropped it since. What the holders were told is kept beside the table:
a service that answers like the reference never lets two of them hold one key.
-/

namespace YtdlBot.Framework

open ExpiryMap

/-- The value of a lease is its owner. -/
abbrev Lease (ω τ : Type) := Expiring ω τ

abbrev LeaseTable (κ ω τ : Type) := ExpiryMap κ ω τ

/-- Operations of holders; `token` is what the random source would give next. -/
inductive LeaseOp (κ ω τ : Type) where
  | acquire (key : κ) (ttl : τ) (token : ω)
  | renew (key : κ) (owner : ω) (ttl : τ)
  | release (key : κ) (owner : ω)

inductive LeaseAnswer (ω : Type) where
  | granted (owner : Option ω)
  | done (success : Bool)
  /-- The operation raises: its time to live is none that can be set. -/
  | refused
deriving DecidableEq

/-- A lease as its holder knows it. -/
structure Grant (κ ω τ : Type) where
  key : κ
  owner : ω
  expiresAt : τ

section Table

variable {κ ω τ : Type} [LinearOrder τ]

/-- Some holder believes that `owner` holds the key. -/
def Live (view : List (Grant κ ω τ)) (now : τ) (key : κ) (owner : ω) : Prop :=
  ∃ grant ∈ view, grant.key = key ∧ grant.owner = owner ∧ now < grant.expiresAt

/-- From `time` on the table holds the leases that the holders believe in. -/
def Matches (t : LeaseTable κ ω τ) (view : List (Grant κ ω τ)) (time : τ) : Prop :=
  ∀ now, time ≤ now → ∀ key owner,
    Live view now key owner ↔ ∃ lease, t.current now key = some lease ∧ lease.value = owner

variable {t t' : LeaseTable κ ω τ} {view : List (Grant κ ω τ)} {time now : τ} {key : κ}

theorem Matches.later (h : Matches t view time) (hle : time ≤ now) : Matches t view now :=
  fun later hlater => h later (le_trans hle hlater)

theorem Matches.same (h : Matches t view time) (hsame : Same time t' t) :
    Matches t' view time := by
  intro now hnow key owner
  rw [hsame now hnow key]
  exact h now hnow key owner

/-- No two holders hold one key. -/
theorem Matches.exclusive (h : Matches t view time) (hle : time ≤ now) {a b : ω}
    (ha : Live view now key a) (hb : Live view now key b) : a = b := by
  obtain ⟨lease, hlease, rfl⟩ := (h now hle key a).mp ha
  obtain ⟨lease', hlease', rfl⟩ := (h now hle key b).mp hb
  rw [Option.some.inj (hlease.symm.trans hlease')]

theorem live_earlier {later : τ} (hle : now ≤ later) {owner : ω}
    (h : Live view later key owner) : Live view now key owner := by
  obtain ⟨grant, hgrant, hkey, howner, hexpires⟩ := h
  exact ⟨grant, hgrant, hkey, howner, lt_of_le_of_lt hle hexpires⟩

theorem Matches.free (h : Matches t view time) :
    t.current time key = none ↔ ∀ owner, ¬ Live view time key owner := by
  constructor
  · intro hnone owner hlive
    obtain ⟨lease, hlease, -⟩ := (h time (le_refl _) key owner).mp hlive
    rw [hnone] at hlease
    cases hlease
  · intro hnobody
    cases hcurrent : t.current time key with
    | none => rfl
    | some lease =>
      exact absurd ((h time (le_refl _) key lease.value).mpr ⟨lease, hcurrent, rfl⟩) (hnobody _)

theorem live_cons {grant : Grant κ ω τ} {owner : ω} :
    Live (grant :: view) now key owner ↔
      (grant.key = key ∧ grant.owner = owner ∧ now < grant.expiresAt) ∨ Live view now key owner := by
  constructor
  · rintro ⟨g, hg, hlive⟩
    rcases List.mem_cons.mp hg with rfl | hold
    · exact .inl hlive
    · exact .inr ⟨g, hold, hlive⟩
  · rintro (hlive | ⟨g, hg, hlive⟩)
    · exact ⟨grant, List.mem_cons_self, hlive⟩
    · exact ⟨g, List.mem_cons_of_mem _ hg, hlive⟩

section Held

variable [DecidableEq ω]

def LeaseTable.held (t : LeaseTable κ ω τ) (now : τ) (key : κ) (owner : ω) : Bool :=
  (t.current now key).any fun lease => lease.value = owner

theorem held_iff {owner : ω} :
    t.held now key owner = true ↔ ∃ lease, t.current now key = some lease ∧ lease.value = owner := by
  rw [LeaseTable.held, Option.any_eq_true_iff_get]
  constructor
  · rintro ⟨hsome, howner⟩
    exact ⟨_, (Option.some_get hsome).symm, of_decide_eq_true howner⟩
  · rintro ⟨lease, hlease, howner⟩
    simp only [hlease, Option.get_some]
    exact ⟨rfl, decide_eq_true howner⟩

theorem held_of_none (h : t.current now key = none) (owner : ω) : t.held now key owner = false := by
  rw [LeaseTable.held, h, Option.any_none]

theorem held_of_some {lease : Lease ω τ} (h : t.current now key = some lease) (owner : ω) :
    t.held now key owner = decide (lease.value = owner) := by
  rw [LeaseTable.held, h, Option.any_some]

theorem Matches.held (h : Matches t view time) (hle : time ≤ now) {owner : ω} :
    t.held now key owner = true ↔ Live view now key owner :=
  held_iff.trans (h now hle key owner).symm

end Held

section Put

variable [DecidableEq κ]

theorem Matches.grant (h : Matches t view time) (hfree : t.current time key = none) (owner : ω)
    (expiresAt : τ) :
    Matches (t.put key (some ⟨owner, expiresAt⟩)) (⟨key, owner, expiresAt⟩ :: view) time := by
  intro now hle key' owner'
  rw [live_cons]
  by_cases hkey : key' = key
  · subst hkey
    have hnobody : ¬ Live view now key' owner' := by
      intro hlive
      obtain ⟨lease, hlease, -⟩ := (h now hle key' owner').mp hlive
      rw [current_earlier hle hlease] at hfree
      cases hfree
    rw [or_iff_left hnobody, current_put_self]
    constructor
    · rintro ⟨-, rfl, hexpires⟩
      exact ⟨_, Option.filter_eq_some_iff.mpr ⟨rfl, decide_eq_true hexpires⟩, rfl⟩
    · rintro ⟨lease, hlease, rfl⟩
      obtain ⟨hsome, hexpires⟩ := Option.filter_eq_some_iff.mp hlease
      obtain rfl := Option.some.inj hsome
      exact ⟨rfl, rfl, of_decide_eq_true hexpires⟩
  · have hother : ¬ (key = key' ∧ owner = owner' ∧ now < expiresAt) := fun hgrant => hkey hgrant.1.symm
    rw [or_iff_right hother, current_put_other _ hkey]
    exact h now hle key' owner'

end Put

section View

variable [DecidableEq κ] [DecidableEq ω]

/-- Holders that are told of a new expiry. -/
def extended (view : List (Grant κ ω τ)) (key : κ) (owner : ω) (expiresAt : τ) :
    List (Grant κ ω τ) :=
  view.map fun grant =>
    if grant.key = key ∧ grant.owner = owner then { grant with expiresAt := expiresAt } else grant

def dropped (view : List (Grant κ ω τ)) (key : κ) (owner : ω) : List (Grant κ ω τ) :=
  view.filter fun grant => ¬ (grant.key = key ∧ grant.owner = owner)

theorem live_extended_other {key' : κ} {owner owner' : ω} {expiresAt : τ}
    (hne : ¬ (key' = key ∧ owner' = owner)) :
    Live (extended view key owner expiresAt) now key' owner' ↔ Live view now key' owner' := by
  constructor
  · rintro ⟨g, hg, rfl, rfl, hexpires⟩
    obtain ⟨old, hold, rfl⟩ := List.mem_map.mp hg
    by_cases hit : old.key = key ∧ old.owner = owner
    · rw [if_pos hit] at hne
      exact absurd hit hne
    · rw [if_neg hit] at hexpires ⊢
      exact ⟨old, hold, rfl, rfl, hexpires⟩
  · rintro ⟨g, hg, rfl, rfl, hexpires⟩
    exact ⟨g, List.mem_map.mpr ⟨g, hg, if_neg hne⟩, rfl, rfl, hexpires⟩

theorem live_dropped {key' : κ} {owner owner' : ω} :
    Live (dropped view key owner) now key' owner' ↔
      ¬ (key' = key ∧ owner' = owner) ∧ Live view now key' owner' := by
  constructor
  · rintro ⟨g, hg, rfl, rfl, hexpires⟩
    obtain ⟨hmem, hkeep⟩ := List.mem_filter.mp hg
    exact ⟨of_decide_eq_true hkeep, g, hmem, rfl, rfl, hexpires⟩
  · rintro ⟨hne, g, hg, rfl, rfl, hexpires⟩
    exact ⟨g, List.mem_filter.mpr ⟨hg, decide_eq_true hne⟩, rfl, rfl, hexpires⟩

theorem Matches.drop (h : Matches t view time) {owner : ω} (hlive : Live view time key owner) :
    Matches (t.put key none) (dropped view key owner) time := by
  intro now hle key' owner'
  rw [live_dropped]
  by_cases hkey : key' = key
  · subst hkey
    rw [current_put_self]
    constructor
    · rintro ⟨hne, grant, hgrant, hgkey, hgowner, hexpires⟩
      have hthen : Live view time key' owner' :=
        ⟨grant, hgrant, hgkey, hgowner, lt_of_le_of_lt hle hexpires⟩
      exact absurd ⟨rfl, h.exclusive (le_refl _) hthen hlive⟩ hne
    · rintro ⟨lease, hlease, -⟩
      cases hlease
  · rw [current_put_other _ hkey, and_iff_right fun heq => hkey heq.1]
    exact h now hle key' owner'

end View

end Table

section Service

variable {κ ω τ σ σ' : Type} [DecidableEq κ] [DecidableEq ω] [LinearOrder τ] [Add τ]

def LeaseOp.ttl : LeaseOp κ ω τ → Option τ
  | .acquire _ ttl _ => some ttl
  | .renew _ _ ttl => some ttl
  | .release _ _ => none

def LeaseOp.token : LeaseOp κ ω τ → Option ω
  | .acquire _ _ token => some token
  | .renew _ _ _ => none
  | .release _ _ => none

/-- The reference service; a lease asked for `ttl` lives `life ttl`, if that is a time to live. -/
def serve (life : τ → Option τ) (now : τ) (t : LeaseTable κ ω τ) :
    LeaseOp κ ω τ → LeaseAnswer ω × LeaseTable κ ω τ
  | .acquire key ttl token =>
    (life ttl).elim (.refused, t) fun lasting =>
      if (t.current now key).isSome then (.granted none, t)
      else (.granted (some token), t.put key (some ⟨token, now + lasting⟩))
  | .renew key owner ttl =>
    (life ttl).elim (.refused, t) fun lasting =>
      if t.held now key owner then (.done true, t.put key (some ⟨owner, now + lasting⟩))
      else (.done false, t)
  | .release key owner =>
    if t.held now key owner then (.done true, t.put key none) else (.done false, t)

/-- The answers of a service to some operations. -/
def answers (step : τ → σ → LeaseOp κ ω τ → LeaseAnswer ω × σ) :
    σ → List (τ × LeaseOp κ ω τ) → List (LeaseAnswer ω)
  | _, [] => []
  | s, (now, op) :: ops => (step now s op).1 :: answers step (step now s op).2 ops

/-- What the holders note of an answer. -/
def noted (life : τ → Option τ) (now : τ) (view : List (Grant κ ω τ)) :
    LeaseOp κ ω τ → LeaseAnswer ω → List (Grant κ ω τ)
  | .acquire key ttl _, .granted (some owner) =>
    (life ttl).elim view fun lasting => ⟨key, owner, now + lasting⟩ :: view
  | .renew key owner ttl, .done true =>
    (life ttl).elim view fun lasting => extended view key owner (now + lasting)
  | .release key owner, .done true => dropped view key owner
  | _, _ => view

variable {life life' : τ → Option τ} {t t' : LeaseTable κ ω τ} {view : List (Grant κ ω τ)} {time now : τ}

/-- A service with states `σ` answers like the reference does on its table, and moves alike. -/
structure Serves (step : τ → σ → LeaseOp κ ω τ → LeaseAnswer ω × σ) (table : σ → LeaseTable κ ω τ)
    (life : τ → Option τ) : Prop where
  answer : ∀ now s op, (step now s op).1 = (serve life now (table s) op).1
  state : ∀ now s op, Same now (table (step now s op).2) (serve life now (table s) op).2

end Service

section Probes

variable {κ ω τ : Type} [DecidableEq κ] [DecidableEq ω] [LinearOrder τ] [AddZeroClass τ]
  {life life' : τ → Option τ} {ttl later lasting : τ}

/-- Operations in the order of the clock, each acquisition with a token of its own. -/
def InOrder (ops : List (τ × LeaseOp κ ω τ)) : Prop :=
  (ops.map Prod.fst).Pairwise (· ≤ ·) ∧ (ops.filterMap fun p => p.2.token).Nodup

end Probes

section Sessions

variable {κ ω τ σ : Type} [DecidableEq κ] [DecidableEq ω] [LinearOrder τ] [Add τ]

/-- A service with its clock, what the holders know, and the tokens handed out so far. -/
structure LeaseSession (κ ω τ σ : Type) where
  service : σ
  time : τ
  view : List (Grant κ ω τ)
  issued : List ω

variable (step : τ → σ → LeaseOp κ ω τ → LeaseAnswer ω × σ) (life : τ → Option τ)

def LeaseSession.advance (s : LeaseSession κ ω τ σ) (a : τ × LeaseOp κ ω τ) :
    Option (LeaseSession κ ω τ σ) :=
  let result := step a.1 s.service a.2
  some ⟨result.2, a.1, noted life a.1 s.view a.2 result.1,
    match a.2 with
    | .acquire _ _ token => token :: s.issued
    | _ => s.issued⟩

def leaseMachine : Machine (LeaseSession κ ω τ σ) (τ × LeaseOp κ ω τ) :=
  ⟨LeaseSession.advance step life⟩

/-- The clock does not run back, and no token is handed out twice. -/
def LeaseSession.Orderly (s : LeaseSession κ ω τ σ) (a : τ × LeaseOp κ ω τ) : Prop :=
  s.time ≤ a.1 ∧ ∀ key ttl token, a.2 = .acquire key ttl token → token ∉ s.issued

/-- What holds of leases in a state that can be reached. -/
structure LeaseSession.Exclusive (s : LeaseSession κ ω τ σ) : Prop where
  one : ∀ now key a b, s.time ≤ now → Live s.view now key a → Live s.view now key b → a = b
  acquire : ∀ now key ttl token, s.time ≤ now → (life ttl).isSome →
    (step now s.service (.acquire key ttl token)).1 =
        .granted (some token) ∧ (∀ owner, ¬ Live s.view now key owner) ∨
      (step now s.service (.acquire key ttl token)).1 = .granted none ∧
        ∃ owner, Live s.view now key owner
  renew : ∀ now key owner ttl, s.time ≤ now → (life ttl).isSome →
    ∃ success, (step now s.service (.renew key owner ttl)).1 = .done success ∧
      (success = true ↔ Live s.view now key owner)
  release : ∀ now key owner, s.time ≤ now →
    ∃ success, (step now s.service (.release key owner)).1 = .done success ∧
      (success = true ↔ Live s.view now key owner)
  /-- Once expired or released, a token is never good for its key again. -/
  stale : ∀ key owner, owner ∈ s.issued → ¬ Live s.view s.time key owner →
    ∀ as t, (leaseMachine step life).run s as = some t →
      (leaseMachine step life).Admits LeaseSession.Orderly s as →
        ∀ now, t.time ≤ now → ¬ Live t.view now key owner

variable {step life} {table : σ → LeaseTable κ ω τ} {s s' : LeaseSession κ ω τ σ}

def LeaseSession.Known (table : σ → LeaseTable κ ω τ) (s : LeaseSession κ ω τ σ) : Prop :=
  Matches (table s.service) s.view s.time

theorem stale_step (h : Serves step table life) (hknown : s.Known table) {a : τ × LeaseOp κ ω τ}
    (horderly : s.Orderly a) (hs : (leaseMachine step life).step s a = some s') {key : κ} {owner : ω}
    (hissued : owner ∈ s.issued) (hstale : ¬ Live s.view s.time key owner) :
    owner ∈ s'.issued ∧ ¬ Live s'.view s'.time key owner := by
  obtain ⟨now, op⟩ := a
  obtain rfl := Option.some.inj hs
  have hnow : ¬ Live s.view now key owner := fun hlive => hstale (live_earlier horderly.1 hlive)
  have hheld : ∀ key' owner', (table s.service).held now key' owner' = true →
      ¬ (key = key' ∧ owner = owner') := by
    rintro key' owner' hheld ⟨rfl, rfl⟩
    exact hnow ((Matches.held hknown horderly.1).mp hheld)
  cases op with
  | acquire key' ttl token =>
    refine ⟨List.mem_cons_of_mem _ hissued, ?_⟩
    cases hlife : life ttl with
    | none =>
      simp only [h.answer, serve, hlife, Option.elim_none]
      exact hnow
    | some lasting =>
      simp only [h.answer, serve, hlife, Option.elim_some]
      split
      · exact hnow
      · simp only [noted, hlife, Option.elim_some]
        intro hlive
        rcases live_cons.mp hlive with ⟨-, rfl, -⟩ | hold
        · exact horderly.2 _ _ _ rfl hissued
        · exact hnow hold
  | renew key' owner' ttl =>
    refine ⟨hissued, ?_⟩
    cases hlife : life ttl with
    | none =>
      simp only [h.answer, serve, hlife, Option.elim_none]
      exact hnow
    | some lasting =>
      simp only [h.answer, serve, hlife, Option.elim_some]
      split
      next hyes =>
        simp only [noted, hlife, Option.elim_some]
        exact fun hlive => hnow ((live_extended_other (hheld key' owner' hyes)).mp hlive)
      · exact hnow
  | release key' owner' =>
    refine ⟨hissued, ?_⟩
    simp only [h.answer, serve]
    split
    · exact fun hlive => hnow (live_dropped.mp hlive).2
    · exact hnow

end Sessions

end YtdlBot.Framework
