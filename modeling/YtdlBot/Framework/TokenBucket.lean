import Mathlib.Algebra.Order.Field.Basic
import Mathlib.Algebra.Order.Group.MinMax
import Mathlib.Algebra.BigOperators.Group.List.Basic
import Mathlib.Tactic.Linarith
import Mathlib.Tactic.Ring

/-!
# Token buckets

A bucket is known by what it holds at each later time, its level. A family of buckets that
forgets those which are full again decides as the family that keeps them all, and what a key is
granted in a window of time is bounded by the capacity and the refill.
-/

namespace YtdlBot.Framework.TokenBucket

structure Bucket (𝕜 : Type*) where
  tokens : 𝕜
  updatedAt : 𝕜
  deriving DecidableEq, Repr

/-- One request to a limiter. -/
structure Call (K 𝕜 : Type*) where
  key : K
  cost : 𝕜
  now : 𝕜
  deriving DecidableEq, Repr

variable {K 𝕜 σ τ : Type*} [Field 𝕜] [LinearOrder 𝕜]

/-- What the bucket holds at time `t`. -/
def level (capacity rate : 𝕜) (b : Bucket 𝕜) (t : 𝕜) : 𝕜 :=
  min capacity (b.tokens + (t - b.updatedAt) * rate)

/-- A bucket that is not there is full. -/
def levelOf (capacity rate : 𝕜) : Option (Bucket 𝕜) → 𝕜 → 𝕜
  | none, _ => capacity
  | some b, t => level capacity rate b t

/-- Spend `cost` at `now` when the bucket holds that much. -/
def spend (capacity rate : 𝕜) (b : Bucket 𝕜) (cost now : 𝕜) : Bool × Bucket 𝕜 :=
  let tokens := level capacity rate b now
  if cost ≤ tokens then (true, ⟨tokens - cost, now⟩) else (false, ⟨tokens, now⟩)

/-- The reference: one bucket for each key, none of them ever dropped. -/
def allow [DecidableEq K] (capacity rate : 𝕜) (buckets : K → Bucket 𝕜) (c : Call K 𝕜) :
    Bool × (K → Bucket 𝕜) :=
  let result := spend capacity rate (buckets c.key) c.cost c.now
  (result.1, Function.update buckets c.key result.2)

/-- Every bucket is full at `start`. -/
def full (capacity start : 𝕜) : K → Bucket 𝕜 :=
  fun _ => ⟨capacity, start⟩

/-- The answers to a sequence of calls. -/
def decisions {C : Type*} (allow : σ → C → Bool × σ) : σ → List C → List Bool
  | _, [] => []
  | s, c :: calls => (allow s c).1 :: decisions allow (allow s c).2 calls

/-- Calls at non-decreasing times from `start` on, none with a negative cost. -/
def Valid (start : 𝕜) : List (Call K 𝕜) → Prop
  | [] => True
  | c :: calls => start ≤ c.now ∧ 0 ≤ c.cost ∧ Valid c.now calls

/-- What the calls of `key` between `s` and `t` were granted. -/
def allowedCost [DecidableEq K] (key : K) (s t : 𝕜) (calls : List (Call K 𝕜))
    (answers : List Bool) : 𝕜 :=
  (List.zipWith (fun c answer =>
    if answer = true ∧ c.key = key ∧ s ≤ c.now ∧ c.now ≤ t then c.cost else 0) calls answers).sum

section Levels

variable {capacity rate cost now t : 𝕜} {b : Bucket 𝕜}

theorem level_le_capacity : level capacity rate b t ≤ capacity :=
  min_le_left _ _

theorem level_of_le (rate : 𝕜) {tokens : 𝕜} (htokens : tokens ≤ capacity) :
    level capacity rate ⟨tokens, now⟩ now = tokens := by
  unfold level
  rw [sub_self, zero_mul, add_zero]
  exact min_eq_right htokens

theorem spend_of_le (hheld : cost ≤ level capacity rate b now) :
    spend capacity rate b cost now = (true, ⟨level capacity rate b now - cost, now⟩) :=
  if_pos hheld

theorem spend_of_not_le (hheld : ¬ cost ≤ level capacity rate b now) :
    spend capacity rate b cost now = (false, ⟨level capacity rate b now, now⟩) :=
  if_neg hheld

/-- The bucket holds no less than nothing, and was written by `now`. -/
def Sound (now : 𝕜) (b : Bucket 𝕜) : Prop :=
  0 ≤ b.tokens ∧ b.updatedAt ≤ now

theorem Sound.mono (hb : Sound now b) (ht : now ≤ t) : Sound t b :=
  ⟨hb.1, hb.2.trans ht⟩

variable [IsStrictOrderedRing 𝕜]

theorem level_refilled (hrate : 0 ≤ rate) (ht : now ≤ t) :
    level capacity rate ⟨level capacity rate b now, now⟩ t = level capacity rate b t := by
  have hgain : 0 ≤ (t - now) * rate := mul_nonneg (sub_nonneg.mpr ht) hrate
  unfold level
  simp only
  rw [← min_add_add_right, ← min_assoc, min_eq_left (by linarith : capacity ≤ capacity + _)]
  congr 1
  ring

theorem level_nonneg (hcapacity : 0 ≤ capacity) (hrate : 0 ≤ rate) (htokens : 0 ≤ b.tokens)
    (ht : b.updatedAt ≤ t) : 0 ≤ level capacity rate b t :=
  le_min hcapacity (add_nonneg htokens (mul_nonneg (sub_nonneg.mpr ht) hrate))

theorem level_idle (htokens : 0 ≤ b.tokens) (hidle : capacity ≤ (t - b.updatedAt) * rate) :
    level capacity rate b t = capacity :=
  min_eq_left (le_add_of_nonneg_of_le htokens hidle)

/-- Between two times a bucket gains at most the refill. -/
theorem level_gain (hrate : 0 ≤ rate) (ht : now ≤ t) :
    level capacity rate b t ≤ level capacity rate b now + rate * (t - now) := by
  rw [← level_refilled (b := b) hrate ht]
  refine (min_le_right _ _).trans (le_of_eq ?_)
  simp only
  ring

theorem level_spend (hcost : 0 ≤ cost) :
    (if (spend capacity rate b cost now).1 = true then cost else 0) +
      level capacity rate (spend capacity rate b cost now).2 now = level capacity rate b now := by
  by_cases hheld : cost ≤ level capacity rate b now
  · rw [spend_of_le hheld, if_pos rfl,
      level_of_le rate ((sub_le_self _ hcost).trans level_le_capacity)]
    ring
  · rw [spend_of_not_le hheld, if_neg (by simp), level_of_le rate level_le_capacity, zero_add]

theorem sound_spend (hcapacity : 0 ≤ capacity) (hrate : 0 ≤ rate) (hb : Sound now b) :
    Sound now (spend capacity rate b cost now).2 := by
  by_cases hheld : cost ≤ level capacity rate b now
  · rw [spend_of_le hheld]
    exact ⟨sub_nonneg.mpr hheld, le_refl _⟩
  · rw [spend_of_not_le hheld]
    exact ⟨level_nonneg hcapacity hrate hb.1 hb.2, le_refl _⟩

end Levels

section Window

variable [DecidableEq K] {capacity rate start s t : 𝕜} {key : K}

theorem allowedCost_cons (c : Call K 𝕜) (calls : List (Call K 𝕜)) (answer : Bool)
    (answers : List Bool) :
    allowedCost key s t (c :: calls) (answer :: answers) =
      (if answer = true ∧ c.key = key ∧ s ≤ c.now ∧ c.now ≤ t then c.cost else 0) +
        allowedCost key s t calls answers := by
  simp [allowedCost]

theorem allowedCost_after {calls : List (Call K 𝕜)} (hvalid : Valid start calls) (ht : t < start)
    (answers : List Bool) : allowedCost key s t calls answers = 0 := by
  induction calls generalizing start answers with
  | nil => simp [allowedCost]
  | cons c calls ih =>
    obtain ⟨hstart, -, hrest⟩ := hvalid
    have hlate : t < c.now := ht.trans_le hstart
    cases answers with
    | nil => simp [allowedCost]
    | cons answer answers =>
      rw [allowedCost_cons, if_neg fun h => absurd h.2.2.2 (not_le.mpr hlate), zero_add]
      exact ih hrest hlate answers

variable [IsStrictOrderedRing 𝕜] {buckets : K → Bucket 𝕜}

theorem sound_allow (hcapacity : 0 ≤ capacity) (hrate : 0 ≤ rate) {c : Call K 𝕜}
    (hstart : start ≤ c.now) (hb : ∀ k, Sound start (buckets k)) (k : K) :
    Sound c.now ((allow capacity rate buckets c).2 k) := by
  by_cases hk : k = c.key
  · rw [hk]
    simp only [allow, Function.update_self]
    exact sound_spend hcapacity hrate ((hb c.key).mono hstart)
  · simp only [allow, Function.update_of_ne hk]
    exact (hb k).mono hstart

theorem allowedCost_within (hcapacity : 0 ≤ capacity) (hrate : 0 ≤ rate)
    {calls : List (Call K 𝕜)} (hvalid : Valid start calls) (hb : ∀ k, Sound start (buckets k))
    (ht : start ≤ t) :
    allowedCost key s t calls (decisions (allow capacity rate) buckets calls) ≤
      level capacity rate (buckets key) start + rate * (t - start) := by
  induction calls generalizing start buckets with
  | nil =>
    have hlevel := level_nonneg hcapacity hrate (hb key).1 (hb key).2
    have hgain : 0 ≤ rate * (t - start) := mul_nonneg hrate (sub_nonneg.mpr ht)
    simp only [allowedCost, List.zipWith_nil_left, List.sum_nil]
    linarith
  | cons c calls ih =>
    obtain ⟨hstart, hcost, hrest⟩ := hvalid
    have hnext := sound_allow hcapacity hrate hstart hb
    simp only [decisions]
    rw [allowedCost_cons]
    by_cases hlate : t < c.now
    · have hlevel := level_nonneg hcapacity hrate (hb key).1 (hb key).2
      have hgain : 0 ≤ rate * (t - start) := mul_nonneg hrate (sub_nonneg.mpr ht)
      rw [if_neg fun h => absurd h.2.2.2 (not_le.mpr hlate), allowedCost_after hrest hlate]
      linarith
    · have hin : c.now ≤ t := not_lt.mp hlate
      have hih := ih hrest hnext hin
      have hgain : level capacity rate (buckets key) c.now ≤
          level capacity rate (buckets key) start + rate * (c.now - start) := level_gain hrate hstart
      by_cases hk : c.key = key
      · have hspent := @level_spend _ _ _ capacity rate c.cost c.now (buckets key) _ hcost
        simp only [allow, hk, Function.update_self] at hih ⊢
        have hgranted : (if (spend capacity rate (buckets key) c.cost c.now).1 = true ∧ True ∧
            s ≤ c.now ∧ c.now ≤ t then c.cost else 0) ≤
            if (spend capacity rate (buckets key) c.cost c.now).1 = true then c.cost else 0 := by
          split_ifs <;> simp_all
        linarith
      · rw [if_neg fun h => hk h.2.1]
        simp only [allow, Function.update_of_ne (Ne.symm hk)] at hih ⊢
        linarith

/-- In a window a key is granted at most the capacity and the refill. -/
theorem allowedCost_le (hcapacity : 0 ≤ capacity) (hrate : 0 ≤ rate)
    {calls : List (Call K 𝕜)} (hvalid : Valid start calls) (hb : ∀ k, Sound start (buckets k))
    (hst : s ≤ t) :
    allowedCost key s t calls (decisions (allow capacity rate) buckets calls) ≤
      capacity + rate * (t - s) := by
  have hwindow : 0 ≤ rate * (t - s) := mul_nonneg hrate (sub_nonneg.mpr hst)
  induction calls generalizing start buckets with
  | nil =>
    simp only [allowedCost, List.zipWith_nil_left, List.sum_nil]
    linarith
  | cons c calls ih =>
    have hstart := hvalid.1
    have hnow : ∀ k, Sound c.now (buckets k) := fun k => (hb k).mono hstart
    by_cases hearly : c.now < s
    · simp only [decisions]
      rw [allowedCost_cons, if_neg fun h => absurd h.2.2.1 (not_le.mpr hearly), zero_add]
      exact ih hvalid.2.2 (sound_allow hcapacity hrate hstart hb)
    · have hvalid' : Valid c.now (c :: calls) := ⟨le_refl _, hvalid.2⟩
      by_cases hlate : t < c.now
      · rw [allowedCost_after hvalid' hlate]
        linarith
      · have hin : allowedCost key s t (c :: calls)
            (decisions (allow capacity rate) buckets (c :: calls)) ≤
              level capacity rate (buckets key) c.now + rate * (t - c.now) :=
          allowedCost_within hcapacity hrate hvalid' hnow (not_lt.mp hlate)
        have hlevel : level capacity rate (buckets key) c.now ≤ capacity := level_le_capacity
        have hshort : rate * (t - c.now) ≤ rate * (t - s) :=
          mul_le_mul_of_nonneg_left (sub_le_sub_left (not_lt.mp hearly) t) hrate
        linarith

end Window

section Forgetting

variable {capacity rate now t : 𝕜}

/-- From `now` on both families hold the same: what one of them has forgotten is full. -/
def Tracks (capacity rate now : 𝕜) (kept : K → Option (Bucket 𝕜)) (buckets : K → Bucket 𝕜) :
    Prop :=
  ∀ k t, now ≤ t → levelOf capacity rate (kept k) t = level capacity rate (buckets k) t

variable {kept kept' : K → Option (Bucket 𝕜)} {buckets : K → Bucket 𝕜}

theorem tracks_full [IsStrictOrderedRing 𝕜] (hrate : 0 ≤ rate) : Tracks capacity rate now (fun _ : K => none)
    (full capacity now) := by
  intro k t ht
  exact (min_eq_left (le_add_of_nonneg_right (mul_nonneg (sub_nonneg.mpr ht) hrate))).symm

/-- A bucket may be forgotten once it is full. -/
theorem Tracks.forget (h : Tracks capacity rate now kept buckets)
    (hkept : ∀ k, kept' k = kept k ∨ kept' k = none ∧
      ∀ t, now ≤ t → levelOf capacity rate (kept k) t = capacity) :
    Tracks capacity rate now kept' buckets := by
  intro k t ht
  rw [← h k t ht]
  rcases hkept k with hsame | ⟨hnone, hfull⟩
  · rw [hsame]
  · rw [hnone, hfull t ht]
    rfl

theorem Tracks.spend [DecidableEq K] (h : Tracks capacity rate now kept buckets)
    {c : Call K 𝕜} (hnow : now ≤ c.now) {b : Bucket 𝕜}
    (hb : ∀ t, c.now ≤ t → level capacity rate b t = levelOf capacity rate (kept c.key) t) :
    (TokenBucket.spend capacity rate b c.cost c.now).1 = (allow capacity rate buckets c).1 ∧
      Tracks capacity rate c.now
        (Function.update kept c.key (some (TokenBucket.spend capacity rate b c.cost c.now).2))
        (allow capacity rate buckets c).2 := by
  have hlevel : level capacity rate b c.now = level capacity rate (buckets c.key) c.now := by
    rw [hb c.now (le_refl _), h c.key c.now hnow]
  have hspend : TokenBucket.spend capacity rate b c.cost c.now =
      TokenBucket.spend capacity rate (buckets c.key) c.cost c.now := by
    unfold TokenBucket.spend
    rw [hlevel]
  refine ⟨congrArg Prod.fst hspend, ?_⟩
  intro k t ht
  simp only [allow, hspend]
  by_cases hk : k = c.key
  · rw [hk, Function.update_self, Function.update_self]
    rfl
  · rw [Function.update_of_ne hk, Function.update_of_ne hk]
    exact h k t (hnow.trans ht)

end Forgetting

/-- A limiter that stays in step with another one answers as it does. -/
theorem decisions_eq {f : σ → Call K 𝕜 → Bool × σ} {g : τ → Call K 𝕜 → Bool × τ}
    (R : 𝕜 → σ → τ → Prop)
    (hstep : ∀ now s u c, R now s u → now ≤ c.now → 0 ≤ c.cost →
      (f s c).1 = (g u c).1 ∧ R c.now (f s c).2 (g u c).2)
    {start : 𝕜} {s : σ} {u : τ} (hR : R start s u) {calls : List (Call K 𝕜)}
    (hvalid : Valid start calls) : decisions f s calls = decisions g u calls := by
  induction calls generalizing start s u with
  | nil => rfl
  | cons c calls ih =>
    obtain ⟨hstart, hcost, hrest⟩ := hvalid
    obtain ⟨hanswer, hnext⟩ := hstep start s u c hR hstart hcost
    simp only [decisions]
    rw [hanswer, ih hnext hrest]

end YtdlBot.Framework.TokenBucket
