import Mathlib.Data.Rat.Floor
import YtdlBot.Limiter.Limiters

/-!
# The limiters agree

A bucket is pruned, and a key expires, only after it was idle for longer than it takes to fill
the bucket. So both limiters answer every call as buckets do that are never dropped.
-/

namespace YtdlBot.Limiter

open Framework.TokenBucket

variable {𝕜 : Type*} [Field 𝕜] [LinearOrder 𝕜] {capacity rate now : 𝕜} {b : Bucket 𝕜}

/-- A bucket as a limiter leaves it behind. -/
structure Stored (capacity now : 𝕜) (b : Bucket 𝕜) : Prop where
  nonneg : 0 ≤ b.tokens
  le_capacity : b.tokens ≤ capacity
  written : b.updatedAt ≤ now

theorem Stored.mono (h : Stored capacity now b) {t : 𝕜} (ht : now ≤ t) : Stored capacity t b :=
  ⟨h.nonneg, h.le_capacity, h.written.trans ht⟩

theorem spend_worked (kept : Option (Bucket 𝕜)) (cost : 𝕜) :
    spend capacity rate ⟨levelOf capacity rate kept now, now⟩ cost now =
      if cost ≤ levelOf capacity rate kept now then
        (true, ⟨levelOf capacity rate kept now - cost, now⟩)
      else (false, ⟨levelOf capacity rate kept now, now⟩) := by
  have hle : levelOf capacity rate kept now ≤ capacity := by
    cases kept with
    | none => exact le_refl _
    | some b => exact level_le_capacity
  unfold spend
  rw [level_of_le rate hle]

variable [IsStrictOrderedRing 𝕜]

/-- Refilling only when time has passed makes no difference. -/
theorem Stored.refilled (h : Stored capacity now b) :
    (if 0 < now - b.updatedAt then
        (⟨min capacity (b.tokens + (now - b.updatedAt) * rate), now⟩ : Bucket 𝕜)
      else b) = ⟨level capacity rate b now, now⟩ := by
  split
  · rfl
  · rename_i helapsed
    have hnow : b.updatedAt = now :=
      le_antisymm h.written (sub_nonpos.mp (not_lt.mp helapsed))
    have hlevel : level capacity rate ⟨b.tokens, b.updatedAt⟩ b.updatedAt = b.tokens :=
      level_of_le rate h.le_capacity
    obtain ⟨tokens, updatedAt⟩ := b
    simp only at hnow hlevel ⊢
    rw [← hnow, hlevel]

theorem stored_spend {cost : 𝕜} (hcapacity : 0 ≤ capacity) (hrate : 0 ≤ rate) (hcost : 0 ≤ cost)
    (h : Sound now b) : Stored capacity now (spend capacity rate b cost now).2 := by
  have hsound : Sound now (spend capacity rate b cost now).2 := sound_spend hcapacity hrate h
  obtain ⟨hnonneg, hwritten⟩ := hsound
  refine ⟨hnonneg, ?_, hwritten⟩
  by_cases hheld : cost ≤ level capacity rate b now
  · rw [spend_of_le hheld]
    exact (sub_le_self _ hcost).trans level_le_capacity
  · rw [spend_of_not_le hheld]
    exact level_le_capacity

theorem level_worked (hrate : 0 ≤ rate) (kept : Option (Bucket 𝕜)) {t : 𝕜} (ht : now ≤ t) :
    level capacity rate ⟨levelOf capacity rate kept now, now⟩ t = levelOf capacity rate kept t := by
  cases kept with
  | none =>
    have hgain : 0 ≤ (t - now) * rate := mul_nonneg (sub_nonneg.mpr ht) hrate
    exact min_eq_left (le_add_of_nonneg_right hgain)
  | some b => exact level_refilled hrate ht

theorem sound_worked (hcapacity : 0 ≤ capacity) (hrate : 0 ≤ rate) {kept : Option (Bucket 𝕜)}
    (hkept : ∀ b, kept = some b → Stored capacity now b) :
    Sound now ⟨levelOf capacity rate kept now, now⟩ := by
  cases kept with
  | none => exact ⟨hcapacity, le_refl _⟩
  | some b =>
    have hb := hkept b rfl
    exact ⟨level_nonneg hcapacity hrate hb.nonneg hb.written, le_refl _⟩

theorem Stored.full (h : Stored capacity now b) (hrate : 0 < rate) {t : 𝕜}
    (hidle : capacity / rate ≤ t - b.updatedAt) : level capacity rate b t = capacity :=
  level_idle h.nonneg ((div_le_iff₀ hrate).mp hidle)

namespace TokenBucketLimiter

/-- The limiter stays in step with buckets that are never dropped. -/
structure InStep (capacity rate now : 𝕜) (l : TokenBucketLimiter 𝕜)
    (buckets : String → Bucket 𝕜) : Prop where
  sameCapacity : l.capacity = capacity
  sameRate : l.refillRate = rate
  maxIdle : capacity / rate ≤ l.maxIdleSec
  stored : ∀ k b, l.buckets k = some b → Stored capacity now b
  tracks : Tracks capacity rate now l.buckets buckets

variable {l : TokenBucketLimiter 𝕜} {buckets : String → Bucket 𝕜}

theorem inStep_init {capacity rate : 𝕜} (hcapacity : 0 < capacity) (hrate : 0 < rate)
    (base : 𝕜) (burst : Option 𝕜) (hburst : burst.getD base = capacity) (now : 𝕜) :
    InStep capacity rate now (init base rate burst now) (full capacity now) where
  sameCapacity := hburst
  sameRate := rfl
  maxIdle := by
    have hquotient : 0 < capacity / rate := div_pos hcapacity hrate
    simp only [init, hburst, mul_div_assoc]
    exact (by linarith : capacity / rate ≤ 2 * (capacity / rate)).trans (le_max_right _ _)
  stored := by
    intro k b hb
    cases hb
  tracks := tracks_full hrate.le

theorem refilled_eq (h : InStep capacity rate now l buckets) (key : String) {t : 𝕜}
    (ht : now ≤ t) : l.refilled key t = ⟨levelOf capacity rate (l.buckets key) t, t⟩ := by
  unfold refilled
  rw [h.sameCapacity, h.sameRate]
  cases hkept : l.buckets key with
  | none => simp [levelOf]
  | some b => exact ((h.stored key b hkept).mono ht).refilled

/-- Pruning drops full buckets only. -/
theorem inStep_maybePrune (h : InStep capacity rate now l buckets) (hrate : 0 < rate) :
    InStep capacity rate now (l.maybePrune now) buckets := by
  unfold maybePrune
  split
  · exact h
  · refine { h with stored := ?_, tracks := ?_ }
    · intro k b hb
      exact h.stored k b (Option.filter_eq_some_iff.mp hb).1
    · apply h.tracks.forget
      intro k
      cases hkept : l.buckets k with
      | none =>
        left
        simp only [hkept, Option.filter_none]
      | some b =>
        simp only [hkept, Option.filter_some]
        by_cases hidle : l.maxIdleSec < now - b.updatedAt
        · right
          have hdropped : ¬ decide (¬ l.maxIdleSec < now - b.updatedAt) = true := by
            rw [decide_eq_true_eq]
            exact not_not.mpr hidle
          refine ⟨if_neg hdropped, ?_⟩
          intro t ht
          exact (h.stored k b hkept).full hrate
            (h.maxIdle.trans (hidle.le.trans (sub_le_sub_right ht _)))
        · left
          exact if_pos (decide_eq_true hidle)

theorem allow_eq (h : InStep capacity rate now l buckets) (c : Call String 𝕜)
    (hnow : now ≤ c.now) :
    l.allow c =
      let result := spend capacity rate ⟨levelOf capacity rate (l.buckets c.key) c.now, c.now⟩
        c.cost c.now
      (result.1, maybePrune { l with
        buckets := Function.update l.buckets c.key (some result.2) } c.now) := by
  unfold allow
  rw [refilled_eq h c.key hnow, spend_worked]
  by_cases hheld : c.cost ≤ levelOf capacity rate (l.buckets c.key) c.now
  · simp only [if_pos hheld]
  · simp only [if_neg hheld]

theorem inStep_allow (hcapacity : 0 < capacity) (hrate : 0 < rate)
    (h : InStep capacity rate now l buckets) {c : Call String 𝕜} (hnow : now ≤ c.now)
    (hcost : 0 ≤ c.cost) :
    (l.allow c).1 = (Framework.TokenBucket.allow capacity rate buckets c).1 ∧
      InStep capacity rate c.now (l.allow c).2
        (Framework.TokenBucket.allow capacity rate buckets c).2 := by
  rw [allow_eq h c hnow]
  have hstored : ∀ k b, l.buckets k = some b → Stored capacity c.now b :=
    fun k b hb => (h.stored k b hb).mono hnow
  obtain ⟨hanswer, htracks⟩ := h.tracks.spend hnow fun t ht => level_worked hrate.le _ ht
  refine ⟨hanswer, inStep_maybePrune { h with stored := ?_, tracks := htracks } hrate⟩
  intro k b hb
  by_cases hk : k = c.key
  · simp only [hk, Function.update_self, Option.some.injEq] at hb
    rw [← hb]
    exact stored_spend hcapacity.le hrate.le hcost
      (sound_worked hcapacity.le hrate.le (hstored c.key))
  · simp only [Function.update_of_ne hk] at hb
    exact hstored k b hb

end TokenBucketLimiter

namespace RedisTokenBucketLimiter

/-- The bucket that is written under a key of the limiter. -/
def stored (r : Redis 𝕜) (key : String) : Option (Bucket 𝕜) :=
  (r.keys ("ratelimit:" ++ key)).map fun e => ⟨e.tokens, e.updatedAt⟩

/-- The server stays in step with buckets that are never dropped: a key that expires has been
idle for long enough, and none is gone early. -/
structure InStep (capacity rate now : 𝕜) (r : Redis 𝕜) (buckets : String → Bucket 𝕜) : Prop where
  stored : ∀ k e, r.keys ("ratelimit:" ++ k) = some e → Stored capacity now ⟨e.tokens, e.updatedAt⟩
  prompt : ∀ expiry t, r.expired expiry t = true → expiry ≤ t
  expires : ∀ k e, r.keys ("ratelimit:" ++ k) = some e → e.updatedAt + capacity / rate ≤ e.expiry
  tracks : Tracks capacity rate now (RedisTokenBucketLimiter.stored r) buckets

/-- No key is there yet. -/
def emptyRedis (expired : 𝕜 → 𝕜 → Bool) : Redis 𝕜 :=
  ⟨fun _ => none, expired⟩

variable {r : Redis 𝕜} {buckets : String → Bucket 𝕜}

omit [LinearOrder 𝕜] [IsStrictOrderedRing 𝕜] in
theorem stored_set (key : String) (tokens updatedAt ttl now : 𝕜) :
    stored (r.set ("ratelimit:" ++ key) tokens updatedAt ttl now) =
      Function.update (stored r) key (some ⟨tokens, updatedAt⟩) := by
  funext k
  unfold stored Redis.set
  by_cases hk : k = key
  · simp only [hk, Function.update_self, Option.map_some]
  · have hne : "ratelimit:" ++ k ≠ "ratelimit:" ++ key :=
      fun heq => hk ((String.append_right_inj _).mp heq)
    simp only [Function.update_of_ne hk, Function.update_of_ne hne]

theorem inStep_empty (hrate : 0 < rate) {expired : 𝕜 → 𝕜 → Bool}
    (hexpired : ∀ expiry t, expired expiry t = true → expiry ≤ t) (now : 𝕜) :
    InStep capacity rate now (emptyRedis expired) (full capacity now) where
  stored := by
    intro k e he
    cases he
  prompt := hexpired
  expires := by
    intro k e he
    cases he
  tracks := tracks_full hrate.le

theorem luaBucket_eq (h : InStep capacity rate now r buckets) (hrate : 0 < rate)
    (key : String) {t : 𝕜} (ht : now ≤ t) :
    luaBucket capacity rate (r.get ("ratelimit:" ++ key) t) t =
      ⟨levelOf capacity rate (stored r key) t, t⟩ := by
  unfold Redis.get stored
  cases hkey : r.keys ("ratelimit:" ++ key) with
  | none => rfl
  | some e =>
    have hstored := h.stored key e hkey
    simp only [Option.filter_some, Option.map_some]
    cases hgone : r.expired e.expiry t with
    | false => exact (hstored.mono ht).refilled
    | true =>
      have hidle : capacity / rate ≤ t - e.updatedAt := by
        have hexpires := h.expires key e hkey
        have hlate := h.prompt e.expiry t hgone
        linarith
      have hfull := hstored.full hrate hidle
      simp [luaBucket, levelOf, hfull]

variable [FloorRing 𝕜]

theorem allow_eq (h : InStep capacity rate now r buckets) (hrate : 0 < rate)
    (c : Call String 𝕜) (hnow : now ≤ c.now) :
    allow ⟨capacity, rate⟩ true r c =
      let result := spend capacity rate ⟨levelOf capacity rate (stored r c.key) c.now, c.now⟩
        c.cost c.now
      (result.1, r.set ("ratelimit:" ++ c.key) result.2.tokens result.2.updatedAt
        ((⌈capacity / rate⌉ * 2 : ℤ) : 𝕜) c.now) := by
  unfold allow luaScript
  rw [luaBucket_eq h hrate c.key hnow, spend_worked]
  by_cases hheld : c.cost ≤ levelOf capacity rate (stored r c.key) c.now
  · simp only [if_pos hheld, if_true]
    rfl
  · simp only [if_neg hheld, if_true]
    rfl

theorem ttl_le (hcapacity : 0 < capacity) (hrate : 0 < rate) :
    capacity / rate ≤ ((⌈capacity / rate⌉ * 2 : ℤ) : 𝕜) := by
  have hquotient : 0 < capacity / rate := div_pos hcapacity hrate
  have hceil : capacity / rate ≤ (⌈capacity / rate⌉ : 𝕜) := Int.le_ceil _
  push_cast
  linarith

theorem inStep_allow (hcapacity : 0 < capacity) (hrate : 0 < rate)
    (h : InStep capacity rate now r buckets) {c : Call String 𝕜} (hnow : now ≤ c.now)
    (hcost : 0 ≤ c.cost) :
    (allow ⟨capacity, rate⟩ true r c).1 =
        (Framework.TokenBucket.allow capacity rate buckets c).1 ∧
      InStep capacity rate c.now (allow ⟨capacity, rate⟩ true r c).2
        (Framework.TokenBucket.allow capacity rate buckets c).2 := by
  rw [allow_eq h hrate c hnow]
  obtain ⟨hanswer, htracks⟩ := h.tracks.spend hnow fun t ht => level_worked hrate.le _ ht
  have hkept : ∀ b, stored r c.key = some b → Stored capacity c.now b := by
    intro b hb
    obtain ⟨e, he, rfl⟩ := Option.map_eq_some_iff.mp hb
    exact (h.stored c.key e he).mono hnow
  have hspent := stored_spend hcapacity.le hrate.le hcost
    (sound_worked hcapacity.le hrate.le hkept)
  refine ⟨hanswer, ?_, h.prompt, ?_, ?_⟩
  · intro k e he
    by_cases hk : "ratelimit:" ++ k = "ratelimit:" ++ c.key
    · simp only [Redis.set, hk, Function.update_self, Option.some.injEq] at he
      rw [← he]
      exact hspent
    · simp only [Redis.set, Function.update_of_ne hk] at he
      exact (h.stored k e he).mono hnow
  · intro k e he
    by_cases hk : "ratelimit:" ++ k = "ratelimit:" ++ c.key
    · simp only [Redis.set, hk, Function.update_self, Option.some.injEq] at he
      rw [← he]
      exact add_le_add hspent.written (ttl_le hcapacity hrate)
    · simp only [Redis.set, Function.update_of_ne hk] at he
      exact h.expires k e he
  · rw [stored_set]
    exact htracks

end RedisTokenBucketLimiter

/-- Both limiters answer every sequence of calls as the buckets that are never dropped, so no key
is granted more than the capacity and the refill in any window. -/
theorem limiters_agree [FloorRing 𝕜] {base rate : 𝕜} {burst : Option 𝕜}
    (hcapacity : 0 < burst.getD base) (hrate : 0 < rate) {expired : 𝕜 → 𝕜 → Bool}
    (hexpired : ∀ expiry t, expired expiry t = true → expiry ≤ t) {start : 𝕜}
    {calls : List (Call String 𝕜)} (hvalid : Valid start calls) :
    let answers := decisions (Framework.TokenBucket.allow (burst.getD base) rate)
      (full (burst.getD base) start) calls
    decisions TokenBucketLimiter.allow (.init base rate burst start) calls = answers ∧
    decisions ((RedisTokenBucketLimiter.init base rate burst).allow true)
      (RedisTokenBucketLimiter.emptyRedis expired) calls = answers ∧
    ∀ key s t, s ≤ t →
      allowedCost key s t calls answers ≤ burst.getD base + rate * (t - s) := by
  refine ⟨?_, ?_, ?_⟩
  · exact decisions_eq (TokenBucketLimiter.InStep (burst.getD base) rate)
      (fun _ _ _ _ hR hnow hcost => TokenBucketLimiter.inStep_allow hcapacity hrate hR hnow hcost)
      (TokenBucketLimiter.inStep_init hcapacity hrate base burst rfl start) hvalid
  · exact decisions_eq (RedisTokenBucketLimiter.InStep (burst.getD base) rate)
      (fun _ _ _ _ hR hnow hcost =>
        RedisTokenBucketLimiter.inStep_allow hcapacity hrate hR hnow hcost)
      (RedisTokenBucketLimiter.inStep_empty hrate hexpired start) hvalid
  · intro key s t hst
    exact allowedCost_le hcapacity.le hrate.le hvalid
      (fun _ => ⟨hcapacity.le, le_refl _⟩) hst

/-- Two keys, an idle time after which the first call of `b` prunes the bucket of `a`. -/
def idleCalls : List (Call String ℚ) :=
  [⟨"a", 2, 0⟩, ⟨"a", 1, 1 / 2⟩, ⟨"b", 1, 700⟩, ⟨"a", 2, 700⟩, ⟨"a", 1, 700⟩]

theorem limiters_agree_idle :
    decisions TokenBucketLimiter.allow (.init 2 1 none 0) idleCalls =
      decisions ((RedisTokenBucketLimiter.init 2 1 none).allow true)
        (RedisTokenBucketLimiter.emptyRedis fun expiry now => decide (expiry ≤ now)) idleCalls ∧
    decisions TokenBucketLimiter.allow (.init 2 1 none 0) idleCalls =
      [true, false, true, true, false] := by
  have hvalid : Valid (0 : ℚ) idleCalls := by
    simp only [idleCalls, Valid]
    norm_num
  have hagree := @limiters_agree ℚ _ _ _ _ 2 1 none (by norm_num) (by norm_num)
    (fun expiry now => decide (expiry ≤ now)) (fun _ _ h => of_decide_eq_true h) 0 idleCalls hvalid
  exact ⟨hagree.1.trans hagree.2.1.symm, by decide +kernel⟩

end YtdlBot.Limiter
