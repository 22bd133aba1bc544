import YtdlBot.Framework.ExpiryMap
import YtdlBot.MediaCache.Isolation

/-!
# Records in memory

The dictionary of a `MediaCache` holds at most `max_memory_entries` records, drops expired ones
when it comes across them, and makes room by dropping the record that expires first.
-/

namespace YtdlBot.MediaCache

open Framework
open Framework.ExpiryMap (current_eq_some)

variable {π τ : Type}

namespace Memory

variable {s : Memory π τ} {key other : String} {e : Record π τ}

/-- A dictionary has one record of a key. -/
def Distinct (s : Memory π τ) : Prop := (s.records.map Prod.fst).Nodup

theorem find_eq_none : s.find key = none ↔ ∀ p ∈ s.records, p.1 ≠ key := by
  rw [find, Option.map_eq_none_iff, List.find?_eq_none]
  simp only [beq_iff_eq, ne_eq]

theorem find_of_mem (hs : s.Distinct) {p : String × Record π τ} (hp : p ∈ s.records) :
    s.find p.1 = some p.2 := by
  have hfirst : s.records.find? (fun q => q.1 == p.1) = some p := by
    cases hfound : s.records.find? (fun q => q.1 == p.1) with
    | none => exact absurd (List.find?_eq_none.mp hfound p hp) (by simp)
    | some q =>
      have hkey : q.1 = p.1 := by simpa using List.find?_some hfound
      rw [List.inj_on_of_nodup_map hs (List.mem_of_find?_eq_some hfound) hp hkey]
  rw [find, hfirst, Option.map_some]

theorem find_iff (hs : s.Distinct) : s.find key = some e ↔ (key, e) ∈ s.records :=
  ⟨mem_of_find, fun hmem => find_of_mem hs hmem⟩

theorem find_filter (hs : s.Distinct) (keep : String × Record π τ → Bool) :
    find { s with records := s.records.filter keep } key =
      (s.find key).filter fun e => keep (key, e) := by
  have hs' : Distinct { s with records := s.records.filter keep } :=
    hs.sublist (List.filter_sublist.map _)
  ext e
  rw [find_iff hs', Option.filter_eq_some_iff, find_iff hs, List.mem_filter]

theorem find_delete (hs : s.Distinct) :
    (s.delete key).find other = if other = key then none else s.find other := by
  rw [delete, find_filter hs]
  split
  next h =>
    subst h
    cases s.find other <;> simp
  next h => cases s.find other <;> simp [h]

theorem Distinct.delete (hs : s.Distinct) (key : String) : (s.delete key).Distinct :=
  hs.sublist (List.filter_sublist.map _)

theorem any_eq_true : (s.records.any fun p => p.1 == key) = true ↔ s.find key ≠ none := by
  rw [List.any_eq_true, Ne, find_eq_none]
  push Not
  simp only [beq_iff_eq]

theorem keys_assign (e : Record π τ) : (s.assign key e).records.map Prod.fst =
    if s.find key ≠ none then s.records.map Prod.fst else s.records.map Prod.fst ++ [key] := by
  unfold assign
  by_cases hknown : s.find key ≠ none
  · rw [if_pos hknown]
    simp only [any_eq_true.mpr hknown, if_true, List.map_map]
    refine List.map_congr_left fun p _ => ?_
    by_cases hkey : p.1 = key
    · simp [hkey]
    · simp [hkey]
  · rw [if_neg hknown]
    simp only [Bool.eq_false_iff.mpr (mt any_eq_true.mp hknown), Bool.false_eq_true, if_false,
      List.map_append, List.map_cons, List.map_nil]

theorem Distinct.assign (hs : s.Distinct) (key : String) (e : Record π τ) :
    (s.assign key e).Distinct := by
  unfold Distinct
  rw [keys_assign]
  split
  · exact hs
  next hnew =>
    have hfresh := find_eq_none.mp (not_not.mp hnew)
    refine List.nodup_append.mpr ⟨hs, List.nodup_singleton _, ?_⟩
    intro k hk k' hk'
    obtain rfl := List.mem_singleton.mp hk'
    obtain ⟨p, hp, rfl⟩ := List.mem_map.mp hk
    exact hfresh p hp

theorem length_assign (e : Record π τ) : (s.assign key e).records.length =
    if s.find key ≠ none then s.records.length else s.records.length + 1 := by
  rw [← List.length_map (f := Prod.fst), keys_assign]
  split <;> simp

theorem find_assign (hs : s.Distinct) (e : Record π τ) :
    (s.assign key e).find other = if other = key then some e else s.find other := by
  have hs' := hs.assign key e
  have hmem : ∀ k e', (k, e') ∈ (s.assign key e).records ↔
      (k = key ∧ e' = e) ∨ (k ≠ key ∧ (k, e') ∈ s.records) := by
    intro k e'
    unfold assign
    by_cases hknown : s.find key ≠ none
    · simp only [any_eq_true.mpr hknown, if_true, List.mem_map]
      constructor
      · rintro ⟨p, hp, heq⟩
        by_cases hkey : p.1 = key
        · rw [if_pos hkey] at heq
          exact .inl ⟨(congrArg Prod.fst heq).symm, (congrArg Prod.snd heq).symm⟩
        · rw [if_neg hkey] at heq
          subst heq
          exact .inr ⟨hkey, hp⟩
      · rintro (⟨rfl, rfl⟩ | ⟨hne, hmem⟩)
        · obtain ⟨old, hold⟩ := Option.ne_none_iff_exists'.mp hknown
          exact ⟨(k, old), mem_of_find hold, if_pos rfl⟩
        · exact ⟨(k, e'), hmem, if_neg hne⟩
    · have hfresh := find_eq_none.mp (not_not.mp hknown)
      simp only [Bool.eq_false_iff.mpr (mt any_eq_true.mp hknown), Bool.false_eq_true, if_false,
        List.mem_append, List.mem_singleton, Prod.mk.injEq]
      constructor
      · rintro (hmem | hnew)
        · exact .inr ⟨hfresh _ hmem, hmem⟩
        · exact .inl hnew
      · rintro (hnew | ⟨-, hmem⟩)
        · exact .inr hnew
        · exact .inl hmem
  ext e'
  rw [find_iff hs', hmem]
  split
  next h => simp [h, eq_comm]
  next h => simp [h, find_iff hs]

variable {limit : Nat}

/-- A dictionary of bounded size. -/
structure Tidy (limit : Nat) (s : Memory π τ) : Prop where
  memory : s.limit = some limit
  distinct : s.Distinct
  bound : s.records.length ≤ limit

theorem Tidy.delete (hs : s.Tidy limit) (key : String) : (s.delete key).Tidy limit where
  memory := hs.memory
  distinct := hs.distinct.delete key
  bound := le_trans (List.length_filter_le _ _) hs.bound

theorem length_delete_lt {p : String × Record π τ} (hp : p ∈ s.records) :
    (s.delete p.1).records.length < s.records.length := by
  refine List.length_filter_lt_length_iff_exists.mpr ⟨p, hp, ?_⟩
  simp

theorem Tidy.assign (hs : s.Tidy limit) (e : Record π τ)
    (hroom : s.find key ≠ none ∨ s.records.length < limit) : (s.assign key e).Tidy limit where
  memory := hs.memory
  distinct := hs.distinct.assign key e
  bound := by
    rw [length_assign]
    split
    · exact hs.bound
    next hnew => exact hroom.resolve_left hnew

section Room

variable [LinearOrder τ] {now : τ}

theorem oldest_eq_none {ps : List (String × Record π τ)} (h : oldest ps = none) : ps = [] := by
  cases ps with
  | nil => rfl
  | cons p ps =>
    unfold oldest at h
    split at h
    · cases h
    · split at h <;> cases h

theorem oldest_mem {ps : List (String × Record π τ)} {old : String × Record π τ}
    (h : oldest ps = some old) : old ∈ ps ∧ ∀ p ∈ ps, old.2.expiresAt ≤ p.2.expiresAt := by
  induction ps generalizing old with
  | nil => cases h
  | cons p ps ih =>
    unfold oldest at h
    cases hrest : oldest ps with
    | none =>
      rw [hrest] at h
      obtain rfl := Option.some.inj h
      obtain rfl := oldest_eq_none hrest
      exact ⟨List.mem_cons_self, fun q hq => (List.mem_singleton.mp hq) ▸ le_refl _⟩
    | some q =>
      obtain ⟨hmem, hle⟩ := ih hrest
      rw [hrest] at h
      dsimp only at h
      split at h
      next hlt =>
        obtain rfl := Option.some.inj h
        refine ⟨List.mem_cons_of_mem _ hmem, fun r hr => ?_⟩
        rcases List.mem_cons.mp hr with rfl | hr
        · exact le_of_lt hlt
        · exact hle r hr
      next hnot =>
        obtain rfl := Option.some.inj h
        refine ⟨List.mem_cons_self, fun r hr => ?_⟩
        rcases List.mem_cons.mp hr with rfl | hr
        · exact le_refl _
        · exact le_trans (not_lt.mp hnot) (hle r hr)

theorem find_prune (hs : s.Distinct) :
    (s.pruneMemory now).find key = (s.find key).filter fun e => now < e.expiresAt :=
  find_filter hs _

theorem makeRoom_cases (hs : s.Tidy limit) (hpositive : 1 ≤ limit) (key : String) :
    (s.makeRoom key = s ∧ (s.find key ≠ none ∨ s.records.length < limit)) ∨
      ∃ old ∈ s.records, s.makeRoom key = s.delete old.1 ∧ s.find key = none ∧
        s.records.length = limit ∧ ∀ p ∈ s.records, old.2.expiresAt ≤ p.2.expiresAt := by
  unfold makeRoom
  simp only [hs.memory]
  by_cases hfull : (s.find key).isNone ∧ limit ≤ s.records.length
  · rw [if_pos hfull]
    have hlength : s.records.length = limit := le_antisymm hs.bound hfull.2
    cases hold : oldest s.records with
    | none =>
      rw [oldest_eq_none hold] at hlength
      exact absurd hpositive (by simp [← hlength])
    | some old =>
      obtain ⟨hmem, hle⟩ := oldest_mem hold
      exact .inr ⟨old, hmem, rfl, Option.isNone_iff_eq_none.mp hfull.1, hlength, hle⟩
  · rw [if_neg hfull]
    refine .inl ⟨rfl, ?_⟩
    by_cases hknown : s.find key = none
    · exact .inr (not_le.mp fun hle => hfull ⟨Option.isNone_iff_eq_none.mpr hknown, hle⟩)
    · exact .inl hknown

theorem Tidy.prune (hs : s.Tidy limit) (now : τ) : (s.pruneMemory now).Tidy limit where
  memory := hs.memory
  distinct := hs.distinct.sublist (List.filter_sublist.map _)
  bound := le_trans (List.length_filter_le _ _) hs.bound

/-- The other records that a dictionary gives up to keep a new one at `now`. -/
structure Cost (limit : Nat) (s s' : Memory π τ) (key : String) (now : τ) : Prop where
  /-- Other records stay as they are, or go. -/
  kept : ∀ other, other ≠ key → s'.find other = none ∨ s'.find other = s.find other
  /-- A record that has not expired goes only from a full dictionary of such records; it is one of
  those that expire first. -/
  full : ∀ other e, other ≠ key → s.find other = some e → now < e.expiresAt →
    s'.find other = none → s.find key = none ∧ s.records.length = limit ∧
      ∀ p ∈ s.records, now < p.2.expiresAt ∧ e.expiresAt ≤ p.2.expiresAt
  /-- At most one goes. -/
  one : ∀ other other' e e', other ≠ key → other' ≠ key → s.find other = some e →
    s.find other' = some e' → now < e.expiresAt → now < e'.expiresAt → s'.find other = none →
      s'.find other' = none → other = other'

theorem all_live (hs : s.Tidy limit) (hfull : (s.pruneMemory now).records.length = limit) :
    s.pruneMemory now = s ∧ ∀ p ∈ s.records, now < p.2.expiresAt := by
  have hlength : (s.pruneMemory now).records.length = s.records.length :=
    le_antisymm (List.length_filter_le _ _) (hfull ▸ hs.bound)
  have hall := List.length_filter_eq_length_iff.mp hlength
  constructor
  · exact congrArg (fun records => ({ s with records := records } : Memory π τ))
      (List.filter_eq_self.mpr hall)
  · exact fun p hp => of_decide_eq_true (hall p hp)

variable [Add τ]

theorem set_cases (hs : s.Tidy limit) (hpositive : 1 ≤ limit) (key : String) (e : Record π τ)
    (ttl now later : τ) :
    (s.set key e ttl now later =
        (s.pruneMemory now).assign key { e with expiresAt := later + ttl } ∧
      ((s.pruneMemory now).find key ≠ none ∨ (s.pruneMemory now).records.length < limit)) ∨
    ∃ old ∈ s.records,
      s.set key e ttl now later = (s.delete old.1).assign key { e with expiresAt := later + ttl } ∧
        s.find key = none ∧ s.records.length = limit ∧
        ∀ p ∈ s.records, now < p.2.expiresAt ∧ old.2.expiresAt ≤ p.2.expiresAt := by
  have hset : s.set key e ttl now later =
      ((s.pruneMemory now).makeRoom key).assign key { e with expiresAt := later + ttl } := by
    simp only [set, hs.memory]
  rw [hset]
  rcases makeRoom_cases (hs.prune now) hpositive key with
    ⟨hroom, hcase⟩ | ⟨old, hold, hroom, hfree, hfull, hle⟩
  · rw [hroom]
    exact .inl ⟨rfl, hcase⟩
  · obtain ⟨hsame, hlive⟩ := all_live hs hfull
    rw [hsame] at hold hroom hfree hfull hle
    rw [hsame, hroom]
    exact .inr ⟨old, hold, rfl, hfree, hfull, fun p hp => ⟨hlive p hp, hle p hp⟩⟩

theorem set_spec (hs : s.Tidy limit) (hpositive : 1 ≤ limit) (key : String) (e : Record π τ)
    (ttl now later : τ) :
    (s.set key e ttl now later).Tidy limit ∧
      (s.set key e ttl now later).find key = some { e with expiresAt := later + ttl } ∧
      Cost limit s (s.set key e ttl now later) key now := by
  rcases set_cases hs hpositive key e ttl now later with
    ⟨hset, hroom⟩ | ⟨old, hold, hset, hfree, hfull, hle⟩
  · have hpruned := hs.prune now
    have hfind : ∀ other, other ≠ key → (s.set key e ttl now later).find other =
        (s.find other).filter fun e => now < e.expiresAt := by
      intro other hother
      rw [hset, find_assign hpruned.distinct, if_neg hother, find_prune hs.distinct]
    have hstays : ∀ other e', other ≠ key → s.find other = some e' → now < e'.expiresAt →
        (s.set key e ttl now later).find other ≠ none := by
      intro other e' hother he hlive
      rw [hfind other hother, he, Option.filter_some, if_pos (decide_eq_true hlive)]
      exact Option.some_ne_none e'
    refine ⟨hset ▸ hpruned.assign _ hroom, ?_, ?_, ?_, ?_⟩
    · rw [hset, find_assign hpruned.distinct, if_pos rfl]
    · intro other hother
      rw [hfind other hother]
      cases s.find other with
      | none => exact .inl rfl
      | some e' =>
        rw [Option.filter_some]
        split
        · exact .inr rfl
        · exact .inl rfl
    · intro other e' hother he hlive hgone
      exact absurd hgone (hstays other e' hother he hlive)
    · intro other _ e' _ hother _ he _ hlive _ hgone _
      exact absurd hgone (hstays other e' hother he hlive)
  · have hdeleted := hs.delete old.1
    have hfind : ∀ other, other ≠ key → (s.set key e ttl now later).find other =
        if other = old.1 then none else s.find other := by
      intro other hother
      rw [hset, find_assign hdeleted.distinct, if_neg hother, find_delete hs.distinct]
    have hvictim : ∀ other e', other ≠ key → s.find other = some e' →
        (s.set key e ttl now later).find other = none → other = old.1 := by
      intro other e' hother he hgone
      by_contra hne
      rw [hfind other hother, if_neg hne, he] at hgone
      cases hgone
    refine ⟨hset ▸ hdeleted.assign _ (.inr ?_), ?_, ?_, ?_, ?_⟩
    · exact lt_of_lt_of_eq (length_delete_lt hold) hfull
    · rw [hset, find_assign hdeleted.distinct, if_pos rfl]
    · intro other hother
      rw [hfind other hother]
      split
      · exact .inl rfl
      · exact .inr rfl
    · intro other e' hother he hlive hgone
      obtain rfl := hvictim other e' hother he hgone
      obtain rfl := Option.some.inj ((find_of_mem hs.distinct hold).symm.trans he)
      exact ⟨hfree, hfull, hle⟩
    · intro other other' e' e'' hother hother' he he' _ _ hgone hgone'
      rw [hvictim other e' hother he hgone, hvictim other' e'' hother' he' hgone']

end Room

/-- The payloads of a dictionary. -/
def tableOf (s : Memory π τ) : ExpiryMap String (π) τ :=
  fun key => (s.find key).map fun e => ⟨e.payload, e.expiresAt⟩

theorem tableOf_delete (hs : s.Distinct) (key : String) :
    tableOf (s.delete key) = (tableOf s).put key none := by
  funext other
  rw [tableOf, find_delete hs, ExpiryMap.put, Function.update_apply]
  split
  · rfl
  · rfl

theorem tableOf_assign (hs : s.Distinct) (key : String) (e : Record π τ) :
    tableOf (s.assign key e) = (tableOf s).put key (some ⟨e.payload, e.expiresAt⟩) := by
  funext other
  rw [tableOf, find_assign hs, ExpiryMap.put, Function.update_apply]
  split
  · rfl
  · rfl

section Served

variable [LinearOrder τ] {now : τ}

/-- Records that have not expired and that `s'` does not have. -/
def gone (s s' : Memory π τ) (now : τ) (key : String) : Bool :=
  ((s.find key).any fun e => now < e.expiresAt) && (s'.find key).isNone

theorem current_tableOf (h : s.find key = some e) : (tableOf s).current now key =
    if now < e.expiresAt then some ⟨e.payload, e.expiresAt⟩ else none := by
  rw [ExpiryMap.current, tableOf, h, Option.map_some, Option.filter_some]
  simp only [decide_eq_true_eq]

theorem current_tableOf_none (h : s.find key = none) : (tableOf s).current now key = none := by
  rw [ExpiryMap.current, tableOf, h, Option.map_none, Option.filter_none]

theorem same_delete_expired (hs : s.Distinct) (h : (tableOf s).current now key = none) :
    ExpiryMap.Same now (tableOf (s.delete key)) (tableOf s) := by
  intro later hle other
  rw [tableOf_delete hs]
  by_cases hother : other = key
  · subst hother
    rw [ExpiryMap.current_put_self, Option.filter_none]
    cases hlater : (tableOf s).current later other with
    | none => rfl
    | some r =>
      rw [ExpiryMap.current_earlier hle hlater] at h
      cases h
  · rw [ExpiryMap.current_put_other _ hother]

theorem same_cost {s' : Memory π τ} (hcost : Cost limit s s' key now)
    (hnew : s'.find key = some e) :
    ExpiryMap.Same now (tableOf s')
      ((tableOf s).apply now (gone s s' now) (.put key e.payload e.expiresAt)) := by
  intro later hle other
  unfold ExpiryMap.current
  by_cases hother : other = key
  · subst hother
    simp only [ExpiryMap.apply, tableOf, hnew, Option.map_some, if_true]
  · simp only [ExpiryMap.apply, if_neg hother]
    rcases hcost.kept other hother with hnone | hsame
    · by_cases hgone : gone s s' now other = true
      · simp only [hgone, if_true, tableOf, hnone, Option.map_none]
      · rw [if_neg hgone]
        cases hfind : s.find other with
        | none => simp only [tableOf, hnone, hfind]
        | some e' =>
          -- what is missing and did not count has expired
          have hexpired : ¬ later < e'.expiresAt := by
            intro hlive
            refine hgone ?_
            simp only [gone, hfind, hnone, Option.any_some, Option.isNone_none, Bool.and_true]
            exact decide_eq_true (lt_of_le_of_lt hle hlive)
          simp only [tableOf, hnone, hfind, Option.map_none, Option.map_some, Option.filter_none,
            Option.filter_some, decide_eq_true_eq, if_neg hexpired]
    · have hkept : ¬ gone s s' now other = true := by
        intro hgone
        cases hfind : s.find other with
        | none => simp [gone, hfind] at hgone
        | some e' => simp [gone, hsame, hfind] at hgone
      rw [if_neg hkept, tableOf, tableOf, hsame]

end Served

end Memory

open Memory

section Operations

variable [LinearOrder τ] [Field τ] {hexdigest : String → String} {c : Cache τ} {q : Query}
  {s : Store τ} {key : String} {limit : Nat}

/-- A query is answered with what its key holds, and a touch is a new lease of life. -/
theorem getRecord_spec {α : Type} (hs : s.Tidy limit)
    (hkey : recordKey hexdigest c.settings q = .ok key) (now later : τ) (touchTtl : Option τ)
    (decode : Payload τ → Option α) (evicted : String → Bool) :
    (getRecord hexdigest c now later q touchTtl decode s).1 =
        .ok (((tableOf s).current now key).bind fun r => decode r.value) ∧
      (getRecord hexdigest c now later q touchTtl decode s).2.Tidy limit ∧
      ExpiryMap.Same now (tableOf (getRecord hexdigest c now later q touchTtl decode s).2)
        ((tableOf s).apply now evicted
          (.get key (fun payload => (decode payload).isSome) (touchTtl.map (later + ·)))) := by
  have hself : ExpiryMap.Same now (tableOf s) (tableOf s) := fun _ _ _ => rfl
  simp only [getRecord, atKey, hkey, ExpiryMap.apply]
  cases hfind : s.find key with
  | none =>
    simp only [Memory.get, hfind, current_tableOf_none hfind]
    exact ⟨rfl, hs, hself⟩
  | some e =>
    by_cases hlive : now < e.expiresAt
    · have hcurrent : (tableOf s).current now key = some ⟨e.payload, e.expiresAt⟩ := by
        rw [current_tableOf hfind, if_pos hlive]
      have hknown : s.find key ≠ none := by
        rw [hfind]
        exact Option.some_ne_none e
      simp only [Memory.get, hfind, if_neg (not_le.mpr hlive), hcurrent, Option.bind_some]
      cases touchTtl with
      | none =>
        cases hdecode : decode e.payload with
        | none =>
          simp only [hdecode]
          refine ⟨trivial, hs.delete key, ?_⟩
          rw [tableOf_delete hs.distinct]
          exact fun _ _ _ => rfl
        | some value =>
          simp only [hdecode]
          exact ⟨trivial, hs, hself⟩
      | some ttl =>
        have htouched := hs.assign { e with expiresAt := later + ttl } (.inl hknown)
        cases hdecode : decode e.payload with
        | none =>
          simp only [hdecode]
          refine ⟨trivial, htouched.delete key, ?_⟩
          rw [tableOf_delete htouched.distinct, tableOf_assign hs.distinct, ExpiryMap.put,
            ExpiryMap.put, Function.update_idem]
          exact fun _ _ _ => rfl
        | some value =>
          simp only [hdecode]
          refine ⟨trivial, htouched, ?_⟩
          rw [tableOf_assign hs.distinct]
          exact fun _ _ _ => rfl
    · have hcurrent : (tableOf s).current now key = none := by
        rw [current_tableOf hfind, if_neg hlive]
      simp only [Memory.get, hfind, if_pos (not_lt.mp hlive), hcurrent]
      exact ⟨rfl, hs.delete key, same_delete_expired hs.distinct hcurrent⟩

theorem putRecord_spec (hs : s.Tidy limit) (hpositive : 1 ≤ limit)
    (hkey : recordKey hexdigest c.settings q = .ok key) (now later : τ) (payload : Payload τ) (ttl : τ) :
    (putRecord hexdigest c now later q payload ttl s).2.Tidy limit ∧
      Cost limit s (putRecord hexdigest c now later q payload ttl s).2 key now ∧
      ExpiryMap.Same now (tableOf (putRecord hexdigest c now later q payload ttl s).2)
        ((tableOf s).apply now (gone s (putRecord hexdigest c now later q payload ttl s).2 now)
          (.put key payload (later + ttl))) := by
  simp only [putRecord, atKey, hkey]
  obtain ⟨htidy, hnew, hcost⟩ :=
    set_spec hs hpositive key ⟨payload, later, c.settings, q⟩ ttl now later
  exact ⟨htidy, hcost, same_cost hcost hnew⟩

end Operations

end YtdlBot.MediaCache
