import Mathlib.Order.Defs.LinearOrder
import YtdlBot.MediaCache.Keys

/-!
# The memory of a media cache

The dictionary of a process, or a Redis database, with records of any kind of payload: the texts
that a cache puts there, or what they decode to.
-/

namespace YtdlBot.MediaCache

variable {π ρ τ : Type}

/-- `_MemoryRecord`, with the cache and the query it was put for. -/
structure Record (π τ : Type) where
  payload : π
  expiresAt : τ
  settings : Settings
  query : Query

/-- `limit` is `max_memory_entries` of a dictionary, and `none` for Redis. -/
structure Memory (π τ : Type) where
  records : List (String × Record π τ)
  limit : Option Nat

namespace Memory

def find (s : Memory π τ) (key : String) : Option (Record π τ) :=
  (s.records.find? fun p => p.1 == key).map Prod.snd

def delete (s : Memory π τ) (key : String) : Memory π τ :=
  { s with records := s.records.filter fun p => p.1 != key }

/-- A dictionary keeps the place of a key it knows. -/
def assign (s : Memory π τ) (key : String) (e : Record π τ) : Memory π τ :=
  { s with
    records :=
      if s.records.any fun p => p.1 == key then
        s.records.map fun p => if p.1 = key then (key, e) else p
      else s.records ++ [(key, e)] }

section Operations

variable [LinearOrder τ]

/-- The first of the records that expire first. -/
def oldest : List (String × Record π τ) → Option (String × Record π τ)
  | [] => none
  | p :: ps =>
    match oldest ps with
    | none => some p
    | some q => if q.2.expiresAt < p.2.expiresAt then some q else some p

def pruneMemory (s : Memory π τ) (now : τ) : Memory π τ :=
  { s with records := s.records.filter fun p => decide (now < p.2.expiresAt) }

/-- Room for one more key, made at the cost of the record that expires first. -/
def makeRoom (s : Memory π τ) (key : String) : Memory π τ :=
  match s.limit with
  | none => s
  | some limit =>
    if (s.find key).isNone ∧ limit ≤ s.records.length then
      match oldest s.records with
      | some old => s.delete old.1
      | none => s
    else s

/-- `_set`; the clock is read once to prune and once more for the record. -/
def set [Add τ] (s : Memory π τ) (key : String) (e : Record π τ) (ttl now later : τ) : Memory π τ :=
  let e := { e with expiresAt := later + ttl }
  match s.limit with
  | none => s.assign key e
  | some _ => ((s.pruneMemory now).makeRoom key).assign key e

/-- `_get`; a touch reads the clock once more. -/
def get [Add τ] (s : Memory π τ) (key : String) (touchTtl : Option τ) (now later : τ) :
    Option π × Memory π τ :=
  match s.find key with
  | none => (none, s)
  | some e =>
    if e.expiresAt ≤ now then (none, s.delete key)
    else
      match touchTtl with
      | none => (some e.payload, s)
      | some ttl => (some e.payload, s.assign key { e with expiresAt := later + ttl })

end Operations

theorem mem_of_find {s : Memory π τ} {key : String} {e : Record π τ} (h : s.find key = some e) :
    (key, e) ∈ s.records := by
  obtain ⟨p, hp, rfl⟩ := Option.map_eq_some_iff.mp h
  have hkey : p.1 = key := by simpa using List.find?_some hp
  rw [← hkey]
  exact List.mem_of_find?_eq_some hp

section All

/-- All records have a property. -/
def All (P : String → Record π τ → Prop) (s : Memory π τ) : Prop := ∀ p ∈ s.records, P p.1 p.2

variable {P : String → Record π τ → Prop} {s s' : Memory π τ} {key : String} {e : Record π τ}

theorem All.of_subset (hs : s.All P) (h : s'.records ⊆ s.records) : s'.All P :=
  fun p hp => hs p (h hp)

theorem All.delete (hs : s.All P) (key : String) : (s.delete key).All P :=
  hs.of_subset (List.filter_sublist.subset)

theorem All.assign (hs : s.All P) (he : P key e) : (s.assign key e).All P := by
  intro p hp
  unfold Memory.assign at hp
  split_ifs at hp
  · obtain ⟨q, hq, rfl⟩ := List.mem_map.mp hp
    split_ifs
    · exact he
    · exact hs q hq
  · rcases List.mem_append.mp hp with hp | hp
    · exact hs p hp
    · obtain rfl := List.mem_singleton.mp hp
      exact he

variable [LinearOrder τ]

theorem All.pruneMemory (hs : s.All P) (now : τ) : (s.pruneMemory now).All P :=
  hs.of_subset (List.filter_sublist.subset)

theorem All.makeRoom (hs : s.All P) (key : String) : (s.makeRoom key).All P := by
  unfold Memory.makeRoom
  split
  · exact hs
  · split_ifs
    · split
      · exact hs.delete _
      · exact hs
    · exact hs

/-- The property does not depend on the time of expiry. -/
def Lasting (P : String → Record π τ → Prop) : Prop :=
  ∀ key e expiresAt, P key e → P key { e with expiresAt := expiresAt }

theorem All.set [Add τ] (hs : s.All P) (hP : Lasting P) (he : P key e) (ttl now later : τ) :
    (s.set key e ttl now later).All P := by
  have he' := hP key e (later + ttl) he
  unfold Memory.set
  dsimp only
  split
  · exact hs.assign he'
  · exact ((hs.pruneMemory now).makeRoom key).assign he'

theorem All.get [Add τ] (hs : s.All P) (hP : Lasting P) (key : String) (touchTtl : Option τ)
    (now later : τ) : (s.get key touchTtl now later).2.All P := by
  unfold Memory.get
  split
  · exact hs
  · next e he =>
    split_ifs
    · exact hs.delete key
    · split
      · exact hs
      · exact hs.assign (hP _ _ _ (hs _ (mem_of_find he)))

theorem find_of_get [Add τ] {touchTtl : Option τ} {now later : τ} {payload : π}
    (h : (s.get key touchTtl now later).1 = some payload) :
    ∃ e, s.find key = some e ∧ e.payload = payload := by
  unfold Memory.get at h
  split at h
  · cases h
  · next e he =>
    split_ifs at h
    · split at h
      · exact ⟨e, he, Option.some.inj h⟩
      · exact ⟨e, he, Option.some.inj h⟩

end All

end Memory

section Map

variable (f : π → ρ)

def Record.map (e : Record π τ) : Record ρ τ := ⟨f e.payload, e.expiresAt, e.settings, e.query⟩

/-- The memory with other payloads. -/
def Memory.map (s : Memory π τ) : Memory ρ τ := ⟨s.records.map fun p => (p.1, p.2.map f), s.limit⟩

namespace Memory

variable {f} {s : Memory π τ} {key : String} {e : Record π τ}

theorem find_map : (s.map f).find key = (s.find key).map (Record.map f) := by
  simp only [find, Memory.map, List.find?_map, Option.map_map]
  rfl

theorem delete_map : (s.map f).delete key = (s.delete key).map f := by
  simp only [delete, Memory.map, List.filter_map]
  rfl

theorem assign_map : (s.map f).assign key (e.map f) = (s.assign key e).map f := by
  simp only [assign, Memory.map, List.any_map, Function.comp_def]
  by_cases hany : (s.records.any fun p => p.1 == key) = true
  · simp only [hany, if_true, List.map_map]
    congr 1
    refine List.map_congr_left fun p _ => ?_
    by_cases hkey : p.1 = key <;> simp [hkey]
  · simp [hany]

variable [LinearOrder τ]

theorem oldest_map (records : List (String × Record π τ)) :
    oldest (records.map fun p => (p.1, p.2.map f)) =
      (oldest records).map fun p => (p.1, p.2.map f) := by
  induction records with
  | nil => rfl
  | cons p records ih =>
    simp only [List.map_cons, oldest, ih]
    cases oldest records with
    | none => rfl
    | some q => by_cases hlt : q.2.expiresAt < p.2.expiresAt <;> simp [Record.map, hlt]

theorem pruneMemory_map (now : τ) : (s.map f).pruneMemory now = (s.pruneMemory now).map f := by
  simp only [pruneMemory, Memory.map, List.filter_map]
  rfl

theorem makeRoom_map : (s.map f).makeRoom key = (s.makeRoom key).map f := by
  have hlimit : (s.map f).limit = s.limit := rfl
  have hlength : (s.map f).records.length = s.records.length := List.length_map _
  have holdest := oldest_map (f := f) s.records
  unfold makeRoom
  rw [hlimit]
  cases s.limit with
  | none => rfl
  | some limit =>
    simp only [find_map, Option.isNone_map, hlength]
    split
    · simp only [Memory.map, holdest]
      cases oldest s.records with
      | none => rfl
      | some old => exact delete_map
    · rfl

theorem set_map [Add τ] (ttl now later : τ) :
    (s.map f).set key (e.map f) ttl now later = (s.set key e ttl now later).map f := by
  have hlimit : (s.map f).limit = s.limit := rfl
  have hassign (s : Memory π τ) : (s.map f).assign key { e.map f with expiresAt := later + ttl } =
      (s.assign key { e with expiresAt := later + ttl }).map f :=
    assign_map (e := { e with expiresAt := later + ttl })
  unfold set
  rw [hlimit]
  cases s.limit with
  | none => exact hassign s
  | some limit =>
    dsimp only
    rw [pruneMemory_map, makeRoom_map]
    exact hassign _

theorem get_map [Add τ] (touchTtl : Option τ) (now later : τ) :
    (s.map f).get key touchTtl now later =
      ((s.get key touchTtl now later).1.map f, (s.get key touchTtl now later).2.map f) := by
  unfold get
  rw [find_map]
  cases s.find key with
  | none => rfl
  | some e =>
    simp only [Option.map_some, Record.map]
    split
    · rw [delete_map]
      rfl
    · cases touchTtl with
      | none => rfl
      | some ttl =>
        simp only [Option.map_some, ← assign_map]
        rfl

end Memory

end Map

end YtdlBot.MediaCache
