import Mathlib.Algebra.Order.Floor.Ring
import Mathlib.Data.Rat.Floor
import Mathlib.Tactic.NormNum
import YtdlBot.Framework.Doubles
import YtdlBot.Framework.LeaseTable

/-!
# Lease managers

`MemoryLeaseManager` keeps leases in a dictionary and prunes it at every operation;
`RedisLeaseManager` sets keys that expire by themselves, and renews and deletes them in scripts that
compare the owner. An operation is atomic: the dictionary is used under a lock, and Redis executes
one command or script at a time.

Times are exact numbers of seconds. Where the code makes milliseconds of a time to live, it does so
with the double nearest to it.
-/

namespace YtdlBot.MediaCache

open Framework
open Framework.Doubles
open Framework.ExpiryMap (current_eq_some current_earlier)

/-- `_positive_ttl` -/
def positiveTtl (ttl : ℚ) : Bool := (Double.ofRat ttl).rational.any fun ttl => 0 < ttl

section Memory

namespace MemoryLeaseManager

/-- `_leases` -/
abbrev Leases := LeaseTable String String ℚ

def pruneExpired (leases : Leases) (now : ℚ) : Leases :=
  fun key => (leases key).filter fun lease => ¬ lease.expiresAt ≤ now

theorem pruneExpired_apply (leases : Leases) (now : ℚ) (key : String) :
    pruneExpired leases now key = leases.current now key := by
  rw [pruneExpired, ExpiryMap.current]
  congr 1
  funext lease
  exact decide_eq_decide.mpr not_le

theorem same_prune (leases : Leases) (now : ℚ) :
    ExpiryMap.Same now (pruneExpired leases now) leases := by
  intro later hle key
  have hkept := pruneExpired_apply leases now key
  cases hlater : leases.current later key with
  | none =>
    cases hpruned : (pruneExpired leases now).current later key with
    | none => rfl
    | some lease =>
      obtain ⟨hlease, hexpires⟩ := current_eq_some.mp hpruned
      rw [hkept] at hlease
      rw [current_eq_some.mpr ⟨(current_eq_some.mp hlease).1, hexpires⟩] at hlater
      cases hlater
  | some lease =>
    refine current_eq_some.mpr ⟨?_, (current_eq_some.mp hlater).2⟩
    rw [hkept]
    exact current_earlier hle hlater

section Operations

def acquire (now : ℚ) (leases : Leases) (key : String) (ttl : ℚ) (token : String) :
    LeaseAnswer String × Leases :=
  if ¬ positiveTtl ttl then (.refused, leases)
  else
    let leases := pruneExpired leases now
    match leases key with
    | some _ => (.granted none, leases)
    | none => (.granted (some token), leases.put key (some ⟨token, now + ttl⟩))

def renew (now : ℚ) (leases : Leases) (key owner : String) (ttl : ℚ) :
    LeaseAnswer String × Leases :=
  if ¬ positiveTtl ttl then (.refused, leases)
  else
    let leases := pruneExpired leases now
    match leases key with
    | none => (.done false, leases)
    | some current =>
      if current.value ≠ owner then (.done false, leases)
      else (.done true, leases.put key (some { current with expiresAt := now + ttl }))

def release (now : ℚ) (leases : Leases) (key owner : String) : LeaseAnswer String × Leases :=
  let leases := pruneExpired leases now
  match leases key with
  | none => (.done false, leases)
  | some current =>
    if current.value ≠ owner then (.done false, leases) else (.done true, leases.put key none)

def step (now : ℚ) (leases : Leases) : LeaseOp String String ℚ → LeaseAnswer String × Leases
  | .acquire key ttl token => acquire now leases key ttl token
  | .renew key owner ttl => renew now leases key owner ttl
  | .release key owner => release now leases key owner

/-- How long a lease lives in memory. -/
def life (ttl : ℚ) : Option ℚ := if positiveTtl ttl then some ttl else none

theorem step_serves (now : ℚ) (leases : Leases) (op : LeaseOp String String ℚ) :
    (step now leases op).1 = (serve life now leases op).1 ∧
      ExpiryMap.Same now (step now leases op).2 (serve life now leases op).2 := by
  have hprune := same_prune leases now
  have hself : ExpiryMap.Same now leases leases := fun _ _ _ => rfl
  cases op with
  | acquire key ttl token =>
    simp only [step, acquire, serve, life, pruneExpired_apply]
    by_cases hpositive : positiveTtl ttl = true
    · rw [if_neg (not_not.mpr hpositive), if_pos hpositive]
      rcases hcurrent : leases.current now key with _ | current
      · exact ⟨rfl, hprune.put _ _⟩
      · exact ⟨rfl, hprune⟩
    · rw [if_pos hpositive, if_neg hpositive]
      exact ⟨rfl, hself⟩
  | renew key owner ttl =>
    simp only [step, renew, serve, life, pruneExpired_apply]
    by_cases hpositive : positiveTtl ttl = true
    · rw [if_neg (not_not.mpr hpositive), if_pos hpositive, Option.elim_some]
      rcases Option.eq_none_or_eq_some (leases.current now key) with hcurrent | ⟨current, hcurrent⟩
      · simp only [hcurrent, held_of_none hcurrent, Bool.false_eq_true, if_false]
        exact ⟨trivial, hprune⟩
      · simp only [hcurrent, held_of_some hcurrent, decide_eq_true_eq]
        by_cases howner : current.value = owner
        · subst howner
          simpa using hprune.put key (some ⟨current.value, now + ttl⟩)
        · simpa [howner] using hprune
    · rw [if_pos hpositive, if_neg hpositive]
      exact ⟨rfl, hself⟩
  | release key owner =>
    simp only [step, release, serve, pruneExpired_apply]
    rcases Option.eq_none_or_eq_some (leases.current now key) with hcurrent | ⟨current, hcurrent⟩
    · simp only [hcurrent, held_of_none hcurrent, Bool.false_eq_true, if_false]
      exact ⟨trivial, hprune⟩
    · simp only [hcurrent, held_of_some hcurrent, decide_eq_true_eq]
      by_cases howner : current.value = owner
      · simpa [howner] using hprune.put key none
      · simpa [howner] using hprune

theorem serves : Serves step id life where
  answer now leases op := (step_serves now leases op).1
  state now leases op := (step_serves now leases op).2

end Operations

end MemoryLeaseManager

end Memory

section Redis

/-- A string that expires; the key does not exist from its expiry on. -/
structure RedisString where
  value : String
  expiresAt : ℚ

abbrev Redis := String → Option RedisString

namespace Redis

def get (db : Redis) (now : ℚ) (name : String) : Option String :=
  ((db name).filter fun s => now < s.expiresAt).map RedisString.value

/-- `SET name value NX PX ms` -/
def setNxPx (db : Redis) (now : ℚ) (name value : String) (ms : Int) : Bool × Redis :=
  if (db.get now name).isSome then (false, db)
  else (true, Function.update db name (some ⟨value, now + ms / 1000⟩))

def pexpire (db : Redis) (now : ℚ) (name : String) (ms : Int) : Int × Redis :=
  match db.get now name with
  | none => (0, db)
  | some value => (1, Function.update db name (some ⟨value, now + ms / 1000⟩))

def del (db : Redis) (now : ℚ) (name : String) : Int × Redis :=
  match db.get now name with
  | none => (0, db)
  | some _ => (1, Function.update db name none)

/-- `COMPARE_AND_DELETE_LUA` -/
def compareAndDelete (db : Redis) (now : ℚ) (name owner : String) : Int × Redis :=
  if db.get now name = some owner then db.del now name else (0, db)

/-- `COMPARE_AND_RENEW_LUA` -/
def compareAndRenew (db : Redis) (now : ℚ) (name owner : String) (ms : Int) : Int × Redis :=
  if db.get now name = some owner then db.pexpire now name ms else (0, db)

end Redis

namespace RedisLeaseManager

variable (cachePrefix : String) (hexdigest : String → String)

/-- `_ttl_milliseconds`; `none` where it raises, of an infinite product too. -/
def ttlMilliseconds (ttl : ℚ) : Option Int :=
  if positiveTtl ttl then
    ((Double.ofRat ttl).mul (.finite 1000)).rational.map fun ms => max 1 ⌈ms⌉
  else none

/-- `_key` -/
def leaseKey (key : String) : String := cachePrefix ++ ":lease:" ++ hexdigest key

def acquire (now : ℚ) (db : Redis) (key : String) (ttl : ℚ) (token : String) :
    LeaseAnswer String × Redis :=
  (ttlMilliseconds ttl).elim (.refused, db) fun ms =>
    let (acquired, db) := db.setNxPx now (leaseKey cachePrefix hexdigest key) token ms
    (.granted (if acquired then some token else none), db)

def renew (now : ℚ) (db : Redis) (key owner : String) (ttl : ℚ) : LeaseAnswer String × Redis :=
  (ttlMilliseconds ttl).elim (.refused, db) fun ms =>
    let (renewed, db) := db.compareAndRenew now (leaseKey cachePrefix hexdigest key) owner ms
    (.done (decide (renewed ≠ 0)), db)

def release (now : ℚ) (db : Redis) (key owner : String) : LeaseAnswer String × Redis :=
  let (released, db) := db.compareAndDelete now (leaseKey cachePrefix hexdigest key) owner
  (.done (decide (released ≠ 0)), db)

def step (now : ℚ) (db : Redis) : LeaseOp String String ℚ → LeaseAnswer String × Redis
  | .acquire key ttl token => acquire cachePrefix hexdigest now db key ttl token
  | .renew key owner ttl => renew cachePrefix hexdigest now db key owner ttl
  | .release key owner => release cachePrefix hexdigest now db key owner

/-- How long a lease lives in Redis. -/
def life (ttl : ℚ) : Option ℚ := (ttlMilliseconds ttl).map fun ms : Int => (ms : ℚ) / 1000

/-- The leases in the database. -/
def tableOf (db : Redis) : LeaseTable String String ℚ :=
  fun key => (db (leaseKey cachePrefix hexdigest key)).map fun s => ⟨s.value, s.expiresAt⟩

variable {hexdigest}

theorem get_leaseKey (db : Redis) (now : ℚ) (key : String) :
    db.get now (leaseKey cachePrefix hexdigest key) =
      ((tableOf cachePrefix hexdigest db).current now key).map Expiring.value := by
  unfold Redis.get ExpiryMap.current tableOf
  cases db (leaseKey cachePrefix hexdigest key) with
  | none => rfl
  | some s =>
    rw [Option.map_some, Option.filter_some, Option.filter_some]
    by_cases hexpires : now < s.expiresAt
    · rw [if_pos (decide_eq_true hexpires), if_pos (decide_eq_true hexpires)]
      rfl
    · rw [if_neg (by simpa using hexpires), if_neg (by simpa using hexpires)]
      rfl

theorem tableOf_update (hhash : Function.Injective hexdigest) (db : Redis) (key : String)
    (s : Option RedisString) :
    tableOf cachePrefix hexdigest (Function.update db (leaseKey cachePrefix hexdigest key) s) =
      (tableOf cachePrefix hexdigest db).put key (s.map fun s => ⟨s.value, s.expiresAt⟩) := by
  funext other
  unfold tableOf ExpiryMap.put
  by_cases hkey : other = key
  · subst hkey
    rw [Function.update_self, Function.update_self]
  · have hname : leaseKey cachePrefix hexdigest other ≠ leaseKey cachePrefix hexdigest key := by
      intro heq
      exact hkey (hhash (String.append_right_inj _ |>.mp heq))
    rw [Function.update_of_ne hname, Function.update_of_ne hkey]

theorem step_serves (hhash : Function.Injective hexdigest) (now : ℚ) (db : Redis)
    (op : LeaseOp String String ℚ) :
    (step cachePrefix hexdigest now db op).1 =
        (serve life now (tableOf cachePrefix hexdigest db) op).1 ∧
      tableOf cachePrefix hexdigest (step cachePrefix hexdigest now db op).2 =
        (serve life now (tableOf cachePrefix hexdigest db) op).2 := by
  have hupdate := tableOf_update cachePrefix hhash db
  cases op with
  | acquire key ttl token =>
    simp only [step, acquire, serve, life, Redis.setNxPx, get_leaseKey]
    cases ttlMilliseconds ttl with
    | none => exact ⟨rfl, rfl⟩
    | some ms =>
      rcases Option.eq_none_or_eq_some ((tableOf cachePrefix hexdigest db).current now key) with
        hcurrent | ⟨current, hcurrent⟩
      · simp only [hcurrent]
        exact ⟨rfl, hupdate _ _⟩
      · simp only [hcurrent]
        exact ⟨rfl, rfl⟩
  | renew key owner ttl =>
    simp only [step, renew, serve, life, Redis.compareAndRenew, Redis.pexpire, get_leaseKey]
    cases ttlMilliseconds ttl with
    | none => exact ⟨rfl, rfl⟩
    | some ms =>
      simp only [Option.elim_some]
      rcases Option.eq_none_or_eq_some ((tableOf cachePrefix hexdigest db).current now key) with
        hcurrent | ⟨current, hcurrent⟩
      · simp [hcurrent, held_of_none hcurrent]
      · by_cases howner : current.value = owner
        · subst howner
          simp only [hcurrent, held_of_some hcurrent, Option.map_some, if_true, decide_true]
          exact ⟨rfl, hupdate _ _⟩
        · simp [hcurrent, held_of_some hcurrent, howner]
  | release key owner =>
    simp only [step, release, serve, Redis.compareAndDelete, Redis.del, get_leaseKey]
    rcases Option.eq_none_or_eq_some ((tableOf cachePrefix hexdigest db).current now key) with
      hcurrent | ⟨current, hcurrent⟩
    · simp [hcurrent, held_of_none hcurrent]
    · by_cases howner : current.value = owner
      · simpa [hcurrent, held_of_some hcurrent, howner] using hupdate key none
      · simp [hcurrent, held_of_some hcurrent, howner]

theorem serves (hhash : Function.Injective hexdigest) :
    Serves (step cachePrefix hexdigest) (tableOf cachePrefix hexdigest) life where
  answer now db op := (step_serves cachePrefix hhash now db op).1
  state now db op later _ key := by rw [(step_serves cachePrefix hhash now db op).2]

end RedisLeaseManager

section Milliseconds

variable {ttl : ℚ}

end Milliseconds

end Redis

end YtdlBot.MediaCache
