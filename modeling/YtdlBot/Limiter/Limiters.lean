import Mathlib.Algebra.Order.Floor.Defs
import YtdlBot.Framework.TokenBucket

/-!
# Rate limiters

The limiter of one process, which prunes idle buckets, and the one on Redis, whose script lets
every key expire.
-/

namespace YtdlBot.Limiter

open Framework.TokenBucket

variable {𝕜 : Type*} [Field 𝕜] [LinearOrder 𝕜]

structure TokenBucketLimiter (𝕜 : Type*) where
  capacity : 𝕜
  refillRate : 𝕜
  buckets : String → Option (Bucket 𝕜)
  maxIdleSec : 𝕜
  lastPrune : 𝕜
  pruneInterval : 𝕜

namespace TokenBucketLimiter

/-- `__init__` at `now` on the monotonic clock. -/
def init (capacity refillRate : 𝕜) (burst : Option 𝕜) (now : 𝕜) : TokenBucketLimiter 𝕜 where
  capacity := burst.getD capacity
  refillRate := refillRate
  buckets := fun _ => none
  maxIdleSec := max 300 (2 * burst.getD capacity / refillRate)
  lastPrune := now
  pruneInterval := 600

/-- `_maybe_prune` -/
def maybePrune (l : TokenBucketLimiter 𝕜) (now : 𝕜) : TokenBucketLimiter 𝕜 :=
  if now - l.lastPrune < l.pruneInterval then l
  else
    { l with
      lastPrune := now
      buckets := fun k =>
        (l.buckets k).filter fun b => decide ¬ l.maxIdleSec < now - b.updatedAt }

/-- The bucket that `allow` works on, refilled when time has passed. -/
def refilled (l : TokenBucketLimiter 𝕜) (key : String) (now : 𝕜) : Bucket 𝕜 :=
  let bucket := (l.buckets key).getD ⟨l.capacity, now⟩
  let elapsed := now - bucket.updatedAt
  if 0 < elapsed then ⟨min l.capacity (bucket.tokens + elapsed * l.refillRate), now⟩ else bucket

def allow (l : TokenBucketLimiter 𝕜) (c : Call String 𝕜) : Bool × TokenBucketLimiter 𝕜 :=
  let bucket := l.refilled c.key c.now
  if c.cost ≤ bucket.tokens then
    let spent : Bucket 𝕜 := { bucket with tokens := bucket.tokens - c.cost }
    (true, maybePrune { l with buckets := Function.update l.buckets c.key (some spent) } c.now)
  else
    (false, maybePrune { l with buckets := Function.update l.buckets c.key (some bucket) } c.now)

end TokenBucketLimiter

/-- A string value of Redis, `tokens:updated_at`, with the time at which it expires. -/
structure Entry (𝕜 : Type*) where
  tokens : 𝕜
  updatedAt : 𝕜
  expiry : 𝕜
  deriving DecidableEq, Repr

/-- The keys of a Redis server. Whether a key that expires at `expiry` is gone at `now` is up to
`expired`. -/
structure Redis (𝕜 : Type*) where
  keys : String → Option (Entry 𝕜)
  expired : 𝕜 → 𝕜 → Bool

namespace Redis

/-- `GET key` -/
def get (r : Redis 𝕜) (key : String) (now : 𝕜) : Option (𝕜 × 𝕜) :=
  ((r.keys key).filter fun e => !r.expired e.expiry now).map fun e => (e.tokens, e.updatedAt)

/-- `SET key tokens:updated_at EX ttl` -/
def set (r : Redis 𝕜) (key : String) (tokens updatedAt ttl now : 𝕜) : Redis 𝕜 :=
  { r with keys := Function.update r.keys key (some ⟨tokens, updatedAt, now + ttl⟩) }

end Redis

structure RedisTokenBucketLimiter (𝕜 : Type*) where
  capacity : 𝕜
  refillRate : 𝕜

namespace RedisTokenBucketLimiter

/-- `__init__` -/
def init (capacity refillRate : 𝕜) (burst : Option 𝕜) : RedisTokenBucketLimiter 𝕜 :=
  ⟨burst.getD capacity, refillRate⟩

/-- What the script finds in the key, refilled when time has passed. -/
def luaBucket (capacity refillRate : 𝕜) (raw : Option (𝕜 × 𝕜)) (now : 𝕜) : Bucket 𝕜 :=
  match raw with
  | none => ⟨capacity, now⟩
  | some (tokens, updatedAt) =>
    let elapsed := now - updatedAt
    if 0 < elapsed then ⟨min capacity (tokens + elapsed * refillRate), now⟩
    else ⟨tokens, updatedAt⟩

/-- `LUA_SCRIPT` -/
def luaScript [FloorRing 𝕜] (key : String) (capacity refillRate cost now : 𝕜) (r : Redis 𝕜) :
    Nat × Redis 𝕜 :=
  let ttl : 𝕜 := ((⌈capacity / refillRate⌉ * 2 : ℤ) : 𝕜)
  let bucket := luaBucket capacity refillRate (r.get key now) now
  if cost ≤ bucket.tokens then
    (1, r.set key (bucket.tokens - cost) bucket.updatedAt ttl now)
  else
    (0, r.set key bucket.tokens bucket.updatedAt ttl now)

/-- `allow`; when the server cannot be reached, the call is let through. -/
def allow [FloorRing 𝕜] (l : RedisTokenBucketLimiter 𝕜) (reachable : Bool) (r : Redis 𝕜)
    (c : Call String 𝕜) : Bool × Redis 𝕜 :=
  if reachable then
    let result := luaScript ("ratelimit:" ++ c.key) l.capacity l.refillRate c.cost c.now r
    (result.1 != 0, result.2)
  else
    (true, r)

end RedisTokenBucketLimiter

end YtdlBot.Limiter
