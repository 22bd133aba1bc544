import Mathlib
import YtdlBot.Framework.Machine
import YtdlBot.Framework.Tally
import YtdlBot.Race.CircuitBreaker

/-!
# The proxy pool

`MediaProxyPool`: the routes of a platform, their cooldowns, and `extract`, of which any number run
at a time over the same health marks. A pool made by `for_routes` shares the marks and keeps to its
scope. The clock stands still between two suspension points. Times are exact numbers here, where
the code's are floats.
-/

namespace YtdlBot.Media.Proxies

open Framework Race

/-- A proxy by its key; `none` is the direct route. -/
abbrev ProxyKey := Option String

/-- `message` is `str(error)`. -/
structure ProviderError where
  kind : FailureKind
  message : String
  affectsRouteHealth : Bool
deriving DecidableEq

/-- What `extract` raises; a cancellation is one of the others. -/
inductive Error where
  | provider (error : ProviderError)
  | other (name : String)
deriving DecidableEq

/-- How one attempt ends. -/
inductive Answer (V : Type) where
  | value (value : V)
  | timeout
  | provider (error : ProviderError)
  | other (name : String)

/-- `_urls` in the order of its keys, with the constructor's checks. -/
structure MediaProxyPool (τ : Type) [LinearOrder τ] [Zero τ] where
  urls : List (String × String)
  platforms : List String
  attemptTimeout : τ
  directTimeout : τ
  cooldown : τ
  keys_nodup : (urls.map Prod.fst).Nodup
  attempt_pos : 0 < attemptTimeout
  direct_pos : 0 < directTimeout
  cooldown_pos : 0 < cooldown

/-- `_failed_until` -/
abbrev Health (τ : Type) := String → ProxyKey → Option τ

variable {τ V : Type} [LinearOrder τ] [AddCommGroup τ]

namespace MediaProxyPool

variable (c : MediaProxyPool τ)

def enabled : Bool := !c.urls.isEmpty

def configured (platform : String) : Bool := c.enabled && decide (platform ∈ c.platforms)

def extractionTimeout [One τ] : τ :=
  (if c.configured "youtube" then max c.directTimeout c.attemptTimeout else c.directTimeout) +
    c.urls.length • c.attemptTimeout + 1

def routeTimeout (platform : String) (proxied : Bool) : τ :=
  if proxied || platform = "youtube" then c.attemptTimeout else c.directTimeout

/-- The routes of a configured platform in the order of their trial. -/
def keys (platform : String) : List ProxyKey :=
  let proxies := c.urls.map fun entry => some entry.1
  if platform = "youtube" then proxies ++ [none] else none :: proxies

def isHealthy (health : Health τ) (platform : String) (now : τ) (key : ProxyKey) : Bool :=
  decide ((health platform key).getD 0 ≤ now)

/-- `routes` of the pool without a scope. -/
def routes (health : Health τ) (platform : String) (now : τ) : List ProxyKey :=
  if !c.configured platform then [none]
  else
    let healthy := (c.keys platform).filter (isHealthy health platform now)
    if healthy = [] then
      ((c.keys platform).argmin fun key => (health platform key).getD 0).toList
    else healthy

/-- `routes` of a pool that `for_routes` has made with these scopes, the last one first. -/
def scopedRoutes (scopes : List (List ProxyKey)) (health : Health τ) (platform : String) (now : τ) :
    List ProxyKey :=
  scopes.foldr (fun scope keys => keys.filter fun key => scope.contains key)
    (c.routes health platform now)

end MediaProxyPool

/-- A mark that was set: the time of a failure, or `none` for a success. -/
structure Mark (τ : Type) where
  platform : String
  key : ProxyKey
  failedAt : Option τ
deriving DecidableEq

inductive Phase (V : Type) where
  /-- The direct attempt of a platform that is not configured. -/
  | plain
  | attempting
  | ended (result : Except Error (V × ProxyKey))

/-- A call of `extract`. `since` and `seen` are the time of the call and the marks until then. -/
structure Extraction (τ V : Type) where
  platform : String
  scopes : List (List ProxyKey)
  deadline : Option τ
  authScope : String
  since : τ
  seen : Nat
  /-- The routes that have failed, with the errors that `last_error` has been. -/
  tried : List (ProxyKey × ProviderError)
  /-- The route of the current attempt, or of the last one when it has ended the call. -/
  current : Option ProxyKey
  remaining : List ProxyKey
  /-- The budget of every attempt, with the time it was given. -/
  granted : List (τ × τ)
  phase : Phase V

structure World (τ V : Type) where
  now : τ
  failedUntil : Health τ
  extractions : List (Extraction τ V)
  log : List (Mark τ)

inductive Action (τ V : Type) where
  | tick (now : τ)
  | extract (platform : String) (scopes : List (List ProxyKey)) (deadline : Option τ)
      (authScope : String)
  /-- The attempt of an extraction ends. -/
  | ends (extraction : Nat) (answer : Answer V)
  /-- A transfer over a route ends: `failed` or `succeeded` of the transport. -/
  | report (platform : String) (key : ProxyKey) (ok : Bool)

namespace Extraction

variable (c : MediaProxyPool τ) (e : Extraction τ V)

/-- The time that an attempt gets. -/
def budget (key : ProxyKey) (now : τ) : τ :=
  match e.deadline with
  | none => c.routeTimeout e.platform key.isSome
  | some deadline => min (c.routeTimeout e.platform key.isSome) (deadline - now)

def deadlineExceeded : ProviderError := ⟨.transient, "media extraction deadline exceeded", true⟩

def timedOut : ProviderError := ⟨.transient, "media route extraction timed out", true⟩

def noRoute : ProviderError := ⟨.transient, "no available extraction route in this lane", false⟩

/-- What is raised when every route has failed. -/
def exhausted : ProviderError :=
  match e.tried.getLast? with
  | none => noRoute
  | some (_, error) =>
    if e.authScope = "public" ∧ error.kind = .auth then ⟨.transient, error.message, true⟩ else error

/-- The `for` loop up to its next await. -/
def advance (now : τ) : Extraction τ V :=
  match e.remaining with
  | [] => { e with phase := .ended (.error (.provider e.exhausted)) }
  | key :: rest =>
    let budget := e.budget c key now
    if budget ≤ 0 then { e with phase := .ended (.error (.provider deadlineExceeded)) }
    else
      { e with
        current := some key
        remaining := rest
        granted := e.granted ++ [(now, budget)]
        phase := .attempting }

/-- The route has failed and the loop goes on. -/
def retry (key : ProxyKey) (error : ProviderError) (now : τ) : Extraction τ V :=
  ({ e with tried := e.tried ++ [(key, error)], current := none } : Extraction τ V).advance c now

end Extraction

namespace World

variable (c : MediaProxyPool τ) (w : World τ V)

def mark (platform : String) (key : ProxyKey) (failedAt : Option τ) : World τ V :=
  { w with
    failedUntil := Function.update w.failedUntil platform
      (Function.update (w.failedUntil platform) key (failedAt.map (· + c.cooldown)))
    log := w.log ++ [⟨platform, key, failedAt⟩] }

def failed (platform : String) (key : ProxyKey) : World τ V :=
  if c.configured platform then w.mark c platform key (some w.now) else w

def succeeded (platform : String) (key : ProxyKey) : World τ V := w.mark c platform key none

def begin (platform : String) (scopes : List (List ProxyKey)) (deadline : Option τ)
    (authScope : String) : Extraction τ V :=
  let fresh : Extraction τ V :=
    ⟨platform, scopes, deadline, authScope, w.now, w.log.length, [], none, [], [], .plain⟩
  if c.configured platform then
    ({ fresh with remaining := c.scopedRoutes scopes w.failedUntil platform w.now } :
      Extraction τ V).advance c w.now
  else fresh

/-- The extraction is now `e`. -/
def put (i : Nat) (e : Extraction τ V) : World τ V :=
  { w with extractions := w.extractions.set i e }

/-- An attempt has failed with an error that allows the next route. -/
def passOn (i : Nat) (e : Extraction τ V) (key : ProxyKey) (error : ProviderError) : World τ V :=
  let w := if error.affectsRouteHealth then w.failed c e.platform key else w
  w.put i (e.retry c key error w.now)

/-- The attempt of a configured platform. -/
def settle (i : Nat) (e : Extraction τ V) (key : ProxyKey) : Answer V → World τ V
  | .value value =>
    (w.succeeded c e.platform key).put i { e with phase := .ended (.ok (value, key)) }
  | .timeout => w.passOn c i e key Extraction.timedOut
  | .provider error =>
    if error.kind = .auth ∨ error.kind = .transient then w.passOn c i e key error
    else w.put i { e with phase := .ended (.error (.provider error)) }
  | .other name => w.put i { e with phase := .ended (.error (.other name)) }

/-- The only attempt of a platform that is not configured. -/
def plainResult : Answer V → Except Error (V × ProxyKey)
  | .value value => .ok (value, none)
  | .timeout => .error (.other "TimeoutError")
  | .provider error => .error (.provider error)
  | .other name => .error (.other name)

def step : Action τ V → Option (World τ V)
  | .tick now => if w.now ≤ now then some { w with now := now } else none
  | .extract platform scopes deadline authScope =>
    some { w with extractions := w.extractions ++ [w.begin c platform scopes deadline authScope] }
  | .ends i answer => (w.extractions[i]?).bind fun e =>
    match e.phase with
    | .plain => some (w.put i { e with phase := .ended (plainResult answer) })
    | .attempting => e.current.map fun key => w.settle c i e key answer
    | .ended _ => none
  | .report platform key ok =>
    some (if ok then w.succeeded c platform key else w.failed c platform key)

def initial (now : τ) : World τ V := ⟨now, fun _ _ => none, [], []⟩

end World

def machine (c : MediaProxyPool τ) : Machine (World τ V) (Action τ V) := ⟨World.step c⟩

section Routes

variable {c : MediaProxyPool τ} {health : Health τ} {platform : String} {now : τ} {key : ProxyKey}

theorem nodup_keys (c : MediaProxyPool τ) (platform : String) : (c.keys platform).Nodup := by
  have hproxies : (c.urls.map fun entry => some entry.1 : List ProxyKey).Nodup := by
    have hmap := c.keys_nodup.map (Option.some_injective String)
    rwa [List.map_map] at hmap
  unfold MediaProxyPool.keys
  split
  · refine List.nodup_append.mpr ⟨hproxies, by simp, ?_⟩
    simp only [List.mem_map, List.mem_singleton]
    rintro key ⟨entry, -, rfl⟩ other rfl
    simp
  · simp [hproxies]

theorem routes_sublist (hconfigured : c.configured platform = true) :
    (c.routes health platform now).Sublist (c.keys platform) := by
  simp only [MediaProxyPool.routes, hconfigured, Bool.not_true, Bool.false_eq_true, if_false]
  split
  · cases hmin : (c.keys platform).argmin fun key => (health platform key).getD 0 with
    | none => simp
    | some key => simpa using List.argmin_mem hmin
  · exact List.filter_sublist

/-- An unhealthy route is offered alone, when all routes are unhealthy and it has been so for
longest. -/
theorem routes_unhealthy (hconfigured : c.configured platform = true)
    (hmem : key ∈ c.routes health platform now)
    (hcooled : MediaProxyPool.isHealthy health platform now key = false) :
    c.routes health platform now = [key] ∧ ∀ other ∈ c.keys platform,
      MediaProxyPool.isHealthy health platform now other = false ∧
        (health platform key).getD 0 ≤ (health platform other).getD 0 := by
  simp only [MediaProxyPool.routes, hconfigured, Bool.not_true, Bool.false_eq_true,
    if_false] at hmem ⊢
  split at hmem
  next hnone =>
    rw [if_pos hnone]
    cases hmin : (c.keys platform).argmin fun key => (health platform key).getD 0 with
    | none => simp [hmin] at hmem
    | some least =>
      have hleast : key = least := by simpa [hmin] using hmem
      subst hleast
      refine ⟨rfl, ?_⟩
      intro other hother
      have hunhealthy := List.filter_eq_nil_iff.mp hnone other hother
      exact ⟨by simpa using hunhealthy, List.le_of_mem_argmin hother hmin⟩
  next hsome =>
    have hhealthy := (List.mem_filter.mp hmem).2
    simp [hcooled] at hhealthy

theorem scopedRoutes_sublist (scopes : List (List ProxyKey)) :
    (c.scopedRoutes scopes health platform now).Sublist (c.routes health platform now) := by
  induction scopes with
  | nil => exact .refl _
  | cons scope scopes ih => exact List.filter_sublist.trans ih

theorem mem_scopedRoutes {scopes : List (List ProxyKey)} :
    key ∈ c.scopedRoutes scopes health platform now ↔
      key ∈ c.routes health platform now ∧ ∀ scope ∈ scopes, key ∈ scope := by
  induction scopes with
  | nil => simp [MediaProxyPool.scopedRoutes]
  | cons scope scopes ih =>
    simp only [MediaProxyPool.scopedRoutes, List.foldr_cons, List.mem_filter,
      List.contains_iff_mem, List.forall_mem_cons] at ih ⊢
    rw [ih]
    tauto

end Routes

section Marks

variable (c : MediaProxyPool τ)

/-- The last mark of a route. -/
def lastMark (log : List (Mark τ)) (platform : String) (key : ProxyKey) : Option (Mark τ) :=
  log.reverse.find? fun mark => decide (mark.platform = platform ∧ mark.key = key)

/-- A route cools down after its last mark, if that is a failure. -/
def healthOf (log : List (Mark τ)) : Health τ := fun platform key =>
  ((lastMark log platform key).bind Mark.failedAt).map (· + c.cooldown)

theorem healthOf_append (log : List (Mark τ)) (platform : String) (key : ProxyKey)
    (failedAt : Option τ) :
    healthOf c (log ++ [⟨platform, key, failedAt⟩]) =
      Function.update (healthOf c log) platform
        (Function.update (healthOf c log platform) key (failedAt.map (· + c.cooldown))) := by
  funext p k
  by_cases hp : p = platform
  · subst hp
    by_cases hk : k = key
    · subst hk
      simp [healthOf, lastMark]
    · have hne : ¬ key = k := Ne.symm hk
      simp [healthOf, lastMark, hk, hne]
  · have hne : ¬ platform = p := Ne.symm hp
    simp [healthOf, lastMark, hp, hne]

/-- The last mark of the route is a failure less than a cooldown ago. -/
def Cooled (log : List (Mark τ)) (platform : String) (key : ProxyKey) (now : τ) : Prop :=
  ∃ failedAt, (lastMark log platform key).bind Mark.failedAt = some failedAt ∧
    now < failedAt + c.cooldown

theorem isHealthy_healthOf {log : List (Mark τ)} {platform : String} {key : ProxyKey} {now : τ}
    (hnow : 0 ≤ now) :
    MediaProxyPool.isHealthy (healthOf c log) platform now key = false ↔
      Cooled c log platform key now := by
  rw [MediaProxyPool.isHealthy, decide_eq_false_iff_not, not_le]
  simp only [healthOf, Cooled]
  cases hmark : (lastMark log platform key).bind Mark.failedAt with
  | none => simpa using hnow
  | some failedAt => simp

end Marks

section Runs

variable {c : MediaProxyPool τ} {w w' : World τ V} {e : Extraction τ V} {log : List (Mark τ)}

namespace Extraction

/-- The routes that the call was offered. -/
def offered (c : MediaProxyPool τ) (log : List (Mark τ)) (e : Extraction τ V) : List ProxyKey :=
  c.scopedRoutes e.scopes (healthOf c (log.take e.seen)) e.platform e.since

/-- The routes that the call has used. -/
def used (e : Extraction τ V) : List ProxyKey := e.tried.map Prod.fst ++ e.current.toList

/-- How a call on a configured platform ends. -/
def Settled (e : Extraction τ V) : Except Error (V × ProxyKey) → Prop
  | .ok (_, key) => e.current = some key
  | .error (.provider error) =>
    (e.current.isSome = true ∧ error.kind ≠ .auth ∧ error.kind ≠ .transient) ∨
      (e.current = none ∧ e.remaining = [] ∧ error = e.exhausted) ∨
      (e.current = none ∧ e.remaining ≠ [] ∧ error = deadlineExceeded)
  | .error (.other _) => e.current.isSome = true

/-- A call on a configured platform, at the time `now`. -/
structure Base (c : MediaProxyPool τ) (log : List (Mark τ)) (now : τ) (e : Extraction τ V) :
    Prop where
  seen : e.seen ≤ log.length
  since : 0 ≤ e.since
  before : e.since ≤ now
  route : e.used ++ e.remaining = e.offered c log
  kinds : ∀ attempt ∈ e.tried, attempt.2.kind = .auth ∨ attempt.2.kind = .transient
  granted : ∀ grant ∈ e.granted, 0 < grant.2 ∧
    ∀ deadline, e.deadline = some deadline → grant.1 + grant.2 ≤ deadline
  spent : (e.granted.map Prod.snd).sum ≤
    (e.used.map fun key => c.routeTimeout e.platform key.isSome).sum

structure Sound (c : MediaProxyPool τ) (log : List (Mark τ)) (now : τ) (e : Extraction τ V) : Prop
    extends Base c log now e where
  started : e.phase ≠ .plain
  attempting : e.phase = .attempting → e.current.isSome = true
  settled : ∀ result, e.phase = .ended result → e.Settled result

theorem Base.mono {now later : τ} (h : e.Base c log now) (hnow : now ≤ later)
    (more : List (Mark τ)) : e.Base c (log ++ more) later := by
  refine ⟨?_, h.since, h.before.trans hnow, ?_, h.kinds, h.granted, h.spent⟩
  · have hseen := h.seen
    simp only [List.length_append]
    omega
  · rw [h.route, offered, offered, List.take_append_of_le_length h.seen]

theorem Sound.mono {now later : τ} (h : e.Sound c log now) (hnow : now ≤ later)
    (more : List (Mark τ)) : e.Sound c (log ++ more) later :=
  ⟨h.toBase.mono hnow more, h.started, h.attempting, h.settled⟩

theorem Base.finish {now : τ} (h : e.Base c log now) {result : Except Error (V × ProxyKey)}
    (hresult : e.Settled result) :
    ({ e with phase := .ended result } : Extraction τ V).Sound c log now := by
  refine ⟨⟨h.seen, h.since, h.before, h.route, h.kinds, h.granted, h.spent⟩, by simp, by simp, ?_⟩
  intro other hother
  obtain rfl := Phase.ended.inj hother
  exact hresult

variable [IsOrderedAddMonoid τ]

theorem budget_le (c : MediaProxyPool τ) (e : Extraction τ V) (key : ProxyKey) (now : τ) :
    e.budget c key now ≤ c.routeTimeout e.platform key.isSome ∧
      ∀ deadline, e.deadline = some deadline → now + e.budget c key now ≤ deadline := by
  unfold budget
  cases hdeadline : e.deadline with
  | none => exact ⟨le_rfl, by simp⟩
  | some deadline =>
    refine ⟨min_le_left _ _, ?_⟩
    intro other hother
    obtain rfl := Option.some.inj hother
    have hright := min_le_right (c.routeTimeout e.platform key.isSome) (deadline - now)
    calc now + min (c.routeTimeout e.platform key.isSome) (deadline - now)
        ≤ now + (deadline - now) := by gcongr
      _ = deadline := add_sub_cancel now deadline

theorem Base.attempt {now : τ} (h : e.Base c log now) (hcurrent : e.current = none)
    {key : ProxyKey} {rest : List ProxyKey} (hremaining : e.remaining = key :: rest)
    (hbudget : 0 < e.budget c key now) :
    ({ e with
        current := some key
        remaining := rest
        granted := e.granted ++ [(now, e.budget c key now)]
        phase := .attempting } : Extraction τ V).Sound c log now := by
  have hbefore : e.used = e.tried.map Prod.fst := by simp [used, hcurrent]
  have hafter : used ({ e with
        current := some key
        remaining := rest
        granted := e.granted ++ [(now, e.budget c key now)]
        phase := .attempting } : Extraction τ V) = e.used ++ [key] := by
    rw [hbefore]
    rfl
  obtain ⟨hroute, hdeadline⟩ := budget_le c e key now
  refine ⟨⟨h.seen, h.since, h.before, ?_, h.kinds, ?_, ?_⟩, by simp, fun _ => rfl, by simp⟩
  · rw [hafter, List.append_assoc]
    have hold := h.route
    rw [hremaining] at hold
    exact hold
  · intro grant hgrant
    rcases List.mem_append.mp hgrant with hold | hnew
    · exact h.granted grant hold
    · obtain rfl := List.mem_singleton.mp hnew
      exact ⟨hbudget, hdeadline⟩
  · rw [hafter]
    simp only [List.map_append, List.sum_append, List.map_cons, List.map_nil, List.sum_singleton]
    exact add_le_add h.spent hroute

theorem Base.advance {now : τ} (h : e.Base c log now) (hcurrent : e.current = none) :
    (e.advance c now).Sound c log now := by
  unfold Extraction.advance
  split
  next hremaining => exact h.finish (.inr (.inl ⟨hcurrent, hremaining, rfl⟩))
  next key rest hremaining =>
    dsimp only
    split
    · exact h.finish (.inr (.inr ⟨hcurrent, by simp [hremaining], rfl⟩))
    next hbudget => exact h.attempt hcurrent hremaining (not_le.mp hbudget)

theorem Sound.retry {now : τ} (h : e.Sound c log now) {key : ProxyKey} {error : ProviderError}
    (hcurrent : e.current = some key) (hkind : error.kind = .auth ∨ error.kind = .transient) :
    (e.retry c key error now).Sound c log now := by
  have hused : used ({ e with
      tried := e.tried ++ [(key, error)], current := none } : Extraction τ V) = e.used := by
    simp [used, hcurrent]
  refine Base.advance ⟨h.seen, h.since, h.before, ?_, ?_, h.granted, ?_⟩ rfl
  · rw [hused]
    exact h.route
  · intro attempt hmem
    rcases List.mem_append.mp hmem with hold | hnew
    · exact h.kinds attempt hold
    · obtain rfl := List.mem_singleton.mp hnew
      exact hkind
  · rw [hused]
    exact h.spent

end Extraction

namespace World

/-- The marks are those of the log, and every call on a configured platform is as it should be. -/
structure Inv (c : MediaProxyPool τ) (w : World τ V) : Prop where
  clock : 0 ≤ w.now
  health : w.failedUntil = healthOf c w.log
  sound : ∀ e ∈ w.extractions, c.configured e.platform = true → e.Sound c w.log w.now
  plain : ∀ e ∈ w.extractions, c.configured e.platform = false → e.phase ≠ .attempting

theorem Inv.mark (h : w.Inv c) (platform : String) (key : ProxyKey) (failedAt : Option τ) :
    (w.mark c platform key failedAt).Inv c := by
  refine ⟨h.clock, ?_, ?_, h.plain⟩
  · show Function.update w.failedUntil platform _ = healthOf c (w.log ++ [_])
    rw [healthOf_append, h.health]
  · intro e hmem hconfigured
    exact (h.sound e hmem hconfigured).mono le_rfl _

theorem Inv.failed (h : w.Inv c) (platform : String) (key : ProxyKey) :
    (w.failed c platform key).Inv c := by
  unfold World.failed
  split
  · exact h.mark platform key _
  · exact h

theorem Inv.put (h : w.Inv c) (i : Nat)
    (he : c.configured e.platform = true → e.Sound c w.log w.now)
    (hplain : c.configured e.platform = false → e.phase ≠ .attempting) : (w.put i e).Inv c := by
  refine ⟨h.clock, h.health, ?_, ?_⟩
  · intro other hmem hconfigured
    rcases List.mem_or_eq_of_mem_set hmem with hold | rfl
    · exact h.sound other hold hconfigured
    · exact he hconfigured
  · intro other hmem hnot
    rcases List.mem_or_eq_of_mem_set hmem with hold | rfl
    · exact h.plain other hold hnot
    · exact hplain hnot

theorem Inv.putSound (h : w.Inv c) (i : Nat) (hconfigured : c.configured e.platform = true)
    (he : e.Sound c w.log w.now) : (w.put i e).Inv c :=
  h.put i (fun _ => he) fun hnot => by rw [hconfigured] at hnot; cases hnot

theorem platform_advance (now : τ) : (e.advance c now).platform = e.platform := by
  unfold Extraction.advance
  split
  · rfl
  · dsimp only
    split <;> rfl

theorem platform_begin (platform : String) (scopes : List (List ProxyKey)) (deadline : Option τ)
    (authScope : String) : (w.begin c platform scopes deadline authScope).platform = platform := by
  unfold World.begin
  dsimp only
  split
  · exact platform_advance _
  · rfl

variable [IsOrderedAddMonoid τ]

theorem Inv.passOn (h : w.Inv c) (i : Nat) (hconfigured : c.configured e.platform = true)
    (he : e.Sound c w.log w.now) {key : ProxyKey} {error : ProviderError}
    (hcurrent : e.current = some key) (hkind : error.kind = .auth ∨ error.kind = .transient) :
    (w.passOn c i e key error).Inv c := by
  have hplatform : ∀ now, c.configured (e.retry c key error now).platform = true := by
    intro now
    rw [Extraction.retry, platform_advance]
    exact hconfigured
  unfold World.passOn
  split
  · unfold World.failed
    rw [if_pos hconfigured]
    have hlater := (he.mono le_rfl [⟨e.platform, key, some w.now⟩]).retry hcurrent hkind
    exact (h.mark e.platform key _).putSound i (hplatform _) hlater
  · exact h.putSound i (hplatform _) (he.retry hcurrent hkind)

theorem Inv.settle (h : w.Inv c) (i : Nat) (hconfigured : c.configured e.platform = true)
    (he : e.Sound c w.log w.now) {key : ProxyKey} (hcurrent : e.current = some key)
    (answer : Answer V) : (w.settle c i e key answer).Inv c := by
  cases answer with
  | value value =>
    have hsettled : e.Settled (.ok (value, key)) := hcurrent
    have hlater := (he.mono le_rfl [⟨e.platform, key, none⟩]).finish hsettled
    exact (h.mark e.platform key none).putSound i hconfigured hlater
  | timeout => exact h.passOn i hconfigured he hcurrent (.inr rfl)
  | provider error =>
    simp only [World.settle]
    split
    next hkind => exact h.passOn i hconfigured he hcurrent hkind
    next hkind =>
      have hsettled : e.Settled (.error (.provider error)) :=
        .inl ⟨by simp [hcurrent], not_or.mp hkind⟩
      exact h.putSound i hconfigured (he.finish hsettled)
  | other name =>
    have hsettled : e.Settled (.error (.other name)) := by simp [Extraction.Settled, hcurrent]
    exact h.putSound i hconfigured (he.finish hsettled)

theorem Inv.begin (h : w.Inv c) (platform : String) (scopes : List (List ProxyKey))
    (deadline : Option τ) (authScope : String)
    (hconfigured : c.configured platform = true) :
    (w.begin c platform scopes deadline authScope).Sound c w.log w.now := by
  unfold World.begin
  rw [if_pos hconfigured]
  refine Extraction.Base.advance ⟨le_rfl, h.clock, le_rfl, ?_, by simp, by simp, ?_⟩ rfl
  · simp only [Extraction.used, Extraction.offered, List.map_nil, Option.toList_none,
      List.append_nil, List.nil_append, List.take_length, h.health]
  · simp [Extraction.used]

theorem inv_step (h : w.Inv c) {action : Action τ V} (hstep : w.step c action = some w') :
    w'.Inv c := by
  cases action with
  | tick now =>
    simp only [World.step] at hstep
    split at hstep
    next hle =>
      obtain rfl := Option.some.inj hstep
      refine ⟨h.clock.trans hle, h.health, ?_, h.plain⟩
      intro e hmem hconfigured
      simpa using (h.sound e hmem hconfigured).mono hle []
    · cases hstep
  | extract platform scopes deadline authScope =>
    obtain rfl := Option.some.inj hstep
    have hplatform := platform_begin (w := w) (c := c) platform scopes deadline authScope
    refine ⟨h.clock, h.health, ?_, ?_⟩
    · intro e hmem hconfigured
      rcases List.mem_append.mp hmem with hold | hnew
      · exact h.sound e hold hconfigured
      · obtain rfl := List.mem_singleton.mp hnew
        rw [hplatform] at hconfigured
        exact h.begin platform scopes deadline authScope hconfigured
    · intro e hmem hnot
      rcases List.mem_append.mp hmem with hold | hnew
      · exact h.plain e hold hnot
      · obtain rfl := List.mem_singleton.mp hnew
        rw [hplatform] at hnot
        simp [World.begin, hnot]
  | ends i answer =>
    obtain ⟨e, he, hstep⟩ := Option.bind_eq_some_iff.mp hstep
    have hmem := List.mem_of_getElem? he
    split at hstep
    next hplain =>
      obtain rfl := Option.some.inj hstep
      refine h.put i ?_ (by simp)
      intro hconfigured
      exact absurd hplain (h.sound e hmem hconfigured).started
    next hattempting =>
      obtain ⟨key, hkey, rfl⟩ := Option.map_eq_some_iff.mp hstep
      cases hconfigured : c.configured e.platform with
      | true => exact h.settle i hconfigured (h.sound e hmem hconfigured) hkey answer
      | false => exact absurd hattempting (h.plain e hmem hconfigured)
    · cases hstep
  | report platform key ok =>
    obtain rfl := Option.some.inj hstep
    cases ok with
    | true => exact h.mark platform key none
    | false => exact h.failed platform key

omit [IsOrderedAddMonoid τ] in
theorem inv_initial {now : τ} (hnow : 0 ≤ now) : (World.initial now : World τ V).Inv c := by
  refine ⟨hnow, ?_, ?_, ?_⟩ <;> simp [World.initial, healthOf, lastMark, funext_iff]

theorem inv_run {start : τ} {actions : List (Action τ V)} (hstart : 0 ≤ start)
    (hrun : (machine c).run (.initial start) actions = some w) : w.Inv c :=
  (machine c).invariant (fun _ _ _ h hstep => inv_step h hstep) (inv_initial hstart) hrun

end World

section Results

variable [IsOrderedAddMonoid τ] {start : τ} {actions : List (Action τ V)}

omit [IsOrderedAddMonoid τ] in
theorem routeTimeout_pos (platform : String) (proxied : Bool) :
    0 < c.routeTimeout platform proxied := by
  unfold MediaProxyPool.routeTimeout
  split
  · exact c.attempt_pos
  · exact c.direct_pos

/-- One attempt on every route fits into the time that an extraction has. -/
theorem sum_routeTimeout_le [One τ] (hconfigured : c.configured e.platform = true) :
    ((c.keys e.platform).map fun key => c.routeTimeout e.platform key.isSome).sum + 1 ≤
      c.extractionTimeout := by
  have hproxies : (c.urls.map fun _ => c.attemptTimeout).sum = c.urls.length • c.attemptTimeout := by
    simp
  have hkeys : ((c.keys e.platform).map fun key => c.routeTimeout e.platform key.isSome).sum =
      c.routeTimeout e.platform false + c.urls.length • c.attemptTimeout := by
    unfold MediaProxyPool.keys
    dsimp only
    split
    · simp [MediaProxyPool.routeTimeout, Function.comp_def, add_comm]
    · simp [MediaProxyPool.routeTimeout, Function.comp_def]
  have hdirect : c.routeTimeout e.platform false ≤
      if c.configured "youtube" then max c.directTimeout c.attemptTimeout else c.directTimeout := by
    unfold MediaProxyPool.routeTimeout
    by_cases hyoutube : e.platform = "youtube"
    · rw [hyoutube] at hconfigured
      simp [hyoutube, hconfigured]
    · simp only [hyoutube, decide_false, Bool.or_self, Bool.false_eq_true, if_false]
      split
      · exact le_max_left _ _
      · exact le_rfl
  rw [hkeys, MediaProxyPool.extractionTimeout]
  gcongr

def onePool : MediaProxyPool ℤ :=
  ⟨[("proxy-1", "socks5://proxy:1080")], ["youtube"], 20, 3, 60, by decide, by decide, by decide,
    by decide⟩

/-- Both routes fail, and the next call is offered the one that has failed first. -/
def coolingDown : List (Action ℤ Nat) :=
  [.extract "youtube" [] none "public", .ends 0 .timeout, .tick 5, .ends 0 .timeout, .tick 10,
    .extract "youtube" [] none "public"]

/-- A call tries the routes that it was offered one after the other, none twice. They lie in the
scopes of its pool, and one that was cooling down at the time of the call is offered alone: then
every route of the platform was cooling down, and this one since longest. -/
theorem extraction_routes (hstart : 0 ≤ start)
    (hrun : (machine c).run (.initial start) actions = some w) (he : e ∈ w.extractions)
    (hconfigured : c.configured e.platform = true) :
    e.used ++ e.remaining = e.offered c w.log ∧ (e.offered c w.log).Nodup ∧
      ∀ key ∈ e.offered c w.log, key ∈ c.keys e.platform ∧ (∀ scope ∈ e.scopes, key ∈ scope) ∧
        (Cooled c (w.log.take e.seen) e.platform key e.since →
          e.offered c w.log = [key] ∧ ∀ other ∈ c.keys e.platform,
            Cooled c (w.log.take e.seen) e.platform other e.since ∧
            (healthOf c (w.log.take e.seen) e.platform key).getD 0 ≤
              (healthOf c (w.log.take e.seen) e.platform other).getD 0) := by
  have hsound := (World.inv_run hstart hrun).sound e he hconfigured
  have hsub : (e.offered c w.log).Sublist
      (c.routes (healthOf c (w.log.take e.seen)) e.platform e.since) := scopedRoutes_sublist _
  have hkeys := hsub.trans (routes_sublist hconfigured)
  refine ⟨hsound.route, (nodup_keys c e.platform).sublist hkeys, ?_⟩
  intro key hkey
  refine ⟨hkeys.subset hkey, (mem_scopedRoutes.mp hkey).2, ?_⟩
  intro hcooled
  have hunhealthy := (isHealthy_healthOf c hsound.since).mpr hcooled
  obtain ⟨hsingle, hothers⟩ := routes_unhealthy hconfigured (hsub.subset hkey) hunhealthy
  refine ⟨?_, ?_⟩
  · rw [hsingle] at hsub
    rcases List.sublist_singleton.mp hsub with hnil | hone
    · simp [hnil] at hkey
    · exact hone
  · intro other hother
    obtain ⟨hcooling, hleast⟩ := hothers other hother
    exact ⟨(isHealthy_healthOf c hsound.since).mp hcooling, hleast⟩

theorem extraction_routes_coolingDown :
    ∃ w e, (machine onePool).run (.initial 0) coolingDown = some w ∧ e ∈ w.extractions ∧
      e.since = 10 ∧ e.used ++ e.remaining = e.offered onePool w.log := by
  have hsome : (((machine onePool).run (.initial 0) coolingDown).any fun w =>
      w.extractions[1]?.any fun e => decide (e.platform = "youtube" ∧ e.since = 10)) = true := by
    decide +kernel
  obtain ⟨w, hrun, hw⟩ := (Option.any_eq_true _ _).mp hsome
  obtain ⟨e, he, hfacts⟩ := (Option.any_eq_true _ _).mp hw
  obtain ⟨hplatform, hsince⟩ := of_decide_eq_true hfacts
  have hconfigured : onePool.configured e.platform = true := by
    rw [hplatform]
    decide
  have hmem := List.mem_of_getElem? he
  exact ⟨w, e, hrun, hmem, hsince, (extraction_routes le_rfl hrun hmem hconfigured).1⟩

/-- A call goes on after transient and authentication errors only. It returns from the first route
that answers; otherwise it raises a fatal error at once, the last error of all its routes, or that
its deadline is over. Its attempts get no more time than `extraction_timeout` covers, and none gets
time after the deadline. -/
theorem extraction_outcome [One τ] (hstart : 0 ≤ start)
    (hrun : (machine c).run (.initial start) actions = some w) (he : e ∈ w.extractions)
    (hconfigured : c.configured e.platform = true) :
    (∀ attempt ∈ e.tried, attempt.2.kind = .auth ∨ attempt.2.kind = .transient) ∧
      (∀ result, e.phase = .ended result → e.Settled result) ∧
      (e.granted.map Prod.snd).sum + 1 ≤ c.extractionTimeout ∧
      ∀ grant ∈ e.granted, ∀ deadline, e.deadline = some deadline → grant.1 + grant.2 ≤ deadline := by
  have hsound := (World.inv_run hstart hrun).sound e he hconfigured
  refine ⟨hsound.kinds, hsound.settled, ?_, fun grant hgrant => (hsound.granted grant hgrant).2⟩
  have hused : e.used.Sublist (c.keys e.platform) := by
    have hoffered : e.used.Sublist (e.offered c w.log) := by
      rw [← hsound.route]
      exact List.sublist_append_left _ _
    exact hoffered.trans ((scopedRoutes_sublist _).trans (routes_sublist hconfigured))
  have hsum : (e.used.map fun key => c.routeTimeout e.platform key.isSome).sum ≤
      ((c.keys e.platform).map fun key => c.routeTimeout e.platform key.isSome).sum := by
    refine (hused.map _).sum_le_sum ?_
    intro timeout htimeout
    obtain ⟨key, -, rfl⟩ := List.mem_map.mp htimeout
    exact (routeTimeout_pos _ _).le
  calc (e.granted.map Prod.snd).sum + 1
      ≤ (e.used.map fun key => c.routeTimeout e.platform key.isSome).sum + 1 := by
        gcongr
        exact hsound.spent
    _ ≤ ((c.keys e.platform).map fun key => c.routeTimeout e.platform key.isSome).sum + 1 := by
        gcongr
    _ ≤ c.extractionTimeout := sum_routeTimeout_le hconfigured

theorem extraction_outcome_coolingDown :
    ∃ w e, (machine onePool).run (.initial 0) coolingDown = some w ∧ e ∈ w.extractions ∧
      e.tried.length = 2 ∧ (e.granted.map Prod.snd).sum + 1 ≤ onePool.extractionTimeout := by
  have hsome : (((machine onePool).run (.initial 0) coolingDown).any fun w =>
      w.extractions[0]?.any fun e => decide (e.platform = "youtube" ∧ e.tried.length = 2)) =
        true := by
    decide +kernel
  obtain ⟨w, hrun, hw⟩ := (Option.any_eq_true _ _).mp hsome
  obtain ⟨e, he, hfacts⟩ := (Option.any_eq_true _ _).mp hw
  obtain ⟨hplatform, htried⟩ := of_decide_eq_true hfacts
  have hconfigured : onePool.configured e.platform = true := by
    rw [hplatform]
    decide
  have hmem := List.mem_of_getElem? he
  exact ⟨w, e, hrun, hmem, htried, (extraction_outcome le_rfl hrun hmem hconfigured).2.2.1⟩

end Results

end Runs

end YtdlBot.Media.Proxies
