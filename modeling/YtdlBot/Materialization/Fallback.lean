import YtdlBot.Framework.Machine
import YtdlBot.Media.Materialize

/-!
# The fallback loop

`materialize_once` of `open_materialized` and the route attempts of `_race_youtube_materialization`.
Each await is one action that says how it ends, a cancellation included. Items go by the number of
their `materialize` call; what is offered, rejected and released is kept as a history.
-/

namespace YtdlBot.Materialization.Fallback

open Framework
open Media (MediaCandidate MediaItem materializationCandidates)
open MediaCache (MediaKind MediaRequest)

inductive ErrorKind where
  | materialization
  | artifactValidation
  | mediaResolution
  | mediaPipeline
  | cancelled
  | other
deriving DecidableEq

structure Error where
  kind : ErrorKind
  message : String
deriving DecidableEq

def Error.cancelled : Error := ⟨.cancelled, ""⟩

/-- The outcome of `_await_preserving_cancellation` of an operation that ends so. -/
def awaitPreservingCancellation (ended : Except Error Unit) (cancelled : Bool) : Except Error Unit :=
  match ended with
  | .error error => .error error
  | .ok () => if cancelled then .error .cancelled else .ok ()

structure ResolvedMedia (τ : Type) where
  items : List (MediaItem τ)
  candidates : List (MediaCandidate τ)
  provider : Option String
  attemptedProviders : List String
deriving DecidableEq

structure Route where
  name : String
  isHeavy : Bool
deriving DecidableEq

/-- What the loop tells candidates apart by. -/
abbrev Key := Option String × String

def key {τ : Type} (candidate : MediaCandidate τ) : Key := (candidate.provider, candidate.candidateId)

/-- An item, by the number of the call that returned it. -/
structure MaterializedItem (τ : Type) where
  number : Nat
  candidate : MediaCandidate τ
deriving DecidableEq

/-- The history of a factory: candidates offered to `materialize`, and artifacts rejected. -/
inductive Event (κ : Type) where
  | offered (keys : List κ)
  | rejected (key : κ)
deriving DecidableEq

def youtubeShortDefaultVariant : String := Media.Materialize.youtubeShortDefaultVariant

section Resolutions

variable {τ : Type}

/-- What a race over these providers resolves to: the winner and the alternatives are candidates of
providers that were attempted, and a provider puts its own name on a candidate. -/
def Reserve (names : List String) (reserve : ResolvedMedia τ) : Prop :=
  (∃ name ∈ reserve.attemptedProviders, reserve.provider = some name) ∧
    (∀ name ∈ reserve.attemptedProviders, name ∈ names) ∧ reserve.candidates ≠ [] ∧
    ∀ candidate ∈ reserve.candidates, ∃ name ∈ reserve.attemptedProviders,
      candidate.provider = some name

instance (names : List String) (reserve : ResolvedMedia τ) : Decidable (Reserve names reserve) :=
  inferInstanceAs (Decidable (_ ∧ _ ∧ _ ∧ _))

/-- `_candidate_item` -/
def candidateItem (request : MediaRequest) (candidate : MediaCandidate τ) : MediaItem τ :=
  let kind := match candidate.kind with
    | none | some .auto | some .album => if request.kind = .audio then .audio else .video
    | some kind => kind
  ⟨request.mediaId, kind, candidate.url, none, candidate.durationSeconds, candidate.width,
    candidate.height, candidate.container, candidate.filesizeBytes⟩

/-- The routes that a reserve is looked for on. -/
def reserveRoutes (available : List Route) (attempted : List String) : List String :=
  (available.filter fun route => route.name ∉ attempted).map Route.name

/-- The routes of the early re-resolve. -/
def cheapRoutes (available : List Route) : List String :=
  (available.filter fun route => !route.isHeavy).map Route.name

end Resolutions

/-- Where `materialize_once` is. -/
inductive Phase (τ : Type) where
  /-- In `self.resolve`. -/
  | resolving
  /-- In `_race_youtube_materialization`. -/
  | racing
  | materializing (candidates : List (MediaCandidate τ))
  | validating (item : MaterializedItem τ)
  /-- Releasing an item because of the error in hand. -/
  | releasing (item : MaterializedItem τ) (error : Error)
  | awaitingPrefetch (error : Error)
  | reserving (error : Error)
  /-- In the `finally` clause, with what the loop has ended with. -/
  | joining (outcome : Except Error (MaterializedItem τ))
  /-- Releasing a valid item because the `finally` clause was cancelled. -/
  | releasingValid (error : Error)
  /-- In `_store_metadata` of `_complete_materialization`. -/
  | storing (item : MaterializedItem τ)
  | discarding (error : Error)
  | publishing (item : MaterializedItem τ)
  | ended (result : Except Error (MaterializedItem τ))
deriving DecidableEq

/-- How the task of `_publish_materialization` ends. -/
inductive Publication where
  | stored
  /-- Another item of the key is in the table already. -/
  | present
  | raised (error : Error)
deriving DecidableEq

structure State (τ : Type) where
  phase : Phase τ
  selected : ResolvedMedia τ
  attempted : List String
  failures : List (String × Error)
  retriedTiktokCheap : Bool
  /-- `cheap_prefetch is not None` -/
  cheapPrefetch : Bool
  completed : Option (MaterializedItem τ)
  completedValid : Bool
  history : List (Event Key)
  /-- Providers of the reserves, and of the early re-resolve. -/
  reserves : List (Option String)
  refetched : List (Option String)
  /-- Number of items that have been returned. -/
  returned : Nat
  released : List Nat
  published : List Nat
deriving DecidableEq

inductive Action (τ : Type) where
  | resolved (outcome : Except Error (ResolvedMedia τ))
  | raced (outcome : Except Error (ResolvedMedia τ × MediaCandidate τ))
  | materialized (outcome : Except Error (MediaCandidate τ))
  | validated (error : Option Error)
  /-- The release in progress ends; the caller may have been cancelled meanwhile. -/
  | released (ended : Except Error Unit) (cancelled : Bool)
  /-- `await cheap_prefetch` ends; the routes it was started with, and those of now. -/
  | prefetched (available now : List Route) (outcome : Except Error (Option (ResolvedMedia τ)))
  | reserved (available : List Route) (outcome : Except Error (Option (ResolvedMedia τ)))
  /-- The cancelled prefetch has been joined. -/
  | joined (cancelled : Bool)
  | stored (error : Option Error)
  | published (publication : Publication) (cancelled : Bool)

/-- The request of the factory, every route there is, and whether the YouTube race applies. -/
structure Settings where
  request : MediaRequest
  registry : List Route
  youtubeRoutes : Bool

namespace State

variable {τ : Type} (c : Settings) (s : State τ)

def blank : State τ :=
  ⟨.resolving, ⟨[], [], none, []⟩, [], [], false, false, none, false, [], [], [], 0, [], []⟩

def ends (result : Except Error (MaterializedItem τ)) : State τ := { s with phase := .ended result }

/-- After the `finally` clause. -/
def conclude : Except Error (MaterializedItem τ) → State τ
  | .error error => s.ends (.error error)
  | .ok item => { s with phase := .storing item }

/-- The loop is left. -/
def leave (outcome : Except Error (MaterializedItem τ)) : State τ :=
  if s.cheapPrefetch then { s with phase := .joining outcome } else s.conclude outcome

/-- While yt-dlp is tried on TikTok, the cheap providers are resolved again in the background. -/
def startPrefetch : State τ :=
  if !s.retriedTiktokCheap && c.request.platform = "tiktok" &&
      s.selected.provider = some "ytdlp" then
    { s with retriedTiktokCheap := true, cheapPrefetch := true }
  else s

/-- The loop from its top. -/
def iterate : State τ :=
  let s := s.startPrefetch c
  match materializationCandidates s.selected.candidates with
  | .error error => s.leave (.error ⟨.mediaResolution, error.text⟩)
  | .ok candidates =>
    { s with
      phase := .materializing candidates
      completed := none
      completedValid := false
      history := s.history ++ [.offered (candidates.map key)] }

/-- From the first resolution. -/
def begin (selected : ResolvedMedia τ) : State τ :=
  iterate c { s with
    selected := selected
    attempted := selected.candidates.filterMap MediaCandidate.provider ++
      selected.attemptedProviders }

/-- `resolved` is the argument of `open_materialized`. -/
def initial (resolved : Option (ResolvedMedia τ)) : State τ :=
  match resolved with
  | some selected => begin c blank selected
  | none =>
    if c.youtubeRoutes && c.request.platform = "youtube" && c.request.authScope = "public" then
      { blank with phase := .racing }
    else blank

def takeReserve (reserve : ResolvedMedia τ) : State τ :=
  iterate c { s with
    selected := reserve
    attempted := s.attempted ++ reserve.attemptedProviders }

def fallBack (error : Error) : State τ :=
  if s.cheapPrefetch && error.kind = .materialization then
    { s with phase := .awaitingPrefetch error }
  else { s with phase := .reserving error }

/-- The handler of errors, once the item in hand is released. -/
def handle (error : Error) : State τ :=
  let s := { s with failures := s.failures ++ [(Media.textOr s.selected.provider "materialization", error)] }
  match s.completed with
  | none => s.fallBack error
  | some item =>
    if error.kind = .artifactValidation ∧
        c.request.outputVariant = some youtubeShortDefaultVariant then
      match s.selected.candidates.filter fun candidate => key candidate ≠ key item.candidate with
      | [] => s.fallBack error
      | next :: rest =>
        iterate c { s with
          selected :=
            { s.selected with
              candidates := next :: rest
              provider := next.provider
              items := if next.items = [] then [candidateItem c.request next] else next.items } }
    else s.fallBack error

def details : String :=
  "; ".intercalate (s.failures.map fun failure => failure.1 ++ ": " ++ failure.2.message)

/-- An item is returned by its call. -/
def receive (candidate : MediaCandidate τ) : MaterializedItem τ × State τ :=
  (⟨s.returned, candidate⟩, { s with returned := s.returned + 1 })

/-- `release(delete=True)` is called. -/
def release (item : MaterializedItem τ) (phase : Phase τ) : State τ :=
  { s with phase := phase, released := s.released ++ [item.number] }

/-- An artifact is rejected. -/
def note (item : MaterializedItem τ) (error : Error) : State τ :=
  if error.kind = .artifactValidation then
    { s with history := s.history ++ [.rejected (key item.candidate)] }
  else s

def step : Action τ → Option (State τ)
  | .resolved outcome =>
    match s.phase, outcome with
    | .resolving, .ok selected => some (s.begin c selected)
    | .resolving, .error error => some (s.ends (.error error))
    | _, _ => none
  | .raced outcome =>
    match s.phase, outcome with
    | .racing, .ok (_, candidate) =>
      let (item, s) := s.receive candidate
      some { s with phase := .storing item }
    | .racing, .error error => some (s.ends (.error error))
    | _, _ => none
  | .materialized outcome =>
    match s.phase, outcome with
    | .materializing candidates, .ok candidate =>
      -- the item of a candidate, or of what its provider refreshed under the same name
      if key candidate ∈ candidates.map key then
        let (item, s) := s.receive candidate
        some { s with phase := .validating item, completed := some item }
      else none
    | .materializing _, .error error =>
      some (if error.kind = .cancelled then s.leave (.error error) else s.handle c error)
    | _, _ => none
  | .validated error =>
    match s.phase, error with
    | .validating item, none => some ({ s with completedValid := true }.leave (.ok item))
    | .validating item, some error =>
      some ((s.note item error).release item (.releasing item error))
    | _, _ => none
  | .released ended cancelled =>
    match s.phase, awaitPreservingCancellation ended cancelled with
    | .releasing _ _, .error error => some (s.leave (.error error))
    | .releasing _ error, .ok () =>
      some (if error.kind = .cancelled then s.leave (.error error) else s.handle c error)
    | .releasingValid _, .error error | .releasingValid error, .ok ()
    | .discarding _, .error error | .discarding error, .ok () => some (s.ends (.error error))
    | _, _ => none
  | .prefetched available now outcome =>
    if ∀ route ∈ available, route ∈ c.registry then
      match s.phase, outcome with
      | .awaitingPrefetch _, .error error => some (s.leave (.error error))
      | .awaitingPrefetch error, .ok reserve =>
        let s := { s with
          cheapPrefetch := false
          attempted := s.attempted ++ cheapRoutes now }
        match reserve with
        | none => some { s with phase := .reserving error }
        | some reserve =>
          if Reserve (cheapRoutes available) reserve then
            some ({ s with refetched := s.refetched ++ [reserve.provider] }.takeReserve c reserve)
          else none
      | _, _ => none
    else none
  | .reserved available outcome =>
    if ∀ route ∈ available, route ∈ c.registry then
      match s.phase, outcome with
      | .reserving _, .error error => some (s.leave (.error error))
      | .reserving _, .ok none => some (s.leave (.error ⟨.mediaPipeline, s.details⟩))
      | .reserving _, .ok (some reserve) =>
        if Reserve (reserveRoutes available s.attempted) reserve then
          some ({ s with reserves := s.reserves ++ [reserve.provider] }.takeReserve c reserve)
        else none
      | _, _ => none
    else none
  | .joined cancelled =>
    match s.phase with
    | .joining outcome =>
      if cancelled then
        match s.completedValid, s.completed with
        | true, some item => some (s.release item (.releasingValid .cancelled))
        | _, _ => some (s.ends (.error .cancelled))
      else some (s.conclude outcome)
    | _ => none
  | .stored error =>
    match s.phase, error with
    | .storing item, none => some { s with phase := .publishing item }
    | .storing item, some error => some (s.release item (.discarding error))
    | _, _ => none
  | .published publication cancelled =>
    match s.phase with
    | .publishing item =>
      let result := if cancelled then .error .cancelled else .ok item
      match publication with
      | .stored => some ({ s with published := s.published ++ [item.number] }.ends result)
      | .present => some (s.ends result)
      | .raised error =>
        if error.kind = .cancelled then some (s.ends (.error error))
        else some (s.release item (.discarding error))
    | _ => none

end State

def machine (τ : Type) (c : Settings) : Machine (State τ) (Action τ) :=
  ⟨State.step c⟩

section Moves

variable {τ : Type}

/-- An exception may be raised out of the loop. -/
def Phase.raises : Phase τ → Prop
  | .materializing _ | .releasing _ _ | .awaitingPrefetch _ | .reserving _ => True
  | _ => False

/-- An exception ends the factory at once. -/
def Phase.last : Phase τ → Prop
  | .resolving | .racing | .releasingValid _ | .discarding _ => True
  | _ => False

/-- The handler takes over this error. -/
def Phase.handles (error : Error) : Phase τ → Prop
  | .materializing _ => True
  | .releasing _ rejected => rejected = error
  | _ => False

/-- What a step can do. -/
inductive Move (c : Settings) (s : State τ) : State τ → Prop where
  | begin (hphase : s.phase = .resolving) (selected : ResolvedMedia τ) : Move c s (s.begin c selected)
  | raced (hphase : s.phase = .racing) (candidate : MediaCandidate τ) :
      Move c s { (s.receive candidate).2 with phase := .storing (s.receive candidate).1 }
  | halted (hphase : s.phase.last) (error : Error) : Move c s (s.ends (.error error))
  | received {candidates : List (MediaCandidate τ)} {candidate : MediaCandidate τ}
      (hphase : s.phase = .materializing candidates) (hkey : key candidate ∈ candidates.map key) :
      Move c s { (s.receive candidate).2 with
        phase := .validating (s.receive candidate).1, completed := some (s.receive candidate).1 }
  | left (hphase : s.phase.raises) (error : Error) : Move c s (s.leave (.error error))
  | handled {error : Error} (hphase : s.phase.handles error) : Move c s (s.handle c error)
  | valid {item : MaterializedItem τ} (hphase : s.phase = .validating item) :
      Move c s ({ s with completedValid := true }.leave (.ok item))
  | rejected {item : MaterializedItem τ} (hphase : s.phase = .validating item) (error : Error) :
      Move c s ((s.note item error).release item (.releasing item error))
  | prefetched {error : Error} (hphase : s.phase = .awaitingPrefetch error) (now : List Route) :
      Move c s { s with
        phase := .reserving error, cheapPrefetch := false, attempted := s.attempted ++ cheapRoutes now }
  | refetched {error : Error} {available : List Route} {reserve : ResolvedMedia τ}
      (hphase : s.phase = .awaitingPrefetch error) (now : List Route)
      (havailable : ∀ route ∈ available, route ∈ c.registry)
      (hreserve : Reserve (cheapRoutes available) reserve) :
      Move c s (({ s with
        cheapPrefetch := false
        attempted := s.attempted ++ cheapRoutes now
        refetched := s.refetched ++ [reserve.provider] }).takeReserve c reserve)
  | reserved {error : Error} {available : List Route} {reserve : ResolvedMedia τ}
      (hphase : s.phase = .reserving error)
      (havailable : ∀ route ∈ available, route ∈ c.registry)
      (hreserve : Reserve (reserveRoutes available s.attempted) reserve) :
      Move c s ({ s with reserves := s.reserves ++ [reserve.provider] }.takeReserve c reserve)
  | interrupted {outcome : Except Error (MaterializedItem τ)} {item : MaterializedItem τ}
      (hphase : s.phase = .joining outcome) (hvalid : s.completedValid = true)
      (hcompleted : s.completed = some item) :
      Move c s (s.release item (.releasingValid .cancelled))
  | abandoned {outcome : Except Error (MaterializedItem τ)} (hphase : s.phase = .joining outcome)
      (hnothing : ¬ (s.completedValid = true ∧ s.completed.isSome)) :
      Move c s (s.ends (.error .cancelled))
  | joined {outcome : Except Error (MaterializedItem τ)} (hphase : s.phase = .joining outcome) :
      Move c s (s.conclude outcome)
  | stored {item : MaterializedItem τ} (hphase : s.phase = .storing item) :
      Move c s { s with phase := .publishing item }
  | discarded {item : MaterializedItem τ} (hphase : s.phase = .storing item ∨ s.phase = .publishing item)
      (error : Error) : Move c s (s.release item (.discarding error))
  | published {item : MaterializedItem τ} (hphase : s.phase = .publishing item) (cancelled : Bool) :
      Move c s ({ s with published := s.published ++ [item.number] }.ends
        (if cancelled then .error .cancelled else .ok item))
  | inVain {item : MaterializedItem τ} (hphase : s.phase = .publishing item) :
      Move c s (s.ends (.ok item))

/-- The publication is cut off: a cancellation arrives, and the item is not in the table. -/
def Action.cutOff : Action τ → Prop
  | .published .present cancelled => cancelled = true
  | .published (.raised error) _ => error.kind = .cancelled
  | _ => False

instance : ∀ a : Action τ, Decidable a.cutOff
  | .published .present cancelled => inferInstanceAs (Decidable (cancelled = true))
  | .published (.raised error) _ => inferInstanceAs (Decidable (error.kind = .cancelled))
  | .published .stored _ | .resolved _ | .raced _ | .materialized _ | .validated _ | .released _ _
  | .prefetched _ _ _ | .reserved _ _ | .joined _ | .stored _ => isFalse id

variable {c : Settings} {s s' : State τ} {a : Action τ}

theorem move_of_step (h : s.step c a = some s') (hcut : ¬ a.cutOff) : Move c s s' := by
  cases a with
  | resolved outcome =>
    simp only [State.step] at h
    split at h
    next selected hphase =>
      obtain rfl := Option.some.inj h
      exact .begin hphase selected
    next error hphase =>
      obtain rfl := Option.some.inj h
      exact .halted (by simp [hphase, Phase.last]) error
    · cases h
  | raced outcome =>
    simp only [State.step] at h
    split at h
    next selected candidate hphase =>
      obtain rfl := Option.some.inj h
      exact .raced hphase candidate
    next error hphase =>
      obtain rfl := Option.some.inj h
      exact .halted (by simp [hphase, Phase.last]) error
    · cases h
  | materialized outcome =>
    simp only [State.step] at h
    split at h
    next candidates candidate hphase =>
      split_ifs at h with hkey
      obtain rfl := Option.some.inj h
      exact .received hphase hkey
    next candidates error hphase =>
      obtain rfl := Option.some.inj h
      split_ifs
      · exact .left (by simp [hphase, Phase.raises]) error
      · exact .handled (by simp [hphase, Phase.handles])
    · cases h
  | validated error =>
    simp only [State.step] at h
    split at h
    next item hphase =>
      obtain rfl := Option.some.inj h
      exact .valid hphase
    next item error hphase =>
      obtain rfl := Option.some.inj h
      exact .rejected hphase error
    · cases h
  | released ended cancelled =>
    simp only [State.step] at h
    split at h
    next item rejected error hphase hended =>
      obtain rfl := Option.some.inj h
      exact .left (by simp [hphase, Phase.raises]) error
    next item error hphase hended =>
      obtain rfl := Option.some.inj h
      split_ifs
      · exact .left (by simp [hphase, Phase.raises]) error
      · exact .handled (by simp [hphase, Phase.handles])
    next rejected error hphase hended =>
      obtain rfl := Option.some.inj h
      exact .halted (by simp [hphase, Phase.last]) error
    next error hphase hended =>
      obtain rfl := Option.some.inj h
      exact .halted (by simp [hphase, Phase.last]) error
    next rejected error hphase hended =>
      obtain rfl := Option.some.inj h
      exact .halted (by simp [hphase, Phase.last]) error
    next error hphase hended =>
      obtain rfl := Option.some.inj h
      exact .halted (by simp [hphase, Phase.last]) error
    · cases h
  | prefetched available now outcome =>
    simp only [State.step] at h
    split_ifs at h with havailable
    split at h
    next rejected error hphase =>
      obtain rfl := Option.some.inj h
      exact .left (by simp [hphase, Phase.raises]) error
    next error reserve hphase =>
      cases reserve with
      | none =>
        obtain rfl := Option.some.inj h
        exact .prefetched hphase now
      | some reserve =>
        dsimp only at h
        split_ifs at h with hreserve
        obtain rfl := Option.some.inj h
        exact .refetched hphase now havailable hreserve
    · cases h
  | reserved available outcome =>
    simp only [State.step] at h
    split_ifs at h with havailable
    split at h
    next rejected error hphase =>
      obtain rfl := Option.some.inj h
      exact .left (by simp [hphase, Phase.raises]) error
    next rejected hphase =>
      obtain rfl := Option.some.inj h
      exact .left (by simp [hphase, Phase.raises]) _
    next error reserve hphase =>
      split_ifs at h with hreserve
      obtain rfl := Option.some.inj h
      exact .reserved hphase havailable hreserve
    · cases h
  | joined cancelled =>
    simp only [State.step] at h
    split at h
    next outcome hphase =>
      split_ifs at h with hcancelled
      · split at h
        next item hvalid hcompleted =>
          obtain rfl := Option.some.inj h
          exact .interrupted hphase hvalid hcompleted
        next hnothing =>
          obtain rfl := Option.some.inj h
          refine .abandoned hphase ?_
          rintro ⟨hvalid, hsome⟩
          obtain ⟨item, hitem⟩ := Option.isSome_iff_exists.mp hsome
          exact hnothing item hvalid hitem
      · obtain rfl := Option.some.inj h
        exact .joined hphase
    · cases h
  | stored error =>
    simp only [State.step] at h
    split at h
    next item hphase =>
      obtain rfl := Option.some.inj h
      exact .stored hphase
    next item error hphase =>
      obtain rfl := Option.some.inj h
      exact .discarded (.inl hphase) error
    · cases h
  | published publication cancelled =>
    simp only [State.step] at h
    split at h
    next item hphase =>
      cases publication with
      | stored =>
        obtain rfl := Option.some.inj h
        exact .published hphase cancelled
      | present =>
        obtain rfl : cancelled = false := by simpa [Action.cutOff] using hcut
        obtain rfl := Option.some.inj h
        exact .inVain hphase
      | raised error =>
        have hkind : error.kind ≠ .cancelled := hcut
        simp only [hkind, if_false, Option.some.injEq] at h
        obtain rfl := h
        exact .discarded (.inr hphase) error
    · cases h

theorem step_cutOff (h : s.step c a = some s') (hcut : a.cutOff) :
    ∃ item error, s.phase = .publishing item ∧ s' = s.ends (.error error) := by
  cases a with
  | published publication cancelled =>
    simp only [State.step] at h
    cases hphase : s.phase with
    | publishing item =>
      cases publication with
      | stored => exact absurd hcut id
      | present =>
        obtain rfl : cancelled = true := hcut
        simp only [hphase, if_true, Option.some.injEq] at h
        exact ⟨item, .cancelled, rfl, h.symm⟩
      | raised error =>
        have hkind : error.kind = .cancelled := hcut
        simp only [hphase, hkind, if_true, Option.some.injEq] at h
        exact ⟨item, error, rfl, h.symm⟩
    | _ => simp [hphase] at h
  | _ => exact absurd hcut id

end Moves

end YtdlBot.Materialization.Fallback
