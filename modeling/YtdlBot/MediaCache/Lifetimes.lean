import YtdlBot.MediaCache.Expiry

/-!
# What a cache in memory promises

Beside the dictionary of a `MediaCache` stands what was put last under each key and neither deleted
nor evicted since. Answers are read off this map, and so is what an insertion may cost.
-/

namespace YtdlBot.MediaCache

open Framework
open Store Memory

variable {τ : Type}

namespace Payload

def toMetadata : Payload τ → Option StableMediaMetadata
  | .metadata m => some m
  | _ => none

/-- A signed URL is good before its own expiry. -/
def toSignedUrl [LinearOrder τ] (later : τ) : Payload τ → Option (CachedSignedURL τ)
  | .signedUrl u => if u.expiresAt ≤ later then none else some u
  | _ => none

def toDelivery : Payload τ → Option CachedDelivery
  | .delivery d => some d
  | _ => none

end Payload

/-- The readings of the clock. -/
def Action.readings : Action τ → List τ
  | .getMetadata _ _ now => [now]
  | .putMetadata _ _ now later _ => [now, later]
  | .getSignedUrl _ _ now later _ => [now, later]
  | .putSignedUrl _ _ now later _ latest => [now, later, latest]
  | .getDelivery _ _ now later _ _ => [now, later]
  | .putDelivery _ _ now later _ _ => [now, later]
  | .evictDelivery _ _ _ _ => []
  | .vanish _ => []

section Sessions

variable [LinearOrder τ] [Field τ] [FloorRing τ] (hexdigest : String → String)

/-- What is asked of the key of a query. -/
def asked (c : Cache τ) (q : Query) (f : String → τ × MapOp String (Payload τ) τ) :
    Option (τ × MapOp String (Payload τ) τ) :=
  match recordKey hexdigest c.settings q with
  | .error _ => none
  | .ok key => some (f key)

/-- What an action asks of a map of payloads, and when. -/
def Action.asks (time : τ) : Action τ → Option (τ × MapOp String (Payload τ) τ)
  | .getMetadata c request now =>
    asked hexdigest c (metadataQuery request) fun key =>
      (now, .get key (fun payload => payload.toMetadata.isSome) none)
  | .putMetadata c request now later m =>
    if m.platform ≠ request.platform ∨ m.mediaId ≠ request.mediaId then none
    else
      asked hexdigest c (metadataQuery request) fun key =>
        (now, .put key (.metadata m) (later + c.ttls.metadata))
  | .getSignedUrl c request now later variantId =>
    asked hexdigest c (signedUrlQuery request variantId) fun key =>
      (now, .get key (fun payload => (payload.toSignedUrl later).isSome) none)
  | .putSignedUrl c request now later u latest =>
    if u.expiresAt - now ≤ 0 then
      asked hexdigest c (signedUrlQuery request u.variantId) fun key => (now, .delete key)
    else
      asked hexdigest c (signedUrlQuery request u.variantId) fun key =>
        (later, .put key (.signedUrl u)
          (latest + max 1 (min c.ttls.signedUrl (Int.ceil (u.expiresAt - now) : τ))))
  | .getDelivery c request now later botId itemIndex =>
    asked hexdigest c (deliveryQuery request botId itemIndex) fun key =>
      (now, .get key (fun payload => payload.toDelivery.isSome) (some (later + c.ttls.delivery)))
  | .putDelivery c request now later botId d =>
    asked hexdigest c (deliveryQuery request botId d.itemIndex) fun key =>
      (now, .put key (.delivery d) (later + c.ttls.delivery))
  | .evictDelivery c request botId itemIndex =>
    asked hexdigest c (deliveryQuery request botId itemIndex) fun key => (time, .delete key)
  | .vanish key => some (time, .delete key)

/-- A dictionary, the last reading of its clock, and what was put last under each key. -/
structure Session (τ : Type) where
  store : Store τ
  time : τ
  view : ExpiryMap String (Payload τ) τ

def Session.advance (s : Session τ) (a : Action τ) : Option (Session τ) :=
  (s.store.step hexdigest a).map fun store =>
    ⟨store, a.readings.getLastD s.time,
      match a.asks hexdigest s.time with
      | none => s.view
      | some (now, op) => s.view.apply now (gone s.store store now) op⟩

def cacheMachine : Machine (Session τ) (Action τ) := ⟨Session.advance hexdigest⟩

/-- The clock does not run back. -/
def Session.Orderly (s : Session τ) (a : Action τ) : Prop :=
  (s.time :: a.readings).Pairwise (· ≤ ·)

/-- What holds of a dictionary of at most `limit` records. -/
structure Session.Lawful (limit : Nat) (s : Session τ) : Prop where
  bound : s.store.records.length ≤ limit
  metadata : ∀ c request now key, s.time ≤ now →
    recordKey hexdigest c.settings (metadataQuery request) = .ok key →
      (getMetadata hexdigest c request now s.store).1 =
        .ok ((s.view.current now key).bind fun r => r.value.toMetadata)
  signedUrl : ∀ c request now later variantId key, s.time ≤ now →
    recordKey hexdigest c.settings (signedUrlQuery request variantId) = .ok key →
      (getSignedUrl hexdigest c request now later variantId s.store).1 =
        .ok ((s.view.current now key).bind fun r => r.value.toSignedUrl later)
  delivery : ∀ c request now later botId itemIndex key, s.time ≤ now →
    recordKey hexdigest c.settings (deliveryQuery request botId itemIndex) = .ok key →
      (getDelivery hexdigest c request now later botId itemIndex s.store).1 =
        .ok ((s.view.current now key).bind fun r => r.value.toDelivery)
  /-- No signed URL is returned from its expiry on. -/
  unexpired : ∀ c request now later variantId u,
    (getSignedUrl hexdigest c request now later variantId s.store).1 = .ok (some u) →
      later < u.expiresAt
  insertion : ∀ a s' now key value expiresAt, s.Orderly a →
    (cacheMachine hexdigest).step s a = some s' →
      a.asks hexdigest s.time = some (now, .put key value expiresAt) →
        Cost limit s.store s'.store key now

end Sessions

section Proofs

variable [LinearOrder τ] [Field τ] {hexdigest : String → String} {c : Cache τ} {q : Query}
  {s s' : Store τ} {limit : Nat}

/-- A dictionary does what it is asked. -/
def Performs (limit : Nat) (s s' : Store τ) : Option (τ × MapOp String (Payload τ) τ) → Prop
  | none => s' = s
  | some (now, op) =>
    ExpiryMap.Same now (tableOf s') ((tableOf s).apply now (gone s s' now) op) ∧
      ∀ key value expiresAt, op = .put key value expiresAt → Cost limit s s' key now

theorem performs_get {α : Type} (hs : s.Tidy limit) (now later : τ) (touchTtl : Option τ)
    (decode : Payload τ → Option α) :
    (getRecord hexdigest c now later q touchTtl decode s).2.Tidy limit ∧
      Performs limit s (getRecord hexdigest c now later q touchTtl decode s).2
        (asked hexdigest c q fun key => (now,
          .get key (fun payload => (decode payload).isSome) (touchTtl.map (later + ·)))) := by
  unfold asked
  cases hkey : recordKey hexdigest c.settings q with
  | error error =>
    simp only [getRecord, atKey, hkey]
    exact ⟨hs, rfl⟩
  | ok key =>
    obtain ⟨-, htidy, hsame⟩ := getRecord_spec hs hkey now later touchTtl decode
      (gone s (getRecord hexdigest c now later q touchTtl decode s).2 now)
    exact ⟨htidy, hsame, fun _ _ _ hput => by cases hput⟩

theorem performs_put (hs : s.Tidy limit) (hpositive : 1 ≤ limit) (now later : τ)
    (payload : Payload τ) (ttl : τ) :
    (putRecord hexdigest c now later q payload ttl s).2.Tidy limit ∧
      Performs limit s (putRecord hexdigest c now later q payload ttl s).2
        (asked hexdigest c q fun key => (now, .put key payload (later + ttl))) := by
  unfold asked
  cases hkey : recordKey hexdigest c.settings q with
  | error error =>
    simp only [putRecord, atKey, hkey]
    exact ⟨hs, rfl⟩
  | ok key =>
    obtain ⟨htidy, hcost, hsame⟩ := putRecord_spec hs hpositive hkey now later payload ttl
    refine ⟨htidy, hsame, ?_⟩
    intro key' value expiresAt hput
    obtain ⟨rfl, -, -⟩ := MapOp.put.inj hput
    exact hcost

omit [Field τ] in
theorem performs_delete (hs : s.Tidy limit) (now : τ) {α : Type} (answer : α) :
    (atKey hexdigest c q (fun key s => (.ok answer, s.delete key)) s).2.Tidy limit ∧
      Performs limit s (atKey hexdigest c q (fun key s => (.ok answer, s.delete key)) s).2
        (asked hexdigest c q fun key => (now, .delete key)) := by
  unfold asked atKey
  cases hkey : recordKey hexdigest c.settings q with
  | error error => exact ⟨hs, rfl⟩
  | ok key =>
    refine ⟨hs.delete key, ?_, fun _ _ _ hput => (nomatch hput)⟩
    rw [tableOf_delete hs.distinct]
    exact fun _ _ _ => rfl

variable [FloorRing τ]

theorem step_performs (hs : s.Tidy limit) (hpositive : 1 ≤ limit) {a : Action τ}
    (hstep : s.step hexdigest a = some s') (time : τ) :
    s'.Tidy limit ∧ Performs limit s s' (a.asks hexdigest time) := by
  cases a with
  | getMetadata c request now =>
    obtain rfl := Option.some.inj hstep
    exact performs_get hs now now none Payload.toMetadata
  | putMetadata c request now later m =>
    obtain rfl := Option.some.inj hstep
    simp only [putMetadata, Action.asks]
    by_cases hother : m.platform ≠ request.platform ∨ m.mediaId ≠ request.mediaId
    · rw [if_pos hother, if_pos hother]
      exact ⟨hs, rfl⟩
    · rw [if_neg hother, if_neg hother]
      exact performs_put hs hpositive now later _ _
  | getSignedUrl c request now later variantId =>
    obtain rfl := Option.some.inj hstep
    exact performs_get hs now now none (Payload.toSignedUrl later)
  | putSignedUrl c request now later u latest =>
    obtain rfl := Option.some.inj hstep
    simp only [putSignedUrl, Action.asks]
    by_cases hexpired : u.expiresAt - now ≤ 0
    · rw [if_pos hexpired, if_pos hexpired]
      exact performs_delete hs now ()
    · rw [if_neg hexpired, if_neg hexpired]
      exact performs_put hs hpositive later latest _ _
  | getDelivery c request now later botId itemIndex =>
    obtain rfl := Option.some.inj hstep
    exact performs_get hs now later (some c.ttls.delivery) Payload.toDelivery
  | putDelivery c request now later botId d =>
    obtain rfl := Option.some.inj hstep
    exact performs_put hs hpositive now later _ _
  | evictDelivery c request botId itemIndex =>
    obtain rfl := Option.some.inj hstep
    exact performs_delete hs time ()
  | vanish key =>
    obtain rfl := Option.some.inj hstep
    refine ⟨hs.delete key, ?_, fun _ _ _ hput => (nomatch hput)⟩
    rw [tableOf_delete hs.distinct]
    exact fun _ _ _ => rfl

omit [LinearOrder τ] [Field τ] [FloorRing τ] in
theorem asked_eq_some {f : String → τ × MapOp String (Payload τ) τ} {r : τ × MapOp String (Payload τ) τ}
    (h : asked hexdigest c q f = some r) : ∃ key, f key = r := by
  unfold asked at h
  split at h
  · cases h
  next key _ => exact ⟨key, Option.some.inj h⟩

theorem asks_time {a : Action τ} {time now : τ} {op : MapOp String (Payload τ) τ}
    (h : a.asks hexdigest time = some (now, op)) : now ∈ time :: a.readings := by
  cases a with
  | getMetadata c request first =>
    simp only [Action.asks] at h
    obtain ⟨key, hkey⟩ := asked_eq_some h
    have htime : first = now := congrArg Prod.fst hkey
    simp [Action.readings, ← htime]
  | putMetadata c request first later m =>
    simp only [Action.asks] at h
    split_ifs at h
    obtain ⟨key, hkey⟩ := asked_eq_some h
    have htime : first = now := congrArg Prod.fst hkey
    simp [Action.readings, ← htime]
  | getSignedUrl c request first later variantId =>
    simp only [Action.asks] at h
    obtain ⟨key, hkey⟩ := asked_eq_some h
    have htime : first = now := congrArg Prod.fst hkey
    simp [Action.readings, ← htime]
  | putSignedUrl c request first later u latest =>
    simp only [Action.asks] at h
    split_ifs at h
    · obtain ⟨key, hkey⟩ := asked_eq_some h
      have htime : first = now := congrArg Prod.fst hkey
      simp [Action.readings, ← htime]
    · obtain ⟨key, hkey⟩ := asked_eq_some h
      have htime : later = now := congrArg Prod.fst hkey
      simp [Action.readings, ← htime]
  | getDelivery c request first later botId itemIndex =>
    simp only [Action.asks] at h
    obtain ⟨key, hkey⟩ := asked_eq_some h
    have htime : first = now := congrArg Prod.fst hkey
    simp [Action.readings, ← htime]
  | putDelivery c request first later botId d =>
    simp only [Action.asks] at h
    obtain ⟨key, hkey⟩ := asked_eq_some h
    have htime : first = now := congrArg Prod.fst hkey
    simp [Action.readings, ← htime]
  | evictDelivery c request botId itemIndex =>
    simp only [Action.asks] at h
    obtain ⟨key, hkey⟩ := asked_eq_some h
    have htime : time = now := congrArg Prod.fst hkey
    simp [Action.readings, ← htime]
  | vanish key =>
    have htime : time = now := congrArg Prod.fst (Option.some.inj h)
    exact htime ▸ List.mem_cons_self

omit [Field τ] [FloorRing τ] in
theorem le_getLastD {time now : τ} {readings : List τ}
    (hordered : (time :: readings).Pairwise (· ≤ ·)) (hmem : now ∈ time :: readings) :
    now ≤ readings.getLastD time := by
  induction readings generalizing time now with
  | nil => exact (List.mem_singleton.mp hmem) ▸ le_refl _
  | cons r rs ih =>
    rw [List.getLastD_cons]
    obtain ⟨hfirst, hrest⟩ := List.pairwise_cons.mp hordered
    rcases List.mem_cons.mp hmem with rfl | hmem
    · exact le_trans (hfirst r List.mem_cons_self) (ih hrest List.mem_cons_self)
    · exact ih hrest hmem

/-- The dictionary has what was promised. -/
structure Session.Kept (limit : Nat) (s : Session τ) : Prop where
  tidy : s.store.Tidy limit
  same : ExpiryMap.Same s.time (tableOf s.store) s.view

theorem kept_step {s s' : Session τ} (hpositive : 1 ≤ limit) (hs : s.Kept limit) {a : Action τ}
    (horderly : s.Orderly a) (hstep : (cacheMachine hexdigest).step s a = some s') :
    s'.Kept limit := by
  obtain ⟨store, hstore, rfl⟩ := Option.map_eq_some_iff.mp hstep
  obtain ⟨htidy, hperforms⟩ := step_performs hs.tidy hpositive hstore s.time
  refine ⟨htidy, ?_⟩
  have hlast : ∀ now ∈ s.time :: a.readings, now ≤ a.readings.getLastD s.time :=
    fun now hnow => le_getLastD horderly hnow
  dsimp only
  cases hasks : a.asks hexdigest s.time with
  | none =>
    rw [hasks] at hperforms
    obtain rfl : store = s.store := hperforms
    exact hs.same.later (hlast s.time List.mem_cons_self)
  | some asked =>
    obtain ⟨now, op⟩ := asked
    rw [hasks] at hperforms
    have hnow := asks_time hasks
    have hle : s.time ≤ now := by
      rcases List.mem_cons.mp hnow with rfl | hread
      · exact le_refl _
      · exact List.rel_of_pairwise_cons horderly hread
    have happly := (hs.same.later hle).apply (gone s.store store now) op
    exact (hperforms.1.trans happly).later (hlast now hnow)

theorem step_eq (hexdigest : String → String) (s : Session τ) (a : Action τ) :
    ∃ s', (cacheMachine hexdigest).step s a = some s' ∧ s'.time = a.readings.getLastD s.time := by
  cases a <;> exact ⟨_, rfl, rfl⟩

/-- Operations always come to an end, and a clock that does not run back admits them. -/
theorem run_total (hexdigest : String → String) (s : Session τ) (as : List (Action τ))
    (hordered : (s.time :: as.flatMap Action.readings).Pairwise (· ≤ ·)) :
    (∃ t, (cacheMachine hexdigest).run s as = some t) ∧
      (cacheMachine hexdigest).Admits Session.Orderly s as := by
  induction as generalizing s with
  | nil => exact ⟨⟨s, rfl⟩, trivial⟩
  | cons a as ih =>
    obtain ⟨s', hstep, htime⟩ := step_eq hexdigest s a
    rw [List.flatMap_cons, ← List.cons_append, List.pairwise_append] at hordered
    have hrest : (s'.time :: as.flatMap Action.readings).Pairwise (· ≤ ·) := by
      refine List.pairwise_cons.mpr ⟨fun later hlater => ?_, hordered.2.1⟩
      rw [htime]
      exact hordered.2.2 _ (List.getLastD_mem_cons) later hlater
    obtain ⟨⟨t, ht⟩, hadmits⟩ := ih s' hrest
    exact ⟨⟨t, (Machine.run_cons_eq_some _).mpr ⟨s', hstep, ht⟩⟩,
      Machine.admits_cons _ hstep hordered.1 hadmits⟩

omit [FloorRing τ] in
theorem decode_of_getRecord {α : Type} {now later : τ} {touchTtl : Option τ}
    {decode : Payload τ → Option α} {value : α}
    (h : (getRecord hexdigest c now later q touchTtl decode s).1 = .ok (some value)) :
    ∃ payload, decode payload = some value := by
  unfold getRecord atKey at h
  split at h
  · cases h
  · dsimp only at h
    split at h
    · cases h
    · split at h
      · cases h
      next hdecode => exact ⟨_, by rw [hdecode, Except.ok.inj h]⟩

theorem lawful_of_kept {s : Session τ} (hpositive : 1 ≤ limit) (hs : s.Kept limit) :
    s.Lawful hexdigest limit where
  bound := hs.tidy.bound
  metadata c request now key hle hkey := by
    rw [← hs.same now hle key]
    exact (getRecord_spec hs.tidy hkey now now none Payload.toMetadata fun _ => false).1
  signedUrl c request now later variantId key hle hkey := by
    rw [← hs.same now hle key]
    exact (getRecord_spec hs.tidy hkey now now none (Payload.toSignedUrl later) fun _ => false).1
  delivery c request now later botId itemIndex key hle hkey := by
    rw [← hs.same now hle key]
    exact (getRecord_spec hs.tidy hkey now later (some c.ttls.delivery) Payload.toDelivery
      fun _ => false).1
  unexpired c request now later variantId u hanswer := by
    obtain ⟨payload, hdecode⟩ := decode_of_getRecord hanswer
    cases payload with
    | metadata m => cases hdecode
    | signedUrl u' =>
      dsimp only at hdecode
      split_ifs at hdecode with hlater
      obtain rfl := Option.some.inj hdecode
      exact not_le.mp hlater
    | delivery d => cases hdecode
  insertion a s' now key value expiresAt horderly hstep hasks := by
    obtain ⟨store, hstore, rfl⟩ := Option.map_eq_some_iff.mp hstep
    obtain ⟨-, hperforms⟩ := step_performs hs.tidy hpositive hstore s.time
    rw [hasks] at hperforms
    exact hperforms.2 key value expiresAt rfl

/-- Every dictionary of a positive size, after any operations. -/
theorem cache_bounded (hpositive : 1 ≤ limit) {time : τ} {as : List (Action τ)} {s : Session τ}
    (hr : (cacheMachine hexdigest).run ⟨empty (some limit), time, fun _ => none⟩ as = some s)
    (horderly : (cacheMachine hexdigest).Admits Session.Orderly
      ⟨empty (some limit), time, fun _ => none⟩ as) : s.Lawful hexdigest limit := by
  refine lawful_of_kept hpositive ((cacheMachine hexdigest).invariant_of_admits
    (I := fun s => s.Kept limit) (fun _ _ _ hs ho hstep => kept_step hpositive hs ho hstep) ?_
    horderly hr)
  exact ⟨⟨rfl, List.nodup_nil, Nat.zero_le _⟩, fun _ _ _ => rfl⟩

/-- A photo is delivered, and its metadata then takes the only place. -/
def crowded : List (Action ℚ) :=
  let c : Cache ℚ := ⟨⟨"media-cache", "pipeline-v1"⟩, ⟨86400, 300, 2592000⟩⟩
  let request := seen "private"
  [.putDelivery c request 0 0 "bot" ⟨"file", "photo", 0, none⟩,
    .getDelivery c request 5 6 "bot" 0,
    .putMetadata c request 7 7 ⟨"instagram", "m", .photo, none, none, none, none, 1, [], none⟩]

theorem cache_bounded_crowded : ∃ s, (cacheMachine digestOf).run
    ⟨empty (some 1), 0, fun _ => none⟩ crowded = some s ∧ s.Lawful digestOf 1 := by
  have hordered : ((0 : ℚ) :: crowded.flatMap Action.readings).Pairwise (· ≤ ·) := by
    decide +kernel
  obtain ⟨⟨s, hs⟩, horderly⟩ :=
    run_total digestOf ⟨empty (some 1), 0, fun _ => none⟩ crowded hordered
  exact ⟨s, hs, cache_bounded (le_refl 1) hs horderly⟩

end Proofs

end YtdlBot.MediaCache
