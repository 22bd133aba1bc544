import YtdlBot.JobStore.Steps

/-!
# Delivery receipts

Three upserts and one update write `deliveries`. `DeliveryChange` lists what each can do to a
row; a final receipt survives all of them, and a reservation is all-or-nothing.
-/

namespace YtdlBot.JobStore

open Framework

variable {τ : Type} [LinearOrder τ] [Add τ] [Zero τ]

/-- The row a reservation leaves for an item. -/
def reserveRow (job item owner : String) (now : τ) (old : Option (DeliveryRow τ)) :
    DeliveryRow τ :=
  (old.map (reservedRow owner now)).getD ⟨job, item, .uncertain, none, now, false, some owner⟩

/-- The row `record_delivery` leaves for an item. -/
def recordRow (job item : String) (outcome : DeliveryOutcome) (delivery : Option String) (now : τ)
    (old : Option (DeliveryRow τ)) : DeliveryRow τ :=
  (old.map (recordedRow outcome delivery now)).getD ⟨job, item, outcome, delivery, now, true, none⟩

/-- The row `begin_retry_token` leaves for a token. -/
def retryRow (token : String) (now : τ) (old : Option (DeliveryRow τ)) : DeliveryRow τ :=
  (old.map (retriedRow now)).getD
    ⟨retryKey token, "__job__", .uncertain, none, now, false, none⟩

section Rows

variable {job item owner : String} {now : τ} {old : Option (DeliveryRow τ)}

omit [LinearOrder τ] [Add τ] [Zero τ]

@[simp] theorem reserveRow_outcome : (reserveRow job item owner now old).outcome = .uncertain := by
  cases old <;> rfl

@[simp] theorem reserveRow_finalized : (reserveRow job item owner now old).finalized = false := by
  cases old <;> rfl

@[simp] theorem reserveRow_ownerId : (reserveRow job item owner now old).ownerId = some owner := by
  cases old <;> rfl

theorem reserveRow_reserveRow :
    reserveRow job item owner now (some (reserveRow job item owner now old)) =
      reserveRow job item owner now old := by
  cases old <;> rfl

end Rows

/-- What a call can turn the row of one job and item into. -/
inductive DeliveryChange (s : Store τ) :
    Op τ → String × String → Option (DeliveryRow τ) → DeliveryRow τ → Prop
  | recorded {job item : String} {outcome : DeliveryOutcome} {delivery : Option String} {now : τ}
      {old : Option (DeliveryRow τ)} :
      DeliveryChange s (.recordDelivery job outcome item delivery now) (job, item) old
        (recordRow job item outcome delivery now old)
  | reserved {job item owner : String} {items : List String} {now : τ} {sqlFails : Nat → Bool}
      {old : Option (DeliveryRow τ)} (live : ownsLiveJob s job owner now) (listed : item ∈ items)
      (open_ : ∀ d, old = some d → d.isFinal = false) :
      DeliveryChange s (.beginDeliveryAttempts job items owner now sqlFails) (job, item) old
        (reserveRow job item owner now old)
  | finalized {job item owner : String} {outcome : DeliveryOutcome} {delivery : Option String}
      {now : τ} {d : DeliveryRow τ} (live : ownsLiveJob s job owner now)
      (reserved : d.finalized = false) (own : d.ownerId = some owner) :
      DeliveryChange s (.finalizeDeliveryAttempt job item outcome owner delivery now) (job, item)
        (some d) (finalizedRow outcome delivery now d)
  | retried {token : String} {now : τ} {old : Option (DeliveryRow τ)}
      (failed : ∀ d, old = some d → d.outcome = .failed ∧ d.finalized) :
      DeliveryChange s (.beginRetryToken token now) (retryKey token, "__job__") old
        (retryRow token now old)

/-- The delivery rows a call leaves behind, one key at a time. -/
def DeliveriesStep (s : Store τ) (op : Op τ) (s' : Store τ) (key : String × String) : Prop :=
  s'.deliveries.lookup key = s.deliveries.lookup key ∨
  ∃ d, s'.deliveries.lookup key = some d ∧ DeliveryChange s op key (s.deliveries.lookup key) d

section Reserve

omit [LinearOrder τ] [Add τ] [Zero τ]

private theorem lookup_upsert_reserve (job item owner : String) (now : τ) (s : Store τ)
    (key : String × String) :
    (s.deliveries.upsert ⟨job, item, .uncertain, none, now, false, some owner⟩
      (reservedRow owner now) (reservedRow_key owner now)).lookup key =
      if key = (job, item) then some (reserveRow job item owner now (s.deliveries.lookup key))
      else s.deliveries.lookup key := by
  rw [Table.lookup_upsert]
  rfl

/-- A successful reservation of one item found no final receipt and leaves `reserveRow`. -/
theorem reserveItem_ok {job item owner : String} {now : τ} {s s' : Store τ}
    (h : reserveItem job item owner now s = (1, s')) :
    (∀ d, s.deliveries.lookup (job, item) = some d → d.isFinal = false) ∧
      ∀ key, s'.deliveries.lookup key =
        if key = (job, item) then some (reserveRow job item owner now (s.deliveries.lookup key))
        else s.deliveries.lookup key := by
  unfold reserveItem at h
  dsimp only at h
  split at h
  · rename_i hnone
    obtain rfl := (Prod.mk.inj h).2
    exact ⟨fun d hd => absurd (hnone.symm.trans hd) (by simp),
      lookup_upsert_reserve job item owner now s⟩
  · rename_i d hd
    split at h
    · rename_i hopen
      obtain rfl := (Prod.mk.inj h).2
      refine ⟨?_, lookup_upsert_reserve job item owner now s⟩
      intro d' hd'
      obtain rfl : d = d' := Option.some.inj (hd.symm.trans hd')
      rcases hopen with hfailed | hfinalized
      · simp [DeliveryRow.isFinal, hfailed]
      · simp [DeliveryRow.isFinal, hfinalized]
    · simp at h

/-- The loop reserves every listed item of the job and nothing else. -/
theorem reserveItems_ok {sqlFails : Nat → Bool} {job owner : String} {now : τ} {i : Nat}
    {items : List String} {s s' : Store τ}
    (h : reserveItems sqlFails job owner now i items s = .ok s') (key : String × String) :
    s'.deliveries.lookup key =
      if key.1 = job ∧ key.2 ∈ items then
        some (reserveRow job key.2 owner now (s.deliveries.lookup key))
      else s.deliveries.lookup key := by
  induction items generalizing i s with
  | nil => simp [Except.ok.inj h]
  | cons item items ih =>
    rw [reserveItems] at h
    split at h
    · exact absurd h (by simp)
    split at h
    · rename_i s₁ hitem
      have hfirst := (reserveItem_ok hitem).2 key
      rw [ih h]
      by_cases hkey : key = (job, item)
      · subst hkey
        rw [if_pos rfl] at hfirst
        rw [hfirst]
        by_cases hmem : item ∈ items
        · simp [hmem, reserveRow_reserveRow]
        · simp [hmem]
      · rw [if_neg hkey] at hfirst
        rw [hfirst]
        have hiff : (key.1 = job ∧ key.2 ∈ item :: items) ↔ (key.1 = job ∧ key.2 ∈ items) := by
          constructor
          · rintro ⟨hjob, hmem⟩
            rcases List.mem_cons.mp hmem with hitem | hmem
            · exact absurd (Prod.ext hjob hitem) hkey
            · exact ⟨hjob, hmem⟩
          · rintro ⟨hjob, hmem⟩
            exact ⟨hjob, List.mem_cons_of_mem _ hmem⟩
        simp only [hiff]
    · exact absurd h (by simp)

end Reserve

section Begin

omit [Add τ] [Zero τ]

theorem beginDeliveryAttempts_cases (job : String) (items : List String) (owner : String)
    (now : τ) (sqlFails : Nat → Bool) (s : Store τ) :
    (((beginDeliveryAttempts job items owner now sqlFails s).1 ≠ .ok true ∧
      (beginDeliveryAttempts job items owner now sqlFails s).2 = s) ∨
    ((beginDeliveryAttempts job items owner now sqlFails s).1 = .ok true ∧
      ownsLiveJob s job owner now ∧
      (∀ item ∈ items, ∀ d, s.deliveries.lookup (job, item) = some d → d.isFinal = false) ∧
      ∀ key, (beginDeliveryAttempts job items owner now sqlFails s).2.deliveries.lookup key =
        if key.1 = job ∧ key.2 ∈ items then
          some (reserveRow job key.2 owner now (s.deliveries.lookup key))
        else s.deliveries.lookup key)) := by
  unfold beginDeliveryAttempts checked
  split
  · simp only [beginDeliveryAttemptsSync, transaction]
    by_cases hlive : ownsLiveJob s job owner now
    · by_cases hfinal : items.any fun item =>
          (s.deliveries.lookup (job, item)).any DeliveryRow.isFinal
      · simp [hlive, hfinal]
      · have hopen : ∀ item ∈ items, ∀ d, s.deliveries.lookup (job, item) = some d →
            d.isFinal = false := by
          intro item hitem d hd
          by_contra hcon
          exact hfinal (List.any_eq_true.mpr ⟨item, hitem, by simpa [hd] using hcon⟩)
        cases hr : reserveItems sqlFails job owner now 0 items s with
        | error e => simp [hlive, hfinal, Except.map]
        | ok s' =>
          simp only [hlive, hfinal, Except.map, not_true_eq_false, if_false]
          exact .inr ⟨rfl, trivial, hopen, reserveItems_ok hr⟩
    · simp [hlive]
  · exact .inl ⟨by simp, rfl⟩

end Begin

section Frames

omit [LinearOrder τ] [Zero τ] in
private theorem acceptUpdate_deliveries (payload : JsonObject) (retention now : τ) (s : Store τ) :
    (acceptUpdate payload retention now s).2.deliveries = s.deliveries := by
  rcases acceptUpdate_cases payload retention now s with
    ⟨error, h⟩ | ⟨updateId, minimal, -, ⟨r, -, h⟩ | ⟨-, h⟩⟩ <;> rw [h]

omit [Zero τ] in
private theorem claim_deliveries (owner : String) (limit : Nat) (lease now : τ) (s : Store τ) :
    (claimRecoverableJobsSync owner limit lease now s).2.deliveries = s.deliveries := by
  obtain ⟨held, heq⟩ := acquireWorkerInTransaction_eq owner lease now s
  refine transaction_snd (fun s' => s'.deliveries = s.deliveries) rfl ?_
  intro reply s' h
  generalize acquireWorkerInTransaction owner lease now s = acquired at heq h
  obtain ⟨granted, s₁⟩ := acquired
  simp only at heq
  subst heq
  cases granted with
  | false => rw [← (Prod.mk.inj (Except.ok.inj h)).2]
  | true =>
    dsimp only at h
    split at h
    · cases h
    split at h
    · rw [← (Prod.mk.inj (Except.ok.inj h)).2]
    split at h
    · cases h
    · rw [← (Prod.mk.inj (Except.ok.inj h)).2]

omit [Add τ] [Zero τ] in
private theorem supersede_deliveries (job successor owner : String) (now : τ) (s : Store τ) :
    (supersedeFailedJobSync job successor owner now s).2.deliveries = s.deliveries := by
  refine transaction_snd (fun s' => s'.deliveries = s.deliveries) rfl ?_
  intro reply s' h
  split at h
  · rw [← (Prod.mk.inj (Except.ok.inj h)).2]
  · split at h
    · rename_i result hloop
      rw [Except.ok.inj h] at hloop
      rcases supersedeLoop_cases hloop with rfl | ⟨-, r, -, -, -, -, rfl⟩
      · rfl
      · rfl
    · exact absurd h (by simp)

end Frames

section Steps

omit [Add τ] [Zero τ]

omit [LinearOrder τ] in
private theorem recordDelivery_deliveries (job item : String) (outcome : DeliveryOutcome)
    (delivery : Option String) (now : τ) (s : Store τ) (key : String × String) :
    (recordDeliverySync job item outcome delivery now s).2.deliveries.lookup key =
      if key = (job, item) then
        some (recordRow job item outcome delivery now (s.deliveries.lookup key))
      else s.deliveries.lookup key := by
  have hlookup := fun k => s.deliveries.lookup_upsert
    ⟨job, item, outcome, delivery, now, true, none⟩ (recordedRow outcome delivery now)
    (recordedRow_key outcome delivery now) k
  have hself := (hlookup (job, item)).trans (if_pos rfl)
  simp only [recordDeliverySync, transaction, hself]
  exact hlookup key

private theorem recordDelivery_step (job item : String) (outcome : DeliveryOutcome)
    (delivery : Option String) (now : τ) (s : Store τ) (key : String × String) :
    DeliveriesStep s (.recordDelivery job outcome item delivery now)
      (recordDeliverySync job item outcome delivery now s).2 key := by
  have hlookup := recordDelivery_deliveries job item outcome delivery now s key
  by_cases hkey : key = (job, item)
  · subst hkey
    rw [if_pos rfl] at hlookup
    exact .inr ⟨_, hlookup, .recorded⟩
  · rw [if_neg hkey] at hlookup
    exact .inl hlookup

private theorem beginDeliveryAttempts_step (job : String) (items : List String) (owner : String)
    (now : τ) (sqlFails : Nat → Bool) (s : Store τ) (key : String × String) :
    DeliveriesStep s (.beginDeliveryAttempts job items owner now sqlFails)
      (beginDeliveryAttempts job items owner now sqlFails s).2 key := by
  rcases beginDeliveryAttempts_cases job items owner now sqlFails s with
    ⟨-, hsame⟩ | ⟨-, hlive, hopen, hlookup⟩
  · exact .inl (by rw [hsame])
  · have hlookup := hlookup key
    by_cases hkey : key.1 = job ∧ key.2 ∈ items
    · obtain ⟨jobId, item⟩ := key
      obtain ⟨rfl, hmem⟩ := hkey
      rw [if_pos ⟨rfl, hmem⟩] at hlookup
      exact .inr ⟨_, hlookup, .reserved hlive hmem (hopen item hmem)⟩
    · rw [if_neg hkey] at hlookup
      exact .inl hlookup

private theorem finalizeDeliveryAttempt_step (job item : String) (outcome : DeliveryOutcome)
    (owner : String) (delivery : Option String) (now : τ) (s : Store τ) (key : String × String) :
    DeliveriesStep s (.finalizeDeliveryAttempt job item outcome owner delivery now)
      (finalizeDeliveryAttemptSync job item outcome owner delivery now s).2 key := by
  simp only [finalizeDeliveryAttemptSync, transaction]
  by_cases hlive : ownsLiveJob s job owner now
  · simp only [hlive, not_true_eq_false, if_false]
    unfold DeliveriesStep
    rw [Table.lookup_update]
    cases hd : s.deliveries.lookup key with
    | none => exact .inl rfl
    | some d =>
      rw [Option.map_some]
      split
      · rename_i hmatched
        simp only [Bool.and_eq_true, decide_eq_true_eq] at hmatched
        obtain ⟨hkey, hreserved, hown⟩ := hmatched
        have : key = (job, item) := (Table.key_of_lookup hd).symm.trans hkey
        subst this
        exact .inr ⟨_, rfl, .finalized hlive hreserved hown⟩
      · exact .inl rfl
  · simpa [hlive] using .inl rfl

private theorem beginRetryToken_step (token : String) (now : τ) (s : Store τ)
    (key : String × String) :
    DeliveriesStep s (.beginRetryToken token now) (beginRetryTokenSync token now s).2 key := by
  have hlookup := s.deliveries.lookup_upsert
    ⟨retryKey token, "__job__", .uncertain, none, now, false, none⟩ (retriedRow now)
    (retriedRow_key now) key
  have begun (hfailed : ∀ d, s.deliveries.lookup (retryKey token, "__job__") = some d →
      d.outcome = .failed ∧ d.finalized) :
      DeliveriesStep s (.beginRetryToken token now) { s with
        deliveries := s.deliveries.upsert
          ⟨retryKey token, "__job__", .uncertain, none, now, false, none⟩ (retriedRow now)
          (retriedRow_key now) } key := by
    by_cases hkey : key = (retryKey token, "__job__")
    · subst hkey
      exact .inr ⟨_, hlookup.trans (if_pos rfl), .retried hfailed⟩
    · exact .inl (hlookup.trans (if_neg hkey))
  simp only [beginRetryTokenSync, transaction]
  cases hd : s.deliveries.lookup (retryKey token, "__job__") with
  | none => exact begun (by simp [hd])
  | some d =>
    by_cases hfailed : d.outcome = .failed ∧ d.finalized
    · simp only [hfailed, and_self, if_true]
      exact begun (by simp [hd, hfailed])
    · simp only [hfailed, if_false]
      exact .inl rfl

end Steps

/-- Every call does to every delivery row what `DeliveriesStep` says. -/
theorem deliveries_step (s : Store τ) (op : Op τ) (key : String × String) :
    DeliveriesStep s op (op.run s).2 key := by
  have same {s' : Store τ} (h : s'.deliveries = s.deliveries) : DeliveriesStep s op s' key :=
    .inl (by rw [h])
  cases op with
  | acceptUpdate payload retention now =>
    exact same (acceptUpdate_deliveries payload retention now s)
  | acquireWorker owner lease now =>
    obtain ⟨held, h⟩ := acquireWorkerInTransaction_eq owner lease now s
    have hsync : (acquireWorkerSync owner lease now s).2 = { s with workerLease := held } := h
    exact checked_snd (fun s' => DeliveriesStep s _ s' key) (same rfl) (same (by rw [hsync]))
  | renewWorker owner lease now =>
    obtain ⟨held, h⟩ := renewWorker_frame owner lease now s
    exact checked_snd (fun s' => DeliveriesStep s _ s' key) (same rfl) (same (by rw [h]))
  | releaseWorker owner =>
    exact checked_snd (fun s' => DeliveriesStep s _ s' key) (same rfl) (same rfl)
  | claimRecoverableJobs owner limit lease now =>
    exact checked_snd (fun s' => DeliveriesStep s _ s' key) (same rfl)
      (same (claim_deliveries owner limit.toNat lease now s))
  | renewClaim job owner lease now =>
    exact checked_snd (fun s' => DeliveriesStep s _ s' key) (same rfl) (same rfl)
  | checkpoint job value owner now => exact same rfl
  | complete job owner now => exact same rfl
  | fail job error owner now => exact same rfl
  | recordDelivery job outcome item delivery now =>
    exact checked_snd (fun s' => DeliveriesStep s _ s' key) (same rfl)
      (recordDelivery_step job item outcome delivery now s key)
  | beginDeliveryAttempts job items owner now sqlFails =>
    exact beginDeliveryAttempts_step job items owner now sqlFails s key
  | finalizeDeliveryAttempt job item outcome owner delivery now =>
    exact checked_snd (fun s' => DeliveriesStep s _ s' key) (same rfl)
      (finalizeDeliveryAttempt_step job item outcome owner delivery now s key)
  | beginRetryToken token now => exact beginRetryToken_step token now s key
  | supersedeFailedJob job successor owner now =>
    exact same (supersede_deliveries job successor owner now s)
  | requeueFailedDeliveries limit now =>
    obtain ⟨jobs, h⟩ := requeueFailedDeliveries_frame limit.toNat now s
    exact checked_snd (fun s' => DeliveriesStep s _ s' key) (same rfl) (same (by rw [h]))
  | purgeExpiredPayloads now limit =>
    obtain ⟨jobs, h⟩ := purgeExpiredPayloads_frame now limit.toNat s
    exact checked_snd (fun s' => DeliveriesStep s _ s' key) (same rfl) (same (by rw [h]))
  | writeProbe now =>
    obtain ⟨generation, h⟩ := writeProbe_frame now s
    exact same (by rw [Op.run, wrap_snd, h])
  | aborted => exact same rfl

section Lookups

omit [LinearOrder τ] [Add τ] [Zero τ]

theorem receipts_any_eq_false {s : Store τ} {jobId : String} {q : DeliveryRow τ → Bool} :
    (s.deliveries.rows.any fun d => d.jobId = jobId && q d) = false ↔
      ∀ item d, s.deliveries.lookup (jobId, item) = some d → q d = false := by
  constructor
  · intro h item d hd
    have hrow := List.any_eq_false.mp h d (Table.mem_of_lookup hd)
    have hjob : d.jobId = jobId := congrArg Prod.fst (Table.key_of_lookup hd)
    simpa [hjob] using hrow
  · intro h
    apply List.any_eq_false.mpr
    intro d hd hmatch
    simp only [Bool.and_eq_true, decide_eq_true_eq] at hmatch
    obtain ⟨rfl, hq⟩ := hmatch
    have hfalse := h d.itemKey d (Table.lookup_of_mem hd)
    rw [hq] at hfalse
    exact absurd hfalse (by decide)

theorem hasFailedDeliveries_eq_false {s : Store τ} {jobId : String} :
    hasFailedDeliveries s jobId = false ↔
      ∀ item d, s.deliveries.lookup (jobId, item) = some d → d.outcome ≠ .failed := by
  rw [hasFailedDeliveries, receipts_any_eq_false]
  simp

theorem hasUnsafeDeliveries_eq_false {s : Store τ} {jobId : String} :
    hasUnsafeDeliveries s jobId = false ↔
      ∀ item d, s.deliveries.lookup (jobId, item) = some d → d.outcome = .failed := by
  rw [hasUnsafeDeliveries, receipts_any_eq_false]
  simp

theorem hasJobReceipt_eq_false {s : Store τ} {jobId : String} :
    hasJobReceipt s jobId = false ↔
      ∀ d, s.deliveries.lookup (jobId, "__job__") = some d → d.outcome = .failed := by
  simp only [hasJobReceipt, Bool.and_assoc]
  rw [receipts_any_eq_false]
  constructor
  · intro h d hd
    have hitem : d.itemKey = "__job__" := congrArg Prod.snd (Table.key_of_lookup hd)
    have hopen := h "__job__" d hd
    cases houtcome : d.outcome with
    | failed => rfl
    | success => simp [hitem, houtcome] at hopen
    | uncertain => simp [hitem, houtcome] at hopen
  · intro h item d hd
    have hitem : d.itemKey = item := congrArg Prod.snd (Table.key_of_lookup hd)
    by_cases hjob : item = "__job__"
    · subst hjob
      simp [h d hd]
    · simp [hitem, hjob]

end Lookups

section Final

/-- `d'` keeps what the final receipt `d` says. -/
def DeliveryRow.Keeps (d d' : DeliveryRow τ) : Prop :=
  d'.outcome = d.outcome ∧ d'.deliveryId = d.deliveryId ∧ d'.finalized = true

omit [Add τ] [Zero τ] in
private theorem DeliveryChange.keeps {s : Store τ} {op : Op τ} {key : String × String}
    {d d' : DeliveryRow τ} (h : DeliveryChange s op key (some d) d') (hd : d.isFinal) :
    d.Keeps d' := by
  generalize hold : some d = old at h
  have hfinal := DeliveryRow.isFinal_iff.mp hd
  cases h with
  | recorded =>
    subst hold
    simp [DeliveryRow.Keeps, recordRow, recordedRow, hd]
  | reserved live listed open_ =>
    have hopen := open_ d hold.symm
    rw [hd] at hopen
    exact absurd hopen (by decide)
  | finalized live reserved own =>
    obtain rfl := Option.some.inj hold
    rw [hfinal.1] at reserved
    exact absurd reserved (by decide)
  | retried failed => exact absurd (failed d hold.symm).1 hfinal.2

omit [LinearOrder τ] [Add τ] [Zero τ] in
theorem DeliveryRow.Keeps.isFinal {d d' : DeliveryRow τ} (h : d.Keeps d')
    (hd : d.isFinal) : d'.isFinal := by
  rw [DeliveryRow.isFinal_iff] at hd ⊢
  exact ⟨h.2.2, h.1 ▸ hd.2⟩

theorem finalReceipt_step {s : Store τ} (op : Op τ) {key : String × String} {d : DeliveryRow τ}
    (hlookup : s.deliveries.lookup key = some d) (hd : d.isFinal) :
    ∃ d', (op.run s).2.deliveries.lookup key = some d' ∧ d.Keeps d' := by
  rcases deliveries_step s op key with hsame | ⟨d', hd', hchange⟩
  · exact ⟨d, hsame.trans hlookup, rfl, rfl, (DeliveryRow.isFinal_iff.mp hd).1⟩
  · rw [hlookup] at hchange
    exact ⟨d', hd', hchange.keeps hd⟩

/-- A run keeps every final receipt. -/
theorem finalReceipt_run {s t : Store τ} {ops : List (Op τ)} {key : String × String}
    {d : DeliveryRow τ} (hr : (machine τ).run s ops = some t)
    (hlookup : s.deliveries.lookup key = some d) (hd : d.isFinal) :
    ∃ d', t.deliveries.lookup key = some d' ∧ d.Keeps d' := by
  have hfinalized := (DeliveryRow.isFinal_iff.mp hd).1
  refine (machine τ).invariant ?_ (I := fun s => ∃ d', s.deliveries.lookup key = some d' ∧
    d.Keeps d') ⟨d, hlookup, rfl, rfl, hfinalized⟩ hr
  intro s op s' ⟨d', hd', hkeeps⟩ hstep
  obtain rfl := machine_step.mp hstep
  obtain ⟨d'', hd'', hkeeps'⟩ := finalReceipt_step op hd' (hkeeps.isFinal hd)
  exact ⟨d'', hd'', hkeeps'.1.trans hkeeps.1, hkeeps'.2.1.trans hkeeps.2.1, hkeeps'.2.2⟩

omit [LinearOrder τ] [Add τ] [Zero τ] in
theorem shouldDeliver_of_isFinal {s : Store τ} {job item : String} {d : DeliveryRow τ}
    (hlookup : s.deliveries.lookup (job, item) = some d) (hd : d.isFinal) :
    shouldDeliver s job item = false := by
  have hfinal := (DeliveryRow.isFinal_iff.mp hd).2
  cases houtcome : d.outcome with
  | failed => exact absurd houtcome hfinal
  | success => simp [shouldDeliver, deliveryOutcome, hlookup, houtcome]
  | uncertain => simp [shouldDeliver, deliveryOutcome, hlookup, houtcome]

end Final

/-- Final receipts are absorbing along every run, and a reservation is all-or-nothing. -/
theorem receipts_absorbing_and_reservation_atomic :
    (∀ (s t : Store τ) (ops : List (Op τ)) (jobId itemKey : String) (d : DeliveryRow τ),
      (machine τ).run s ops = some t → s.deliveries.lookup (jobId, itemKey) = some d →
      d.finalized = true → d.outcome = .success ∨ d.outcome = .uncertain →
      (∃ d', t.deliveries.lookup (jobId, itemKey) = some d' ∧ d'.outcome = d.outcome ∧
        d'.deliveryId = d.deliveryId ∧ d'.finalized = true) ∧
      shouldDeliver t jobId itemKey = false) ∧
    (∀ (s : Store τ) (jobId : String) (itemKeys : List String) (ownerId : String) (now : τ)
      (sqlFails : Nat → Bool),
      ((beginDeliveryAttempts jobId itemKeys ownerId now sqlFails s).1 = .ok true →
        ∀ itemKey ∈ itemKeys, ∃ d,
          (beginDeliveryAttempts jobId itemKeys ownerId now sqlFails s).2.deliveries.lookup
            (jobId, itemKey) = some d ∧
          d.outcome = .uncertain ∧ d.finalized = false ∧ d.ownerId = some ownerId) ∧
      ((beginDeliveryAttempts jobId itemKeys ownerId now sqlFails s).1 ≠ .ok true →
        (beginDeliveryAttempts jobId itemKeys ownerId now sqlFails s).2.deliveries =
          s.deliveries)) := by
  refine ⟨?_, ?_⟩
  · intro s t ops jobId itemKey d hr hlookup hfinalized houtcome
    have hd : d.isFinal := by
      rcases houtcome with h | h <;> simp [DeliveryRow.isFinal, hfinalized, h]
    obtain ⟨d', hd', hkeeps⟩ := finalReceipt_run hr hlookup hd
    exact ⟨⟨d', hd', hkeeps⟩, shouldDeliver_of_isFinal hd' (hkeeps.isFinal hd)⟩
  · intro s jobId itemKeys ownerId now sqlFails
    rcases beginDeliveryAttempts_cases jobId itemKeys ownerId now sqlFails s with
      ⟨hrefused, hsame⟩ | ⟨hok, -, -, hlookup⟩
    · exact ⟨fun h => absurd h hrefused, fun _ => by rw [hsame]⟩
    · refine ⟨?_, fun h => absurd hok h⟩
      intro _ itemKey hmem
      have hrow := hlookup (jobId, itemKey)
      rw [if_pos ⟨rfl, hmem⟩] at hrow
      exact ⟨_, hrow, reserveRow_outcome, reserveRow_finalized, reserveRow_ownerId⟩

theorem receipts_absorbing_and_reservation_atomic_delivered :
    ∃ s t : Store ℕ,
      (machine ℕ).run Store.initial [.acceptUpdate [("update_id", .int 7)] 100 0,
        .claimRecoverableJobs "a" 10 60 1, .beginDeliveryAttempts "7" ["x"] "a" 2 fun _ => false,
        .finalizeDeliveryAttempt "7" "x" .success "a" (some "m") 3] = some s ∧
      (machine ℕ).run s [.recordDelivery "7" .failed "x" none 4,
        .beginDeliveryAttempts "7" ["y", "x"] "a" 5 fun _ => false] = some t ∧
      shouldDeliver t "7" "x" = false := by
  refine ⟨_, _, rfl, rfl, ?_⟩
  have hrun := (receipts_absorbing_and_reservation_atomic (τ := ℕ)).1
  refine (hrun _ _ [.recordDelivery "7" .failed "x" none 4,
    .beginDeliveryAttempts "7" ["y", "x"] "a" 5 fun _ => false] "7" "x" ?_ rfl ?_ ?_ ?_).2
  · exact ⟨"7", "x", .success, some "m", 3, true, none⟩
  · rfl
  · rfl
  · exact .inl rfl

end YtdlBot.JobStore
