import YtdlBot.Framework.Links
import YtdlBot.JobStore.Retention

/-!
# Supersession chains

`supersede_failed_job` walks a list that earlier calls have written into the checkpoints of
completed jobs. As long as callers hand a job only checkpoints the store has handed out for it,
no live job has a checkpoint at all, so every new link ends in a job without a link.
-/

namespace YtdlBot.JobStore

open Framework

variable {τ : Type} [LinearOrder τ] [Add τ] [Zero τ]

omit [LinearOrder τ] [Add τ] [Zero τ] in
/-- The checkpoint of job `a` names job `b` as its successor. -/
def SupersededBy (s : Store τ) (a b : String) : Prop :=
  ∃ r, s.jobs.lookup a = some r ∧ (r.checkpoint.getD []).get "superseded_by" = some (.str b)

/-- Every checkpoint passed to `checkpoint` was stored for that job at some earlier moment. -/
def OwnCheckpoints (ops : List (Op τ)) : Prop :=
  ∀ before after job value owner now, ops = before ++ .checkpoint job (some value) owner now :: after →
    ∃ earlier later s r, before = earlier ++ later ∧ (machine τ).run Store.initial earlier = some s ∧
      s.jobs.lookup job = some r ∧ r.checkpoint = some value

section Loop

omit [LinearOrder τ] [Add τ] [Zero τ]

/-- The loop ends within one round more than there are jobs, since it never visits one twice. -/
theorem supersedeLoop_isSome (s : Store τ) (successor : String) (now : τ) (fuel : Nat)
    (visited : List String) (jobId : String) (hnodup : visited.Nodup)
    (hstored : ∀ x ∈ visited, (s.jobs.lookup x).isSome)
    (hfuel : s.jobs.rows.length + 1 ≤ fuel + visited.length) :
    (supersedeLoop s successor now fuel visited jobId).isSome := by
  induction fuel generalizing visited jobId with
  | zero =>
    have hle : visited.length ≤ (s.jobs.rows.map JobRow.jobId).length := by
      apply length_le_of_nodup_subset hnodup
      intro x hx
      obtain ⟨r, hr⟩ := Option.isSome_iff_exists.mp (hstored x hx)
      exact List.mem_map.mpr ⟨r, Table.lookup_eq_some.mp hr⟩
    rw [List.length_map] at hle
    omega
  | succ fuel ih =>
    rw [supersedeLoop]
    split
    · rfl
    split
    · rfl
    rename_i hnew
    split
    · rfl
    rename_i r hr
    split
    · rfl
    split
    · split
      · apply ih
        · exact List.nodup_cons.mpr ⟨hnew, hnodup⟩
        · intro x hx
          rcases List.mem_cons.mp hx with rfl | hx
          · rw [hr]; rfl
          · exact hstored x hx
        · rw [List.length_cons]
          omega
      · rfl
    split
    · rfl
    · rfl

theorem supersedeLoop_mono {s : Store τ} {successor : String} {now : τ} {fuel : Nat}
    {visited : List String} {jobId : String} {result : Bool × Store τ}
    (h : supersedeLoop s successor now fuel visited jobId = some result) (more : Nat) :
    supersedeLoop s successor now (fuel + more) visited jobId = some result := by
  induction fuel generalizing visited jobId with
  | zero => simp [supersedeLoop] at h
  | succ fuel ih =>
    rw [Nat.add_right_comm]
    rw [supersedeLoop] at h ⊢
    split
    · rename_i hend
      rwa [if_pos hend] at h
    rename_i hother
    rw [if_neg hother] at h
    split
    · rename_i hvisited
      rwa [if_pos hvisited] at h
    rename_i hnew
    rw [if_neg hnew] at h
    cases hr : s.jobs.lookup jobId with
    | none => simpa [hr] using h
    | some r =>
      simp only [hr] at h ⊢
      split
      · rename_i hunsafe
        rwa [if_pos hunsafe] at h
      rename_i hsafe
      rw [if_neg hsafe] at h
      split
      · rename_i hcompleted
        rw [if_pos hcompleted] at h
        split
        · rename_i nextId hnext
          simp only [hnext] at h
          exact ih h
        · rename_i hnext
          split at h
          · rename_i nextId hnext'
            exact absurd hnext' (hnext nextId)
          · exact h
      · rename_i hcompleted
        rwa [if_neg hcompleted] at h

/-- The loop answers every call, with any fuel beyond the number of jobs. -/
theorem supersedeLoop_terminates (s : Store τ) (successor : String) (now : τ) (jobId : String) :
    ∃ result, ∀ fuel, s.jobs.rows.length + 1 ≤ fuel →
      supersedeLoop s successor now fuel [] jobId = some result := by
  have hsome := supersedeLoop_isSome s successor now (s.jobs.rows.length + 1) [] jobId
    List.nodup_nil (by simp) (by simp)
  obtain ⟨result, hresult⟩ := Option.isSome_iff_exists.mp hsome
  refine ⟨result, ?_⟩
  intro fuel hfuel
  obtain ⟨more, rfl⟩ := Nat.exists_eq_add_of_le hfuel
  exact supersedeLoop_mono hresult more

theorem supersedeLoop_true {s s' : Store τ} {successor : String} {now : τ} {fuel : Nat}
    {visited : List String} {jobId : String}
    (h : supersedeLoop s successor now fuel visited jobId = some (true, s')) :
    ∃ path last, (jobId :: path).IsChain (SupersededBy s) ∧
      (jobId :: path).getLast? = some last ∧
      (∀ x ∈ jobId :: path, x ≠ successor → hasUnsafeDeliveries s x = false) ∧
      ((last = successor ∧ s' = s) ∨ (last ≠ successor ∧
        ∃ r, s.jobs.lookup last = some r ∧ (r.state = .failed ∨ r.state = .checkpointed) ∧
          s' = { s with
            jobs := s.jobs.update (fun x => x.jobId = last) (supersededRow successor now)
              (supersededRow_jobId successor now) })) := by
  induction fuel generalizing visited jobId with
  | zero => simp [supersedeLoop] at h
  | succ fuel ih =>
    rw [supersedeLoop] at h
    split at h
    · rename_i hend
      obtain rfl := (Prod.mk.inj (Option.some.inj h)).2
      exact ⟨[], jobId, List.isChain_singleton _, rfl, by simp [hend], .inl ⟨hend, rfl⟩⟩
    rename_i hother
    split at h
    · simp at h
    split at h
    · simp at h
    rename_i r hr
    split at h
    · simp at h
    rename_i hsafe
    have hsafe : hasUnsafeDeliveries s jobId = false := by simpa using hsafe
    split at h
    · split at h
      · -- the walk follows the link of this completed job
        rename_i nextId hnext
        obtain ⟨path, last, hchain, hlast, hpath, hresult⟩ := ih h
        refine ⟨nextId :: path, last, ?_, ?_, ?_, hresult⟩
        · exact List.isChain_cons_cons.mpr ⟨⟨r, hr, hnext⟩, hchain⟩
        · rw [List.getLast?_cons_cons]
          exact hlast
        · intro x hx hne
          rcases List.mem_cons.mp hx with rfl | hx
          · exact hsafe
          · exact hpath x hx hne
      · simp at h
    split at h
    · simp at h
    rename_i hstate
    obtain rfl := (Prod.mk.inj (Option.some.inj h)).2
    refine ⟨[], jobId, List.isChain_singleton _, rfl, ?_, .inr ⟨hother, r, hr, ?_, rfl⟩⟩
    · intro x hx _
      rw [List.mem_singleton] at hx
      exact hx ▸ hsafe
    · by_contra hcon
      rw [not_or] at hcon
      exact hstate hcon

end Loop

section Invariant

/-- Live jobs have no checkpoint, completed jobs no owner, and links no cycle. -/
structure Supersession (s : Store τ) : Prop where
  fresh : ∀ jobId r, s.jobs.lookup jobId = some r → r.state ≠ .completed → r.checkpoint = none
  disowned : ∀ jobId r, s.jobs.lookup jobId = some r → r.state = .completed → r.ownerId = none
  acyclic : Acyclic (SupersededBy s)

/-- A checkpoint is only handed back to a job that is completed by now. -/
def HandsBackCompleted (s : Store τ) (op : Op τ) : Prop :=
  ∀ job value owner now r, op = .checkpoint job (some value) owner now →
    s.jobs.lookup job = some r → r.state = .completed

omit [LinearOrder τ] [Add τ] [Zero τ] in
theorem supersession_initial : Supersession (Store.initial (τ := τ)) where
  fresh := fun jobId r hr => by simp [Store.initial] at hr
  disowned := fun jobId r hr => by simp [Store.initial] at hr
  acyclic := by
    intro a hcycle
    obtain ⟨b, ⟨r, hr, -⟩, -⟩ := Relation.TransGen.head'_iff.mp hcycle
    simp [Store.initial] at hr

omit [LinearOrder τ] [Add τ] [Zero τ] in
theorem Supersession.completed {s : Store τ} (h : Supersession s) {a b : String}
    (hlink : SupersededBy s a b) : ∃ r, s.jobs.lookup a = some r ∧ r.state = .completed ∧
      r.ownerId = none ∧ (r.checkpoint.getD []).get "superseded_by" = some (.str b) := by
  obtain ⟨r, hr, hget⟩ := hlink
  have hstate : r.state = .completed := by
    by_contra hlive
    rw [h.fresh a r hr hlive] at hget
    exact absurd hget (by simp [JsonObject.get])
  exact ⟨r, hr, hstate, h.disowned a r hr hstate, hget⟩

theorem supersession_rows {s : Store τ} {op : Op τ} (h : Supersession s)
    (hop : HandsBackCompleted s op) {jobId : String} {r' : JobRow τ}
    (hr' : (op.run s).2.jobs.lookup jobId = some r') :
    (r'.state ≠ .completed → r'.checkpoint = none) ∧
      (r'.state = .completed → r'.ownerId = none) := by
  rcases jobs_step s op jobId with hsame | ⟨r, x, hr, hx, hchange⟩ |
    ⟨payload, retention, now, updateId, minimal, -, -, -, -, hfresh⟩
  · rw [hsame] at hr'
    exact ⟨h.fresh jobId r' hr', h.disowned jobId r' hr'⟩
  · obtain rfl := Option.some.inj (hx.symm.trans hr')
    have hlive := h.fresh jobId r hr
    have hdone := h.disowned jobId r hr
    cases hchange with
    | claimed grantable selected =>
      have hstate : r.state ≠ .completed := fun heq => by simp [recoverable, heq] at selected
      exact ⟨fun _ => hlive hstate, fun heq => by simp [claimedRow] at heq⟩
    | renewed running live => exact ⟨hlive, fun heq => by simp [renewedRow, running] at heq⟩
    | @checkpointed value owner now r source guard =>
      cases value with
      | none =>
        have hstate : r.state ≠ .completed := fun heq => by simp [heq] at source
        exact ⟨fun _ => hlive hstate, fun _ => rfl⟩
      | some value =>
        have hcompleted := hop r.jobId value owner now r rfl (Table.key_of_lookup hr ▸ hr)
        simp [hcompleted] at source
    | completed source guard => exact ⟨fun heq => absurd rfl heq, fun _ => rfl⟩
    | failed source guard =>
      have hstate : r.state ≠ .completed := fun heq => by simp [heq] at source
      exact ⟨fun _ => hlive hstate, fun _ => rfl⟩
    | superseded live other source safe => exact ⟨fun heq => absurd rfl heq, fun _ => rfl⟩
    | requeued selected =>
      have hstate : r.state ≠ .completed := fun heq => by simp [requeueSelected, heq] at selected
      exact ⟨fun _ => hlive hstate, fun heq => by simp [requeuedRow] at heq⟩
    | purged selected listed => exact ⟨hlive, hdone⟩
  · obtain rfl := Option.some.inj (hfresh.symm.trans hr')
    exact ⟨fun _ => rfl, fun _ => rfl⟩

/-- A new link is written by a supersession and ends in a job its caller is running. -/
theorem supersededBy_step {s : Store τ} {op : Op τ} (hop : HandsBackCompleted s op) {a b : String}
    (hlink : SupersededBy (op.run s).2 a b) :
    SupersededBy s a b ∨ ∃ job owner now, op = .supersedeFailedJob job b owner now ∧
      ownsLiveJob s b owner now := by
  obtain ⟨r', hr', hget⟩ := hlink
  rcases jobs_step s op a with hsame | ⟨r, x, hr, hx, hchange⟩ |
    ⟨payload, retention, now, updateId, minimal, -, -, -, -, hfresh⟩
  · exact .inl ⟨r', hsame ▸ hr', hget⟩
  · obtain rfl := Option.some.inj (hx.symm.trans hr')
    cases hchange with
    | @checkpointed value owner now r source guard =>
      cases value with
      | none => exact .inl ⟨r, hr, hget⟩
      | some value =>
        have hcompleted := hop r.jobId value owner now r rfl (Table.key_of_lookup hr ▸ hr)
        simp [hcompleted] at source
    | superseded live other source safe =>
      have hset : some (Json.str _) = some (Json.str b) := (JsonObject.get_set _ _ _).symm.trans hget
      obtain rfl := Json.str.inj (Option.some.inj hset)
      exact .inr ⟨_, _, _, rfl, live⟩
    | _ => exact .inl ⟨r, hr, hget⟩
  · obtain rfl := Option.some.inj (hfresh.symm.trans hr')
    simp [acceptedRow, JsonObject.get] at hget

theorem successor_sink {s : Store τ} (h : Supersession s) {job successor owner : String} {now : τ}
    (hlive : ownsLiveJob s successor owner now) (b : String) :
    ¬ SupersededBy ((Op.supersedeFailedJob job successor owner now).run s).2 successor b := by
  rintro ⟨r', hr', hget⟩
  rcases jobs_step s (.supersedeFailedJob job successor owner now) successor with
    hsame | ⟨r, x, hr, hx, hchange⟩ | ⟨payload, retention, clock, updateId, minimal, hop, -⟩
  · rw [hsame] at hr'
    have hrunning := state_of_ownsLiveJob hlive hr'
    rw [h.fresh successor r' hr' (by simp [hrunning])] at hget
    simp [JsonObject.get] at hget
  · cases hchange with
    | superseded live other source safe => exact other (Table.key_of_lookup hr)
  · cases hop

theorem supersession_step {s : Store τ} {op : Op τ} (h : Supersession s)
    (hop : HandsBackCompleted s op) : Supersession (op.run s).2 where
  fresh := fun _ _ hr' => (supersession_rows h hop hr').1
  disowned := fun _ _ hr' => (supersession_rows h hop hr').2
  acyclic := by
    by_cases hnew : ∃ job successor owner now, op = .supersedeFailedJob job successor owner now ∧
        ownsLiveJob s successor owner now
    · obtain ⟨job, successor, owner, now, rfl, hlive⟩ := hnew
      refine h.acyclic.of_sink ?_ (successor_sink h hlive)
      intro a b hlink
      rcases supersededBy_step hop hlink with hold | ⟨job', owner', now', heq, -⟩
      · exact .inl hold
      · injection heq with _ heq
        exact .inr heq.symm
    · refine h.acyclic.mono ?_
      intro a b hlink
      rcases supersededBy_step hop hlink with hold | ⟨job, owner, now, heq, hlive⟩
      · exact hold
      · exact absurd ⟨job, b, owner, now, heq, hlive⟩ hnew

/-- The invariant holds in every state of a run that hands back stored checkpoints only. The
induction is over the run's end: a checkpoint read in an earlier state was not `none`, so its
job was completed then, and still is. -/
theorem supersession_run {ops : List (Op τ)} (hown : OwnCheckpoints ops) :
    ∀ earlier s, earlier <+: ops → (machine τ).run Store.initial earlier = some s →
      Supersession s := by
  induction ops using List.reverseRecOn with
  | nil =>
    intro earlier s hprefix hr
    rw [List.prefix_nil] at hprefix
    subst hprefix
    obtain rfl := Option.some.inj hr
    exact supersession_initial
  | append_singleton ops op ih =>
    have hown' : OwnCheckpoints ops := by
      intro before after job value owner now heq
      exact hown before (after ++ [op]) job value owner now (by simp [heq])
    intro earlier s hprefix hr
    rcases List.prefix_concat_iff.mp hprefix with rfl | hprefix
    · obtain ⟨t, ht, hop⟩ := (machine τ).run_append_eq_some.mp hr
      obtain ⟨s', hstep, hs'⟩ := (machine τ).run_cons_eq_some.mp hop
      obtain rfl := Option.some.inj hs'
      obtain rfl := machine_step.mp hstep
      refine supersession_step (ih hown' ops t List.prefix_rfl ht) ?_
      rintro job value owner now r rfl hlookup
      obtain ⟨before, between, u, x, rfl, hu, hx, hcheckpoint⟩ := hown ops [] job value owner now rfl
      have hcompleted : x.state = .completed := by
        by_contra hlive
        have hnone := (ih hown' before u (List.prefix_append _ _) hu).fresh job x hx hlive
        rw [hcheckpoint] at hnone
        exact absurd hnone (by simp)
      obtain ⟨u', hu', hbetween⟩ := (machine τ).run_append_eq_some.mp ht
      obtain rfl := Option.some.inj (hu'.symm.trans hu)
      obtain ⟨r', hr', hstate, -, -⟩ := completed_run hbetween hx hcompleted
      obtain rfl := Option.some.inj (hr'.symm.trans hlookup)
      exact hstate
    · exact ih hown' earlier s hprefix hr

end Invariant

section Call

/-- What a granted `supersede_failed_job` needed and did. -/
def SupersedeGranted (s s' : Store τ) (jobId successor owner : String) (now : τ) : Prop :=
  ownsLiveJob s successor owner now ∧
  ∃ path last, (jobId :: path).IsChain (SupersededBy s) ∧ (jobId :: path).getLast? = some last ∧
    (∀ x ∈ jobId :: path, x ≠ successor →
      ∀ item d, s.deliveries.lookup (x, item) = some d → d.outcome = .failed) ∧
    ((last = successor ∧ s' = s) ∨
      (last ≠ successor ∧ (∀ b, ¬ SupersededBy s last b) ∧
        (∃ r, s.jobs.lookup last = some r ∧ (r.state = .failed ∨ r.state = .checkpointed)) ∧
        (∃ r', s'.jobs.lookup last = some r' ∧ r'.state = .completed) ∧
        SupersededBy s' last successor ∧
        (∀ other, other ≠ last → s'.jobs.lookup other = s.jobs.lookup other) ∧
        s'.deliveries = s.deliveries ∧ s'.workerLease = s.workerLease))

omit [Add τ] [Zero τ] in
theorem supersede_granted {s : Store τ} (h : Supersession s) {jobId successor owner : String}
    {now : τ} (hok : (supersedeFailedJobSync jobId successor owner now s).1 = .ok true) :
    SupersedeGranted s (supersedeFailedJobSync jobId successor owner now s).2 jobId successor owner
      now := by
  obtain ⟨result, hloop⟩ := supersedeLoop_terminates s successor now jobId
  have hloop := hloop _ le_rfl
  obtain ⟨reply, s'⟩ := result
  simp only [supersedeFailedJobSync, transaction, hloop] at hok ⊢
  by_cases hlive : ownsLiveJob s successor owner now
  · simp only [hlive, not_true_eq_false, if_false, Except.ok.injEq] at hok ⊢
    subst hok
    obtain ⟨path, last, hchain, hlast, hpath, hresult⟩ := supersedeLoop_true hloop
    refine ⟨hlive, path, last, hchain, hlast, ?_, ?_⟩
    · intro x hx hne
      exact hasUnsafeDeliveries_eq_false.mp (hpath x hx hne)
    · rcases hresult with hsame | ⟨hne, r, hr, hstate, rfl⟩
      · exact .inl hsame
      · have hopen : r.state ≠ .completed := by
          rcases hstate with hfailed | hcheckpointed
          · simp [hfailed]
          · simp [hcheckpointed]
        have hretired := s.jobs.lookup_update (fun x => x.jobId = last)
          (supersededRow successor now) (supersededRow_jobId successor now) last
        rw [hr, Option.map_some, if_pos (decide_eq_true (Table.key_of_lookup hr))] at hretired
        refine .inr ⟨hne, ?_, ⟨r, hr, hstate⟩, ⟨_, hretired, rfl⟩, ⟨_, hretired, ?_⟩, ?_, rfl, rfl⟩
        · intro b hlink
          obtain ⟨x, hx, hcompleted, -⟩ := h.completed hlink
          obtain rfl := Option.some.inj (hx.symm.trans hr)
          exact hopen hcompleted
        · exact JsonObject.get_set _ _ _
        · intro other hother
          refine (s.jobs.lookup_update (fun x => x.jobId = last) (supersededRow successor now)
            (supersededRow_jobId successor now) other).trans ?_
          cases hx : s.jobs.lookup other with
          | none => rfl
          | some x => simp [Table.key_of_lookup hx, hother]
  · simp [hlive] at hok

/-- No call touches a superseded job again: no claim returns it, every guarded call on it is
refused, and no supersession changes it. -/
theorem superseded_retired {s t : Store τ} (h : Supersession s) {a b : String}
    (hlink : SupersededBy s a b) {ops : List (Op τ)} (hr : (machine τ).run s ops = some t) :
    SupersededBy t a b ∧ (∀ (claim : Op τ) owner, ¬ claim.Claims owner a t) ∧
    (∀ (op : Op τ) owner, op.guard = some (a, owner) → op.Refused t) ∧
    ∀ job successor owner now,
      (supersedeFailedJobSync job successor owner now t).2.jobs.lookup a = t.jobs.lookup a := by
  obtain ⟨r, hlookup, hstate, howner, hget⟩ := h.completed hlink
  obtain ⟨r', hr', hstate', howner', hcheckpoint⟩ := completed_run hr hlookup hstate
  refine ⟨⟨r', hr', hcheckpoint ▸ hget⟩, ?_, ?_, ?_⟩
  · intro claim owner
    exact not_claims_of_retired ⟨r', hr', .inl hstate'⟩
  · intro op owner hguard hok
    obtain ⟨x, hx, hown⟩ := owner_of_guard hguard hok
    obtain rfl := Option.some.inj (hx.symm.trans hr')
    rw [howner', howner] at hown
    exact absurd hown (by simp)
  · intro job successor owner now
    rcases jobs_step t (.supersedeFailedJob job successor owner now) a with
      hsame | ⟨x, x', hx, hx', hchange⟩ | ⟨payload, retention, clock, updateId, minimal, hop, -⟩
    · exact hsame
    · obtain rfl := Option.some.inj (hx.symm.trans hr')
      cases hchange with
      | superseded live other source safe => simp [hstate'] at source
    · cases hop

end Call

/-- Supersession links are functional and acyclic, every call terminates, a refused call changes
nothing, a granted one retires at most the end of its chain, and a superseded job is done. -/
theorem supersession_chains (s : Store τ) (ops : List (Op τ))
    (hr : (machine τ).run Store.initial ops = some s) (hown : OwnCheckpoints ops) :
    Acyclic (SupersededBy s) ∧
    (∀ a b c, SupersededBy s a b → SupersededBy s a c → b = c) ∧
    (∀ jobId successor now, ∃ result, ∀ fuel, s.jobs.rows.length + 1 ≤ fuel →
      supersedeLoop s successor now fuel [] jobId = some result) ∧
    (∀ jobId successor owner now,
      (supersedeFailedJobSync jobId successor owner now s).1 = .ok false ∨
      (supersedeFailedJobSync jobId successor owner now s).1 = .ok true) ∧
    (∀ jobId successor owner now,
      (supersedeFailedJobSync jobId successor owner now s).1 = .ok false →
      (supersedeFailedJobSync jobId successor owner now s).2 = s) ∧
    (∀ jobId successor owner now,
      (supersedeFailedJobSync jobId successor owner now s).1 = .ok true →
      SupersedeGranted s (supersedeFailedJobSync jobId successor owner now s).2 jobId successor
        owner now) ∧
    (∀ a b, SupersededBy s a b → ∀ (later : List (Op τ)) (t : Store τ),
      (machine τ).run s later = some t →
      SupersededBy t a b ∧ (∀ (claim : Op τ) owner, ¬ claim.Claims owner a t) ∧
      (∀ (op : Op τ) owner, op.guard = some (a, owner) → op.Refused t) ∧
      ∀ job successor owner now,
        (supersedeFailedJobSync job successor owner now t).2.jobs.lookup a =
          t.jobs.lookup a) := by
  have h := supersession_run hown ops s List.prefix_rfl hr
  refine ⟨h.acyclic, ?_, ?_, ?_, ?_, ?_, ?_⟩
  · rintro a b c ⟨r, hr, hb⟩ ⟨r', hr', hc⟩
    obtain rfl := Option.some.inj (hr.symm.trans hr')
    exact Json.str.inj (Option.some.inj (hb.symm.trans hc))
  · intro jobId successor now
    exact supersedeLoop_terminates s successor now jobId
  · intro jobId successor owner now
    obtain ⟨result, hloop⟩ := supersedeLoop_terminates s successor now jobId
    have hloop := hloop _ le_rfl
    obtain ⟨reply, s'⟩ := result
    simp only [supersedeFailedJobSync, transaction, hloop]
    by_cases hlive : ownsLiveJob s successor owner now
    · cases reply <;> simp [hlive]
    · simp [hlive]
  · intro jobId successor owner now hrefused
    have hrefused' : (Op.supersedeFailedJob jobId successor owner now).Refused s := by
      simp [Op.Refused, Op.run, wrap_fst, hrefused, Except.map]
    exact unchanged_of_refused rfl hrefused'
  · intro jobId successor owner now hok
    exact supersede_granted h hok
  · intro a b hlink later t hlater
    exact superseded_retired h hlink hlater

/-- Update 7 fails, update 8 retries it: 7 ends up superseded by 8 and stays so. -/
theorem supersession_chains_retry :
    ∃ s : Store ℕ, (machine ℕ).run Store.initial [.acceptUpdate [("update_id", .int 7)] 100 0,
        .fail "7" "boom" none 1, .acceptUpdate [("update_id", .int 8)] 100 2,
        .claimRecoverableJobs "a" 10 60 3, .supersedeFailedJob "7" "8" "a" 4] = some s ∧
      Acyclic (SupersededBy s) ∧ SupersededBy s "7" "8" ∧
      ∀ (claim : Op ℕ) owner, ¬ claim.Claims owner "7" s := by
  refine ⟨_, rfl, ?_⟩
  have hown : OwnCheckpoints (τ := ℕ) [.acceptUpdate [("update_id", .int 7)] 100 0,
      .fail "7" "boom" none 1, .acceptUpdate [("update_id", .int 8)] 100 2,
      .claimRecoverableJobs "a" 10 60 3, .supersedeFailedJob "7" "8" "a" 4] := by
    intro before after job value owner now heq
    have hmem : Op.checkpoint job (some value) owner now ∈
        before ++ .checkpoint job (some value) owner now :: after := by simp
    rw [← heq] at hmem
    simp at hmem
  obtain ⟨hacyclic, -, -, -, -, -, hretired⟩ := supersession_chains _ _ rfl hown
  obtain ⟨hlink, hclaim, -⟩ := hretired "7" "8" ⟨⟨7, [("update_id", .int 7)], .completed, none,
    none, some [("superseded_by", .str "8")], none, ((100 : ℕ) : WithTop ℕ), 0, 4⟩, rfl, rfl⟩ [] _
    rfl
  exact ⟨hacyclic, hlink, hclaim⟩

end YtdlBot.JobStore
