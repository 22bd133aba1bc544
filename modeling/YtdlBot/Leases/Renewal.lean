import YtdlBot.Leases.Janitor

/-!
# Renewal of leases

A renewal needs the same lock file as every inspection by the janitor. It fails when it meets one,
and the delivery that it belongs to is then cancelled; without such a meeting it fails only when
a marker belongs to another reservation or the file system fails.
-/

namespace YtdlBot.Leases

open Framework
open Framework.Program (Protocol Follows)
open Framework.Routine (throw capture ofExcept Meets meets_pure meets_throw meets_call_bind)

/-- The sidecar of `target` names nobody, or the owner of the items that have it bound. -/
def OwnMarker (items : List Reservation) (target : Name) (identity : Option (String × Rat)) : Prop :=
  ∀ item ∈ items, target ∈ item.paths → ∀ marker ∈ identity, marker.1 = item.owner

instance (items : List Reservation) (target : Name) (identity : Option (String × Rat)) :
    Decidable (OwnMarker items target identity) :=
  inferInstanceAs (Decidable (∀ item ∈ items, _ → ∀ marker ∈ identity, _))

/-- A response that gives a renewal of `items` no reason to fail. -/
def Smooth (items : List Reservation) : (call : Call) → call.Result → Prop
  | .create _ _, response => ∃ inode since, response = Created.created inode since
  | .writeToken _ _ _, response | .fsync, response | .writeText _ _, response
  | .replace _ _, response => response = Done.ok
  | .unlink _, response => response ≠ Unlinked.fault
  | .read name, response => ∀ target, name = .lease target →
      response = ReadText.notFound ∨
        ∃ content, response = ReadText.ok content ∧ OwnMarker items target content.identity
  | .clock, _ | .uuid, _ | .stat _, _ | .exists _, _ | .listdir, _ | .isDir _, _ | .getmtime _, _
  | .scandir _, _ | .remove _, _ | .rmdir _, _ => True

/-- The phase says whether all responses so far were smooth. -/
def smooth (items : List Reservation) : Protocol Call Call.Result Prop where
  allows := fun _ _ => True
  next := fun g call response => g ∧ Smooth items call response

/-- After smooth responses only, `x` returns a value with `P`. -/
def Calmly {σ α : Type} (items : List Reservation) (x : Op σ α) (P : α → Prop) : Prop :=
  ∀ g : Prop, Meets (smooth items) (fun _ => True) g x
    fun result g' => g' → g ∧ ∃ value, result = .ok value ∧ P value

section Calmly

variable {σ α β : Type} {items : List Reservation}

theorem follows_smooth (g : Prop) (p : Program Empty Call Call.Result α) :
    Follows (smooth items) g p fun _ g' => g' → g := by
  induction p generalizing g with
  | pure value => exact id
  | raise error => cases error
  | perform call next ih =>
    exact ⟨trivial, fun response => (ih response _).mono fun _ _ h hg' => (h hg').1⟩

theorem meets_rough {g : Prop} (hg : ¬ g) {x : Op σ α} {Q : Except LeaseError α → Prop → Prop}
    (hQ : ∀ result g', ¬ g' → Q result g') : Meets (smooth items) (fun _ => True) g x Q :=
  fun s _ => (follows_smooth g (x s)).mono fun _ _ h => ⟨hQ _ _ fun hg' => hg (h hg'), trivial⟩

theorem calmly_pure {value : α} {P : α → Prop} (h : P value) :
    Calmly items (pure value : Op σ α) P :=
  fun _ => meets_pure fun hg => ⟨hg, value, rfl, h⟩

theorem Calmly.bind {x : Op σ α} {f : α → Op σ β} {P : α → Prop} {Q : β → Prop}
    (hx : Calmly items x P) (hf : ∀ value, P value → Calmly items (f value) Q) :
    Calmly items (x >>= f) Q := by
  intro g
  apply (hx g).bind
  · intro value g' h
    by_cases hg' : g'
    · obtain ⟨hg, _, heq, hP⟩ := h hg'
      obtain rfl := Except.ok.inj heq
      exact (hf value hP g').mono fun _ _ hQ hg'' => ⟨hg, (hQ hg'').2⟩
    · exact meets_rough hg' fun _ _ hnot hg'' => absurd hg'' hnot
  · intro error g' h hg'
    obtain ⟨-, _, heq, -⟩ := h hg'
    cases heq

theorem calmly_call {call : Call} {P : call.Result → Prop}
    (h : ∀ response, Smooth items call response → P response) :
    Calmly items (Routine.call call : Op σ call.Result) P :=
  fun _ => Routine.meets_call trivial fun response hg => ⟨hg.1, response, rfl, h response hg.2⟩

theorem Calmly.capture {x : Op σ α} {P : α → Prop} (hx : Calmly items x P) :
    Calmly items (capture x) fun result => ∃ value, result = .ok value ∧ P value := by
  intro g
  apply (hx g).capture
  intro result g' h hg'
  obtain ⟨hg, value, heq, hP⟩ := h hg'
  exact ⟨hg, result, rfl, value, heq, hP⟩

theorem calmly_ite {c : Prop} [Decidable c] {x y : Op σ α} {P : α → Prop}
    (hx : c → Calmly items x P) (hy : ¬ c → Calmly items y P) :
    Calmly items (if c then x else y) P :=
  fun g => Routine.meets_ite (fun h => hx h g) (fun h => hy h g)

theorem calmly_unlinkMissingOk (name : Name) :
    Calmly items (unlinkMissingOk (σ := σ) name) fun _ => True := by
  apply Calmly.bind (calmly_call fun _ h => h)
  rintro (_ | _ | _) hresponse
  · exact calmly_pure trivial
  · exact calmly_pure trivial
  · exact absurd rfl hresponse

theorem calmly_tryCreate (target : Name) (token : Nat) (whenExists : Op σ Unit) :
    Calmly items (tryCreate target token whenExists) fun _ => True := by
  apply Calmly.bind (calmly_call fun _ h => h)
  rintro _ ⟨inode, since, rfl⟩
  apply Calmly.bind (calmly_call fun _ h => h)
  rintro _ rfl
  apply Calmly.bind (calmly_call fun _ h => h)
  rintro _ rfl
  exact calmly_pure trivial

theorem calmly_release (target : Name) (token : Nat) :
    Calmly items (release (σ := σ) target token) fun _ => True := by
  apply Calmly.bind (calmly_call fun _ _ => trivial)
  rintro (content | _ | _) -
  · exact calmly_ite (fun _ => calmly_unlinkMissingOk _) (fun _ => calmly_pure trivial)
  · exact calmly_pure trivial
  · exact calmly_pure trivial

theorem Calmly.withLock {target : Name} {body : Op σ α} {P : α → Prop}
    (hbody : Calmly items body P) : Calmly items (withLock target none body) P := by
  apply Calmly.bind (calmly_call fun _ _ => trivial)
  intro token _
  apply Calmly.bind (calmly_tryCreate target token _)
  intro _ _
  apply hbody.capture.bind
  rintro _ ⟨value, rfl, hvalue⟩
  apply (calmly_release target token).bind
  intro _ _
  exact calmly_pure hvalue

theorem calmly_markerIdentity (target : Name) :
    Calmly items (markerIdentity (σ := σ) target) (OwnMarker items target) := by
  have hread : Calmly items (readText (σ := σ) (.lease target)) fun response =>
      response = .notFound ∨
        ∃ content, response = .ok content ∧ OwnMarker items target content.identity :=
    calmly_call fun _ h => h target rfl
  apply hread.bind
  rintro _ (rfl | ⟨content, rfl, hown⟩)
  · exact calmly_pure fun _ _ _ _ h => nomatch h
  · exact calmly_pure hown

theorem calmly_writeMarkerLocked {item : Reservation} (hitem : item ∈ items) {target : Name}
    (htarget : target ∈ item.paths) (leaseTtl : Rat) :
    Calmly items (writeMarkerLocked (σ := σ) item.owner leaseTtl target true) fun _ => True := by
  have hcheck : Calmly items (checkMarker (σ := σ) item.owner target true) fun _ => True := by
    apply (calmly_markerIdentity target).bind
    intro identity hown
    cases identity with
    | none => exact calmly_pure trivial
    | some identity =>
      apply calmly_ite
      · exact fun _ => calmly_pure trivial
      · exact fun hother => absurd (hown item hitem htarget identity rfl) hother
  have hreplace : ∀ content, Calmly items (do
        orOSError (σ := σ) (← writeText (.temp target item.owner) content)
        orOSError (← replaceCall (.temp target item.owner) (.lease target))) fun _ => True := by
    intro content
    apply Calmly.bind (calmly_call fun _ h => h)
    rintro _ rfl
    apply Calmly.bind (calmly_call fun _ h => h)
    rintro _ rfl
    exact calmly_pure trivial
  apply hcheck.bind
  intro _ _
  apply Calmly.bind (calmly_call fun _ _ => trivial)
  intro now _
  apply (hreplace _).capture.bind
  rintro _ ⟨⟨⟩, rfl, -⟩
  apply (calmly_unlinkMissingOk _).bind
  intro _ _
  exact calmly_pure trivial

theorem calmly_renewPaths {item : Reservation} (hitem : item ∈ items) (paths : List Name)
    (hpaths : paths ⊆ item.paths) :
    Calmly items (Reservation.renewPaths item paths) fun _ => True := by
  induction paths with
  | nil => exact calmly_pure trivial
  | cons path paths ih =>
    have htarget : path ∈ item.paths := hpaths List.mem_cons_self
    apply (calmly_writeMarkerLocked hitem htarget item.leaseTtl).withLock.bind
    exact fun _ _ => ih fun other hmem => hpaths (List.mem_cons_of_mem _ hmem)

theorem calmly_renewLease {item : Reservation} (hitem : item ∈ items)
    (hlive : item.released = false) : Calmly items (renewLease item) fun _ => True := by
  have hrenew : Reservation.renew item = Reservation.renewPaths item item.paths item := by
    show Program.bind (Reservation.checkNotReleased item) _ = _
    have hcheck : Reservation.checkNotReleased item = Program.pure (.ok item, item) := by
      show (if item.released = true then Routine.throw _ else pure item : Op Reservation _) item = _
      rw [if_neg (by rw [hlive]; nofun)]
      rfl
    rw [hcheck]
    rfl
  intro g s _
  show Follows _ _ ((Reservation.renew item).bind _) _
  rw [hrenew]
  apply (calmly_renewPaths hitem item.paths (List.Subset.refl _) g item trivial).bind
  exact fun _ _ h => ⟨h.1, trivial⟩

theorem calmly_renewItems (materialized : List Reservation) (hitems : materialized ⊆ items)
    (hlive : ∀ item ∈ materialized, item.released = false) :
    Calmly items (renewItems materialized) fun _ => True := by
  induction materialized with
  | nil => exact calmly_pure trivial
  | cons item rest ih =>
    apply (calmly_renewLease (hitems List.mem_cons_self) (hlive item List.mem_cons_self)).bind
    exact fun _ _ => ih (fun other hmem => hitems (List.mem_cons_of_mem _ hmem))
      fun other hmem => hlive other (List.mem_cons_of_mem _ hmem)

theorem calmly_renewRounds (hlive : ∀ item ∈ items, item.released = false) (rounds : Nat) :
    Calmly items (renewRounds items rounds) fun _ => True := by
  induction rounds with
  | zero => exact calmly_pure trivial
  | succ rounds ih =>
    exact (calmly_renewItems items (List.Subset.refl _) hlive).bind fun _ _ => ih

/-- As long as all responses are smooth, the delivery is not cancelled. -/
theorem follows_withLeaseRenewals (hlive : ∀ item ∈ items, item.released = false) (rounds : Nat) :
    Follows (smooth items) True (withLeaseRenewals items rounds)
      fun outcome g => g → ∀ error, outcome ≠ .uncertain error := by
  apply (calmly_renewRounds hlive rounds True () trivial).bind
  rintro ⟨result, s⟩ g ⟨hresult, -⟩
  cases result with
  | ok _ => exact fun _ _ h => nomatch h
  | error error =>
    intro hg
    obtain ⟨-, _, heq, -⟩ := hresult hg
    cases heq

end Calmly

namespace World

/-- The calls of process `i` do not fail, and the sidecars that it reads name no other owner. -/
def Undisturbed (items : List Reservation) (i : Nat) (w : World) : Action → Prop
  | .advance j fault _ => j = i → fault = .none ∧ ∀ p ∈ w.processes[i]?, ∀ target ∈ p.inspects,
      OwnMarker items target ((w.disk.content (.lease target)).bind Content.identity)
  | _ => True

instance (items : List Reservation) (i : Nat) (w : World) :
    (a : Action) → Decidable (Undisturbed items i w a)
  | .advance _ _ _ => inferInstanceAs (Decidable (_ → _ ∧ ∀ p ∈ w.processes[i]?,
      ∀ target ∈ p.inspects, OwnMarker items target
        ((w.disk.content (.lease target)).bind Content.identity)))
  | .spawn _ | .crash _ | .tick _ | .media _ _ | .directory _ _ => isTrue trivial

/-- Where process `i` creates a lock file there is none, and the file that it moves is there. -/
def Unhindered (i : Nat) (w : World) : Action → Prop
  | .advance j _ _ => j = i → ∀ p ∈ w.processes[i]?,
      (∀ target ∈ p.locks, w.disk.files (.lock target) = none) ∧
        ∀ source ∈ p.moves, (w.disk.files source).isSome = true
  | _ => True

instance (i : Nat) (w : World) : (a : Action) → Decidable (Unhindered i w a)
  | .advance _ _ _ => inferInstanceAs (Decidable (_ → ∀ p ∈ w.processes[i]?,
      (∀ target ∈ p.locks, w.disk.files (.lock target) = none) ∧
        ∀ source ∈ p.moves, (w.disk.files source).isSome = true))
  | .spawn _ | .crash _ | .tick _ | .media _ _ | .directory _ _ => isTrue trivial

variable {limit : Rat} {w : World} {i : Nat} {p : Process}

theorem smooth_perform {items : List Reservation} (listing : List Name) {call : Call}
    (hcall : p.nextCall = some call)
    (hown : ∀ target ∈ p.inspects,
      OwnMarker items target ((w.disk.content (.lease target)).bind Content.identity))
    (hfree : ∀ target ∈ p.locks, w.disk.files (.lock target) = none)
    (hmoves : ∀ source ∈ p.moves, (w.disk.files source).isSome = true) :
    Smooth items call (w.disk.perform .none listing call).1 := by
  cases call with
  | clock | uuid | «exists» _ | listdir | isDir _ | getmtime _ | scandir _ | remove _ | rmdir _ =>
    trivial
  | stat name => cases name <;> trivial
  | writeToken _ _ _ | fsync | writeText _ _ => exact rfl
  | create target token =>
    have hlocks : p.locks = some target := by
      unfold Process.locks
      rw [hcall]
    simp only [Disk.perform, hfree target hlocks]
    exact ⟨_, _, rfl⟩
  | unlink name =>
    cases hfile : w.disk.files name <;> simp only [Disk.perform, hfile] <;> intro h <;> cases h
  | read name =>
    rintro target rfl
    have hinspects : p.inspects = some target := by
      unfold Process.inspects
      rw [hcall]
    have hown := hown target hinspects
    cases hfile : w.disk.files (.lease target) with
    | none =>
      simp only [Disk.perform, hfile]
      exact .inl rfl
    | some file =>
      simp only [Disk.perform, hfile]
      rw [Disk.content, hfile] at hown
      exact .inr ⟨_, rfl, hown⟩
  | replace source destination =>
    have hsource : p.moves = some source := by
      unfold Process.moves
      rw [hcall]
    obtain ⟨file, hfile⟩ := Option.isSome_iff_exists.mp (hmoves source hsource)
    simp only [Disk.perform, hfile]
    exact rfl

/-- Process `i`, if it is this delivery, cannot have been cancelled. -/
def Renewing (items : List Reservation) (rounds i : Nat) (w : World) : Prop :=
  ∀ p, w.processes[i]? = some p → p.task = .delivery items rounds →
    Follows (smooth items) True p.program fun outcome g => g → ∀ error, outcome ≠ .uncertain error

theorem renewing_step {items : List Reservation} {rounds : Nat} {w' : World} {a : Action}
    (hlive : ∀ item ∈ items, item.released = false) (hw : w.Renewing items rounds i)
    (hG : Undisturbed items i w a ∧ Unhindered i w a) (hs : w.step limit a = some w') :
    w'.Renewing items rounds i := by
  cases a with
  | spawn task =>
    obtain rfl := Option.some.inj hs
    intro p hp htask
    change (w.processes ++ [.start task])[i]? = some p at hp
    rw [getElem?_joined] at hp
    by_cases hi : i = w.processes.length
    · rw [if_pos hi] at hp
      obtain rfl := Option.some.inj hp
      obtain rfl : task = .delivery items rounds := htask
      exact follows_withLeaseRenewals hlive rounds
    · rw [if_neg hi] at hp
      exact hw p hp htask
  | advance j fault listing =>
    obtain ⟨q, call, next, hj, hprogram, rfl⟩ := step_advance hs
    intro p hp htask
    change (w.processes.set j _)[i]? = some p at hp
    rw [getElem?_replaced hj.1] at hp
    by_cases hij : i = j
    · subst hij
      rw [if_pos rfl] at hp
      obtain rfl := Option.some.inj hp
      obtain ⟨rfl, hown⟩ := hG.1 rfl
      have hmeets := hG.2 rfl q hj.1
      have hfollows := hw q hj.1 htask
      rw [hprogram] at hfollows
      have hcall : q.nextCall = some call := by
        unfold Process.nextCall
        rw [hprogram]
      have hsmooth := smooth_perform listing hcall (hown q hj.1) hmeets.1 hmeets.2
      have hnext := hfollows.2 (w.disk.perform .none listing call).1
      rwa [show (smooth items).next True call (w.disk.perform .none listing call).1 = True from
        eq_true ⟨trivial, hsmooth⟩] at hnext
    · rw [if_neg hij] at hp
      exact hw p hp htask
  | crash j =>
    obtain ⟨q, hq, rfl⟩ := Option.map_eq_some_iff.mp hs
    intro p hp htask
    change (w.processes.set j _)[i]? = some p at hp
    rw [getElem?_replaced hq] at hp
    by_cases hij : i = j
    · subst hij
      rw [if_pos rfl] at hp
      obtain rfl := Option.some.inj hp
      exact hw q hq htask
    · rw [if_neg hij] at hp
      exact hw p hp htask
  | tick elapsed =>
    by_cases helapsed : 0 ≤ elapsed
    · rw [step, if_pos helapsed] at hs
      obtain rfl := Option.some.inj hs
      exact hw
    · rw [step, if_neg helapsed] at hs
      cases hs
  | media name content =>
    cases content with
    | some content =>
      obtain rfl := Option.some.inj hs
      exact hw
    | none =>
      obtain rfl := Option.some.inj hs
      exact hw
  | directory name mtime =>
    obtain rfl := Option.some.inj hs
    exact hw

/-- Along every run in which a delivery meets no lock file where it creates one, and every file
that it moves is there: if no call of the delivery fails and no sidecar that it reads belongs to
another owner, no renewal raises and the delivery is not cancelled. -/
theorem renewal_not_spurious {now : Rat} {as : List Action} {items : List Reservation}
    {rounds : Nat} (hr : (machine limit).run (initial now) as = some w)
    (hlive : ∀ item ∈ items, item.released = false)
    (hfree : (machine limit).Admits (Unhindered i) (initial now) as)
    (hcalm : (machine limit).Admits (Undisturbed items i) (initial now) as)
    (hp : w.processes[i]? = some p) (htask : p.task = .delivery items rounds)
    (error : LeaseError) : p.outcome ≠ some (.uncertain error) := by
  have hinitial : (initial now).Renewing items rounds i := fun p hp => nomatch hp
  have hrenewing : w.Renewing items rounds i :=
    (machine limit).invariant_of_admits (fun _ _ _ hw => renewing_step hlive hw) hinitial
      (hcalm.and (machine limit) hfree) hr
  have hfollows := hrenewing p hp htask
  unfold Process.outcome
  cases hprogram : p.program with
  | pure outcome =>
    rw [hprogram] at hfollows
    exact fun h => hfollows trivial error (Option.some.inj h)
  | perform call next => exact nofun
  | raise error => cases error

/-- The reservation of `bound`, with its path. -/
def delivered : Reservation := ⟨"owner", 3600, [contended], false⟩

/-- A delivery that renews its lease twice beside no janitor. -/
theorem renewal_not_spurious_twice :
    ∃ w, (machine 10).run (initial 0) (bound contended .other ++
        .spawn (.delivery [delivered] 2) :: advances 1 22) = some w ∧
      ∃ p, w.processes[1]? = some p ∧ p.outcome = some .delivered ∧
        p.outcome ≠ some (.uncertain updating) := by
  have hrun : ((machine 10).run (initial 0) (bound contended .other ++
      .spawn (.delivery [delivered] 2) :: advances 1 22)).any (fun w =>
        w.processes[1]?.any fun p => decide (p.outcome = some .delivered ∧
          p.task = .delivery [delivered] 2)) = true := by
    decide +kernel
  obtain ⟨w, hr, hw⟩ := (Option.any_eq_true _ _).mp hrun
  obtain ⟨p, hp, hdone⟩ := (Option.any_eq_true _ _).mp hw
  obtain ⟨houtcome, htask⟩ := of_decide_eq_true hdone
  exact ⟨w, hr, p, hp, houtcome, renewal_not_spurious hr (by decide) (by decide +kernel)
    (by decide +kernel) hp htask updating⟩

/-- The janitor has the lock of the sidecar while the delivery renews its own lease. -/
theorem renewal_spurious :
    (machine 10).Admits (fun w a => Undisturbed [delivered] 2 w a ∧
        ∀ w' ∈ w.step 10 a, w'.Recent 10) (initial 0)
        (bound contended .other ++ purging true contended 8 ++
          .spawn (.delivery [delivered] 1) :: advances 2 2) ∧
      ∃ w, (machine 10).run (initial 0) (bound contended .other ++ purging true contended 8 ++
          .spawn (.delivery [delivered] 1) :: advances 2 2) = some w ∧
        (∃ p, w.processes[2]? = some p ∧ p.outcome = some (.uncertain updating)) ∧
        w.disk.content (.lease contended) = some (.lease "owner" 3600) := by
  refine ⟨by decide +kernel, ?_⟩
  have hrun : ((machine 10).run (initial 0) (bound contended .other ++ purging true contended 8 ++
      .spawn (.delivery [delivered] 1) :: advances 2 2)).any (fun w =>
        (w.processes[2]?.any fun p => decide (p.outcome = some (.uncertain updating))) &&
          decide (w.disk.content (.lease contended) = some (.lease "owner" 3600))) = true := by
    decide +kernel
  obtain ⟨w, hr, hw⟩ := (Option.any_eq_true _ _).mp hrun
  obtain ⟨hp, hcontent⟩ := Bool.and_eq_true_iff.mp hw
  obtain ⟨p, hp, houtcome⟩ := (Option.any_eq_true _ _).mp hp
  exact ⟨w, hr, ⟨p, hp, of_decide_eq_true houtcome⟩, of_decide_eq_true hcontent⟩

end World

end YtdlBot.Leases
