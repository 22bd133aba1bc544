import YtdlBot.Leases.Sidecars

/-!
# Leased media is not purged

One janitor beside any number of reservations. It deletes a media file or its sidecar only inside
the critical section of the file, after it found there no lease or one that had expired, and never
while a promotion onto the file is under way. What is below a `slideshow_*` directory it removes
without a look at sidecars.
-/

namespace YtdlBot.Leases

open Framework
open Framework.Program (Follows)

theorem Call.unlocks_cases {call : Call} {t : Name} (h : call.unlocks = some t) :
    call = .unlink (.lock t) ∨ call = .remove (.lock t) := by
  unfold Call.unlocks at h
  split at h
  · exact .inl (congrArg _ (congrArg _ (Option.some.inj h)))
  · exact .inr (congrArg _ (congrArg _ (Option.some.inj h)))
  · cases h

/-- A lock file stays, unless a process with a right to it removes it. -/
theorem LockStep.file_next {limit : Rat} {call : Call} {d d' : Disk} {g g' : Know}
    (h : LockStep limit call d g d' g') {t : Name} {file : File}
    (hfile : d.files (.lock t) = some file) (hremove : call ≠ .remove (.lock t)) :
    (∃ file', d'.files (.lock t) = some file' ∧ file'.inode = file.inode) ∨
      ((g.Holds t ∨ ∃ inode, g.stale = some (t, inode)) ∧ g'.stale = none) := by
  cases h with
  | same hfiles _ _ => exact .inl ⟨file, (hfiles t).trans hfile, rfl⟩
  | created t' _ _ hfree _ hothers _ _ _ _ =>
    have hne : t ≠ t' := by
      rintro rfl
      rw [hfree] at hfile
      cases hfile
    exact .inl ⟨file, (hothers t hne).trans hfile, rfl⟩
  | written x _ hwritten hothers _ _ =>
    by_cases ht : t = x.target
    · subst ht
      obtain ⟨file', hfile', hinode, -⟩ := hwritten file hfile
      exact .inl ⟨file', hfile', hinode⟩
    · exact .inl ⟨file, (hothers t ht).trans hfile, rfl⟩
  | removed t' hcall hright hothers _ hstale =>
    by_cases ht : t = t'
    · subst ht
      exact .inr ⟨hright ((Call.unlocks_cases hcall).resolve_right hremove), hstale⟩
    · exact .inl ⟨file, (hothers t ht).trans hfile, rfl⟩

/-- Of the paths below slideshow directories there are no lock files and no sidecars. -/
def Disk.Clear (d : Disk) : Prop :=
  ∀ name, name.isBase = false → name.inSlideshow = true → d.files name = none

section Clear

variable {d : Disk} {name : Name}

theorem Disk.Clear.put (h : d.Clear) {file : Option File}
    (hname : file = none ∨ name.isBase = true ∨ name.inSlideshow = false) :
    (d.put name file).Clear := by
  intro other hother hslideshow
  by_cases heq : other = name
  · subst heq
    rcases hname with rfl | hbase | hout
    · exact Disk.put_self ..
    · rw [hother] at hbase
      cases hbase
    · rw [hslideshow] at hout
      cases hout
  · exact (Disk.put_other d file heq).trans (h other hother hslideshow)

theorem Disk.Clear.writeFile (h : d.Clear) {content : Content}
    (hname : name.isBase = true ∨ name.inSlideshow = false) : (d.writeFile name content).Clear := by
  unfold Disk.writeFile
  cases d.files name with
  | none => exact Disk.Clear.put (d := { d with fresh := d.fresh + 1 }) h (.inr hname)
  | some file => exact h.put (.inr hname)

theorem Disk.Clear.writeInode (h : d.Clear) {inode : Nat} {content : Content} :
    (d.writeInode name inode content).Clear := by
  unfold Disk.writeInode
  cases hfile : d.files name with
  | none => exact h
  | some file =>
    dsimp only
    by_cases hinode : file.inode = inode
    · rw [if_pos hinode]
      refine h.put (.inr ?_)
      by_contra hname
      rw [not_or, Bool.not_eq_true, Bool.not_eq_false] at hname
      rw [h name hname.1 hname.2] at hfile
      cases hfile
    · rw [if_neg hinode]
      exact h

theorem Disk.Clear.move (h : d.Clear) {destination : Name}
    (hname : destination.isBase = true ∨ destination.inSlideshow = false) :
    (d.move name destination).Clear :=
  (h.put (.inr hname)).put (.inl rfl)

theorem Disk.Clear.perform {g : Know} {call : Call} (h : d.Clear) (fault : Fault)
    (listing : List Name) (hallowed : allowsCall g call)
    (hheld : ∀ x ∈ g.held, x.target.inSlideshow = false)
    (hcreate : ∀ target token, call = .create target token → target.inSlideshow = false) :
    (d.perform fault listing call).2.Clear := by
  have hholds : ∀ target, g.Holds target → target.inSlideshow = false := by
    rintro target ⟨x, hx, rfl⟩
    exact hheld x hx
  cases call with
  | clock | uuid => exact h
  | create target token =>
    have hput : (({ d with fresh := d.fresh + 1 } : Disk).put (.lock target)
        (some ⟨d.fresh, .other, d.now⟩)).Clear :=
      Disk.Clear.put (d := { d with fresh := d.fresh + 1 }) h (.inr (.inr (hcreate target token rfl)))
    cases fault <;> cases hfile : d.files (.lock target) <;> simp only [Disk.perform, hfile]
    all_goals first | exact h | exact hput
  | writeToken target inode token =>
    cases fault with
    | none => exact h.writeInode
    | clean => exact h
    | dirty => exact h.writeInode
  | fsync | listdir | isDir _ | getmtime _ | scandir _ | rmdir _ => cases fault <;> exact h
  | stat name =>
    rw [perform_stat]
    exact h
  | read name =>
    rw [perform_read]
    exact h
  | «exists» name =>
    rw [perform_exists]
    exact h
  | unlink name | remove name =>
    cases fault <;> cases hfile : d.files name <;> simp only [Disk.perform, hfile]
    all_goals first | exact h | exact h.put (.inl rfl)
  | writeText name content =>
    obtain ⟨target, owner, rfl, hheld⟩ := hallowed
    have hname : (Name.temp target owner).inSlideshow = false := hholds target hheld
    cases fault with
    | none => exact h.writeFile (.inr hname)
    | clean => exact h
    | dirty => exact h.writeFile (.inr hname)
  | replace source destination =>
    have hname : destination.isBase = true ∨ destination.inSlideshow = false := by
      cases source with
      | base a =>
        cases destination with
        | base b => exact .inl rfl
        | lease _ | lock _ | temp _ _ => exact hallowed.elim
      | temp target owner =>
        cases destination with
        | lease target' =>
          obtain ⟨rfl, hheld, -⟩ := hallowed
          exact .inr (hholds target hheld)
        | base _ | lock _ | temp _ _ => exact hallowed.elim
      | lease target | lock target => exact hallowed.elim
    cases fault <;> cases hfile : d.files source <;> simp only [Disk.perform, hfile]
    all_goals first | exact h | exact h.move hname

end Clear

namespace World

/-- The janitor does not fail to read a sidecar that is there. -/
def SeesSidecar (w : World) (p : Process) (fault : Fault) : Prop :=
  p.know.role = .janitor → ∀ target ∈ p.inspects,
    fault = .none ∨ w.disk.files (.lease target) = none

instance (w : World) (p : Process) (fault : Fault) : Decidable (w.SeesSidecar p fault) :=
  inferInstanceAs (Decidable (_ → ∀ target ∈ p.inspects, _ ∨ _))

/-- No lock of a path below a slideshow directory is taken. -/
def KeepsOut (p : Process) : Prop := ∀ target ∈ p.locks, target.inSlideshow = false

instance (p : Process) : Decidable (KeepsOut p) :=
  inferInstanceAs (Decidable (∀ target ∈ p.locks, _ = false))

/-- One janitor at a time, proper tasks, base names and readable sidecars, and no reservations
below slideshow directories. -/
def Orderly (limit : Rat) (w : World) : Action → Prop
  | .spawn task => task.Proper limit ∧ (task.role = .janitor →
      ∀ p ∈ w.processes, p.alive = true → p.know.role ≠ .janitor)
  | .advance i fault _ => ∀ p ∈ w.processes[i]?, w.SeesSidecar p fault ∧ KeepsOut p
  | .media name _ => name.isBase = true
  | .crash _ | .tick _ | .directory _ _ => True

instance (limit : Rat) (w : World) : (a : Action) → Decidable (w.Orderly limit a)
  | .spawn task => inferInstanceAs (Decidable (task.Proper limit ∧ (task.role = .janitor →
      ∀ p ∈ w.processes, p.alive = true → p.know.role ≠ .janitor)))
  | .advance i fault _ =>
    inferInstanceAs (Decidable (∀ p ∈ w.processes[i]?, w.SeesSidecar p fault ∧ KeepsOut p))
  | .media _ _ => inferInstanceAs (Decidable (_ = true))
  | .crash _ | .tick _ | .directory _ _ => isTrue trivial

/-- An orderly step after which no lock is held for too long. -/
def Tended (limit : Rat) (w : World) (a : Action) : Prop :=
  w.Orderly limit a ∧ ∀ w' ∈ w.step limit a, w'.Recent limit

instance (limit : Rat) (w : World) (a : Action) : Decidable (w.Tended limit a) :=
  inferInstanceAs (Decidable (w.Orderly limit a ∧ ∀ w' ∈ w.step limit a, w'.Recent limit))

/-- What holds beside one janitor: a lock that it found stale stays until it removes it, what
processes know of the sidecars is true, and below slideshow directories there are none. -/
structure Guarding (limit : Rat) (w : World) : Prop extends Locked limit w where
  single : ∀ i j p q, w.Live i p → w.Live j q → p.know.role = .janitor →
    q.know.role = .janitor → i = j
  breaker : ∀ i p, w.Live i p → ∀ t inode, p.know.stale = some (t, inode) →
    p.know.role = .janitor ∧ ∃ file, w.disk.files (.lock t) = some file ∧ file.inode = inode
  known : ∀ i p, w.Live i p → ∀ t, p.know.Holds t → p.know.Knows w.disk t
  covered : ∀ i p, w.Live i p → p.know.Covered
  outside : ∀ i p, w.Live i p → ∀ h ∈ p.know.held, h.target.inSlideshow = false
  clear : w.disk.Clear

variable {limit : Rat} {w : World} {i : Nat} {p : Process}

theorem Guarding.breaksRight (hw : w.Guarding limit) (hi : w.Live i p) : w.BreaksRight p := by
  intro target htarget
  obtain ⟨call, hcall, hunlocks⟩ := Option.bind_eq_some_iff.mp htarget
  obtain ⟨next, hprogram⟩ := Process.program_of_nextCall hcall
  have hfollows := hw.follows i p hi
  rw [hprogram] at hfollows
  rcases Call.unlocks_cases hunlocks with rfl | rfl
  · rcases hfollows.1 with hheld | ⟨inode, hstale⟩
    · exact .inl hheld
    · right
      rintro file hfile
      obtain ⟨-, file', hfile', rfl⟩ := hw.breaker i p hi target inode hstale
      obtain rfl := Option.some.inj (hfile'.symm.trans hfile)
      exact hstale
  · -- Below a slideshow directory there is no lock file.
    right
    rintro file hfile
    rw [hw.clear (.lock target) rfl hfollows.1] at hfile
    cases hfile

section AfterCall

variable {fault : Fault} {listing : List Name} {call : Call}
  {next : call.Result → Program Empty Call Call.Result Outcome}

/-- A read of a sidecar that the janitor sees fails only where there is none. -/
theorem SeesSidecar.content_eq_none {t : Name}
    {next : (Call.read (.lease t)).Result → Program Empty Call Call.Result Outcome}
    (hsees : w.SeesSidecar p fault) (hprogram : p.program = .perform (.read (.lease t)) next)
    (hrole : p.know.role = .janitor)
    (hresult : (w.disk.perform fault listing (.read (.lease t))).1 = .fault) :
    w.disk.content (.lease t) = none := by
  have hinspects : p.inspects = some t := by
    unfold Process.inspects Process.nextCall
    rw [hprogram]
  rcases hsees hrole t hinspects with rfl | hnone
  · cases hfile : w.disk.files (.lease t) with
    | none => rw [Disk.content, hfile, Option.map_none]
    | some file =>
      simp only [Disk.perform, hfile] at hresult
      cases hresult
  · rw [Disk.content, hnone, Option.map_none]

theorem role_afterCall (hi : w.Live i p) {j : Nat} {q : Process}
    (hj : (w.afterCall limit i p fault listing call next).Live j q) :
    ∃ q', w.Live j q' ∧ q'.know.role = q.know.role := by
  rcases live_afterCall hi hj with ⟨rfl, rfl⟩ | ⟨-, hj⟩
  · exact ⟨p, hi, (role_next _).symm⟩
  · exact ⟨q, hj, rfl⟩

/-- Only the janitor removes a lock that it found stale. -/
theorem Guarding.stale_stays (hw : w.Guarding limit) (hi : w.Live i p)
    (hstep : LockStep limit call w.disk p.know (w.disk.perform fault listing call).2
      (nextKnow limit p.know call (w.disk.perform fault listing call).1))
    (hremove : ∀ name, call = .remove name → name.isBase = false → w.disk.files name = none)
    {j : Nat} {q : Process} {t : Name} {inode : Nat} (hj : w.Live j q)
    (hrole : q.know.role = .janitor)
    (hstale : q.know.stale = some (t, inode) ∨ FoundStale limit w.disk q.know t inode)
    (hleft : j = i → (nextKnow limit p.know call
      (w.disk.perform fault listing call).1).stale = some (t, inode)) :
    ∃ file, (w.disk.perform fault listing call).2.files (.lock t) = some file ∧
      file.inode = inode := by
  obtain ⟨file, hfile, hinode⟩ : ∃ file, w.disk.files (.lock t) = some file ∧
      file.inode = inode := by
    rcases hstale with hold | ⟨-, -, file, -, hfile, hinode, -⟩
    · exact (hw.breaker j q hj t inode hold).2
    · exact ⟨file, hfile, hinode⟩
  have hkept : call ≠ .remove (.lock t) := by
    intro heq
    rw [hremove _ heq rfl] at hfile
    cases hfile
  rcases hstep.file_next hfile hkept with ⟨file', hfile', hinode'⟩ | ⟨hright, hnone⟩
  · exact ⟨file', hfile', hinode'.trans hinode⟩
  exfalso
  have hji : j ≠ i := by
    intro h
    rw [hnone] at hleft
    cases hleft h
  rcases hright with ⟨h, hh, rfl⟩ | ⟨inode', hstale'⟩
  · have hnot := hstale.elim (hw.stale j q hj h.target inode) (hw.found_stale hj)
    obtain ⟨-, file', hfile', heq, -⟩ := hw.kept i p hi h hh
    obtain rfl := Option.some.inj (hfile.symm.trans hfile')
    exact hnot.2 i p hi h hh rfl (heq.symm.trans hinode)
  · exact hji (hw.single j i q p hj hi hrole (hw.breaker i p hi t inode' hstale').1)

/-- What another process knows under its lock stays true. -/
theorem Guarding.knows_other (hw : w.Guarding limit) (hi : w.Live i p)
    (hallowed : allowsCall p.know call)
    (hremove : ∀ name, call = .remove name → name.isBase = false → w.disk.files name = none)
    {j : Nat} {q : Process} {t : Name} (hji : j ≠ i) (hj : w.Live j q) (ht : q.know.Holds t) :
    q.know.Knows (w.disk.perform fault listing call).2 t := by
  have hnot : ¬ p.know.Holds t := by
    rintro ⟨h, hh, rfl⟩
    obtain ⟨h', hh', ht'⟩ := ht
    exact hji (hw.exclusive hj hi hh' hh ht')
  have hguarded : ∀ name, call = .remove name → guardOf name = some t →
      w.disk.files name = none := by
    intro name heq hguard
    apply hremove name heq
    cases name with
    | base file => cases hguard
    | lease _ | lock _ | temp _ _ => rfl
  exact (hw.known j q hj t ht).untouched
    (untouched_perform fault listing hallowed hnot hguarded) fun _ _ => rfl

theorem Guarding.afterCall (hw : w.Guarding limit) (hi : w.Live i p)
    (hprogram : p.program = .perform call next) (hsees : w.SeesSidecar p fault)
    (hout : KeepsOut p)
    (hrecent : (w.afterCall limit i p fault listing call next).Recent limit) :
    (w.afterCall limit i p fault listing call next).Guarding limit := by
  have hfollows := hw.follows i p hi
  rw [hprogram] at hfollows
  have hallowed := hfollows.1
  have hstep := lockStep limit fault listing hallowed (d := w.disk)
  have hlocked := hw.toLocked.afterCall hi fault listing hprogram
    (hw.breaksRight hi) hrecent
  have hread : ∀ t, call = .read (.lease t) → p.know.role = .janitor →
      (w.disk.perform fault listing (.read (.lease t))).1 = .fault →
      w.disk.content (.lease t) = none := by
    rintro t rfl
    exact hsees.content_eq_none hprogram
  have hremove : ∀ name, call = .remove name → name.isBase = false → w.disk.files name = none := by
    rintro name rfl hname
    exact hw.clear name hname hallowed
  have hcreate : ∀ target token, call = .create target token → target.inSlideshow = false := by
    rintro target token rfl
    apply hout target
    unfold Process.locks Process.nextCall
    rw [hprogram]
    rfl
  refine ⟨hlocked, ?_, ?_, ?_, ?_, ?_, ?_⟩
  · intro j k q r hj hk hq hr
    obtain ⟨q', hj', hrq⟩ := role_afterCall hi hj
    obtain ⟨r', hk', hrr⟩ := role_afterCall hi hk
    exact hw.single j k q' r' hj' hk' (hrq.trans hq) (hrr.trans hr)
  · intro j q hj t inode hstale
    rcases live_afterCall hi hj with ⟨rfl, rfl⟩ | ⟨hji, hj⟩
    · have hfound := hstep.stale_next hstale
      have hrole : p.know.role = .janitor :=
        hfound.elim (fun h => (hw.breaker _ p hi t inode h).1) fun h => h.1
      exact ⟨(role_next _).trans hrole,
        hw.stale_stays hi hstep hremove hi hrole hfound fun _ => hstale⟩
    · have hrole := (hw.breaker j q hj t inode hstale).1
      exact ⟨hrole, hw.stale_stays hi hstep hremove hj hrole (.inl hstale) fun h => absurd h hji⟩
  · intro j q hj t ht
    rcases live_afterCall hi hj with ⟨rfl, rfl⟩ | ⟨hji, hj⟩
    · exact knows_perform fault listing hallowed hread hremove (hw.known _ p hi) t ht
    · exact hw.knows_other hi hallowed hremove hji hj ht
  · intro j q hj
    rcases live_afterCall hi hj with ⟨rfl, rfl⟩ | ⟨-, hj⟩
    · exact covered_next hallowed (hw.covered _ p hi) _
    · exact hw.covered j q hj
  · intro j q hj h hh
    rcases live_afterCall hi hj with ⟨rfl, rfl⟩ | ⟨-, hj⟩
    · rcases hstep.held_create hh with hold | ⟨token, hcall⟩
      · exact hw.outside _ p hi h hold
      · exact hcreate _ token hcall
    · exact hw.outside j q hj h hh
  · exact hw.clear.perform fault listing hallowed (hw.outside i p hi) hcreate

end AfterCall

theorem Guarding.frame (hw : w.Guarding limit) {w' : World} (hlocked : w'.Locked limit)
    (hlive : ∀ j q, w'.Live j q → w.Live j q ∨ ∃ task, q = .start task)
    (hfiles : ∀ name, name.isBase = false → w'.disk.files name = w.disk.files name)
    (hsingle : ∀ i j p q, w'.Live i p → w'.Live j q → p.know.role = .janitor →
      q.know.role = .janitor → i = j) : w'.Guarding limit := by
  refine ⟨hlocked, hsingle, ?_, ?_, ?_, ?_, ?_⟩
  · intro j q hj t inode hstale
    rcases hlive j q hj with hold | ⟨task, rfl⟩
    · obtain ⟨hrole, file, hfile, hinode⟩ := hw.breaker j q hold t inode hstale
      exact ⟨hrole, file, (hfiles _ rfl).trans hfile, hinode⟩
    · cases hstale
  · intro j q hj t ht
    rcases hlive j q hj with hold | ⟨task, rfl⟩
    · apply (hw.known j q hold t ht).untouched (.of_files fun name hname => hfiles name ?_)
        fun _ _ => rfl
      cases name with
      | base file => cases hname
      | lease _ | lock _ | temp _ _ => rfl
    · obtain ⟨h, hh, -⟩ := ht
      exact absurd hh List.not_mem_nil
  · intro j q hj
    rcases hlive j q hj with hold | ⟨task, rfl⟩
    · exact hw.covered j q hold
    · exact fun rename hr => nomatch hr
  · intro j q hj h hh
    rcases hlive j q hj with hold | ⟨task, rfl⟩
    · exact hw.outside j q hold h hh
    · exact absurd hh List.not_mem_nil
  · exact fun name hname hslideshow => (hfiles name hname).trans (hw.clear name hname hslideshow)

theorem guarding_step {w' : World} {a : Action} (hw : w.Guarding limit) (hG : w.Tended limit a)
    (hs : w.step limit a = some w') : w'.Guarding limit := by
  have hrecent : w'.Recent limit := hG.2 w' hs
  cases a with
  | spawn task =>
    have hlocked := locked_step (a := .spawn task) hw.toLocked ⟨hG.1.1, hG.2⟩ hs
    obtain rfl := Option.some.inj hs
    refine hw.frame hlocked (fun j q hj => (live_spawn hj).imp id fun h => ⟨task, h.2⟩)
      (fun _ _ => rfl) ?_
    -- A second janitor is not started.
    have hnone : ∀ j q, w.Live j q → task.role = .janitor → q.know.role ≠ .janitor :=
      fun j q hj hrole => hG.1.2 hrole q (List.mem_of_getElem? hj.1) hj.2
    intro j k q r hj hk hq hr
    rcases live_spawn hj with hj | ⟨rfl, rfl⟩
    · rcases live_spawn hk with hk | ⟨rfl, rfl⟩
      · exact hw.single j k q r hj hk hq hr
      · exact absurd hq (hnone j q hj hr)
    · rcases live_spawn hk with hk | ⟨rfl, rfl⟩
      · exact absurd hr (hnone k r hk hq)
      · rfl
  | advance i fault listing =>
    obtain ⟨p, call, next, hi, hprogram, rfl⟩ := step_advance hs
    exact hw.afterCall hi hprogram (hG.1 p hi.1).1 (hG.1 p hi.1).2 hrecent
  | crash i =>
    have hlocked := locked_step (a := .crash i) hw.toLocked ⟨trivial, hG.2⟩ hs
    obtain ⟨p, hp, rfl⟩ := Option.map_eq_some_iff.mp hs
    exact hw.frame hlocked (fun j q hj => .inl (live_crash hp hj)) (fun _ _ => rfl)
      fun i j p q hi hj => hw.single i j p q (live_crash hp hi) (live_crash hp hj)
  | tick elapsed =>
    have hlocked := locked_step (a := .tick elapsed) hw.toLocked ⟨trivial, hG.2⟩ hs
    by_cases helapsed : 0 ≤ elapsed
    · rw [step, if_pos helapsed] at hs
      obtain rfl := Option.some.inj hs
      exact hw.frame hlocked (fun j q hj => .inl hj) (fun _ _ => rfl) hw.single
    · rw [step, if_neg helapsed] at hs
      cases hs
  | media name content =>
    have hlocked := locked_step (a := .media name content) hw.toLocked ⟨hG.1, hG.2⟩ hs
    obtain ⟨file, rfl⟩ := Name.exists_of_isBase hG.1
    have hne : ∀ name : Name, name.isBase = false → name ≠ .base file := by
      rintro name hname rfl
      cases hname
    cases content with
    | some content =>
      obtain rfl := Option.some.inj hs
      refine hw.frame hlocked (fun j q hj => .inl hj) (fun name hname => ?_) hw.single
      show (w.disk.writeFile (.base file) content).files name = w.disk.files name
      unfold Disk.writeFile
      cases w.disk.files (.base file) with
      | none => exact Disk.put_other _ _ (hne name hname)
      | some old => exact Disk.put_other _ _ (hne name hname)
    | none =>
      obtain rfl := Option.some.inj hs
      exact hw.frame hlocked (fun j q hj => .inl hj)
        (fun name hname => Disk.put_other _ _ (hne name hname)) hw.single
  | directory name mtime =>
    have hlocked := locked_step (a := .directory name mtime) hw.toLocked ⟨trivial, hG.2⟩ hs
    obtain rfl := Option.some.inj hs
    exact hw.frame hlocked (fun j q hj => .inl hj) (fun _ _ => rfl) hw.single

theorem guarding_initial (now : Rat) : (initial now).Guarding limit := by
  have hnone : ∀ j q, ¬ (initial now).Live j q := fun j q h => nomatch h.1
  exact ⟨locked_initial now, fun j _ q _ hj => absurd hj (hnone j q),
    fun j q hj => absurd hj (hnone j q), fun j q hj => absurd hj (hnone j q),
    fun j q hj => absurd hj (hnone j q), fun j q hj => absurd hj (hnone j q), fun _ _ _ => rfl⟩

theorem guarding_of_run {now : Rat} {as : List Action}
    (hr : (machine limit).run (initial now) as = some w)
    (hG : (machine limit).Admits (Tended limit) (initial now) as) : w.Guarding limit :=
  (machine limit).invariant_of_admits (fun _ _ _ => guarding_step) (guarding_initial now) hG hr

/-- Along every run with one janitor at a time, in which no live process holds a lock for longer
than `limit`, reservations are made on media files outside slideshow directories and the janitor
can read the sidecars that are there: when the janitor is about to remove a media file or its
sidecar, it is inside the critical section of the file, and if the sidecar names an owner, the
janitor's clock reading in that section is not before the expiry; what it removes with a slideshow
directory has no sidecar. A file that is being promoted has a lease, and the janitor is not inside
its critical section. -/
theorem leased_media_not_purged {now : Rat} {as : List Action}
    (hr : (machine limit).run (initial now) as = some w)
    (hG : (machine limit).Admits (Tended limit) (initial now) as) :
    (∀ p ∈ w.processes, p.alive = true → p.know.role = .janitor → ∀ (file : BaseName) (name : Name),
      name = .base file ∨ name = .lease (.base file) → p.nextCall = some (.unlink name) →
        p.Inside (.base file) ∧ ∀ owner expiresAt,
          (w.disk.content (.lease (.base file))).bind Content.identity = some (owner, expiresAt) →
            ∃ reading, p.know.clock = some reading ∧ expiresAt ≤ reading) ∧
    (∀ p ∈ w.processes, p.alive = true → ∀ (file : BaseName) (name : Name),
      name = .base file ∨ name = .lease (.base file) → p.nextCall = some (.remove name) →
        w.disk.files (.lease (.base file)) = none) ∧
    ∀ p ∈ w.processes, p.alive = true → ∀ source destination,
      p.know.promoting = some (source, destination) →
        p.Inside destination ∧
        (∃ owner expiresAt, (w.disk.content (.lease destination)).bind Content.identity =
          some (owner, expiresAt)) ∧
        ∀ q ∈ w.processes, q.know.role = .janitor → ¬ q.Inside destination := by
  have hw := guarding_of_run hr hG
  refine ⟨?_, ?_, ?_⟩
  · intro p hp halive hrole file name hname hcall
    obtain ⟨i, hi⟩ := List.mem_iff_getElem?.mp hp
    have hlive : w.Live i p := ⟨hi, halive⟩
    obtain ⟨next, hprogram⟩ := Process.program_of_nextCall hcall
    have hfollows := hw.follows i p hlive
    rw [hprogram] at hfollows
    have hallowed : p.know.Holds (.base file) ∧ p.know.Inactive (.base file) := by
      rcases hname with rfl | rfl
      · exact hfollows.1 hrole
      · exact ⟨hfollows.1.1, hfollows.1.2.2 hrole⟩
    exact ⟨⟨halive, hallowed.1⟩,
      hallowed.2 _ (hw.known i p hlive _ hallowed.1).lease⟩
  · intro p hp halive file name hname hcall
    obtain ⟨i, hi⟩ := List.mem_iff_getElem?.mp hp
    obtain ⟨next, hprogram⟩ := Process.program_of_nextCall hcall
    have hfollows := hw.follows i p ⟨hi, halive⟩
    rw [hprogram] at hfollows
    have hslideshow : name.inSlideshow = true := hfollows.1
    refine hw.clear _ rfl ?_
    rcases hname with rfl | rfl
    · exact hslideshow
    · exact hslideshow
  · intro p hp halive source destination hpromoting
    obtain ⟨i, hi⟩ := List.mem_iff_getElem?.mp hp
    have hlive : w.Live i p := ⟨hi, halive⟩
    obtain ⟨hrole, hheld, hleased⟩ := hw.covered i p hlive _ hpromoting
    refine ⟨⟨halive, hheld⟩, ?_, ?_⟩
    · have hnamed := hleased _ (hw.known i p hlive _ hheld).lease
      obtain ⟨⟨owner, expiresAt⟩, heq⟩ := Option.isSome_iff_exists.mp hnamed
      exact ⟨owner, expiresAt, heq⟩
    · rintro q hq hjanitor ⟨hqalive, h, hh, ht⟩
      obtain ⟨j, hj⟩ := List.mem_iff_getElem?.mp hq
      obtain ⟨h', hh', ht'⟩ := hheld
      obtain rfl := hw.exclusive ⟨hj, hqalive⟩ hlive hh hh' (ht.trans ht'.symm)
      obtain rfl := Option.some.inj (hj.symm.trans hi)
      rw [hrole] at hjanitor
      cases hjanitor

/-- A reservation that binds `path`, whose file is then written. -/
def bound (path : Name) (content : Content) : List Action :=
  .spawn (.session ⟨"owner", 3600, [], false⟩ [.bind path]) :: advances 0 11 ++
    [.media path (some content)]

/-- One pass of the janitor over `path`, up to `calls` calls after it has listed the directory. -/
def purging (aggressive : Bool) (path : Name) (calls : Nat) : List Action :=
  [.spawn (.janitor 10 [aggressive]), .advance 1 .none [], .advance 1 .none [path]] ++
    advances 1 calls

/-- The janitor is about to remove a media file whose lease has just expired. -/
theorem leased_media_not_purged_expired :
    ∃ w, (machine 10).run (initial 0)
        (bound contended .other ++ [.tick 3600] ++ purging true contended 10) = some w ∧
      ∃ p ∈ w.processes, p.nextCall = some (.unlink contended) ∧ p.Inside contended ∧
        ∀ owner expiresAt,
          (w.disk.content (.lease contended)).bind Content.identity = some (owner, expiresAt) →
            ∃ reading, p.know.clock = some reading ∧ expiresAt ≤ reading := by
  have hrun : ((machine 10).run (initial 0)
      (bound contended .other ++ [.tick 3600] ++ purging true contended 10)).any (fun w =>
        decide (∃ p ∈ w.processes, p.alive = true ∧ p.know.role = .janitor ∧
          p.nextCall = some (.unlink contended))) = true := by decide +kernel
  obtain ⟨w, hr, hw⟩ := (Option.any_eq_true _ _).mp hrun
  obtain ⟨p, hp, halive, hrole, hcall⟩ := of_decide_eq_true hw
  have hpurged := (leased_media_not_purged hr (by decide +kernel)).1 p hp halive hrole _ _
    (.inl rfl) hcall
  exact ⟨w, hr, p, hp, hcall, hpurged⟩

/-- A media file whose name ends with `.lease`. -/
def shadowing : Name := .lease (.base ⟨"media_0".toList, by decide⟩)

/-- The janitor takes a bound media file for a sidecar and removes it, while the sidecar of the
file names its owner until 3600 and the clock that the janitor read in the critical section says
0. -/
theorem leased_media_purged :
    (machine 10).Admits (fun w a => ∀ w' ∈ w.step 10 a, w'.Recent 10) (initial 0)
        (bound shadowing (.lease "media" 0) ++ purging false shadowing 7) ∧
      (∃ w, (machine 10).run (initial 0)
          (bound shadowing (.lease "media" 0) ++ purging false shadowing 6) = some w ∧
        (∃ p ∈ w.processes, p.alive = true ∧ p.know.role = .janitor ∧
          p.nextCall = some (.unlink shadowing) ∧ p.know.clock = some 0) ∧
        w.disk.content (.lease shadowing) = some (.lease "owner" 3600) ∧
        (w.disk.files shadowing).isSome = true) ∧
      ∃ w, (machine 10).run (initial 0)
          (bound shadowing (.lease "media" 0) ++ purging false shadowing 7) = some w ∧
        w.disk.content (.lease shadowing) = some (.lease "owner" 3600) ∧
        w.disk.files shadowing = none := by
  refine ⟨by decide +kernel, ?_, ?_⟩
  · have hrun : ((machine 10).run (initial 0)
        (bound shadowing (.lease "media" 0) ++ purging false shadowing 6)).any (fun w => decide
          ((∃ p ∈ w.processes, p.alive = true ∧ p.know.role = .janitor ∧
            p.nextCall = some (.unlink shadowing) ∧ p.know.clock = some 0) ∧
          w.disk.content (.lease shadowing) = some (.lease "owner" 3600) ∧
          (w.disk.files shadowing).isSome = true)) = true := by decide +kernel
    obtain ⟨w, hr, hw⟩ := (Option.any_eq_true _ _).mp hrun
    exact ⟨w, hr, of_decide_eq_true hw⟩
  · have hrun : ((machine 10).run (initial 0)
        (bound shadowing (.lease "media" 0) ++ purging false shadowing 7)).any (fun w => decide
          (w.disk.content (.lease shadowing) = some (.lease "owner" 3600) ∧
          w.disk.files shadowing = none)) = true := by decide +kernel
    obtain ⟨w, hr, hw⟩ := (Option.any_eq_true _ _).mp hrun
    exact ⟨w, hr, of_decide_eq_true hw⟩

/-- A photo below a slideshow directory. -/
def slide : Name := .base ⟨"slideshow_x/photo.jpg".toList, by decide⟩

def slides : BaseName := ⟨"slideshow_x".toList, by decide⟩

/-- The passes remove slideshow directories without a look at leases. -/
theorem leased_slide_purged :
    ∃ w, (machine 10).run (initial 0) (bound slide .other ++ [.directory (.base slides) (some 0),
          .spawn (.janitor 10 [true]), .advance 1 .none [], .advance 1 .none [.base slides],
          .advance 1 .none [], .advance 1 .none [slide], .advance 1 .none []]) = some w ∧
      w.disk.content (.lease slide) = some (.lease "owner" 3600) ∧ w.disk.files slide = none := by
  have hrun : ((machine 10).run (initial 0) (bound slide .other ++
      [.directory (.base slides) (some 0), .spawn (.janitor 10 [true]), .advance 1 .none [],
        .advance 1 .none [.base slides], .advance 1 .none [], .advance 1 .none [slide],
        .advance 1 .none []])).any (fun w => decide
          (w.disk.content (.lease slide) = some (.lease "owner" 3600) ∧
            w.disk.files slide = none)) = true := by decide +kernel
  obtain ⟨w, hr, hw⟩ := (Option.any_eq_true _ _).mp hrun
  exact ⟨w, hr, of_decide_eq_true hw⟩

end World

end YtdlBot.Leases
