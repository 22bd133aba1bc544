import Mathlib.Tactic.Linarith
import YtdlBot.Framework.Tally
import YtdlBot.Leases.Processes

/-!
# Mutual exclusion

Who holds a lock still has its own file at the lock's name, as long as every process that breaks
a stale lock removes the very file that it found stale.
-/

namespace YtdlBot.Leases

open Framework
open Framework.Program (Follows)

/-- The lock file of a hold is at its name, and no older than the hold. -/
def Disk.Keeps (d : Disk) (h : Hold) : Prop :=
  h.since ≤ d.now ∧ ∃ file, d.files (.lock h.target) = some file ∧ file.inode = h.inode ∧
    h.since ≤ file.mtime

/-- A janitor finds the lock file stale when it reads its age. -/
def FoundStale (limit : Rat) (d : Disk) (g : Know) (t : Name) (inode : Nat) : Prop :=
  g.role = .janitor ∧ ∃ now file, g.clock = some now ∧ d.files (.lock t) = some file ∧ file.inode = inode ∧
    limit < now - file.mtime

/-- What a call can do to lock files and to what a process knows of them. -/
inductive LockStep (limit : Rat) (call : Call) (d : Disk) (g : Know) (d' : Disk) (g' : Know) :
    Prop where
  /-- No lock file is touched; one may be found stale. -/
  | same (hfiles : ∀ t, d'.files (.lock t) = d.files (.lock t)) (hheld : g'.held ⊆ g.held)
      (hstale : ∀ t inode, g'.stale = some (t, inode) → g.stale = some (t, inode) ∨
        FoundStale limit d g t inode)
  | created (t : Name) (token : Nat) (hcall : call = .create t token) (hfree : d.files (.lock t) = none)
      (hfile : d'.files (.lock t) = some ⟨d.fresh, .other, d.now⟩)
      (hothers : ∀ t', t' ≠ t → d'.files (.lock t') = d.files (.lock t'))
      (hfresh : d'.fresh = d.fresh + 1) (hnot : ¬ g.Holds t)
      (hheld : g'.held = ⟨t, d.fresh, token, d.now⟩ :: g.held) (hstale : g'.stale = g.stale)
  /-- The token is written through the descriptor of a held lock. -/
  | written (h : Hold) (hmem : h ∈ g.held)
      (hfile : ∀ file, d.files (.lock h.target) = some file → ∃ file',
        d'.files (.lock h.target) = some file' ∧ file'.inode = file.inode ∧
          (file'.mtime = file.mtime ∨ file'.mtime = d.now))
      (hothers : ∀ t', t' ≠ h.target → d'.files (.lock t') = d.files (.lock t'))
      (hheld : g'.held = g.held) (hstale : g'.stale = g.stale)
  /-- A lock file is removed by who holds it or found it stale, or with its directory. -/
  | removed (t : Name) (hcall : call.unlocks = some t)
      (hright : call = .unlink (.lock t) → g.Holds t ∨ ∃ inode, g.stale = some (t, inode))
      (hothers : ∀ t', t' ≠ t → d'.files (.lock t') = d.files (.lock t'))
      (hheld : g'.held = g.held.filter fun h => h.target ≠ t) (hstale : g'.stale = none)

theorem lock_put {d : Disk} {name : Name} {file : Option File} (t : Name)
    (hname : ∀ t, name ≠ .lock t) : (d.put name file).files (.lock t) = d.files (.lock t) :=
  d.put_other file (Ne.symm (hname t))

theorem lock_writeFile {d : Disk} {name : Name} {content : Content} (t : Name)
    (hname : ∀ t, name ≠ .lock t) : (d.writeFile name content).files (.lock t) = d.files (.lock t) := by
  unfold Disk.writeFile
  cases d.files name with
  | none => exact lock_put t hname
  | some file => exact lock_put t hname

theorem lock_move {d : Disk} {source destination : Name} (t : Name)
    (hsource : ∀ t, source ≠ .lock t) (hdestination : ∀ t, destination ≠ .lock t) :
    (d.move source destination).files (.lock t) = d.files (.lock t) :=
  (lock_put t hsource).trans (lock_put t hdestination)

theorem perform_stat (d : Disk) (fault : Fault) (listing : List Name) (name : Name) :
    (d.perform fault listing (.stat name)).2 = d := by
  cases fault <;> cases hfile : d.files name <;> simp only [Disk.perform, hfile]

theorem perform_read (d : Disk) (fault : Fault) (listing : List Name) (name : Name) :
    (d.perform fault listing (.read name)).2 = d := by
  cases fault <;> cases hfile : d.files name <;> simp only [Disk.perform, hfile]

theorem perform_exists (d : Disk) (fault : Fault) (listing : List Name) (name : Name) :
    (d.perform fault listing (.exists name)).2 = d := by
  cases fault <;> rfl

theorem perform_unlink_other (d : Disk) (fault : Fault) (listing : List Name) {name other : Name}
    (hne : other ≠ name) :
    (d.perform fault listing (.unlink name)).2.files other = d.files other := by
  cases fault <;> cases hfile : d.files name <;>
    simp only [Disk.perform, hfile, Disk.put_other d _ hne]

theorem perform_remove (d : Disk) (fault : Fault) (listing : List Name) (name : Name) :
    d.perform fault listing (.remove name) = d.perform fault listing (.unlink name) := rfl

theorem perform_isDir (d : Disk) (fault : Fault) (listing : List Name) (name : Name) :
    (d.perform fault listing (.isDir name)).2 = d := by
  cases fault <;> rfl

theorem perform_getmtime (d : Disk) (fault : Fault) (listing : List Name) (name : Name) :
    (d.perform fault listing (.getmtime name)).2 = d := by
  cases fault <;> rfl

theorem perform_scandir (d : Disk) (fault : Fault) (listing : List Name) (directory : BaseName) :
    (d.perform fault listing (.scandir directory)).2 = d := by
  cases fault <;> rfl

theorem files_perform_rmdir (d : Disk) (fault : Fault) (listing : List Name) (name : Name) :
    (d.perform fault listing (.rmdir name)).2.files = d.files := by
  cases fault <;> rfl

theorem lock_perform_writeText (d : Disk) (fault : Fault) (listing : List Name) {name : Name}
    {content : Content} (t : Name) (hname : ∀ t, name ≠ .lock t) :
    (d.perform fault listing (.writeText name content)).2.files (.lock t) = d.files (.lock t) := by
  cases fault with
  | none => exact lock_writeFile t hname
  | clean => rfl
  | dirty => exact lock_writeFile t hname

theorem lock_perform_replace (d : Disk) (fault : Fault) (listing : List Name)
    {source destination : Name} (t : Name) (hsource : ∀ t, source ≠ .lock t)
    (hdestination : ∀ t, destination ≠ .lock t) :
    (d.perform fault listing (.replace source destination)).2.files (.lock t) =
      d.files (.lock t) := by
  cases fault <;> cases hfile : d.files source <;>
    simp only [Disk.perform, hfile, lock_move t hsource hdestination]

/-- Nothing that concerns locks changes, but that some may be lost. -/
structure Know.Carries (g g' : Know) : Prop where
  role : g'.role = g.role
  held : g'.held ⊆ g.held
  stale : g'.stale = g.stale
  clock : g'.clock = g.clock

theorem Know.Carries.of_eq {g g' : Know} (hrole : g'.role = g.role) (hheld : g'.held = g.held)
    (hstale : g'.stale = g.stale) (hclock : g'.clock = g.clock) : g.Carries g' :=
  ⟨hrole, hheld ▸ List.Subset.refl _, hstale, hclock⟩

theorem carries_read (limit : Rat) (g : Know) (name : Name) (result : ReadText) :
    g.Carries (nextKnow limit g (.read name) result) := by
  cases name with
  | lock target =>
    dsimp only [nextKnow]
    by_cases hreads : g.reads target result = true
    · rw [if_pos hreads]
      exact .of_eq rfl rfl rfl rfl
    · rw [if_neg hreads]
      exact ⟨rfl, List.filter_sublist.subset, rfl, rfl⟩
  | base file | lease target | temp target owner =>
    cases result with
    | ok content => exact .of_eq rfl rfl rfl rfl
    | notFound => exact .of_eq rfl rfl rfl rfl
    | fault =>
      dsimp only [nextKnow]
      by_cases hrole : g.role = .janitor
      · rw [if_pos hrole]
        exact .of_eq rfl rfl rfl rfl
      · rw [if_neg hrole]
        exact .of_eq rfl rfl rfl rfl

theorem carries_replace (limit : Rat) (g : Know) (source destination : Name) (done : Done) :
    g.Carries (nextKnow limit g (.replace source destination) done) := by
  cases source with
  | base file =>
    dsimp only [nextKnow, Know.renamed]
    by_cases hback : g.promoting = some (destination, .base file)
    · rw [if_pos hback]
      cases done with
      | ok => exact .of_eq rfl rfl rfl rfl
      | fault => exact .of_eq rfl rfl rfl rfl
    · rw [if_neg hback]
      exact .of_eq rfl rfl rfl rfl
  | lease target => exact .of_eq rfl rfl rfl rfl
  | lock target => exact .of_eq rfl rfl rfl rfl
  | temp target owner => exact .of_eq rfl rfl rfl rfl

theorem carries_unlink (limit : Rat) (g : Know) {name : Name} (result : Unlinked)
    (hname : ∀ t, name ≠ .lock t) : g.Carries (nextKnow limit g (.unlink name) result) := by
  cases name with
  | lock target => exact absurd rfl (hname target)
  | base file | lease target | temp target owner => cases result <;> exact .of_eq rfl rfl rfl rfl

theorem carries_writeText (limit : Rat) (g : Know) (name : Name) (content : Content)
    (done : Done) : g.Carries (nextKnow limit g (.writeText name content) done) := by
  cases done <;> exact .of_eq rfl rfl rfl rfl

theorem lockStep (limit : Rat) {d : Disk} {g : Know} {call : Call} (fault : Fault)
    (listing : List Name) (hallowed : allowsCall g call) :
    LockStep limit call d g (d.perform fault listing call).2
      (nextKnow limit g call (d.perform fault listing call).1) := by
  have hcarries : ∀ {call : Call} {d' : Disk} {g' : Know},
      (∀ t, d'.files (.lock t) = d.files (.lock t)) → g.Carries g' →
      LockStep limit call d g d' g' :=
    fun hfiles h => .same hfiles h.held fun t inode hstale => .inl (h.stale ▸ hstale)
  have hsame : ∀ {call : Call} {d' : Disk} {g' : Know},
      (∀ t, d'.files (.lock t) = d.files (.lock t)) →
      g'.held = g.held → g'.stale = g.stale → LockStep limit call d g d' g' :=
    fun hfiles hheld hstale => .same hfiles (hheld ▸ List.Subset.refl _)
      fun t inode h => .inl (hstale ▸ h)
  cases call with
  | clock => exact hsame (fun _ => rfl) rfl rfl
  | uuid => exact hsame (fun _ => rfl) rfl rfl
  | create target token =>
    cases fault with
    | none =>
      cases hfile : d.files (.lock target) with
      | none =>
        simp only [Disk.perform, hfile]
        exact .created target token rfl hfile (Disk.put_self ..)
          (fun t' hne => Disk.put_other _ _ (fun h => hne (Name.lock.inj h))) rfl hallowed rfl rfl
      | some file =>
        simp only [Disk.perform, hfile]
        exact hsame (fun _ => rfl) rfl rfl
    | clean => exact hsame (fun _ => rfl) rfl rfl
    | dirty => exact hsame (fun _ => rfl) rfl rfl
  | writeToken target inode token =>
    obtain ⟨h, hmem, rfl, rfl, rfl⟩ := hallowed
    have hwritten : ∀ (content : Content) (done : Done),
        LockStep limit (.writeToken h.target h.inode h.token) d g
          (d.writeInode (.lock h.target) h.inode content)
          (nextKnow limit g (.writeToken h.target h.inode h.token) done) := by
      intro content done
      refine .written h hmem ?_ ?_ rfl rfl
      · intro file hfile
        simp only [Disk.writeInode, hfile]
        by_cases hinode : file.inode = h.inode
        · rw [if_pos hinode, Disk.put_self]
          exact ⟨_, rfl, rfl, .inr rfl⟩
        · rw [if_neg hinode, hfile]
          exact ⟨file, rfl, rfl, .inl rfl⟩
      · intro t' hne
        unfold Disk.writeInode
        cases d.files (.lock h.target) with
        | none => rfl
        | some file =>
          dsimp only
          by_cases hinode : file.inode = h.inode
          · rw [if_pos hinode]
            exact Disk.put_other _ _ fun heq => hne (Name.lock.inj heq)
          · rw [if_neg hinode]
    cases fault with
    | none => exact hwritten _ _
    | clean => exact hsame (fun _ => rfl) rfl rfl
    | dirty => exact hwritten _ _
  | fsync => cases fault <;> exact hsame (fun _ => rfl) rfl rfl
  | stat name =>
    cases name with
    | lock target =>
      cases fault with
      | none =>
        cases hfile : d.files (.lock target) with
        | none =>
          simp only [Disk.perform, hfile]
          exact hsame (fun _ => rfl) rfl rfl
        | some file =>
          simp only [Disk.perform, hfile]
          refine .same (fun _ => rfl) (List.Subset.refl _) ?_
          intro t inode hstale
          obtain ⟨now, hclock, hage⟩ := Option.bind_eq_some_iff.mp hstale
          by_cases hold : limit < now - file.mtime
          · rw [if_pos hold] at hage
            obtain ⟨rfl, rfl⟩ := Prod.mk.inj (Option.some.inj hage)
            exact .inr ⟨hallowed _ rfl, now, file, hclock, hfile, rfl, hold⟩
          · rw [if_neg hold] at hage
            cases hage
      | clean => exact hsame (fun _ => rfl) rfl rfl
      | dirty => exact hsame (fun _ => rfl) rfl rfl
    | base file | lease target | temp target owner =>
      exact hsame (fun _ => by rw [perform_stat]) rfl rfl
  | unlink name =>
    cases name with
    | lock target =>
      exact .removed target rfl (fun _ => hallowed)
        (fun t' hne => perform_unlink_other d fault listing fun h => hne (Name.lock.inj h)) rfl rfl
    | base file | lease target | temp target owner =>
      exact hcarries (fun _ => perform_unlink_other d fault listing nofun)
        (carries_unlink limit g _ (by simp))
  | read name => exact hcarries (fun _ => by rw [perform_read]) (carries_read limit g name _)
  | writeText name content =>
    obtain ⟨target, owner, rfl, -⟩ := hallowed
    exact hcarries (fun t => lock_perform_writeText d fault listing t (by simp))
      (carries_writeText limit g _ content _)
  | replace source destination =>
    refine hcarries (fun t => ?_) (carries_replace limit g source destination _)
    cases source with
    | base file =>
      cases destination with
      | base file' => exact lock_perform_replace d fault listing t (by simp) (by simp)
      | lease _ | lock _ | temp _ _ => exact hallowed.elim
    | temp target owner =>
      cases destination with
      | lease target' => exact lock_perform_replace d fault listing t (by simp) (by simp)
      | base _ | lock _ | temp _ _ => exact hallowed.elim
    | lease target | lock target => exact hallowed.elim
  | «exists» name => exact hsame (fun _ => by rw [perform_exists]) rfl rfl
  | listdir => cases fault <;> exact hsame (fun _ => rfl) rfl rfl
  | remove name =>
    rw [perform_remove]
    cases name with
    | lock target =>
      exact .removed target rfl nofun
        (fun t' hne => perform_unlink_other d fault listing fun h => hne (Name.lock.inj h)) rfl rfl
    | base file | lease target | temp target owner =>
      exact hsame (fun _ => perform_unlink_other d fault listing nofun) rfl rfl
  | isDir name => exact hsame (fun _ => by rw [perform_isDir]) rfl rfl
  | getmtime name => exact hsame (fun _ => by rw [perform_getmtime]) rfl rfl
  | scandir directory => exact hsame (fun _ => by rw [perform_scandir]) rfl rfl
  | rmdir name => exact hsame (fun _ => by rw [files_perform_rmdir]) rfl rfl

/-- The inodes of a directory are in use. -/
def Disk.Numbered (d : Disk) : Prop := ∀ name file, d.files name = some file → file.inode < d.fresh

/-- The clock does not move, and inodes stay numbered. -/
structure Disk.Later (d d' : Disk) : Prop where
  now : d'.now = d.now
  fresh : d.fresh ≤ d'.fresh
  numbered : d.Numbered → d'.Numbered

theorem Disk.Later.refl (d : Disk) : d.Later d := ⟨rfl, Nat.le_refl _, id⟩

theorem Disk.later_fresh (d : Disk) : d.Later { d with fresh := d.fresh + 1 } :=
  ⟨rfl, Nat.le_succ _, fun h name file hf => Nat.lt_succ_of_lt (h name file hf)⟩

theorem Disk.later_put {d : Disk} {name : Name} {file : Option File}
    (hfile : d.Numbered → ∀ f, file = some f → f.inode < d.fresh) : d.Later (d.put name file) := by
  refine ⟨rfl, Nat.le_refl _, fun h other f hf => ?_⟩
  by_cases hne : other = name
  · subst hne
    rw [Disk.put_self] at hf
    exact hfile h f hf
  · rw [Disk.put_other d file hne] at hf
    exact h other f hf

theorem Disk.later_new (d : Disk) (name : Name) (content : Content) :
    d.Later (({ d with fresh := d.fresh + 1 } : Disk).put name
      (some ⟨d.fresh, content, d.now⟩)) := by
  have hput : ({ d with fresh := d.fresh + 1 } : Disk).Later
      (({ d with fresh := d.fresh + 1 } : Disk).put name (some ⟨d.fresh, content, d.now⟩)) := by
    apply later_put
    rintro - f hf
    obtain rfl := Option.some.inj hf
    exact Nat.lt_succ_self _
  exact ⟨rfl, Nat.le_succ _, fun h => hput.numbered (d.later_fresh.numbered h)⟩

theorem Disk.later_rewrite {d : Disk} {name : Name} {file : File} (content : Content)
    (hfile : d.files name = some file) :
    d.Later (d.put name (some { file with content := content, mtime := d.now })) := by
  apply later_put
  rintro h f hf
  obtain rfl := Option.some.inj hf
  exact h name file hfile

theorem Disk.later_writeFile (d : Disk) (name : Name) (content : Content) :
    d.Later (d.writeFile name content) := by
  unfold Disk.writeFile
  cases hfile : d.files name with
  | none => exact d.later_new name content
  | some file => exact later_rewrite content hfile

theorem Disk.later_writeInode (d : Disk) (name : Name) (inode : Nat) (content : Content) :
    d.Later (d.writeInode name inode content) := by
  unfold Disk.writeInode
  cases hfile : d.files name with
  | none => exact .refl d
  | some file =>
    dsimp only
    by_cases hinode : file.inode = inode
    · rw [if_pos hinode]
      exact later_rewrite content hfile
    · rw [if_neg hinode]
      exact .refl d

theorem Disk.later_move (d : Disk) (source destination : Name) :
    d.Later (d.move source destination) := by
  have hput : d.Later (d.put destination (d.files source)) :=
    later_put fun h f hf => h source f hf
  exact ⟨rfl, Nat.le_refl _, fun h => (later_put (by simp)).numbered (hput.numbered h)⟩

theorem Disk.later_perform (d : Disk) (fault : Fault) (listing : List Name) (call : Call) :
    d.Later (d.perform fault listing call).2 := by
  cases call with
  | clock => exact .refl d
  | uuid => exact d.later_fresh
  | create target token =>
    cases fault <;> cases hfile : d.files (.lock target) <;> simp only [Disk.perform, hfile]
    all_goals first | exact .refl d | exact d.later_new _ _
  | writeToken target inode token =>
    cases fault
    · exact d.later_writeInode _ _ _
    · exact .refl d
    · exact d.later_writeInode _ _ _
  | fsync => cases fault <;> exact .refl d
  | stat name =>
    rw [perform_stat]
    exact .refl d
  | unlink name | remove name =>
    cases fault <;> cases hfile : d.files name <;> simp only [Disk.perform, hfile]
    all_goals first | exact .refl d | exact later_put nofun
  | read name =>
    rw [perform_read]
    exact .refl d
  | writeText name content =>
    cases fault
    · exact d.later_writeFile _ _
    · exact .refl d
    · exact d.later_writeFile _ _
  | replace source destination =>
    cases fault <;> cases hfile : d.files source <;> simp only [Disk.perform, hfile]
    all_goals first | exact .refl d | exact d.later_move _ _
  | «exists» name =>
    rw [perform_exists]
    exact .refl d
  | listdir => cases fault <;> exact .refl d
  | isDir name =>
    rw [perform_isDir]
    exact .refl d
  | getmtime name =>
    rw [perform_getmtime]
    exact .refl d
  | scandir directory =>
    rw [perform_scandir]
    exact .refl d
  | rmdir name =>
    have hrmdir : d.Later { d with directories := Function.update d.directories name none } :=
      ⟨rfl, Nat.le_refl _, id⟩
    cases fault with
    | none => exact hrmdir
    | clean => exact .refl d
    | dirty => exact hrmdir

theorem clock_next {limit : Rat} {g : Know} {d : Disk} {fault : Fault} {listing : List Name}
    {call : Call} {now : Rat}
    (h : (nextKnow limit g call (d.perform fault listing call).1).clock = some now) :
    g.clock = some now ∨ now = d.now := by
  cases call with
  | clock => exact .inr (Option.some.inj h).symm
  | uuid | writeToken _ _ _ | fsync | listdir | «exists» _ | isDir _ | getmtime _ | scandir _
  | rmdir _ => exact .inl h
  | remove name => cases name <;> exact .inl h
  | create target token =>
    cases fault <;> cases hfile : d.files (.lock target) <;> simp only [Disk.perform, hfile] at h
    all_goals first | exact .inl h | cases h
  | stat name =>
    cases name with
    | lock target =>
      cases fault <;> cases hfile : d.files (.lock target) <;>
        simp only [Disk.perform, hfile] at h <;> exact .inl h
    | base file | lease target | temp target owner => exact .inl h
  | read name => exact .inl ((carries_read limit g name _).clock ▸ h)
  | unlink name =>
    by_cases hlock : ∃ target, name = .lock target
    · obtain ⟨target, rfl⟩ := hlock
      exact .inl h
    · exact .inl ((carries_unlink limit g _ fun t ht => hlock ⟨t, ht⟩).clock ▸ h)
  | writeText name content => exact .inl ((carries_writeText limit g name content _).clock ▸ h)
  | replace source destination =>
    exact .inl ((carries_replace limit g source destination _).clock ▸ h)

section LockStep

variable {limit : Rat} {call : Call} {d d' : Disk} {g g' : Know}

theorem LockStep.held_next (h : LockStep limit call d g d' g') (hlater : d.Later d') {x : Hold}
    (hx : x ∈ g'.held) : x ∈ g.held ∨
      (x.inode = d.fresh ∧ d.fresh < d'.fresh ∧ x.since = d.now ∧ d'.Keeps x) := by
  cases h with
  | same _ hheld _ => exact .inl (hheld hx)
  | created t token _ _ hfile _ hfresh _ hheld _ =>
    rw [hheld] at hx
    rcases List.mem_cons.mp hx with rfl | hx
    · refine .inr ⟨rfl, hfresh ▸ Nat.lt_succ_self _, rfl, ?_⟩
      exact ⟨le_of_eq hlater.now.symm, _, hfile, rfl, le_refl _⟩
    · exact .inl hx
  | written _ _ _ _ hheld _ => exact .inl (hheld ▸ hx)
  | removed t _ _ _ hheld _ =>
    rw [hheld] at hx
    exact .inl (List.mem_of_mem_filter hx)

theorem LockStep.held_create (h : LockStep limit call d g d' g') {x : Hold} (hx : x ∈ g'.held) :
    x ∈ g.held ∨ ∃ token, call = .create x.target token := by
  cases h with
  | same _ hheld _ => exact .inl (hheld hx)
  | created t token hcall _ _ _ _ _ hheld _ =>
    rw [hheld] at hx
    rcases List.mem_cons.mp hx with rfl | hx
    · exact .inr ⟨token, hcall⟩
    · exact .inl hx
  | written _ _ _ _ hheld _ => exact .inl (hheld ▸ hx)
  | removed t _ _ _ hheld _ =>
    rw [hheld] at hx
    exact .inl (List.mem_of_mem_filter hx)

theorem LockStep.stale_next (h : LockStep limit call d g d' g') {t : Name} {inode : Nat}
    (hstale : g'.stale = some (t, inode)) :
    g.stale = some (t, inode) ∨ FoundStale limit d g t inode := by
  cases h with
  | same _ _ hsame => exact hsame t inode hstale
  | created _ _ _ _ _ _ _ _ _ heq => exact .inl (heq ▸ hstale)
  | written _ _ _ _ _ heq => exact .inl (heq ▸ hstale)
  | removed _ _ _ _ _ heq =>
    rw [heq] at hstale
    cases hstale

theorem LockStep.keeps_next (h : LockStep limit call d g d' g') (hlater : d.Later d') {x : Hold}
    (hx : d.Keeps x)
    (hremoved : call.unlocks = some x.target →
      g'.held = (g.held.filter fun h => h.target ≠ x.target) → d'.Keeps x) :
    d'.Keeps x := by
  obtain ⟨hsince, file, hfile, hinode, hmtime⟩ := hx
  have hnow : x.since ≤ d'.now := hlater.now ▸ hsince
  cases h with
  | same hfiles _ _ => exact ⟨hnow, file, (hfiles _).trans hfile, hinode, hmtime⟩
  | created t _ _ hfree _ hothers _ _ _ _ =>
    have hne : x.target ≠ t := by
      rintro rfl
      rw [hfree] at hfile
      cases hfile
    exact ⟨hnow, file, (hothers _ hne).trans hfile, hinode, hmtime⟩
  | written h _ hwritten hothers _ _ =>
    by_cases ht : x.target = h.target
    · rw [ht] at hfile
      obtain ⟨file', hfile', hinode', hmtime'⟩ := hwritten file hfile
      refine ⟨hnow, file', ht ▸ hfile', hinode'.trans hinode, ?_⟩
      rcases hmtime' with heq | heq
      · exact heq ▸ hmtime
      · exact heq ▸ hsince
    · exact ⟨hnow, file, (hothers _ ht).trans hfile, hinode, hmtime⟩
  | removed t hcall hright hothers hheld _ =>
    by_cases ht : x.target = t
    · subst ht
      exact hremoved hcall hheld
    · exact ⟨hnow, file, (hothers _ ht).trans hfile, hinode, hmtime⟩

end LockStep

namespace World

/-- Process `i` is alive and in this state. -/
def Live (w : World) (i : Nat) (p : Process) : Prop := w.processes[i]? = some p ∧ p.alive = true

/-- Who removes a lock file that it does not hold removes the one it found stale, or none. -/
def BreaksRight (w : World) (p : Process) : Prop :=
  ∀ target ∈ p.unlocks, p.know.Holds target ∨
    ∀ file ∈ w.disk.files (.lock target), p.know.stale = some (target, file.inode)

instance (w : World) (p : Process) : Decidable (w.BreaksRight p) :=
  inferInstanceAs (Decidable (∀ target ∈ p.unlocks, _ ∨ _))

/-- No live process has held a lock for longer than `limit`. -/
def Recent (limit : Rat) (w : World) : Prop :=
  ∀ p ∈ w.processes, p.alive = true → ∀ h ∈ p.know.held, w.disk.now - h.since ≤ limit

instance (limit : Rat) (w : World) : Decidable (w.Recent limit) :=
  inferInstanceAs (Decidable (∀ p ∈ w.processes, p.alive = true → ∀ h ∈ p.know.held,
    w.disk.now - h.since ≤ limit))

/-- Processes are proper, media files have base names, and stale locks are broken right. -/
def Regular (limit : Rat) (w : World) : Action → Prop
  | .spawn task => task.Proper limit
  | .advance i _ _ => ∀ p ∈ w.processes[i]?, w.BreaksRight p
  | .media name _ => name.isBase = true
  | .crash _ | .tick _ | .directory _ _ => True

instance (limit : Rat) (w : World) : (a : Action) → Decidable (w.Regular limit a)
  | .spawn task => inferInstanceAs (Decidable (task.Proper limit))
  | .advance i _ _ => inferInstanceAs (Decidable (∀ p ∈ w.processes[i]?, w.BreaksRight p))
  | .media _ _ => inferInstanceAs (Decidable (_ = true))
  | .crash _ | .tick _ | .directory _ _ => isTrue trivial

/-- A regular step after which no lock is held for too long. -/
def Admitted (limit : Rat) (w : World) (a : Action) : Prop :=
  w.Regular limit a ∧ ∀ w' ∈ w.step limit a, w'.Recent limit

instance (limit : Rat) (w : World) (a : Action) : Decidable (w.Admitted limit a) :=
  inferInstanceAs (Decidable (w.Regular limit a ∧ ∀ w' ∈ w.step limit a, w'.Recent limit))

/-- The invariant of the locks: their holds are apart and keep their files, and no live process
holds what another one found stale. -/
structure Locked (limit : Rat) (w : World) : Prop where
  follows : ∀ i p, w.Live i p → Follows (protocol limit) p.know p.program fun _ _ => True
  numbered : w.disk.Numbered
  kept : ∀ i p, w.Live i p → ∀ h ∈ p.know.held, w.disk.Keeps h
  recent : w.Recent limit
  apart : ∀ i j p q, w.Live i p → w.Live j q → ∀ h ∈ p.know.held, ∀ h' ∈ q.know.held,
    h.inode = h'.inode → i = j
  stale : ∀ i p, w.Live i p → ∀ t inode, p.know.stale = some (t, inode) →
    inode < w.disk.fresh ∧ ∀ j q, w.Live j q → ∀ h ∈ q.know.held, h.target = t → h.inode ≠ inode
  clock : ∀ i p, w.Live i p → ∀ now, p.know.clock = some now → now ≤ w.disk.now

variable {limit : Rat} {w : World} {i : Nat} {p : Process}

theorem Locked.exclusive (hw : w.Locked limit) {j : Nat} {q : Process} (hi : w.Live i p)
    (hj : w.Live j q) {h h' : Hold} (hh : h ∈ p.know.held) (hh' : h' ∈ q.know.held)
    (ht : h.target = h'.target) : i = j := by
  obtain ⟨-, file, hfile, hinode, -⟩ := hw.kept i p hi h hh
  obtain ⟨-, file', hfile', hinode', -⟩ := hw.kept j q hj h' hh'
  rw [← ht, hfile] at hfile'
  obtain rfl := Option.some.inj hfile'
  exact hw.apart i j p q hi hj h hh h' hh' (hinode.symm.trans hinode')

theorem live_afterCall {fault : Fault} {listing : List Name} {call : Call}
    {next : call.Result → Program Empty Call Call.Result Outcome} (hi : w.Live i p) {j : Nat}
    {q : Process} (hj : (w.afterCall limit i p fault listing call next).Live j q) :
    (j = i ∧ q = ⟨p.task, next (w.disk.perform fault listing call).1,
      nextKnow limit p.know call (w.disk.perform fault listing call).1, p.alive⟩) ∨
      (j ≠ i ∧ w.Live j q) := by
  obtain ⟨hq, halive⟩ := hj
  change (w.processes.set i _)[j]? = some q at hq
  rw [getElem?_replaced hi.1] at hq
  by_cases hji : j = i
  · rw [if_pos hji] at hq
    exact .inl ⟨hji, (Option.some.inj hq).symm⟩
  · rw [if_neg hji] at hq
    exact .inr ⟨hji, hq, halive⟩

theorem Locked.keeps_afterCall (hw : w.Locked limit) (hi : w.Live i p) {fault : Fault}
    {listing : List Name} {call : Call}
    {next : call.Result → Program Empty Call Call.Result Outcome}
    (hprogram : p.program = .perform call next) (hright : w.BreaksRight p) {j : Nat}
    {q : Process} (hj : w.Live j q) {h : Hold} (hh : h ∈ q.know.held)
    (hleft : j = i → h ∈ (nextKnow limit p.know call (w.disk.perform fault listing call).1).held) :
    (w.disk.perform fault listing call).2.Keeps h := by
  have hfollows := hw.follows i p hi
  rw [hprogram] at hfollows
  apply (lockStep limit fault listing hfollows.1).keeps_next
    (w.disk.later_perform fault listing call) (hw.kept j q hj h hh)
  intro hcall hheld
  exfalso
  by_cases hji : j = i
  · have hmem := hleft hji
    rw [hheld] at hmem
    simpa using List.of_mem_filter hmem
  · have hunlocks : p.unlocks = some h.target := by
      unfold Process.unlocks Process.nextCall
      rw [hprogram]
      exact hcall
    rcases hright h.target hunlocks with ⟨h', hh', ht⟩ | hbreak
    · exact hji (hw.exclusive hj hi hh hh' ht.symm)
    · obtain ⟨-, file, hfile, hinode, -⟩ := hw.kept j q hj h hh
      exact (hw.stale i p hi _ _ (hbreak file hfile)).2 j q hj h hh rfl hinode.symm

/-- A lock that is older than every hold may be belongs to nobody who is alive. -/
theorem Locked.found_stale (hw : w.Locked limit) (hi : w.Live i p) {t : Name} {inode : Nat}
    (hfound : FoundStale limit w.disk p.know t inode) : inode < w.disk.fresh ∧
      ∀ j q, w.Live j q → ∀ h ∈ q.know.held, h.target = t → h.inode ≠ inode := by
  obtain ⟨-, now, file, hclock, hfile, rfl, hage⟩ := hfound
  refine ⟨hw.numbered _ file hfile, ?_⟩
  rintro j q hj h hh rfl -
  obtain ⟨-, file', hfile', -, hmtime⟩ := hw.kept j q hj h hh
  rw [hfile] at hfile'
  obtain rfl := Option.some.inj hfile'
  have hrecent := hw.recent q (List.mem_of_getElem? hj.1) hj.2 h hh
  have hnow := hw.clock i p hi now hclock
  linarith

theorem Locked.afterCall (hw : w.Locked limit) (hi : w.Live i p) (fault : Fault)
    (listing : List Name) {call : Call}
    {next : call.Result → Program Empty Call Call.Result Outcome}
    (hprogram : p.program = .perform call next) (hright : w.BreaksRight p)
    (hrecent : (w.afterCall limit i p fault listing call next).Recent limit) :
    (w.afterCall limit i p fault listing call next).Locked limit := by
  have hfollows := hw.follows i p hi
  rw [hprogram] at hfollows
  obtain ⟨hallowed, hnext⟩ := hfollows
  have hlater := w.disk.later_perform fault listing call
  have hstep := lockStep limit fault listing hallowed (d := w.disk)
  have hnow : (w.afterCall limit i p fault listing call next).disk.now = w.disk.now := hlater.now
  -- A hold after the call is an old one, or the new one of process `i`.
  have hheld : ∀ j q, (w.afterCall limit i p fault listing call next).Live j q →
      ∀ h ∈ q.know.held, (∃ q', w.Live j q' ∧ h ∈ q'.know.held ∧ (j = i →
        h ∈ (nextKnow limit p.know call (w.disk.perform fault listing call).1).held)) ∨
        (j = i ∧ h.inode = w.disk.fresh ∧
          w.disk.fresh < (w.disk.perform fault listing call).2.fresh ∧ h.since = w.disk.now ∧
          (w.disk.perform fault listing call).2.Keeps h) := by
    intro j q hj h hh
    rcases live_afterCall hi hj with ⟨rfl, rfl⟩ | ⟨hji, hj⟩
    · rcases hstep.held_next hlater hh with hold | hnew
      · exact .inl ⟨p, hi, hold, fun _ => hh⟩
      · exact .inr ⟨rfl, hnew⟩
    · exact .inl ⟨q, hj, hh, fun h => absurd h hji⟩
  have hinode : ∀ j q, w.Live j q → ∀ h ∈ q.know.held, h.inode < w.disk.fresh := by
    intro j q hj h hh
    obtain ⟨-, file, hfile, heq, -⟩ := hw.kept j q hj h hh
    exact heq ▸ hw.numbered _ file hfile
  constructor
  · intro j q hj
    rcases live_afterCall hi hj with ⟨rfl, rfl⟩ | ⟨-, hj⟩
    · exact hnext _
    · exact hw.follows j q hj
  · exact hlater.numbered hw.numbered
  · intro j q hj h hh
    rcases hheld j q hj h hh with ⟨q', hj', hh', hleft⟩ | ⟨-, -, -, -, hkeeps⟩
    · exact hw.keeps_afterCall hi hprogram hright hj' hh' hleft
    · exact hkeeps
  · exact hrecent
  · intro j k q r hj hk h hh h' hh' heq
    rcases hheld j q hj h hh with ⟨q', hj', hold, -⟩ | ⟨rfl, hnew, -⟩
    · rcases hheld k r hk h' hh' with ⟨r', hk', hold', -⟩ | ⟨rfl, hnew', -⟩
      · exact hw.apart j k q' r' hj' hk' h hold h' hold' heq
      · exact absurd (heq.trans hnew') (hinode j q' hj' h hold).ne
    · rcases hheld k r hk h' hh' with ⟨r', hk', hold', -⟩ | ⟨rfl, -⟩
      · exact absurd (heq.symm.trans hnew) (hinode k r' hk' h' hold').ne
      · rfl
  · intro j q hj t inode hstale
    have hfound : inode < w.disk.fresh ∧
        ∀ k r, w.Live k r → ∀ h ∈ r.know.held, h.target = t → h.inode ≠ inode := by
      rcases live_afterCall hi hj with ⟨rfl, rfl⟩ | ⟨-, hj⟩
      · rcases hstep.stale_next hstale with hold | hfound
        · exact hw.stale j p hi t inode hold
        · exact hw.found_stale hi hfound
      · exact hw.stale j q hj t inode hstale
    refine ⟨lt_of_lt_of_le hfound.1 hlater.fresh, fun k r hk h hh ht => ?_⟩
    rcases hheld k r hk h hh with ⟨r', hk', hh', -⟩ | ⟨-, hnew, -⟩
    · exact hfound.2 k r' hk' h hh' ht
    · exact hnew ▸ hfound.1.ne'
  · intro j q hj now hclock
    rw [hnow]
    rcases live_afterCall hi hj with ⟨rfl, rfl⟩ | ⟨-, hj⟩
    · rcases clock_next hclock with hclock | rfl
      · exact hw.clock _ p hi now hclock
      · exact le_refl _
    · exact hw.clock j q hj now hclock

theorem Locked.frame (hw : w.Locked limit) {w' : World}
    (hlive : ∀ j q, w'.Live j q → w.Live j q ∨
      ∃ task : Task, task.Proper limit ∧ q = .start task)
    (hnow : w.disk.now ≤ w'.disk.now) (hfresh : w.disk.fresh ≤ w'.disk.fresh)
    (hnumbered : w'.disk.Numbered)
    (hlocks : ∀ t, w'.disk.files (.lock t) = w.disk.files (.lock t))
    (hrecent : w'.Recent limit) : w'.Locked limit := by
  have hheld : ∀ j q, w'.Live j q → ∀ h ∈ q.know.held, w.Live j q := by
    intro j q hj h hh
    rcases hlive j q hj with hold | ⟨task, -, rfl⟩
    · exact hold
    · exact absurd hh List.not_mem_nil
  constructor
  · intro j q hj
    rcases hlive j q hj with hold | ⟨task, htask, rfl⟩
    · exact hw.follows j q hold
    · exact Task.follows htask
  · exact hnumbered
  · intro j q hj h hh
    obtain ⟨hsince, file, hfile, hkept⟩ := hw.kept j q (hheld j q hj h hh) h hh
    exact ⟨hsince.trans hnow, file, (hlocks _).trans hfile, hkept⟩
  · exact hrecent
  · intro j k q r hj hk h hh h' hh' heq
    exact hw.apart j k q r (hheld j q hj h hh) (hheld k r hk h' hh') h hh h' hh' heq
  · intro j q hj t inode hstale
    rcases hlive j q hj with hold | ⟨task, -, rfl⟩
    · obtain ⟨hlt, hnot⟩ := hw.stale j q hold t inode hstale
      refine ⟨lt_of_lt_of_le hlt hfresh, ?_⟩
      exact fun k r hk h hh ht => hnot k r (hheld k r hk h hh) h hh ht
    · cases hstale
  · intro j q hj now hclock
    rcases hlive j q hj with hold | ⟨task, -, rfl⟩
    · exact (hw.clock j q hold now hclock).trans hnow
    · cases hclock

theorem live_spawn {task : Task} {j : Nat} {q : Process}
    (hj : ({ w with processes := w.processes ++ [.start task] } : World).Live j q) :
    w.Live j q ∨ (j = w.processes.length ∧ q = .start task) := by
  obtain ⟨hq, halive⟩ := hj
  rw [getElem?_joined] at hq
  by_cases hjl : j = w.processes.length
  · rw [if_pos hjl] at hq
    exact .inr ⟨hjl, (Option.some.inj hq).symm⟩
  · rw [if_neg hjl] at hq
    exact .inl ⟨hq, halive⟩

theorem live_crash {p : Process} (hp : w.processes[i]? = some p) {j : Nat} {q : Process}
    (hj : (w.setProcess i { p with alive := false }).Live j q) : w.Live j q := by
  obtain ⟨hq, halive⟩ := hj
  change (w.processes.set i _)[j]? = some q at hq
  rw [getElem?_replaced hp] at hq
  by_cases hji : j = i
  · rw [if_pos hji] at hq
    obtain rfl := Option.some.inj hq
    cases halive
  · rw [if_neg hji] at hq
    exact ⟨hq, halive⟩

theorem step_advance {w' : World} {fault : Fault} {listing : List Name}
    (hs : w.step limit (.advance i fault listing) = some w') :
    ∃ p call next, w.Live i p ∧ p.program = .perform call next ∧
      w' = w.afterCall limit i p fault listing call next := by
  obtain ⟨p, hp, hs⟩ := Option.bind_eq_some_iff.mp hs
  by_cases halive : p.alive = true
  · rw [if_pos halive] at hs
    cases hprogram : p.program with
    | perform call next =>
      rw [hprogram] at hs
      exact ⟨p, call, next, ⟨hp, halive⟩, hprogram, (Option.some.inj hs).symm⟩
    | pure value =>
      rw [hprogram] at hs
      cases hs
    | raise error => cases error
  · rw [if_neg halive] at hs
    cases hs

theorem locked_step {w' : World} {a : Action} (hw : w.Locked limit) (hG : w.Admitted limit a)
    (hs : w.step limit a = some w') : w'.Locked limit := by
  have hrecent : w'.Recent limit := hG.2 w' hs
  cases a with
  | spawn task =>
    obtain rfl := Option.some.inj hs
    exact hw.frame (fun j q hj => (live_spawn hj).imp id fun h => ⟨task, hG.1, h.2⟩) (le_refl _)
      (Nat.le_refl _) hw.numbered (fun _ => rfl) hrecent
  | advance i fault listing =>
    obtain ⟨p, call, next, hi, hprogram, rfl⟩ := step_advance hs
    exact hw.afterCall hi _ _ hprogram (hG.1 p hi.1) hrecent
  | crash i =>
    obtain ⟨p, hp, rfl⟩ := Option.map_eq_some_iff.mp hs
    exact hw.frame (fun j q hj => .inl (live_crash hp hj)) (le_refl _) (Nat.le_refl _)
      hw.numbered (fun _ => rfl) hrecent
  | tick elapsed =>
    by_cases helapsed : 0 ≤ elapsed
    · rw [step, if_pos helapsed] at hs
      obtain rfl := Option.some.inj hs
      exact hw.frame (fun j q hj => .inl hj) (le_add_of_nonneg_right helapsed) (Nat.le_refl _)
        hw.numbered (fun _ => rfl) hrecent
    · rw [step, if_neg helapsed] at hs
      cases hs
  | media name content =>
    obtain ⟨file, rfl⟩ := Name.exists_of_isBase hG.1
    cases content with
    | some content =>
      obtain rfl := Option.some.inj hs
      have hlater := w.disk.later_writeFile (.base file) content
      exact hw.frame (fun j q hj => .inl hj) (le_of_eq hlater.now.symm) hlater.fresh
        (hlater.numbered hw.numbered) (fun t => lock_writeFile t (by simp)) hrecent
    | none =>
      obtain rfl := Option.some.inj hs
      have hlater : w.disk.Later (w.disk.put (.base file) none) := Disk.later_put (by simp)
      exact hw.frame (fun j q hj => .inl hj) (le_refl _) (Nat.le_refl _)
        (hlater.numbered hw.numbered) (fun t => lock_put t (by simp)) hrecent
  | directory name mtime =>
    obtain rfl := Option.some.inj hs
    exact hw.frame (fun j q hj => .inl hj) (le_refl _) (Nat.le_refl _) hw.numbered (fun _ => rfl)
      hrecent

theorem locked_initial (now : Rat) : (initial now).Locked limit := by
  have hnone : ∀ j q, ¬ (initial now).Live j q := fun j q h => nomatch h.1
  constructor
  · exact fun j q hj => absurd hj (hnone j q)
  · exact fun _ _ h => nomatch h
  · exact fun j q hj => absurd hj (hnone j q)
  · exact fun _ h => absurd h List.not_mem_nil
  · exact fun j _ q _ hj => absurd hj (hnone j q)
  · exact fun j q hj => absurd hj (hnone j q)
  · exact fun j q hj => absurd hj (hnone j q)

theorem locked_of_run {now : Rat} {as : List Action}
    (hr : (machine limit).run (initial now) as = some w)
    (hG : (machine limit).Admits (Admitted limit) (initial now) as) : w.Locked limit :=
  (machine limit).invariant_of_admits (fun _ _ _ => locked_step) (locked_initial now) hG hr

/-- Along every run in which no live process holds a lock for longer than `limit` and every
process that breaks a stale lock removes the very file it found stale: no two live processes are
inside one critical section, and who removes the lock it holds removes its own file. -/
theorem marker_lock_exclusive {now : Rat} {as : List Action}
    (hr : (machine limit).run (initial now) as = some w)
    (hG : (machine limit).Admits (Admitted limit) (initial now) as) :
    (∀ (i j : Nat) (p q : Process) target, w.processes[i]? = some p → w.processes[j]? = some q →
      p.Inside target → q.Inside target → i = j) ∧
    ∀ p ∈ w.processes, ∀ target, p.Inside target → p.nextCall = some (.unlink (.lock target)) →
      ∀ file, w.disk.files (.lock target) = some file →
        ∃ h ∈ p.know.held, h.target = target ∧ file.inode = h.inode := by
  have hlocked := locked_of_run hr hG
  constructor
  · rintro i j p q target hp hq ⟨hpalive, h, hh, ht⟩ ⟨hqalive, h', hh', ht'⟩
    exact hlocked.exclusive ⟨hp, hpalive⟩ ⟨hq, hqalive⟩ hh hh' (ht.trans ht'.symm)
  · rintro p hp target ⟨halive, h, hh, rfl⟩ - file hfile
    obtain ⟨i, hi⟩ := List.mem_iff_getElem?.mp hp
    obtain ⟨-, file', hfile', hinode, -⟩ := hlocked.kept i p ⟨hi, halive⟩ h hh
    rw [hfile] at hfile'
    obtain rfl := Option.some.inj hfile'
    exact ⟨h, hh, rfl, hinode⟩

/-- The sidecar over which processes contend. -/
def contended : Name := .base ⟨"media_0.mp4".toList, by decide⟩

/-- The steps up to a crashed owner and `breakers` processes for which its lock is stale. -/
def abandoned (breakers : Nat) : List Action :=
  .spawn (.entering [(contended, none)]) ::
    List.replicate breakers (.spawn (.entering [(contended, some 10)])) ++
    [.advance 0 .none [], .advance 0 .none [], .crash 0, .tick 11]

/-- The calls of process `i`. -/
def advances (i calls : Nat) : List Action := List.replicate calls (.advance i .none [])

/-- One process breaks the lock of a crashed one and enters. -/
theorem marker_lock_exclusive_oneBreaker :
    ∃ w, (machine 10).run (initial 0) (abandoned 1 ++ advances 1 8) = some w ∧
      (∃ p ∈ w.processes, p.Inside contended) ∧
      ∀ (i j : Nat) (p q : Process) target, w.processes[i]? = some p → w.processes[j]? = some q →
        p.Inside target → q.Inside target → i = j := by
  have hinside : ((machine 10).run (initial 0) (abandoned 1 ++ advances 1 8)).any (fun w =>
      decide (∃ p ∈ w.processes, p.Inside contended)) = true := by decide +kernel
  obtain ⟨w, hr, hw⟩ := (Option.any_eq_true _ _).mp hinside
  exact ⟨w, hr, of_decide_eq_true hw, (marker_lock_exclusive hr (by decide +kernel)).1⟩

/-- Two processes read the age of the lock of a crashed one. The first removes it and enters, the
second removes the lock of the first and enters. -/
theorem two_breakers_inside :
    (machine 10).Admits (fun w a => ∀ w' ∈ w.step 10 a, w'.Recent 10) (initial 0)
        (abandoned 2 ++ advances 1 4 ++ advances 2 4 ++ advances 1 4 ++ advances 2 4) ∧
      ∃ w, (machine 10).run (initial 0)
          (abandoned 2 ++ advances 1 4 ++ advances 2 4 ++ advances 1 4 ++ advances 2 4) = some w ∧
        ∃ p q, w.processes[1]? = some p ∧ w.processes[2]? = some q ∧
          p.Inside contended ∧ q.Inside contended := by
  refine ⟨by decide +kernel, ?_⟩
  have hinside : ((machine 10).run (initial 0)
      (abandoned 2 ++ advances 1 4 ++ advances 2 4 ++ advances 1 4 ++ advances 2 4)).any (fun w =>
        (w.processes[1]?.any fun p => decide (p.Inside contended)) &&
          w.processes[2]?.any fun p => decide (p.Inside contended)) = true := by decide +kernel
  obtain ⟨w, hr, hw⟩ := (Option.any_eq_true _ _).mp hinside
  obtain ⟨hp, hq⟩ := Bool.and_eq_true_iff.mp hw
  obtain ⟨p, hp, hpi⟩ := (Option.any_eq_true _ _).mp hp
  obtain ⟨q, hq, hqi⟩ := (Option.any_eq_true _ _).mp hq
  exact ⟨w, hr, p, q, hp, hq, of_decide_eq_true hpi, of_decide_eq_true hqi⟩

end World

end YtdlBot.Leases
