import YtdlBot.Leases.Locks

/-!
# What is known of sidecars is true

What a process knows of the files that its locks guard stays true until it gives the lock up, and
while it renames a media file it keeps the lock and the lease of the destination.
-/

namespace YtdlBot.Leases

open Framework

namespace Know

/-- What is known of the sidecar of `t`, and of its temporary files if they are there, is true. -/
structure Knows (g : Know) (d : Disk) (t : Name) : Prop where
  lease : g.maybe (.lease t) (d.content (.lease t))
  temp : ∀ owner, d.content (.temp t owner) = none ∨
    g.maybe (.temp t owner) (d.content (.temp t owner))

/-- Of the name onto which it renames a media file, a reservation has the lock and the lease. -/
def Covered (g : Know) : Prop :=
  ∀ rename, g.promoting = some rename →
    g.role = .reservation ∧ g.Holds rename.2 ∧ g.Leased rename.2

end Know

section Guarded

variable {limit : Rat} {d d' : Disk} {g g' : Know} {t : Name}

/-- Nothing that `t` guards is touched, but that temporary files may disappear. -/
def Untouched (t : Name) (d d' : Disk) : Prop :=
  d'.content (.lease t) = d.content (.lease t) ∧
    ∀ owner, d'.content (.temp t owner) = d.content (.temp t owner) ∨
      d'.content (.temp t owner) = none

theorem untouched_refl (t : Name) (d : Disk) : Untouched t d d := ⟨rfl, fun _ => .inl rfl⟩

theorem Untouched.of_files (h : ∀ name, guardOf name = some t → d'.files name = d.files name) :
    Untouched t d d' :=
  ⟨congrArg (Option.map File.content) (h (.lease t) rfl),
    fun owner => .inl (congrArg (Option.map File.content) (h (.temp t owner) rfl))⟩

theorem untouched_put {name : Name} {file : Option File} (h : guardOf name ≠ some t) :
    Untouched t d (d.put name file) :=
  .of_files fun _ hother => d.put_other file fun heq => h (heq ▸ hother)

theorem untouched_writeFile {name : Name} {content : Content} (h : guardOf name ≠ some t) :
    Untouched t d (d.writeFile name content) := by
  unfold Disk.writeFile
  cases d.files name with
  | none => exact .of_files fun _ hother => Disk.put_other _ _ fun heq => h (heq ▸ hother)
  | some file => exact untouched_put h

theorem untouched_writeInode {name : Name} {inode : Nat} {content : Content}
    (h : guardOf name ≠ some t) : Untouched t d (d.writeInode name inode content) := by
  unfold Disk.writeInode
  cases d.files name with
  | none => exact untouched_refl t d
  | some file =>
    dsimp only
    by_cases hinode : file.inode = inode
    · rw [if_pos hinode]
      exact untouched_put h
    · rw [if_neg hinode]
      exact untouched_refl t d

theorem untouched_move {source destination : Name} (hsource : guardOf source ≠ some t)
    (hdestination : guardOf destination ≠ some t) :
    Untouched t d (d.move source destination) := by
  apply Untouched.of_files
  intro other hother
  have hs : other ≠ source := fun heq => hsource (heq ▸ hother)
  have hd : other ≠ destination := fun heq => hdestination (heq ▸ hother)
  exact (Disk.put_other _ _ hs).trans (Disk.put_other _ _ hd)

theorem untouched_unlinkTemp (owner : String) :
    Untouched t d (d.put (.temp t owner) none) := by
  refine ⟨congrArg (Option.map File.content) (d.put_other none (by simp)), fun other => ?_⟩
  by_cases heq : Name.temp t other = .temp t owner
  · right
    rw [Disk.content, heq, Disk.put_self, Option.map_none]
  · exact .inl (congrArg (Option.map File.content) (d.put_other none heq))

theorem Know.Knows.untouched (h : g.Knows d t) (hdisk : Untouched t d d')
    (hmaybe : ∀ name, guardOf name = some t → g'.maybe name = g.maybe name) : g'.Knows d' t := by
  refine ⟨?_, fun owner => ?_⟩
  · rw [hmaybe _ rfl, hdisk.1]
    exact h.lease
  · rcases hdisk.2 owner with heq | hnone
    · rw [hmaybe _ rfl, heq]
      exact h.temp owner
    · exact .inl hnone

theorem Know.Knows.set {name : Name} {contents : Option Content → Prop} (h : g.Knows d t)
    (hothers : ∀ other, other ≠ name → d'.content other = d.content other)
    (hlease : name = .lease t → contents (d'.content name))
    (htemp : ∀ owner, name = .temp t owner →
      d'.content name = none ∨ contents (d'.content name)) :
    (g.set name contents).Knows d' t := by
  refine ⟨?_, fun owner => ?_⟩
  · by_cases heq : .lease t = name
    · subst heq
      rw [Know.set_self]
      exact hlease rfl
    · rw [Know.set_other _ _ heq, hothers _ heq]
      exact h.lease
  · by_cases heq : .temp t owner = name
    · subst heq
      rw [Know.set_self]
      exact htemp owner rfl
    · rw [Know.set_other _ _ heq, hothers _ heq]
      exact h.temp owner

theorem untouched_remove {name : Name} (fault : Fault) (listing : List Name)
    (hnone : guardOf name = some t → d.files name = none) :
    Untouched t d (d.perform fault listing (.remove name)).2 := by
  have hput : Untouched t d (d.put name none) := by
    by_cases hguard : guardOf name = some t
    · apply Untouched.of_files
      intro other _
      by_cases heq : other = name
      · rw [heq, Disk.put_self, hnone hguard]
      · exact Disk.put_other _ _ heq
    · exact untouched_put hguard
  cases fault <;> cases hfile : d.files name <;> simp only [Disk.perform, hfile]
  all_goals first | exact untouched_refl t d | exact hput

/-- Without the lock of `t`, a call leaves alone what it guards. -/
theorem untouched_perform {call : Call} (fault : Fault) (listing : List Name)
    (hallowed : allowsCall g call) (hnot : ¬ g.Holds t)
    (hremove : ∀ name, call = .remove name → guardOf name = some t → d.files name = none) :
    Untouched t d (d.perform fault listing call).2 := by
  cases call with
  | clock | uuid => exact untouched_refl t d
  | create target token =>
    cases fault <;> cases hfile : d.files (.lock target) <;> simp only [Disk.perform, hfile]
    all_goals exact untouched_refl t d
  | writeToken target inode token =>
    cases fault
    · exact untouched_writeInode (by simp [guardOf])
    · exact untouched_refl t d
    · exact untouched_writeInode (by simp [guardOf])
  | fsync | listdir => cases fault <;> exact untouched_refl t d
  | remove name => exact untouched_remove fault listing (hremove name rfl)
  | isDir _ | getmtime _ | scandir _ | rmdir _ => cases fault <;> exact untouched_refl t d
  | stat name =>
    rw [perform_stat]
    exact untouched_refl t d
  | read name =>
    rw [perform_read]
    exact untouched_refl t d
  | «exists» name =>
    rw [perform_exists]
    exact untouched_refl t d
  | unlink name =>
    have hput : Untouched t d (d.put name none) := by
      cases name with
      | base file => exact untouched_put (by simp [guardOf])
      | lock target => exact untouched_put (by simp [guardOf])
      | lease target =>
        exact untouched_put fun heq => hnot (Option.some.inj heq ▸ hallowed.1)
      | temp target owner =>
        by_cases heq : target = t
        · subst heq
          exact untouched_unlinkTemp owner
        · exact untouched_put fun h => heq (Option.some.inj h)
    cases fault <;> cases hfile : d.files name <;> simp only [Disk.perform, hfile]
    all_goals first | exact untouched_refl t d | exact hput
  | writeText name content =>
    obtain ⟨target, owner, rfl, hheld⟩ := hallowed
    have hwrite : ∀ content, Untouched t d (d.writeFile (.temp target owner) content) :=
      fun content => untouched_writeFile fun heq => hnot (Option.some.inj heq ▸ hheld)
    cases fault
    · exact hwrite _
    · exact untouched_refl t d
    · exact hwrite _
  | replace source destination =>
    have hmove : Untouched t d (d.move source destination) := by
      cases source with
      | base file =>
        cases destination with
        | base file' => exact untouched_move (by simp [guardOf]) (by simp [guardOf])
        | lease _ | lock _ | temp _ _ => exact hallowed.elim
      | temp target owner =>
        cases destination with
        | lease target' =>
          obtain ⟨rfl, hheld, -⟩ := hallowed
          have hne : some target ≠ some t := fun heq => hnot (Option.some.inj heq ▸ hheld)
          exact untouched_move hne hne
        | base _ | lock _ | temp _ _ => exact hallowed.elim
      | lease target | lock target => exact hallowed.elim
    cases fault <;> cases hfile : d.files source <;> simp only [Disk.perform, hfile]
    all_goals first | exact untouched_refl t d | exact hmove

theorem content_put {name : Name} {file : Option File} :
    (d.put name file).content name = file.map File.content := by
  rw [Disk.content, Disk.put_self]

theorem content_put_other {name other : Name} {file : Option File} (h : other ≠ name) :
    (d.put name file).content other = d.content other := by
  rw [Disk.content, Disk.put_other d file h, Disk.content]

theorem content_writeFile {name : Name} {content : Content} :
    (d.writeFile name content).content name = some content := by
  unfold Disk.writeFile
  cases d.files name with
  | none => exact content_put
  | some file => exact content_put

theorem content_writeFile_other {name other : Name} {content : Content} (h : other ≠ name) :
    (d.writeFile name content).content other = d.content other := by
  unfold Disk.writeFile
  cases d.files name with
  | none => exact content_put_other h
  | some file => exact content_put_other h

theorem Know.Knows.see (h : g.Knows d t) {target : Name} {content : Option Content}
    (hcontent : d.content (.lease target) = content) :
    (g.see (.lease target) content).Knows d t := by
  apply h.set (fun _ _ => rfl)
  · intro heq
    obtain rfl := Name.lease.inj heq
    exact ⟨h.lease, hcontent⟩
  · exact fun _ heq => nomatch heq

theorem holds_of_subset (h : g'.held ⊆ g.held) (ht : g'.Holds t) : g.Holds t := by
  obtain ⟨x, hx, hxt⟩ := ht
  exact ⟨x, h hx, hxt⟩

theorem knows_readLease {target : Name} (fault : Fault) (listing : List Name)
    (hread : g.role = .janitor → (d.perform fault listing (.read (.lease target))).1 = .fault →
      d.content (.lease target) = none)
    (hknows : g.Knows d t) :
    (nextKnow limit g (.read (.lease target))
      (d.perform fault listing (.read (.lease target))).1).Knows d t := by
  have hfault : (d.perform fault listing (.read (.lease target))).1 = .fault →
      (nextKnow limit g (.read (.lease target)) .fault).Knows d t := by
    intro hresult
    dsimp only [nextKnow]
    by_cases hrole : g.role = .janitor
    · rw [if_pos hrole]
      exact hknows.see (hread hrole hresult)
    · rw [if_neg hrole]
      exact hknows
  cases fault <;> cases hfile : d.files (.lease target) <;>
    simp only [Disk.perform, hfile] at hfault ⊢
  · exact hknows.see (by rw [Disk.content, hfile, Option.map_none])
  · exact hknows.see (by rw [Disk.content, hfile, Option.map_some])
  all_goals exact hfault rfl

theorem knows_create {target : Name} {token : Nat} {inode : Nat} {since : Rat} {file : File}
    (hknows : ∀ t, g.Holds t → g.Knows d t)
    (ht : (g.take ⟨target, inode, token, since⟩).Holds t) :
    (g.take ⟨target, inode, token, since⟩).Knows
      (({ d with fresh := d.fresh + 1 } : Disk).put (.lock target) (some file)) t := by
  by_cases heq : target = t
  · -- Nothing is known yet.
    have hall : ∀ name, guardOf name = some t → ∀ content,
        (g.take ⟨target, inode, token, since⟩).maybe name content := by
      intro name hname content
      show (if guardOf name = some target then fun _ => True else g.maybe name) content
      rw [if_pos (heq ▸ hname)]
      trivial
    exact ⟨hall _ rfl _, fun owner => .inr (hall _ rfl _)⟩
  · obtain ⟨x, hx, hxt⟩ := ht
    have hheld : g.Holds t := by
      rcases List.mem_cons.mp hx with rfl | hx
      · exact absurd hxt heq
      · exact ⟨x, hx, hxt⟩
    have hdisk : Untouched t d (({ d with fresh := d.fresh + 1 } : Disk).put (.lock target)
        (some file)) := untouched_refl t d
    refine (hknows t hheld).untouched hdisk ?_
    intro name hname
    show (if guardOf name = some target then fun _ => True else g.maybe name) = _
    rw [if_neg fun h => heq (Option.some.inj (h.symm.trans hname))]

theorem Know.Knows.gone (h : g.Knows d t) {name : Name}
    (hothers : ∀ other, other ≠ name → d'.content other = d.content other)
    (hnone : d'.content name = none) : (g.set name fun content => content = none).Knows d' t :=
  h.set hothers (fun _ => hnone) fun _ _ => .inl hnone

theorem Know.Knows.maybeGone (h : g.Knows d t) {name : Name}
    (hothers : ∀ other, other ≠ name → d'.content other = d.content other)
    (hname : d'.content name = d.content name ∨ d'.content name = none) :
    (g.set name fun content => g.maybe name content ∨ content = none).Knows d' t := by
  apply h.set hothers
  · rintro rfl
    rcases hname with heq | hnone
    · exact .inl (heq ▸ h.lease)
    · exact .inr hnone
  · rintro owner rfl
    rcases hname with heq | hnone
    · rw [heq]
      exact (h.temp owner).imp id .inl
    · exact .inl hnone

theorem knows_remove {name : Name} (fault : Fault) (listing : List Name)
    {next : Unlinked → Know} (hknows : g.Knows d t)
    (hok : next .ok = g.set name fun content => content = none)
    (hnotFound : next .notFound = g.set name fun content => content = none)
    (hfault : next .fault = g.set name fun content => g.maybe name content ∨ content = none) :
    (next (d.perform fault listing (.unlink name)).1).Knows
      (d.perform fault listing (.unlink name)).2 t := by
  have hput : ∀ other, other ≠ name → (d.put name none).content other = d.content other :=
    fun _ => content_put_other
  cases fault <;> cases hfile : d.files name <;> simp only [Disk.perform, hfile]
  · rw [hnotFound]
    exact hknows.gone (fun _ _ => rfl) (by rw [Disk.content, hfile, Option.map_none])
  · rw [hok]
    exact hknows.gone hput content_put
  · rw [hfault]
    exact hknows.maybeGone (fun _ _ => rfl) (.inl rfl)
  · rw [hfault]
    exact hknows.maybeGone (fun _ _ => rfl) (.inl rfl)
  · rw [hfault]
    exact hknows.maybeGone hput (.inr content_put)
  · rw [hfault]
    exact hknows.maybeGone hput (.inr content_put)

theorem knows_unlink {name : Name} (fault : Fault) (listing : List Name)
    (hname : ∀ t, name ≠ .lock t) (hknows : g.Knows d t) :
    (nextKnow limit g (.unlink name) (d.perform fault listing (.unlink name)).1).Knows
      (d.perform fault listing (.unlink name)).2 t := by
  cases name with
  | lock target => exact absurd rfl (hname target)
  | base file =>
    have hdisk : Untouched t d (d.put (.base file) none) := untouched_put nofun
    cases fault <;> cases hfile : d.files (.base file) <;> simp only [Disk.perform, hfile]
    · exact hknows.untouched (untouched_refl t d) fun _ _ => rfl
    · exact hknows.untouched hdisk fun _ _ => rfl
    · exact hknows.maybeGone (fun _ _ => rfl) (.inl rfl)
    · exact hknows.maybeGone (fun _ _ => rfl) (.inl rfl)
    · exact hknows.maybeGone (fun _ => content_put_other) (.inr content_put)
    · exact hknows.maybeGone (fun _ => content_put_other) (.inr content_put)
  | lease target => exact knows_remove fault listing hknows rfl rfl rfl
  | temp target owner => exact knows_remove fault listing hknows rfl rfl rfl

theorem knows_writeText {owner : String} {content : Content} (fault : Fault)
    (listing : List Name) {target : Name} (hknows : g.Knows d t) :
    (nextKnow limit g (.writeText (.temp target owner) content)
      (d.perform fault listing (.writeText (.temp target owner) content)).1).Knows
      (d.perform fault listing (.writeText (.temp target owner) content)).2 t := by
  cases fault
  · exact hknows.set (fun _ => content_writeFile_other) (fun heq => nomatch heq)
      fun _ _ => .inr content_writeFile
  · exact hknows.set (fun _ _ => rfl) (fun heq => nomatch heq) fun _ _ => .inr trivial
  · exact hknows.set (fun _ => content_writeFile_other) (fun heq => nomatch heq)
      fun _ _ => .inr trivial

theorem knows_replaceMarker {owner : String} (fault : Fault) (listing : List Name) {target : Name}
    (hknows : g.Knows d t) :
    (nextKnow limit g (.replace (.temp target owner) (.lease target))
      (d.perform fault listing (.replace (.temp target owner) (.lease target))).1).Knows
      (d.perform fault listing (.replace (.temp target owner) (.lease target))).2 t := by
  -- The new sidecar is the temporary file, which is known.
  have hmoved : ∀ (file : File) (done : Done), d.files (.temp target owner) = some file →
      (nextKnow limit g (.replace (.temp target owner) (.lease target)) done).Knows
        (d.move (.temp target owner) (.lease target)) t := by
    intro file done hfile
    have hsource : d.content (.temp target owner) = some file.content := by
      rw [Disk.content, hfile, Option.map_some]
    apply Know.Knows.set (d := d.put (.lease target) (d.files (.temp target owner)))
    · apply hknows.set fun _ => content_put_other
      · intro heq
        obtain rfl := Name.lease.inj heq
        rw [content_put, ← Disk.content]
        have hmaybe := (hknows.temp owner).resolve_left (by rw [hsource]; nofun)
        cases done with
        | ok => exact hmaybe
        | fault => exact .inr hmaybe
      · exact fun _ heq => nomatch heq
    · exact fun _ => content_put_other
    · exact fun heq => nomatch heq
    · exact fun _ _ => .inr trivial
  have hfailed : (nextKnow limit g (.replace (.temp target owner) (.lease target)) .fault).Knows
      d t := by
    apply Know.Knows.set (d := d)
    · apply hknows.set fun _ _ => rfl
      · intro heq
        obtain rfl := Name.lease.inj heq
        exact .inl hknows.lease
      · exact fun _ heq => nomatch heq
    · exact fun _ _ => rfl
    · exact fun heq => nomatch heq
    · exact fun _ _ => .inr trivial
  cases fault <;> cases hfile : d.files (.temp target owner) <;> simp only [Disk.perform, hfile]
  · exact hfailed
  · exact hmoved _ .ok hfile
  · exact hfailed
  · exact hfailed
  · exact hfailed
  · exact hmoved _ .fault hfile

theorem knows_rename {a b : BaseName} (fault : Fault) (listing : List Name)
    (hknows : g.Knows d t) :
    (nextKnow limit g (.replace (.base a) (.base b))
      (d.perform fault listing (.replace (.base a) (.base b))).1).Knows
      (d.perform fault listing (.replace (.base a) (.base b))).2 t := by
  have hmaybe : ∀ done, (nextKnow limit g (.replace (.base a) (.base b)) done).maybe = g.maybe := by
    intro done
    dsimp only [nextKnow, Know.renamed]
    by_cases hback : g.promoting = some (.base b, .base a)
    · rw [if_pos hback]
      cases done <;> rfl
    · rw [if_neg hback]
  cases fault <;> cases hfile : d.files (.base a) <;> simp only [Disk.perform, hfile]
  all_goals exact hknows.untouched (untouched_refl t d) fun _ _ => congrFun (hmaybe _) _

/-- What a process does under its locks it knows. `hread`: a janitor that cannot read a sidecar
takes it for missing. -/
theorem knows_perform {call : Call} (fault : Fault) (listing : List Name)
    (hallowed : allowsCall g call)
    (hread : ∀ t, call = .read (.lease t) → g.role = .janitor →
      (d.perform fault listing (.read (.lease t))).1 = .fault → d.content (.lease t) = none)
    (hremove : ∀ name, call = .remove name → name.isBase = false → d.files name = none)
    (hknows : ∀ t, g.Holds t → g.Knows d t) :
    ∀ t, (nextKnow limit g call (d.perform fault listing call).1).Holds t →
      (nextKnow limit g call (d.perform fault listing call).1).Knows
        (d.perform fault listing call).2 t := by
  intro t ht
  have hsame : ∀ {d' : Disk}, g.Holds t → Untouched t d d' → g.Knows d' t :=
    fun hheld hdisk => (hknows t hheld).untouched hdisk fun _ _ => rfl
  cases call with
  | clock | uuid => exact (hknows t ht).untouched (untouched_refl t d) fun _ _ => rfl
  | create target token =>
    cases fault
    · cases hfile : d.files (.lock target) with
      | none =>
        simp only [Disk.perform, hfile] at ht ⊢
        exact knows_create hknows ht
      | some file =>
        simp only [Disk.perform, hfile] at ht ⊢
        exact hsame ht (untouched_refl t d)
    · exact hsame ht (untouched_refl t d)
    · exact hsame ht (untouched_refl t d)
  | writeToken target inode token =>
    cases fault
    · exact hsame ht (untouched_writeInode (by simp [guardOf]))
    · exact hsame ht (untouched_refl t d)
    · exact hsame ht (untouched_writeInode (by simp [guardOf]))
  | fsync | listdir | isDir _ | getmtime _ | scandir _ => cases fault <;> exact hknows t ht
  | rmdir name => cases fault <;> exact hsame ht (untouched_refl t d)
  | remove name =>
    have hnone : guardOf name = some t → d.files name = none := by
      intro hguard
      apply hremove name rfl
      cases name with
      | base file => cases hguard
      | lease _ | lock _ | temp _ _ => rfl
    have hdisk := untouched_remove fault listing hnone
    cases name with
    | lock target =>
      exact (hknows t (holds_of_subset List.filter_sublist.subset ht)).untouched hdisk fun _ _ => rfl
    | base file | lease target | temp target owner => exact hsame ht hdisk
  | stat name =>
    rw [perform_stat]
    cases name with
    | lock target =>
      cases fault <;> cases hfile : d.files (.lock target) <;>
        simp only [Disk.perform, hfile] at ht ⊢ <;>
        exact (hknows t ht).untouched (untouched_refl t d) fun _ _ => rfl
    | base file | lease target | temp target owner => exact hknows t ht
  | read name =>
    obtain ⟨target, rfl | rfl⟩ := hallowed
    · rw [perform_read]
      exact knows_readLease fault listing (hread target rfl)
        (hknows t (holds_of_subset (carries_read limit g _ _).held ht))
    · rw [perform_read]
      apply (hknows t (holds_of_subset (carries_read limit g _ _).held ht)).untouched
        (untouched_refl t d)
      intro name _
      dsimp only [nextKnow]
      by_cases hreads : g.reads target (d.perform fault listing (.read (.lock target))).1 = true
      · rw [if_pos hreads]
      · rw [if_neg hreads]
        rfl
  | «exists» name =>
    rw [perform_exists]
    exact (hknows t ht).untouched (untouched_refl t d) fun _ _ => rfl
  | unlink name =>
    by_cases hlock : ∃ target, name = .lock target
    · obtain ⟨target, rfl⟩ := hlock
      have hheld : g.Holds t := holds_of_subset List.filter_sublist.subset ht
      refine (hknows t hheld).untouched ?_ fun _ _ => rfl
      cases fault <;> cases hfile : d.files (.lock target) <;> simp only [Disk.perform, hfile]
      all_goals exact untouched_refl t d
    · have hname : ∀ t, name ≠ .lock t := fun t ht => hlock ⟨t, ht⟩
      exact knows_unlink fault listing hname
        (hknows t (holds_of_subset (carries_unlink limit g _ hname).held ht))
  | writeText name content =>
    obtain ⟨target, owner, rfl, -⟩ := hallowed
    exact knows_writeText fault listing
      (hknows t (holds_of_subset (carries_writeText limit g _ content _).held ht))
  | replace source destination =>
    have hknows := hknows t (holds_of_subset (carries_replace limit g source destination _).held ht)
    cases source with
    | base file =>
      cases destination with
      | base file' => exact knows_rename fault listing hknows
      | lease _ | lock _ | temp _ _ => exact hallowed.elim
    | temp target owner =>
      cases destination with
      | lease target' =>
        obtain ⟨rfl, -, -⟩ := hallowed
        exact knows_replaceMarker fault listing hknows
      | base _ | lock _ | temp _ _ => exact hallowed.elim
    | lease target | lock target => exact hallowed.elim

theorem Know.Covered.settle (h : g.Covered) (isOver : Name × Name → Bool) :
    (g.settle isOver).Covered :=
  fun rename hr => h rename (Option.filter_eq_some_iff.mp hr).1

theorem Know.Covered.drop (h : g.Covered) (target : Name) : (g.drop target).Covered := by
  intro rename hr
  obtain ⟨hp, hne⟩ := Option.filter_eq_some_iff.mp hr
  simp only [ne_eq, decide_eq_true_eq] at hne
  obtain ⟨hrole, ⟨x, hx, hxt⟩, hleased⟩ := h rename hp
  refine ⟨hrole, ⟨x, List.mem_filter.mpr ⟨hx, ?_⟩, hxt⟩, hleased⟩
  rw [hxt]
  simpa using hne

theorem Know.Covered.set (h : g.Covered) {name : Name} {contents : Option Content → Prop}
    (hname : ∀ t, name = .lease t → g.Settled t ∨
      ∀ content, contents content → g.maybe name content ∨ Named content) :
    (g.set name contents).Covered := by
  intro rename hr
  obtain ⟨hrole, hheld, hleased⟩ := h rename hr
  refine ⟨hrole, hheld, fun content hc => ?_⟩
  by_cases heq : .lease rename.2 = name
  · subst heq
    rw [Know.set_self] at hc
    rcases hname _ rfl with hsettled | honly
    · exact absurd hr (hsettled rename.1)
    · rcases honly content hc with hold | hnamed
      · exact hleased content hold
      · exact hnamed
  · rw [Know.set_other _ _ heq] at hc
    exact hleased content hc

theorem covered_read {name : Name} (h : g.Covered) (result : ReadText) :
    (nextKnow limit g (.read name) result).Covered := by
  have hsee : ∀ content, (g.see name content).Covered :=
    fun content => h.set fun t _ => .inr fun other hc => .inl hc.1
  cases name with
  | lock target =>
    dsimp only [nextKnow]
    by_cases hreads : g.reads target result = true
    · rw [if_pos hreads]
      exact h
    · rw [if_neg hreads]
      exact h.drop target
  | base file | lease target | temp target owner =>
    cases result with
    | ok content => exact hsee _
    | notFound => exact hsee _
    | fault =>
      dsimp only [nextKnow]
      by_cases hrole : g.role = .janitor
      · rw [if_pos hrole]
        exact hsee _
      · rw [if_neg hrole]
        exact h

theorem covered_unlink {name : Name} (h : g.Covered) (hallowed : allowsCall g (.unlink name))
    (result : Unlinked) : (nextKnow limit g (.unlink name) result).Covered := by
  cases name with
  | lock target =>
    exact fun rename hr => h.drop target rename hr
  | base file =>
    cases result with
    | ok => exact h.settle _
    | notFound => exact h.settle _
    | fault => exact h.set fun t heq => nomatch heq
  | lease target =>
    have hsettled : ∀ t, Name.lease target = .lease t → g.Settled t := by
      intro t heq
      obtain rfl := Name.lease.inj heq
      exact hallowed.2.1
    cases result with
    | ok => exact h.set fun t heq => .inl (hsettled t heq)
    | notFound => exact h.set fun t heq => .inl (hsettled t heq)
    | fault => exact h.set fun t heq => .inl (hsettled t heq)
  | temp target owner =>
    cases result with
    | ok => exact h.set fun t heq => nomatch heq
    | notFound => exact h.set fun t heq => nomatch heq
    | fault => exact h.set fun t heq => nomatch heq

theorem covered_replace {source destination : Name} (h : g.Covered)
    (hallowed : allowsCall g (.replace source destination)) (done : Done) :
    (nextKnow limit g (.replace source destination) done).Covered := by
  cases source with
  | base a =>
    cases destination with
    | base b =>
      dsimp only [nextKnow, Know.renamed]
      by_cases hback : g.promoting = some (.base b, .base a)
      · rw [if_pos hback]
        cases done with
        | ok =>
          intro rename hr
          cases hr
        | fault => exact h
      · rw [if_neg hback]
        obtain ⟨-, hheld, hleased⟩ := hallowed.2.resolve_left hback
        intro rename hr
        obtain rfl := Option.some.inj hr
        exact ⟨hallowed.1, hheld, hleased⟩
    | lease _ | lock _ | temp _ _ => exact hallowed.elim
  | temp target owner =>
    cases destination with
    | lease target' =>
      obtain ⟨rfl, -, hnamed⟩ := hallowed
      have hreplaced : ∀ contents : Option Content → Prop,
          (∀ content, contents content →
            g.maybe (.lease target) content ∨ Named content) →
          (g.set (.lease target) contents).Covered :=
        fun contents hcontents => h.set fun t _ => .inr hcontents
      refine (hreplaced _ fun content hc => ?_).set (by simp)
      cases done with
      | ok => exact .inr (hnamed content hc)
      | fault => exact hc.imp id (hnamed content)
    | base _ | lock _ | temp _ _ => exact hallowed.elim
  | lease target | lock target => exact hallowed.elim

/-- The lease covers a rename until the lock of the destination is given up. -/
theorem covered_next {call : Call} (hallowed : allowsCall g call) (h : g.Covered)
    (result : call.Result) : (nextKnow limit g call result).Covered := by
  cases call with
  | clock | uuid | writeToken _ _ _ | fsync | listdir | isDir _ | getmtime _ | scandir _ | rmdir _ =>
    exact h
  | remove name =>
    cases name with
    | lock target => exact fun rename hr => h.drop target rename hr
    | base file | lease target | temp target owner => exact h
  | create target token =>
    cases result with
    | created inode since =>
      intro rename hr
      obtain ⟨hrole, ⟨x, hx, hxt⟩, hleased⟩ := h rename hr
      refine ⟨hrole, ⟨x, List.mem_cons_of_mem _ hx, hxt⟩, fun content hc => hleased content ?_⟩
      have hne : guardOf (.lease rename.2) ≠ some target :=
        fun heq => hallowed ⟨x, hx, hxt.trans (Option.some.inj heq)⟩
      change (if guardOf (.lease rename.2) = some target then fun _ => True
        else g.maybe (.lease rename.2)) content at hc
      rwa [if_neg hne] at hc
    | «exists» => exact h
    | fault => exact h
  | stat name =>
    cases name with
    | lock target => cases result <;> exact h
    | base file | lease target | temp target owner => exact h
  | read name => exact covered_read h result
  | «exists» name => exact h.settle _
  | unlink name => exact covered_unlink h hallowed result
  | writeText name content =>
    obtain ⟨target, owner, rfl, -⟩ := hallowed
    cases result with
    | ok => exact h.set fun t heq => nomatch heq
    | fault => exact h.set fun t heq => nomatch heq
  | replace source destination => exact covered_replace h hallowed result

theorem role_next {call : Call} (result : call.Result) :
    (nextKnow limit g call result).role = g.role := by
  cases call with
  | clock | uuid | writeToken _ _ _ | fsync | listdir | «exists» _ | isDir _ | getmtime _
  | scandir _ | rmdir _ => rfl
  | remove name => cases name <;> rfl
  | create target token => cases result <;> rfl
  | stat name =>
    cases name with
    | lock target => cases result <;> rfl
    | base file | lease target | temp target owner => rfl
  | read name => exact (carries_read limit g name result).role
  | unlink name =>
    by_cases hlock : ∃ target, name = .lock target
    · obtain ⟨target, rfl⟩ := hlock
      rfl
    · exact (carries_unlink limit g result fun t ht => hlock ⟨t, ht⟩).role
  | writeText name content => exact (carries_writeText limit g name content result).role
  | replace source destination => exact (carries_replace limit g source destination result).role

end Guarded

end YtdlBot.Leases
