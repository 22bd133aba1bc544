import Mathlib.Data.List.Infix
import Mathlib.Logic.Function.Basic
import Mathlib.Algebra.Order.Ring.Rat
import YtdlBot.Framework.Program

/-!
# The media directory

The files of one directory and the single file-system calls that the lease code makes on them.
Any call may fail, and a failed call may have had its effect.
-/

namespace YtdlBot.Leases

open Framework

/-- `name.split(".lease.", 1)[0]`. -/
def beforeLease : List Char → List Char
  | [] => []
  | c :: cs => if ".lease.".toList <+: c :: cs then [] else c :: beforeLease cs

/-- The janitor takes the name neither for a sidecar nor for an auxiliary file of one. -/
def Plain (text : List Char) : Prop :=
  ¬ ".lease".toList <:+ text ∧ ¬ ".lease.lock".toList <:+ text ∧
    ¬ (".lease.".toList <:+: text ∧ ".tmp".toList <:+ text)

instance (text : List Char) : Decidable (Plain text) := inferInstanceAs (Decidable (_ ∧ _ ∧ _))

theorem beforeLease_first {cs : List Char} (h : ".lease.".toList <:+: cs) :
    ∃ rest, cs = beforeLease cs ++ (".lease.".toList ++ rest) ∧
      ∀ before after, cs = before ++ (".lease.".toList ++ after) →
        (beforeLease cs).length ≤ before.length := by
  induction cs with
  | nil => exact absurd (List.infix_nil.mp h) (by decide)
  | cons c cs ih =>
    by_cases hc : ".lease.".toList <+: c :: cs
    · obtain ⟨rest, hrest⟩ := hc
      refine ⟨rest, ?_, ?_⟩
      · rw [beforeLease, if_pos ⟨rest, hrest⟩, List.nil_append, hrest]
      · intro before after _
        rw [beforeLease, if_pos ⟨rest, hrest⟩]
        exact Nat.zero_le _
    · obtain ⟨rest, hrest, hfirst⟩ := ih ((List.infix_cons_iff.mp h).resolve_left hc)
      rw [beforeLease, if_neg hc]
      refine ⟨rest, by rw [List.cons_append, ← hrest], ?_⟩
      intro before after hsplit
      cases before with
      | nil => exact absurd ⟨after, hsplit.symm⟩ hc
      | cons b before =>
        have htail := hfirst before after (List.cons.inj hsplit).2
        simp only [List.length_cons]
        omega

theorem plain_beforeLease {cs : List Char} (h : ".lease.".toList <:+: cs) :
    Plain (beforeLease cs) := by
  obtain ⟨rest, hrest, hfirst⟩ := beforeLease_first h
  have hinfix : ¬ ".lease.".toList <:+: beforeLease cs := by
    rintro ⟨before, after, hsplit⟩
    have hle := hfirst before (after ++ (".lease.".toList ++ rest)) (by
      rw [hrest, ← hsplit]
      simp only [List.append_assoc])
    rw [← hsplit] at hle
    simp only [List.length_append] at hle
    have hlength : ".lease.".toList.length = 7 := rfl
    omega
  refine ⟨?_, ?_, fun h => hinfix h.1⟩
  · rintro ⟨before, hsplit⟩
    have hle := hfirst before ("lease.".toList ++ rest) (by
      rw [hrest, ← hsplit]
      simp only [List.append_assoc]
      rfl)
    rw [← hsplit] at hle
    simp only [List.length_append] at hle
    have hlength : ".lease".toList.length = 6 := rfl
    omega
  · rintro ⟨before, hsplit⟩
    exact hinfix ⟨before, "lock".toList, by rw [← hsplit, List.append_assoc]; rfl⟩

/-- A name without the suffixes that the code gives the files of a sidecar. -/
structure BaseName where
  text : List Char
  plain : Plain text
deriving DecidableEq

/-- A file name, by the suffix that the code gives a target. -/
inductive Name where
  | base (name : BaseName)
  /-- `{target}.lease`, the sidecar. -/
  | lease (target : Name)
  /-- `{target}.lease.lock`. -/
  | lock (target : Name)
  /-- `{target}.lease.{owner}.tmp`. -/
  | temp (target : Name) (owner : String)
deriving DecidableEq

def Name.text : Name → List Char
  | .base name => name.text
  | .lease target => target.text ++ ".lease".toList
  | .lock target => target.text ++ ".lease.lock".toList
  | .temp target owner => target.text ++ ".lease.".toList ++ owner.toList ++ ".tmp".toList

def Name.isBase : Name → Bool
  | .base _ => true
  | .lease _ | .lock _ | .temp _ _ => false

/-- The media file to which a file belongs. -/
def Name.stem : Name → BaseName
  | .base file => file
  | .lease target | .lock target | .temp target _ => target.stem

/-- The file is in the directory, or further below. -/
def Name.under (directory : BaseName) (name : Name) : Bool :=
  (directory.text ++ ['/']).isPrefixOf name.stem.text

/-- The name of a `slideshow_*` directory. -/
def BaseName.slideshow (name : BaseName) : Bool := "slideshow_".toList.isPrefixOf name.text

/-- The file is below a `slideshow_*` directory of the root. -/
def Name.inSlideshow (name : Name) : Bool := name.stem.slideshow && name.stem.text.contains '/'

theorem Name.inSlideshow_of_under {directory : BaseName} {name : Name}
    (hdirectory : directory.slideshow = true) (h : name.under directory = true) :
    name.inSlideshow = true := by
  have hunder := List.isPrefixOf_iff_prefix.mp h
  have hslash : '/' ∈ name.stem.text := hunder.subset (by simp)
  have hstart : "slideshow_".toList <+: name.stem.text :=
    ((List.isPrefixOf_iff_prefix.mp hdirectory).trans (List.prefix_append _ _)).trans hunder
  rw [inSlideshow, Bool.and_eq_true]
  exact ⟨List.isPrefixOf_iff_prefix.mpr hstart, List.contains_iff_mem.mpr hslash⟩

theorem Name.exists_of_isBase {name : Name} (h : name.isBase = true) :
    ∃ file, name = .base file := by
  cases name with
  | base file => exact ⟨file, rfl⟩
  | lease target => cases h
  | lock target => cases h
  | temp target owner => cases h

/-- The target of which the janitor takes a temporary file to be. -/
def Name.root (target : Name) (owner : String) : Name :=
  .base ⟨beforeLease (Name.temp target owner).text,
    plain_beforeLease ⟨target.text, owner.toList ++ ".tmp".toList, by
      simp only [Name.text, List.append_assoc]⟩⟩

inductive Content where
  /-- The token of a lock. -/
  | token (token : Nat)
  /-- A lease payload with a text owner and a finite expiry. -/
  | lease (owner : String) (expiresAt : Rat)
  | other
deriving DecidableEq

/-- Owner and expiry as `_marker_identity` reads them. -/
def Content.identity : Content → Option (String × Rat)
  | .lease owner expiresAt => if owner = "" then none else some (owner, expiresAt)
  | _ => none

structure File where
  inode : Nat
  content : Content
  mtime : Rat
deriving DecidableEq

/-- `fresh` numbers the inodes and tokens that are not in use yet. The directories have their times
of modification. -/
structure Disk where
  now : Rat
  fresh : Nat
  files : Name → Option File
  directories : Name → Option Rat

inductive Call where
  | clock
  | uuid
  /-- `os.open(lock_path, O_CREAT | O_EXCL | O_WRONLY)`, to be written with `token`. -/
  | create (target : Name) (token : Nat)
  /-- `os.write` through the descriptor. -/
  | writeToken (target : Name) (inode token : Nat)
  | fsync
  | stat (name : Name)
  | unlink (name : Name)
  | read (name : Name)
  | writeText (name : Name) (content : Content)
  | replace (source destination : Name)
  | exists (name : Name)
  | listdir
  /-- `os.path.isdir`. -/
  | isDir (name : Name)
  /-- `os.path.getmtime` of a directory. -/
  | getmtime (name : Name)
  /-- What `shutil.rmtree` meets below a directory. -/
  | scandir (directory : BaseName)
  /-- `shutil.rmtree` removes a file. -/
  | remove (name : Name)
  /-- `shutil.rmtree` removes the directory itself. -/
  | rmdir (name : Name)
deriving DecidableEq

inductive Created where
  | created (inode : Nat) (since : Rat)
  | exists
  | fault

inductive Done where
  | ok
  | fault

inductive Stat where
  | ok (mtime : Rat) (inode : Nat)
  | notFound
  | fault

inductive Unlinked where
  | ok
  | notFound
  | fault

inductive ReadText where
  | ok (content : Content)
  | notFound
  | fault
deriving DecidableEq

def Call.Result : Call → Type
  | .clock => Rat
  | .uuid => Nat
  | .create _ _ => Created
  | .writeToken _ _ _ | .fsync | .writeText _ _ | .replace _ _ => Done
  | .stat _ => Stat
  | .unlink _ => Unlinked
  | .read _ => ReadText
  | .exists _ | .isDir _ => Bool
  | .listdir => Option (List Name)
  | .getmtime _ => Option Rat
  | .scandir directory => List { name : Name // name.under directory = true }
  | .remove _ => Unlinked
  | .rmdir _ => Done

/-- How the environment lets a call fail: without or with its effect. -/
inductive Fault where
  | none
  | clean
  | dirty
deriving DecidableEq

namespace Disk

def put (d : Disk) (name : Name) (file : Option File) : Disk :=
  { d with files := Function.update d.files name file }

@[simp] theorem put_now (d : Disk) (name : Name) (file : Option File) :
    (d.put name file).now = d.now := rfl

@[simp] theorem put_fresh (d : Disk) (name : Name) (file : Option File) :
    (d.put name file).fresh = d.fresh := rfl

@[simp] theorem put_self (d : Disk) (name : Name) (file : Option File) :
    (d.put name file).files name = file := Function.update_self ..

theorem put_other (d : Disk) {name other : Name} (file : Option File) (h : other ≠ name) :
    (d.put name file).files other = d.files other := Function.update_of_ne h ..

def content (d : Disk) (name : Name) : Option Content := (d.files name).map File.content

/-- The descriptor of an unlinked file writes to no name. -/
def writeInode (d : Disk) (name : Name) (inode : Nat) (content : Content) : Disk :=
  match d.files name with
  | some file =>
    if file.inode = inode then d.put name (some { file with content := content, mtime := d.now })
    else d
  | none => d

def writeFile (d : Disk) (name : Name) (content : Content) : Disk :=
  match d.files name with
  | some file => d.put name (some { file with content := content, mtime := d.now })
  | none => { d with fresh := d.fresh + 1 }.put name (some ⟨d.fresh, content, d.now⟩)

def move (d : Disk) (source destination : Name) : Disk :=
  (d.put destination (d.files source)).put source none

/-- What is listed of the root: the files and directories in it. -/
def lists (d : Disk) (name : Name) : Bool :=
  !name.stem.text.contains '/' && ((d.files name).isSome || (d.directories name).isSome)

/-- One call. `listing` is what a concurrent `os.listdir` happens to see, or `shutil.rmtree`. -/
def perform (d : Disk) (fault : Fault) (listing : List Name) : (call : Call) → call.Result × Disk
  | .clock => (d.now, d)
  | .uuid => (d.fresh, { d with fresh := d.fresh + 1 })
  | .create target _ =>
    match fault, d.files (.lock target) with
    | .none, some _ => (.exists, d)
    | .none, none =>
      (.created d.fresh d.now,
        { d with fresh := d.fresh + 1 }.put (.lock target) (some ⟨d.fresh, .other, d.now⟩))
    | _, _ => (.fault, d)
  | .writeToken target inode token =>
    match fault with
    | .none => (.ok, d.writeInode (.lock target) inode (.token token))
    | .clean => (.fault, d)
    | .dirty => (.fault, d.writeInode (.lock target) inode .other)
  | .fsync =>
    match fault with
    | .none => (.ok, d)
    | _ => (.fault, d)
  | .stat name =>
    match fault, d.files name with
    | .none, some file => (.ok file.mtime file.inode, d)
    | .none, none => (.notFound, d)
    | _, _ => (.fault, d)
  | .unlink name | .remove name =>
    match fault, d.files name with
    | .none, some _ => (.ok, d.put name none)
    | .none, none => (.notFound, d)
    | .clean, _ => (.fault, d)
    | .dirty, _ => (.fault, d.put name none)
  | .read name =>
    match fault, d.files name with
    | .none, some file => (.ok file.content, d)
    | .none, none => (.notFound, d)
    | _, _ => (.fault, d)
  | .writeText name content =>
    match fault with
    | .none => (.ok, d.writeFile name content)
    | .clean => (.fault, d)
    | .dirty => (.fault, d.writeFile name .other)
  | .replace source destination =>
    match fault, d.files source with
    | .none, some _ => (.ok, d.move source destination)
    | .dirty, some _ => (.fault, d.move source destination)
    | _, _ => (.fault, d)
  | .exists name =>
    match fault with
    | .none => ((d.files name).isSome, d)
    | _ => (false, d)
  | .listdir =>
    match fault with
    | .none => (some (listing.filter d.lists), d)
    | _ => (none, d)
  | .isDir name =>
    match fault with
    | .none => ((d.directories name).isSome, d)
    | _ => (false, d)
  | .getmtime name =>
    match fault with
    | .none => (d.directories name, d)
    | _ => (none, d)
  | .scandir directory =>
    match fault with
    | .none => ((listing.filter fun name => name.under directory).attach.map fun name =>
        ⟨name.1, (List.mem_filter.mp name.2).2⟩, d)
    | _ => ([], d)
  | .rmdir name =>
    match fault with
    | .none => (.ok, { d with directories := Function.update d.directories name none })
    | .clean => (.fault, d)
    | .dirty => (.fault, { d with directories := Function.update d.directories name none })

end Disk

end YtdlBot.Leases
