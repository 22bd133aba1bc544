import YtdlBot.Framework.Routine
import YtdlBot.Leases.Disk

/-!
# Leases and the janitor

The lock of a sidecar, the operations of a reservation on its sidecars, and the janitor's passes
over the media directory, as routines over single file-system calls.
-/

namespace YtdlBot.Leases

open Framework
open Framework.Routine (throw capture ofExcept get modify)

inductive LeaseError where
  /-- `LeaseOwnershipError`. -/
  | ownership (message : String)
  | osError
  /-- `RuntimeError`. -/
  | runtime (message : String)
  /-- `ValueError`. -/
  | value (message : String)
deriving DecidableEq

abbrev Op (σ α : Type) := Routine LeaseError σ Call Call.Result α

section Calls

variable {σ : Type}

def readClock : Op σ Rat := Routine.call Call.clock
def newToken : Op σ Nat := Routine.call Call.uuid
def createLock (target : Name) (token : Nat) : Op σ Created := Routine.call (Call.create target token)
def writeLock (target : Name) (inode token : Nat) : Op σ Done :=
  Routine.call (Call.writeToken target inode token)
def fsync : Op σ Done := Routine.call Call.fsync
def statFile (name : Name) : Op σ Stat := Routine.call (Call.stat name)
def unlinkFile (name : Name) : Op σ Unlinked := Routine.call (Call.unlink name)
def readText (name : Name) : Op σ ReadText := Routine.call (Call.read name)
def writeText (name : Name) (content : Content) : Op σ Done :=
  Routine.call (Call.writeText name content)
def replaceCall (source destination : Name) : Op σ Done :=
  Routine.call (Call.replace source destination)
def fileExists (name : Name) : Op σ Bool := Routine.call (Call.exists name)
def listDirectory : Op σ (Option (List Name)) := Routine.call Call.listdir
def isDirectory (name : Name) : Op σ Bool := Routine.call (Call.isDir name)
def directoryTime (name : Name) : Op σ (Option Rat) := Routine.call (Call.getmtime name)
def filesBelow (directory : BaseName) : Op σ (List { name : Name // name.under directory = true }) :=
  Routine.call (Call.scandir directory)
def removeFile (name : Name) : Op σ Unlinked := Routine.call (Call.remove name)
def removeDirectory (name : Name) : Op σ Done := Routine.call (Call.rmdir name)

/-- The `OSError` of a call. -/
def orOSError : Done → Op σ Unit
  | .ok => pure ()
  | .fault => throw .osError

/-- `unlink(missing_ok=True)`. -/
def unlinkMissingOk (name : Name) : Op σ Unit := do
  match ← unlinkFile name with
  | .fault => throw .osError
  | .ok | .notFound => pure ()

end Calls

section MarkerLock

variable {σ : Type}

def updating : LeaseError := .ownership "media lease is being updated"

/-- One attempt of `_marker_lock` to create and write the lock file. -/
def tryCreate (target : Name) (token : Nat) (whenExists : Op σ Unit) : Op σ Unit := do
  match ← createLock target token with
  | .exists => whenExists
  | .fault => throw .osError
  | .created inode _ =>
    match ← writeLock target inode token with
    | .fault =>
      unlinkMissingOk (.lock target)
      throw .osError
    | .ok =>
      match ← fsync with
      | .fault =>
        unlinkMissingOk (.lock target)
        throw .osError
      | .ok => pure ()

/-- `_marker_lock` up to `yield`: a stale lock is removed once. -/
def acquire (target : Name) (staleAfter : Option Rat) (token : Nat) : Op σ Unit :=
  let again := tryCreate target token (throw updating)
  tryCreate target token <|
    match staleAfter with
    | none => throw updating
    | some staleAfter => do
      let now ← readClock
      match ← statFile (.lock target) with
      | .notFound => again
      | .fault => throw (.ownership "media lease lock is unreadable")
      | .ok mtime _ =>
        if now - mtime ≤ staleAfter then throw updating
        else
          match ← unlinkFile (.lock target) with
          | .fault => throw (.ownership "media lease lock is unavailable")
          | .ok | .notFound => again

/-- `_marker_lock` after `yield`. -/
def release (target : Name) (token : Nat) : Op σ Unit := do
  match ← readText (.lock target) with
  | .ok content => if content = .token token then unlinkMissingOk (.lock target) else pure ()
  | .notFound | .fault => pure ()

/-- `with _marker_lock(media_lease_path(target)): body`. -/
def withLock {α : Type} (target : Name) (staleAfter : Option Rat) (body : Op σ α) : Op σ α := do
  let token ← newToken
  acquire target staleAfter token
  let result ← capture body
  release target token
  ofExcept result

end MarkerLock

section Markers

variable {σ : Type}

/-- `_marker_identity(media_lease_path(target))`. -/
def markerIdentity (target : Name) : Op σ (Option (String × Rat)) := do
  match ← readText (.lease target) with
  | .ok content => pure content.identity
  | .notFound | .fault => pure none

def belongsToAnother : LeaseError := .ownership "media lease belongs to another owner"

/-- The ownership check of `_write_marker_locked`. -/
def checkMarker (owner : String) (target : Name) (requireOwner : Bool) : Op σ Unit := do
  match ← markerIdentity target with
  | none => pure ()
  | some (currentOwner, currentExpiry) =>
    if currentOwner = owner then pure ()
    else if requireOwner then throw belongsToAnother
    else
      let now ← readClock
      if now < currentExpiry then throw belongsToAnother else pure ()

def writeMarkerLocked (owner : String) (leaseTtl : Rat) (target : Name) (requireOwner : Bool) :
    Op σ Unit := do
  checkMarker owner target requireOwner
  let now ← readClock
  let result ← capture do
    orOSError (← writeText (.temp target owner) (.lease owner (now + leaseTtl)))
    orOSError (← replaceCall (.temp target owner) (.lease target))
  unlinkMissingOk (.temp target owner)
  ofExcept result

def assertMarkerOwnerLocked (owner : String) (target : Name) : Op σ Unit := do
  let identity ← markerIdentity target
  if identity.map Prod.fst = some owner then pure () else throw belongsToAnother

def removeMarkerIfOwnedLocked (owner : String) (target : Name) : Op σ Unit := do
  let identity ← markerIdentity target
  if identity.map Prod.fst = some owner then unlinkMissingOk (.lease target) else pure ()

/-- `is_active_media_lease`; the clock is read only when there is an owner. -/
def isActiveMediaLease (target : Name) : Op σ Bool := do
  match ← markerIdentity target with
  | none => pure false
  | some (_, expiresAt) =>
    let now ← readClock
    pure (decide (now < expiresAt))

end Markers

/-- A `DiskReservation` without its disk budget; `lease_ttl` is finite. -/
structure Reservation where
  owner : String
  leaseTtl : Rat
  paths : List Name
  released : Bool
deriving DecidableEq

namespace Reservation

def addPath (path : Name) (r : Reservation) : Reservation :=
  if path ∈ r.paths then r else { r with paths := r.paths ++ [path] }

def discardPath (path : Name) (r : Reservation) : Reservation :=
  { r with paths := r.paths.filter fun bound => bound ≠ path }

def checkNotReleased : Op Reservation Reservation := do
  let r ← get
  if r.released then throw (.runtime "reservation already released") else pure r

def writeMarker (r : Reservation) (path : Name) (requireOwner : Bool) : Op Reservation Unit :=
  withLock path none (writeMarkerLocked r.owner r.leaseTtl path requireOwner)

def bind (path : Name) : Op Reservation Unit := do
  let r ← checkNotReleased
  writeMarker r path false
  modify (addPath path)

def renewPaths (r : Reservation) : List Name → Op Reservation Unit
  | [] => pure ()
  | path :: paths => do
    writeMarker r path true
    renewPaths r paths

def renew : Op Reservation Unit := do
  let r ← checkNotReleased
  renewPaths r r.paths

/-- `_marker_locks`, in the order of the marker names. -/
def withLocks {α : Type} (old new : Name) (body : Op Reservation α) : Op Reservation α :=
  if old = new then withLock old none body
  else if (Name.lease old).text < (Name.lease new).text then
    withLock old none (withLock new none body)
  else withLock new none (withLock old none body)

/-- `not old.exists() and new.exists()`. -/
def movedDespiteFailure (old new : Name) : Op Reservation Bool := do
  if ← fileExists old then pure false else fileExists new

/-- The way back after a failed promotion; the result is `renamed`. -/
def moveBack (r : Reservation) (old new : Name) : Op Reservation Bool := do
  match ← capture (do orOSError (← replaceCall new old)) with
  | .error _ => pure true
  | .ok () =>
    match ← capture (do
      writeMarkerLocked r.owner r.leaseTtl old false
      modify (addPath old)) with
    | .ok () => pure false
    | .error .osError =>
      unlinkMissingOk old
      removeMarkerIfOwnedLocked r.owner old
      modify (discardPath old)
      pure false
    | .error error => throw error

/-- The handler of `promote`. -/
def recoverPromotion (r : Reservation) (old new : Name) (renamed : Bool) (error : LeaseError) :
    Op Reservation Unit := do
  let renamed ← (if renamed then pure true else movedDespiteFailure old new)
  let renamed ← (if renamed then moveBack r old new else pure false)
  if renamed then throw error
  else
    removeMarkerIfOwnedLocked r.owner new
    modify (discardPath new)
    throw error

/-- `promote` under both locks. -/
def promoteLocked (r : Reservation) (old new : Name) : Op Reservation Unit := do
  if old ∉ r.paths then throw (.ownership "promotion source is not bound")
  else if new ∈ r.paths then throw (.ownership "promotion destination is already bound")
  else
    assertMarkerOwnerLocked r.owner old
    match ← capture (do
      writeMarkerLocked r.owner r.leaseTtl new false
      modify (addPath new)
      orOSError (← replaceCall old new)) with
    | .error error => recoverPromotion r old new false error
    | .ok () =>
      match ← capture (do
        removeMarkerIfOwnedLocked r.owner old
        modify (discardPath old)) with
      | .error error => recoverPromotion r old new true error
      | .ok () => pure ()

def promote (old new : Name) : Op Reservation Unit := do
  let r ← checkNotReleased
  if old = new then throw (.value "promotion paths must differ")
  else withLocks old new (promoteLocked r old new)

def unbind (path : Name) : Op Reservation Unit := do
  let r ← get
  if path ∉ r.paths then pure ()
  else
    withLock path none (removeMarkerIfOwnedLocked r.owner path)
    modify (discardPath path)

/-- The loop of `_finish_release`; a marker that another owner changes is left alone. -/
def releasePaths (r : Reservation) : List Name → Op Reservation Unit
  | [] => pure ()
  | path :: paths => do
    match ← capture (withLock path none (removeMarkerIfOwnedLocked r.owner path)) with
    | .ok () | .error (.ownership _) => releasePaths r paths
    | .error error => throw error

/-- `release`; only the first one finishes. -/
def releaseOp : Op Reservation Unit := do
  let r ← get
  if r.released then pure ()
  else
    modify fun r => { r with released := true }
    let result ← capture (releasePaths r r.paths)
    modify fun r => { r with paths := [] }
    ofExcept result

inductive Command where
  | bind (path : Name)
  | renew
  | promote (old new : Name)
  | unbind (path : Name)
  | release
  /-- A set of paths is iterated in any order. -/
  | reorder (order : List Name)
deriving DecidableEq

def Command.run : Command → Op Reservation Unit
  | .bind path => Reservation.bind path
  | .renew => Reservation.renew
  | .promote old new => Reservation.promote old new
  | .unbind path => Reservation.unbind path
  | .release => Reservation.releaseOp
  | .reorder order => modify fun r => if order.Perm r.paths then { r with paths := order } else r

/-- The life of a reservation: its user goes on after every exception. -/
def session : List Command → Op Reservation Unit
  | [] => pure ()
  | command :: commands => do
    let _ ← capture command.run
    session commands

end Reservation

section Renewals

/-- `item.renew_lease()`. -/
def renewLease (item : Reservation) : Op Unit Unit := fun s =>
  (Reservation.renew item).bind fun result => .pure (result.1, s)

def renewItems : List Reservation → Op Unit Unit
  | [] => pure ()
  | item :: items => do
    renewLease item
    renewItems items

/-- The renewal task while the delivery runs, which ends after `rounds` sleeps. -/
def renewRounds (items : List Reservation) : Nat → Op Unit Unit
  | 0 => pure ()
  | rounds + 1 => do
    renewItems items
    renewRounds items rounds

inductive Outcome where
  | ended
  | delivered
  /-- `MediaDeliveryUncertainError`: the delivery was cancelled. -/
  | uncertain (error : LeaseError)
deriving DecidableEq

/-- `_with_lease_renewals`. -/
def withLeaseRenewals (materialized : List Reservation) (rounds : Nat) :
    Program Empty Call Call.Result Outcome :=
  (renewRounds materialized rounds ()).bind fun result =>
    match result.1 with
    | .ok () => .pure .delivered
    | .error error => .pure (.uncertain error)

end Renewals

section Janitor

variable (maxTempAge : Rat)

/-- `safe_remove`. -/
def safeRemove (name : Name) : Op Unit Unit := do
  if ← fileExists name then
    let _ ← unlinkFile name
    pure ()
  else pure ()

/-- `except LeaseOwnershipError`. -/
def unlessOwned {α : Type} (value : α) (x : Op Unit α) : Op Unit α := do
  match ← capture x with
  | .ok result => pure result
  | .error (.ownership _) => pure value
  | .error error => throw error

def cleanupLeaseAuxiliary (name : Name) (now : Rat) : Op Unit Unit :=
  match name with
  | .lock target => unlessOwned () (withLock target (some maxTempAge) (pure ()))
  | .temp target owner =>
    unlessOwned () <| withLock (Name.root target owner) (some maxTempAge) do
      match ← statFile name with
      | .ok mtime _ => if maxTempAge < now - mtime then safeRemove name else pure ()
      | .notFound | .fault => pure ()
  | .base _ | .lease _ => pure ()

def cleanupInactiveLease (target : Name) : Op Unit Unit :=
  unlessOwned () <| withLock target (some maxTempAge) do
    if ← isActiveMediaLease target then pure () else unlinkMissingOk (.lease target)

/-- The age check of `_delete_media_target`. -/
def oldEnough (path : Name) (now : Rat) : Op Unit Bool := do
  match ← statFile path with
  | .ok mtime _ => pure (decide (maxTempAge < now - mtime))
  | .notFound | .fault => pure false

/-- The deletion of `_delete_media_target` under the lock. -/
def purgeTarget (path : Name) : Op Unit Bool := do
  if ← isActiveMediaLease path then pure false
  else
    safeRemove path
    if ← fileExists path then pure false
    else
      unlinkMissingOk (.lease path)
      pure true

def deleteMediaTarget (path : Name) (now : Rat) (requireOld : Bool) : Op Unit Bool :=
  unlessOwned false <| withLock path (some maxTempAge) do
    if ← fileExists path then
      if requireOld then
        if ← oldEnough maxTempAge path now then purgeTarget path else pure false
      else purgeTarget path
    else pure false

/-- The prefixes of files the bot creates. -/
def botCreated (text : List Char) : Bool :=
  ["ytdl_", "concat_", "tikwm_", "gdl_video_", "info_", "media_"].any fun start =>
    start.toList.isPrefixOf text

/-- The files that `shutil.rmtree` meets. -/
def removeFiles : List Name → Op Unit Unit
  | [] => pure ()
  | name :: names => do
    let _ ← removeFile name
    removeFiles names

/-- `shutil.rmtree(path, ignore_errors=True)`. -/
def rmtree (directory : BaseName) : Op Unit Unit := do
  let names ← filesBelow directory
  removeFiles (names.map Subtype.val)
  let _ ← removeDirectory (.base directory)

/-- `cleanup_temp_dir` removes a slideshow directory when it is old. -/
def cleanupSlideshow (aggressive : Bool) (started : Rat) (directory : BaseName) : Op Unit Unit := do
  if aggressive then rmtree directory
  else
    match ← directoryTime (.base directory) with
    | none => pure ()
    | some mtime => if maxTempAge < started - mtime then rmtree directory else pure ()

/-- `name.startswith("slideshow_") and os.path.isdir(path)`. -/
def isSlideshow (file : BaseName) : Op Unit Bool :=
  if file.slideshow then isDirectory (.base file) else pure false

/-- One name of a listing, in `cleanup_temp_dir` or (aggressive) `_aggressive_purge_temp`. -/
def cleanupName (aggressive : Bool) (started : Rat) (name : Name) : Op Unit Unit :=
  match name with
  | .lock _ | .temp _ _ => do
    let now ← (if aggressive then readClock else pure started)
    cleanupLeaseAuxiliary maxTempAge name now
  | .lease target => cleanupInactiveLease maxTempAge target
  | .base file => do
    if ← isSlideshow file then cleanupSlideshow maxTempAge aggressive started file
    else if botCreated file.text then
      if ← fileExists name then
        let now ← (if aggressive then readClock else pure started)
        let _ ← deleteMediaTarget maxTempAge name now (!aggressive)
        pure ()
      else pure ()
    else pure ()

def cleanupNames (aggressive : Bool) (started : Rat) : List Name → Op Unit Unit
  | [] => pure ()
  | name :: names => do
    cleanupName maxTempAge aggressive started name
    cleanupNames aggressive started names

/-- `cleanup_temp_dir`, or `_aggressive_purge_temp`. -/
def cleanupPass (aggressive : Bool) : Op Unit Unit := do
  let started ← readClock
  match ← listDirectory with
  | none => throw .osError
  | some names => cleanupNames maxTempAge aggressive started names

/-- Any number of passes, of either kind. -/
def janitor : List Bool → Op Unit Unit
  | [] => pure ()
  | aggressive :: passes => do
    let _ ← capture (cleanupPass maxTempAge aggressive)
    janitor passes

end Janitor

end YtdlBot.Leases
