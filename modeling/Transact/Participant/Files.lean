/-
# Transact.Participant.Files -- files in a transaction

Opening with creation and adopting a descriptor take effect at once and are reverted by undo; writes
and removals are written down and reach the file system in apply.  A read sees the file with the
transaction's own writes laid over it (`overlay`), and the end of the file is where those writes
leave it (`logicalLength`), so the transaction sees its writes and nobody else does.

Every path is turned into one resource per file (`resourcePath`), whatever its spelling.  A file the
transaction created is removed on undo unless somebody published it in the meantime
(`revertCreation`), and always under the lock of its resource.
-/
import Transact.Log.Journal
import Transact.Participant
import Transact.World

namespace Transact

set_option autoImplicit false

/-- How a file is opened. -/
structure OpenFlags where
  read : Bool := false
  write : Bool := false
  /-- Writes go to the end of the file. -/
  append : Bool := false
  /-- The file is created if it is not there. -/
  create : Bool := false
  deriving DecidableEq

def OpenFlags.writes (f : OpenFlags) : Bool := f.write || f.append

/-- A file of one transaction. -/
structure FileHandle where
  number : Nat
  deriving DecidableEq

def FileHandle.render (h : FileHandle) : String := "fd#" ++ toString h.number

/-- An effect on a file. -/
inductive FileEffect where
  | create
  | adopt (handle : FileHandle)
  | write (handle : FileHandle) (offset : Nat) (bytes : Bytes)
  | remove
  deriving DecidableEq

/-- What stands behind a handle. -/
structure OpenFile where
  id : ResourceId
  descriptor : Nat
  /-- Where the transaction reads and writes next. -/
  offset : Nat
  flags : OpenFlags
  adopted : Bool := false
  closed : Bool := false
  deriving DecidableEq

/-- Where to seek to. -/
inductive SeekFrom where
  | start (n : Nat)
  | current (delta : Int)
  | fromEnd (delta : Int)
  deriving DecidableEq

/-- The files of one transaction. -/
structure Files where
  nextHandle : Nat := 0
  handles : Table Nat OpenFile := {}
  removed : List ResourceKey := []
  log : DeferredLog FileEffect := {}
  access : AccessSet := {}
  held : HeldLocks := {}
  deriving DecidableEq

namespace Files

/-! ## Errors -/

def unknownHandle (h : FileHandle) : Error :=
  .of .notFound (h.render ++ " is not open in this transaction")

def notReadable (h : FileHandle) : Error :=
  .of .invalidOperation (h.render ++ " is not open for reading")

def notWritable (h : FileHandle) : Error :=
  .of .invalidOperation (h.render ++ " is not open for writing")

def badSeek (h : FileHandle) : Error :=
  .of .invalidOperation ("Seek on " ++ h.render ++ " to a negative or overflowing offset")

def removedHere (id : ResourceId) : Error :=
  .of .notFound (id.render ++ " was removed by this transaction")

def nothingToRemove (path : String) : Error :=
  .of .notFound ("Cannot remove " ++ path ++ ", it does not exist")

def notAFile (id : ResourceId) : Error := .of .internalError (id.render ++ " is not a file")

def creationBusy (id : ResourceId) : Error :=
  .of .resourceBusy ("Cannot revert creation of " ++ id.render ++ ", resource is busy")

/-- An effect that was put off failed. -/
def effectFailed (id : ResourceId) (cause : Error) : Error :=
  .wrap .moduleInternalError ("File operation on " ++ id.render ++ " failed") cause

/-! ## Handles -/

/-- The open file behind a handle of this transaction. -/
def openFile (s : Files) (h : FileHandle) : Except Error OpenFile :=
  match s.handles.get? h.number with
  | some f => if f.closed then .error (unknownHandle h) else .ok f
  | none => .error (unknownHandle h)

def addHandle (s : Files) (f : OpenFile) : FileHandle × Files :=
  (⟨s.nextHandle⟩,
    { s with handles := s.handles.set s.nextHandle f, nextHandle := s.nextHandle + 1 })

def setOffset (s : Files) (h : FileHandle) (offset : Nat) : Files :=
  { s with handles := s.handles.modify h.number fun f => { f with offset } }

def checkNotRemoved (s : Files) (id : ResourceId) : Except Error Unit :=
  if s.removed.contains id.key then .error (removedHere id) else .ok ()

/-! ## Resources -/

/-- One path per file: links followed, dots and double slashes gone.  Where the path leads nowhere,
its directory is treated so and the last name kept; where that fails too, the path is kept. -/
def resourcePath (fs : Filesystem) (path : String) : String :=
  match fs.canonical? path with
  | some at_ => Path.ofNames at_
  | none =>
      match Path.parent? path, Path.fileName? path with
      | some parent, some name =>
          match fs.canonical? (if parent = "" then "." else parent) with
          | some at_ => Path.ofNames (at_ ++ [name])
          | none => path
      | _, _ => path

def resource (fs : Filesystem) (path : String) : ResourceId := .path (resourcePath fs path)

/-! ## Opening -/

/-- Open a file, and say whether this call created it.  Creation fails where the file is there
already, so a file that appeared meanwhile is never taken for one created here. -/
def openOrCreate (fs : Filesystem) (path : String) (flags : OpenFlags) :
    Except IoFault (Nat × Bool × Filesystem) :=
  let opened := (fs.openExisting path { read := flags.read, write := flags.writes }).map
    fun (fd, fs) => (fd, false, fs)
  if flags.create then
    match fs.createNew path flags.read with
    | .ok (fd, fs) => .ok (fd, true, fs)
    | .error (.os .exists) => opened
    | .error e => .error e
  else opened

def openPath (path : String) (flags : OpenFlags) (s : Files) (w : World) :
    Except Error FileHandle × Files × World :=
  let id := resource w.files path
  match s.checkNotRemoved id with
  | .error e => (.error e, s, w)
  | .ok () =>
      match openOrCreate w.files path flags with
      | .error e => (.error e.toError, s, w)
      | .ok (descriptor, created, files) =>
          let s :=
            if created then
              { s with
                log := s.log.append (.eager id .absent .create)
                access := s.access.write w.versions id }
            else { s with access := s.access.observe w.versions id }
          let (h, s) := s.addHandle { id, descriptor, offset := 0, flags }
          (.ok h, s, { w with files })

/-- Bring a descriptor from outside into the transaction.  Its position is shared with the outside;
undo puts it back, apply leaves it at the handle's offset. -/
def adopt (descriptor : Nat) (path : String) (s : Files) (w : World) :
    Except Error FileHandle × Files × World :=
  let id := resource w.files path
  match s.checkNotRemoved id with
  | .error e => (.error e, s, w)
  | .ok () =>
      let before := w.files.position descriptor
      let s := { s with access := s.access.observe w.versions id }
      let (h, s) := s.addHandle
        { id, descriptor, offset := before, flags := { read := true, write := true },
          adopted := true }
      (.ok h, { s with log := s.log.append (.eager id (.offset before) (.adopt h)) }, w)

/-! ## Pending writes -/

/-- The writes to `id` written down so far: offset and bytes. -/
def pendingOn (s : Files) (id : ResourceId) : List (Nat × Bytes) :=
  s.log.records.filterMap fun r =>
    match r.payload with
    | .write _ offset bytes => if r.resource.same id then some (offset, bytes) else none
    | _ => none

/-- How many writes are written down. -/
def pendingWrites (s : Files) : Nat :=
  (s.log.records.filter fun r => match r.payload with
    | .write .. => true
    | _ => false).length

/-- The length of a file as the transaction sees it: that on disk, or the furthest end of its own
writes. -/
def logicalLength (s : Files) (f : OpenFile) (fs : Filesystem) : Nat :=
  (s.pendingOn f.id).foldl (fun len write => max len (write.1 + write.2.length))
    (fs.length f.descriptor)

/-- Lay writes over a window, in order. -/
def overlay (offset len : Nat) (window : Bytes) (writes : List (Nat × Bytes)) : Bytes :=
  writes.foldl (Bytes.overlay offset len) window

/-! ## Reading and writing -/

/-- Whether `h` can be read from. -/
def checkReadable (s : Files) (h : FileHandle) : Except Error OpenFile :=
  match s.openFile h with
  | .error e => .error e
  | .ok f =>
      if !f.flags.read then .error (notReadable h)
      else (s.checkNotRemoved f.id).map fun () => f

/-- Read at most `len` bytes at the handle's offset and advance it. -/
def read (h : FileHandle) (len : Nat) (s : Files) (w : World) :
    Except Error Bytes × Files × World :=
  match s.checkReadable h with
  | .error e => (.error e, s, w)
  | .ok f =>
      let s := { s with access := s.access.observe w.versions f.id }
      match w.files.readAt f.descriptor f.offset len with
      | (.error e, files) => (.error (IoFault.os e).toError, s, { w with files })
      | (.ok window, files) =>
          let bytes := overlay f.offset len window (s.pendingOn f.id)
          (.ok bytes, s.setOffset h (f.offset + bytes.length), { w with files })

/-- Whether `h` can be written to. -/
def checkWritable (s : Files) (h : FileHandle) : Except Error OpenFile :=
  match s.openFile h with
  | .error e => .error e
  | .ok f =>
      if !f.flags.writes then .error (notWritable h)
      else (s.checkNotRemoved f.id).map fun () => f

/-- Write down `bytes` at the handle's offset, or at the end of the file in append mode, and move
the offset past them. -/
def write (h : FileHandle) (bytes : Bytes) (s : Files) (w : World) :
    Except Error Nat × Files × World :=
  match s.checkWritable h with
  | .error e => (.error e, s, w)
  | .ok f =>
      let offset := if f.flags.append then s.logicalLength f w.files else f.offset
      let s :=
        { s with
          access := s.access.write w.versions f.id
          log := s.log.append (.deferred f.id (.write h offset bytes)) }
      (.ok bytes.length, s.setOffset h (offset + bytes.length), w)

/-- No offset is larger. -/
def maxOffset : Nat := Nat.pow 2 64 - 1

/-- Whether every handle is at an offset.  Only a write can leave one past `maxOffset`. -/
def offsetsFit (s : Files) : Bool := s.handles.values.all fun f => f.offset ≤ maxOffset

/-- `base` moved by `delta`, where that is an offset. -/
def moveBy (base : Nat) (delta : Int) : Option Nat :=
  let target := (base : Int) + delta
  if 0 ≤ target ∧ target ≤ (maxOffset : Int) then some target.toNat else none

/-- Where a seek leads. -/
def seekTarget (s : Files) (f : OpenFile) (fs : Filesystem) : SeekFrom → Option Nat
  | .start n => some n
  | .current delta => moveBy f.offset delta
  | .fromEnd delta => moveBy (s.logicalLength f fs) delta

/-- Move the handle's offset; the descriptor stays where it is. -/
def seek (h : FileHandle) (pos : SeekFrom) (s : Files) (w : World) :
    Except Error Nat × Files × World :=
  match s.openFile h with
  | .error e => (.error e, s, w)
  | .ok f =>
      match s.seekTarget f w.files pos with
      | none => (.error (badSeek h), s, w)
      | some offset => (.ok offset, s.setOffset h offset, w)

/-- The handle's offset. -/
def tell (h : FileHandle) (s : Files) (w : World) : Except Error Nat × Files × World :=
  ((s.openFile h).map (·.offset), s, w)

/-- Make the handle unusable; what was written through it is still applied. -/
def close (h : FileHandle) (s : Files) (w : World) : Except Error Unit × Files × World :=
  match s.openFile h with
  | .error e => (.error e, s, w)
  | .ok _ =>
      (.ok (), { s with handles := s.handles.modify h.number fun f => { f with closed := true } }, w)

/-- Write down the removal of what `path` names. -/
def remove (path : String) (s : Files) (w : World) : Except Error Unit × Files × World :=
  let id := resource w.files path
  match s.checkNotRemoved id with
  | .error e => (.error e, s, w)
  | .ok () =>
      if w.files.names path then
        (.ok (),
          { s with
            access := s.access.write w.versions id
            log := s.log.append (.deferred id .remove)
            removed := s.removed ++ [id.key] },
          w)
      else (.error (nothingToRemove path), s, w)

/-! ## The way to a commit -/

def lock (ctx : Context) (s : Files) (w : World) : Except Error Unit × Files × World :=
  let (result, held, locks) := s.held.acquireAll s.access.observedIds ctx.tx w.locks
  (result, { s with held }, { w with locks })

def unlock (ctx : Context) (s : Files) (w : World) : Files × World :=
  ({ s with held := {} }, { w with locks := s.held.releaseAll ctx.tx w.locks })

def validate (s : Files) (w : World) : Bool := s.access.validate w.versions

/-- Unlink the path of a resource. -/
def unlinkResource (id : ResourceId) (w : World) : Except Error Unit × World :=
  match id with
  | .path path =>
      match w.files.unlink path with
      | .ok files => (.ok (), { w with files })
      | .error e => (.error (effectFailed id e.toError), w)
  | other => (.error (notAFile other), w)

/-- Perform one record.  What took effect at once needs nothing more. -/
def applyRecord (handles : Table Nat OpenFile) (r : Record FileEffect) (w : World) :
    Except Error Unit × World :=
  match r.payload with
  | .create | .adopt _ => (.ok (), w)
  | .write h offset bytes =>
      match handles.get? h.number with
      | none => (.error (unknownHandle h), w)
      | some f =>
          match w.files.writeAt f.descriptor offset bytes with
          | (.ok (), files) => (.ok (), { w with files })
          | (.error e, files) =>
              (.error (effectFailed r.resource (IoFault.os e).toError), { w with files })
  | .remove => unlinkResource r.resource w

/-- Put every adopted descriptor at its handle's offset. -/
def settle : List OpenFile → World → Except Error Unit × World
  | [], w => (.ok (), w)
  | f :: rest, w =>
      if f.adopted then
        match w.files.seek f.descriptor f.offset with
        | .ok files => settle rest { w with files }
        | .error e => (.error (effectFailed f.id (IoFault.os e).toError), w)
      else settle rest w

/-- Perform the log.  Versions are published whatever happens: a failed apply may have changed some
files already. -/
def apply (s : Files) (w : World) : Except Error Unit × Files × World :=
  let (applied, log, w) := s.log.applyAll (applyRecord s.handles) w
  let (result, w) :=
    match applied with
    | .ok _ => settle s.handles.values w
    | .error e => (.error e, w)
  (result, { s with log }, { w with versions := s.access.publish w.versions })

/-! ## The way to an abort -/

/-- Remove a created file while it stands at the version it was created at; a file somebody
published since is kept.  To be called under the lock of `id`. -/
def removeIfCurrent (access : AccessSet) (id : ResourceId) (path : String) (w : World) :
    Except Error Unit × World :=
  if access.isCurrent w.versions id then
    match w.files.unlink path with
    | .ok files => (.ok (), { w with files }.bump id)
    | .error (.os .noEntry) => (.ok (), w)
    | .error e => (.error (effectFailed id e.toError), w)
  else (.ok (), w)

/-- Revert a creation under the lock of its resource, which is borrowed where it is not held. -/
def revertCreation (tx : TxId) (access : AccessSet) (held : HeldLocks) (id : ResourceId)
    (path : String) (w : World) : Except Error Unit × World :=
  if held.holds id then removeIfCurrent access id path w
  else
    match w.locks.acquire id tx with
    | (false, locks) => (.error (creationBusy id), { w with locks })
    | (true, locks) =>
        let (result, w) := removeIfCurrent access id path { w with locks }
        (result, { w with locks := (w.locks.release id tx).2 })

/-- Revert one record: a creation, or the moves of an adopted descriptor. -/
def undoRecord (tx : TxId) (s : Files) (r : Record FileEffect) (w : World) :
    Except Error Unit × World :=
  match r.payload, r.preState with
  | .create, some .absent =>
      match r.resource with
      | .path path => revertCreation tx s.access s.held r.resource path w
      | _ => (.ok (), w)
  | .adopt h, some (.offset before) =>
      match s.handles.get? h.number with
      | none => (.ok (), w)
      | some f =>
          match w.files.seek f.descriptor before with
          | .ok files => (.ok (), { w with files })
          | .error e => (.error (effectFailed r.resource (IoFault.os e).toError), w)
  | _, _ => (.ok (), w)

def undo (ctx : Context) (s : Files) (w : World) : Except Error Unit × Files × World :=
  let (result, log, w) := s.log.undoAll (undoRecord ctx.tx s) w
  (result.map fun _ => (), { s with log, removed := [] }, w)

/-! ## The end -/

/-- Give up the duplicated descriptors. -/
def finish (s : Files) : Files := { s with handles := {} }

def release (s : Files) : Files := { s with log := {}, removed := [], access := {} }

def describe : FileEffect → String × Bytes
  | .create => ("create", [])
  | .adopt _ => ("adopt", [])
  | .write _ _ bytes => ("write", bytes)
  | .remove => ("remove", [])

def journal (s : Files) : List String := s.log.journal .file describe

instance : Participant Files World where
  domain _ := .file
  lock := lock
  unlock := unlock
  validate _ _ s w := (s.validate w, w)
  apply _ := apply
  undo := undo
  finish _ s w := (s.finish, w)
  release s w := (s.release, w)
  journal s _ := s.journal

end Files

end Transact
