/-
# Transact.Filesystem.Calls -- the system calls on names and descriptors

Each call answers its result with the new file system, or the reason why it refused.  A refused call
on a name changes nothing; a refused write may have written what fitted.  Calls on names follow links
as their `Ending` says.  A read or a write moves the position that all duplicates of the descriptor
share; a write past the end fills the gap with zeros (`Bytes.splice`).
-/
import Transact.Filesystem.Resolve

namespace Transact.Filesystem

set_option autoImplicit false

/-! ## Opening -/

/-- What a descriptor is asked for. -/
structure Access where
  read : Bool := false
  write : Bool := false
  append : Bool := false
  deriving DecidableEq

def Access.writes (a : Access) : Bool := a.write || a.append

/-- A descriptor on the file or directory an entry names. -/
def descriptorOn (inode : Option Inode) (access : Access) : Descriptor :=
  { inode, readable := access.read, writable := access.writes, appends := access.append }

/-- Open what a path leads to. -/
def openExisting (fs : Filesystem) (path : String) (access : Access) :
    Except IoFault (Nat × Filesystem) :=
  if hasNul path then .error .nulInPath
  else if !access.read && !access.writes then .error .noAccess
  else
    match fs.find .follow path with
    | .error e => .error (.os e)
    | .ok (_, .file inode) => .ok (fs.addDescriptor (descriptorOn (some inode) access))
    | .ok (_, .directory) =>
        if access.writes then .error (.os .isDirectory)
        else .ok (fs.addDescriptor (descriptorOn none access))
    | .ok (_, .link _) => .error (.os .tooManyLinks)

/-- Create a file that must not exist, and open it for writing.  The last name is not followed. -/
def createNew (fs : Filesystem) (path : String) (read : Bool) :
    Except IoFault (Nat × Filesystem) :=
  if hasNul path then .error .nulInPath
  else
    match fs.resolve .name path with
    | .error e => .error (.os e)
    | .ok (.here _) => .error (.os .exists)
    | .ok (.entry directory name found slash) =>
        if slash then .error (.os .isDirectory)
        else if tooLong name then .error (.os .nameTooLong)
        else if found.isSome then .error (.os .exists)
        else
          let (inode, fs) := fs.addFile (directory ++ [name])
          .ok (fs.addDescriptor (descriptorOn (some inode) { read, write := true }))

/-! ## Names -/

/-- `true` if the path names something, be it a link without a target. -/
def names (fs : Filesystem) (path : String) : Bool :=
  !hasNul path && (fs.find .stay path).isOk

/-- Remove the last name of a path, which must not be a directory. -/
def unlink (fs : Filesystem) (path : String) : Except IoFault Filesystem :=
  if hasNul path then .error .nulInPath
  else
    match fs.resolve .name path with
    | .error e => .error (.os e)
    | .ok (.here _) => .error (.os .isDirectory)
    | .ok (.entry directory name found slash) =>
        match found with
        | none => .error (.os (if tooLong name then .nameTooLong else .noEntry))
        | some .directory => .error (.os .isDirectory)
        | some _ =>
            if slash then .error (.os .notDirectory)
            else .ok (fs.eraseEntry (directory ++ [name]))

/-- Where a new name can go: nothing may stand there yet. -/
def vacancy (fs : Filesystem) (path : String) (directory : Bool) : Except IoFault Location :=
  match fs.resolve .name path with
  | .error e => .error (.os e)
  | .ok (.here _) => .error (.os .exists)
  | .ok (.entry at_ name found slash) =>
      if tooLong name then .error (.os .nameTooLong)
      else if found.isSome then .error (.os .exists)
      else if slash && !directory then .error (.os .noEntry)
      else .ok (at_ ++ [name])

def makeDirectory (fs : Filesystem) (path : String) : Except IoFault Filesystem :=
  if hasNul path then .error .nulInPath
  else (fs.vacancy path true).map fun at_ => fs.setEntry at_ .directory

/-- Make a link at `path` with the given target, which need not exist. -/
def makeLink (fs : Filesystem) (path target : String) : Except IoFault Filesystem :=
  if hasNul target || hasNul path then .error .nulInPath
  else if target = "" then .error (.os .noEntry)
  else if maxPath ≤ target.utf8ByteSize then .error (.os .nameTooLong)
  else (fs.vacancy path false).map fun at_ => fs.setEntry at_ (.link target)

/-- Where `at_` is after everything at or below `old` moved to `new`. -/
def moved (old new at_ : Location) : Location :=
  if old.isPrefixOf at_ then new ++ at_.drop old.length else at_

/-- Move everything at or below `old` to `new`. -/
def relocate (fs : Filesystem) (old new : Location) : Filesystem :=
  { fs with
    entries := ⟨fs.entries.entries.map fun (at_, entry) => (moved old new at_, entry)⟩
    home := moved old new fs.home }

/-- Whether `source` may take the place of `target`. -/
def replaceable (fs : Filesystem) (source : Entry) (at_ : Location) : Except Errno Unit :=
  match source, fs.entry? at_ with
  | _, none => .ok ()
  | .directory, some .directory => if (fs.below at_).isEmpty then .ok () else .error .notEmpty
  | .directory, some _ => .error .notDirectory
  | _, some .directory => .error .isDirectory
  | _, some _ => .ok ()

/-- Give what `path` names the name `newPath`, in place of what stands there. -/
def rename (fs : Filesystem) (path newPath : String) : Except IoFault Filesystem :=
  if hasNul path || hasNul newPath then .error .nulInPath
  else
    match fs.resolve .name path with
    | .error e => .error (.os e)
    | .ok source =>
        match fs.resolve .name newPath with
        | .error e => .error (.os e)
        | .ok target =>
            match source, target with
            | .entry from_ name found slash, .entry into newName _ newSlash =>
                let old := from_ ++ [name]
                let new := into ++ [newName]
                match found with
                | none => .error (.os (if tooLong name then .nameTooLong else .noEntry))
                | some entry =>
                    if tooLong newName then .error (.os .nameTooLong)
                    else if entry ≠ .directory ∧ (slash ∨ newSlash) then .error (.os .notDirectory)
                    else if old.isPrefixOf into then .error (.os .invalidArgument)
                    else if new.isPrefixOf from_ then .error (.os .notEmpty)
                    else if old = new then .ok fs
                    else
                      match fs.replaceable entry new with
                      | .error e => .error (.os e)
                      | .ok () => .ok ((fs.eraseEntry new).relocate old new)
            | _, _ => .error (.os .busy)

/-! ## Descriptors -/

/-- No position is larger, and no transfer reaches past it. -/
def maxPosition : Nat := Nat.pow 2 63 - 1

/-- No file grows past this length. -/
def maxLength : Nat := Nat.pow 2 44 - Nat.pow 2 12

/-- What the system reports as the length of a directory. -/
def directoryLength : Nat := 4096

/-- The most bytes the system is asked for at once by a read into a buffer of known size. -/
def transferLimit : Nat := 8192

/-- The most bytes the system is asked for by a read that has no buffer yet. -/
def probeSize : Nat := 32

/-- The file behind a descriptor, unless it is a directory. -/
def inode? (fs : Filesystem) (fd : Nat) : Option Inode :=
  (fs.descriptors.get? fd).bind (·.inode)

/-- The length of the open file. -/
def length (fs : Filesystem) (fd : Nat) : Nat :=
  match fs.inode? fd with
  | some inode => (fs.content inode).length
  | none => directoryLength

/-- The largest position of a descriptor: in a file it is the greatest length, in a directory there
is no other bound. -/
def positionLimit (fs : Filesystem) (fd : Nat) : Nat :=
  match fs.inode? fd with
  | some _ => maxLength
  | none => maxPosition

/-- Where a seek from the end starts; the end of a directory is past all its entries. -/
def endPosition (fs : Filesystem) (fd : Nat) : Nat :=
  match fs.inode? fd with
  | some inode => (fs.content inode).length
  | none => maxPosition

def position (fs : Filesystem) (fd : Nat) : Nat :=
  match fs.descriptors.get? fd with
  | some d => d.position
  | none => 0

def setPosition (fs : Filesystem) (fd position : Nat) : Filesystem :=
  { fs with descriptors := fs.descriptors.modify fd fun d => { d with position } }

/-- Move a descriptor to a position, which may be past the end of the file. -/
def seek (fs : Filesystem) (fd position : Nat) : Except Errno Filesystem :=
  if fs.positionLimit fd < position then .error .invalidArgument
  else .ok (fs.setPosition fd position)

/-- Move a descriptor by `delta` from `base`. -/
def seekFrom (fs : Filesystem) (fd base : Nat) (delta : Int) : Except Errno Filesystem :=
  if (base : Int) + delta < 0 then .error .invalidArgument
  else fs.seek fd ((base : Int) + delta).toNat

/-- Read at most `len` bytes from the position on and move past them.  The system is asked for at most
`ask` bytes at first; a directory refuses that, but not before it refuses to reach too far. -/
def read (fs : Filesystem) (fd len ask : Nat) : Except Errno (Bytes × Filesystem) :=
  if len = 0 then .ok ([], fs)
  else
    match fs.descriptors.get? fd with
    | none => .error .badDescriptor
    | some d =>
        if !d.readable then .error .badDescriptor
        else
          match d.inode with
          | none =>
              if maxPosition < d.position + min len ask then .error .invalidArgument
              else .error .isDirectory
          | some inode =>
              let bytes := (fs.content inode).slice d.position len
              .ok (bytes, fs.setPosition fd (d.position + bytes.length))

/-- Put `bytes` into a file at `offset` and leave the descriptor behind them. -/
def put (fs : Filesystem) (fd : Nat) (inode : Inode) (offset : Nat) (bytes : Bytes) : Filesystem :=
  (fs.setContent inode ((fs.content inode).splice offset bytes)).setPosition fd
    (offset + bytes.length)

/-- Write all of `bytes` at the position, or at the end of the file, and move past them.  Of bytes that
would make the file too long those that fit are written before the rest is refused. -/
def write (fs : Filesystem) (fd : Nat) (bytes : Bytes) : Except Errno Unit × Filesystem :=
  if bytes = [] then (.ok (), fs)
  else
    match fs.descriptors.get? fd with
    | none => (.error .badDescriptor, fs)
    | some d =>
        if !d.writable then (.error .badDescriptor, fs)
        else
          match d.inode with
          | none => (.error .isDirectory, fs)
          | some inode =>
              let offset := if d.appends then (fs.content inode).length else d.position
              let room := maxLength - offset
              if bytes.length ≤ room then (.ok (), fs.put fd inode offset bytes)
              else if room = 0 then (.error .fileTooLarge, fs)
              else (.error .fileTooLarge, fs.put fd inode offset (bytes.take room))

/-- Go to `offset` and read there.  The descriptor stays moved where the read is refused. -/
def readAt (fs : Filesystem) (fd offset len : Nat) : Except Errno Bytes × Filesystem :=
  match fs.seek fd offset with
  | .error e => (.error e, fs)
  | .ok fs =>
      match fs.read fd len transferLimit with
      | .error e => (.error e, fs)
      | .ok (bytes, fs) => (.ok bytes, fs)

/-- Go to `offset` and write there.  The descriptor stays moved where the write is refused. -/
def writeAt (fs : Filesystem) (fd offset : Nat) (bytes : Bytes) : Except Errno Unit × Filesystem :=
  match fs.seek fd offset with
  | .error e => (.error e, fs)
  | .ok fs => fs.write fd bytes

/-! ## Whole files -/

/-- The bytes of the file a path leads to. -/
def load (fs : Filesystem) (path : String) : Except IoFault Bytes :=
  if hasNul path then .error .nulInPath
  else
    match fs.find .follow path with
    | .error e => .error (.os e)
    | .ok (_, .file inode) => .ok (fs.content inode).toBytes
    | .ok _ => .error (.os .isDirectory)

/-- Make `bytes` the content of the file a path leads to, which is created if it is not there. -/
def store (fs : Filesystem) (path : String) (bytes : Bytes) : Except IoFault Filesystem :=
  if hasNul path then .error .nulInPath
  else
    match fs.resolve .create path with
    | .error e => .error (.os e)
    | .ok (.here _) => .error (.os .isDirectory)
    | .ok (.entry directory name found _) =>
        match found with
        | some (.file inode) => .ok (fs.setContent inode (.ofBytes bytes))
        | some _ => .error (.os .isDirectory)
        | none =>
            let (inode, fs) := fs.addFile (directory ++ [name])
            .ok (fs.setContent inode (.ofBytes bytes))

end Transact.Filesystem
