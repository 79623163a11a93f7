/-
# Transact.Filesystem.Tree -- directories, files, links and open descriptors

The tree is a table from names to what stands there.  A *location* is the list of names from the
root; the root itself is always a directory.  Files are told apart by inode, so a file stays itself
while it is renamed, and lives on behind its descriptors when it is unlinked.  A descriptor is the
position and the access rights that every duplicate of it shares.
-/
import Transact.Error
import Transact.Filesystem.Content
import Transact.Table

namespace Transact

set_option autoImplicit false

/-! ## Faults -/

/-- A system call's refusal. -/
inductive Errno where
  | noEntry
  | badDescriptor
  | busy
  | exists
  | notDirectory
  | isDirectory
  | invalidArgument
  | fileTooLarge
  | nameTooLong
  | notEmpty
  | tooManyLinks
  deriving DecidableEq

def Errno.code : Errno → Int
  | .noEntry => 2
  | .badDescriptor => 9
  | .busy => 16
  | .exists => 17
  | .notDirectory => 20
  | .isDirectory => 21
  | .invalidArgument => 22
  | .fileTooLarge => 27
  | .nameTooLong => 36
  | .notEmpty => 39
  | .tooManyLinks => 40

/-- Why a call on the file system failed: the system refused it, or it was never made. -/
inductive IoFault where
  | os (errno : Errno)
  /-- The path holds a NUL byte, which no name can. -/
  | nulInPath
  /-- Neither reading nor writing was asked for. -/
  | noAccess
  deriving DecidableEq

def IoFault.toError : IoFault → Error
  | .os errno => .ofOsCode errno.code
  | .nulInPath => .ofIo .invalidInput "file name contained an unexpected NUL byte"
  | .noAccess => .ofIo .invalidInput "must specify at least one of read, write, or append access"

/-! ## The tree -/

/-- Names from the root. -/
abbrev Location : Type := List String

abbrev Inode : Type := Nat

/-- What stands at a location. -/
inductive Entry where
  | directory
  | file (inode : Inode)
  | link (target : String)
  deriving DecidableEq

/-- An open file or directory.  Duplicates of a descriptor share its position. -/
structure Descriptor where
  /-- The open file; a directory has none. -/
  inode : Option Inode
  position : Nat := 0
  readable : Bool
  writable : Bool
  /-- Every write goes to the end of the file. -/
  appends : Bool := false
  deriving DecidableEq

structure Filesystem where
  entries : Table Location Entry := {}
  contents : Table Inode Content := {}
  nextInode : Inode := 0
  descriptors : Table Nat Descriptor := {}
  nextDescriptor : Nat := 0
  /-- The directory that relative paths start from. -/
  home : Location := []
  deriving DecidableEq

namespace Filesystem

/-- A tree of nothing but the directories on the way to `home`. -/
def ofHome (home : Location) : Filesystem :=
  let ways := (List.range home.length).map fun n => home.take (n + 1)
  { entries := ⟨ways.map fun at_ => (at_, Entry.directory)⟩, home }

/-- What stands at `at_`; the root is a directory. -/
def entry? (fs : Filesystem) (at_ : Location) : Option Entry :=
  if at_ = [] then some .directory else fs.entries.get? at_

/-- What a file holds. -/
def content (fs : Filesystem) (inode : Inode) : Content := (fs.contents.get? inode).getD {}

def setEntry (fs : Filesystem) (at_ : Location) (entry : Entry) : Filesystem :=
  { fs with entries := fs.entries.set at_ entry }

def eraseEntry (fs : Filesystem) (at_ : Location) : Filesystem :=
  { fs with entries := fs.entries.erase at_ }

def setContent (fs : Filesystem) (inode : Inode) (content : Content) : Filesystem :=
  { fs with contents := fs.contents.set inode content }

/-- Put a new empty file at `at_`. -/
def addFile (fs : Filesystem) (at_ : Location) : Inode × Filesystem :=
  (fs.nextInode,
    { fs with
      entries := fs.entries.set at_ (.file fs.nextInode)
      contents := fs.contents.set fs.nextInode {}
      nextInode := fs.nextInode + 1 })

/-- Hand out a number for a new descriptor. -/
def addDescriptor (fs : Filesystem) (d : Descriptor) : Nat × Filesystem :=
  (fs.nextDescriptor,
    { fs with
      descriptors := fs.descriptors.set fs.nextDescriptor d
      nextDescriptor := fs.nextDescriptor + 1 })

/-- Everything below `at_`, by the names from there. -/
def below (fs : Filesystem) (at_ : Location) : List (Location × Entry) :=
  fs.entries.entries.filterMap fun (there, entry) =>
    if at_.isPrefixOf there && there.length > at_.length then some (there.drop at_.length, entry)
    else none

end Filesystem

end Transact
