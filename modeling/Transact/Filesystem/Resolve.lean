/-
# Transact.Filesystem.Resolve -- from a path to a place in the tree

A path is followed name by name from the root or from the home directory.  Every name but the last
has to lead to a directory; a link on the way continues with its target, and one path may pass
through `maxLinks` links.  What happens to the last name depends on the call: `Ending` says whether
a link in last place is followed.  `canonical?` is the location a path leads to when everything on
it exists.
-/
import Transact.Filesystem.Tree
import Transact.Path

namespace Transact.Filesystem

set_option autoImplicit false

/-- How the last name of a path is treated. -/
inductive Ending where
  /-- A link is followed. -/
  | follow
  /-- As `follow`, for a call that may create a file: no slash may come after the last name. -/
  | create
  /-- A link is followed only if a slash comes after it. -/
  | stay
  /-- A link is never followed: the call is about the name itself, and looks at its length. -/
  | name
  /-- As `follow`, looking up the whole location of each name: that is what has to be short. -/
  | canonical
  deriving DecidableEq

/-- `true` for a call that goes on from a link in last place. -/
def Ending.follows : Ending → Bool → Bool
  | .follow, _ | .create, _ | .canonical, _ => true
  | .stay, slash => slash
  | .name, _ => false

/-- Where a path leads. -/
inductive Place where
  /-- A directory reached without a name at the end: the root, a dot or two dots. -/
  | here (directory : Location)
  /-- The last name in its directory, what stands there, and whether a slash comes after it. -/
  | entry (directory : Location) (name : String) (found : Option Entry) (slash : Bool)
  deriving DecidableEq

/-- The most links one path may pass through. -/
def maxLinks : Nat := 40

/-- The most bytes a name may have. -/
def maxName : Nat := 255

/-- The most bytes a path may have, with the NUL that ends it. -/
def maxPath : Nat := 4096

/-- `true` for a name that no directory can hold. -/
def tooLong (name : String) : Bool := maxName < name.utf8ByteSize

/-- `true` for a location that no path can spell from the root. -/
def tooDeep (at_ : Location) : Bool := maxPath ≤ (Path.ofNames at_).utf8ByteSize

/-- What is left to follow: names from a directory, and whether a slash ends them. -/
structure Rest where
  directory : Location
  names : List String
  slash : Bool

/-- Follow `names` from `directory`, with `onLink` for what comes after a link. -/
def followWith (fs : Filesystem) (ending : Ending) (onLink : Rest → Except Errno Place)
    (slash : Bool) : Location → List String → Except Errno Place
  | directory, [] => .ok (.here directory)
  | directory, name :: rest =>
      if name = "." then followWith fs ending onLink slash directory rest
      else if name = ".." then followWith fs ending onLink slash directory.dropLast rest
      else if rest.isEmpty && slash && ending = .create then .error .isDirectory
      else if tooLong name && !(rest.isEmpty && ending = .name) then .error .nameTooLong
      else if ending = .canonical && tooDeep (directory ++ [name]) then .error .nameTooLong
      else
        match fs.entry? (directory ++ [name]), rest with
        | some (.link target), [] =>
            if ending.follows slash then
              onLink (linkRest directory target [] (slash || Path.endsInSlash target))
            else .ok (.entry directory name (some (.link target)) slash)
        | found, [] => .ok (.entry directory name found slash)
        | none, _ :: _ => .error .noEntry
        | some .directory, _ :: _ =>
            followWith fs ending onLink slash (directory ++ [name]) rest
        | some (.file _), _ :: _ => .error .notDirectory
        | some (.link target), _ :: _ => onLink (linkRest directory target rest slash)
where
  /-- What is left after a link with this target. -/
  linkRest (directory : Location) (target : String) (rest : List String) (slash : Bool) : Rest :=
    { directory := if Path.isAbsolute target then [] else directory
      names := Path.pieces target ++ rest
      slash }

/-- Follow what is left through at most `links` links. -/
def follow (fs : Filesystem) (ending : Ending) : Nat → Rest → Except Errno Place
  | 0, r => followWith fs ending (fun _ => .error .tooManyLinks) r.slash r.directory r.names
  | links + 1, r => followWith fs ending (follow fs ending links) r.slash r.directory r.names

/-- Follow a path.  Only in the search for the canonical location its own length does not matter. -/
def resolve (fs : Filesystem) (ending : Ending) (path : String) : Except Errno Place :=
  if path = "" then .error .noEntry
  else if ending ≠ .canonical ∧ maxPath ≤ path.utf8ByteSize then .error .nameTooLong
  else
    follow fs ending maxLinks
      { directory := if Path.isAbsolute path then [] else fs.home
        names := Path.pieces path
        slash := Path.endsInSlash path }

/-- `true` for a path that no call accepts. -/
def hasNul (path : String) : Bool := path.toList.contains '\x00'

/-- Follow a path to something that exists, with its location.  A slash at the end asks for a
directory. -/
def find (fs : Filesystem) (ending : Ending) (path : String) : Except Errno (Location × Entry) :=
  match fs.resolve ending path with
  | .error e => .error e
  | .ok (.here directory) => .ok (directory, .directory)
  | .ok (.entry directory name found slash) =>
      match found with
      | none => .error .noEntry
      | some .directory => .ok (directory ++ [name], .directory)
      | some other => if slash then .error .notDirectory else .ok (directory ++ [name], other)

/-- The location of what a path leads to, every link followed. -/
def canonical? (fs : Filesystem) (path : String) : Option Location :=
  if hasNul path then none
  else
    match fs.find .canonical path with
    | .ok (at_, _) => some at_
    | .error _ => none

end Transact.Filesystem
