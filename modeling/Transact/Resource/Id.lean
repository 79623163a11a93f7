/-
# Transact.Resource.Id -- what transactions compete for

A resource is a path, one end of a pipe, or something an application names.  Its `key` says which
resource an identity means, whatever its spelling: two identities are the same resource exactly
when their keys are equal.  `compare` is the order of the keys, and `canonical` lists each resource
of a request once, in that order; locks are taken in it, so no two transactions wait on each other
in a circle.
-/
import Transact.Path

namespace Transact

set_option autoImplicit false

/-- The name of a shared resource, as it was written. -/
inductive ResourceId where
  | path (text : String)
  | pipeRead (pipe : Nat)
  | pipeWrite (pipe : Nat)
  | named (name : String)
  deriving DecidableEq

/-- Which resource is meant: its sort, its number, and the ranks of its parts. -/
structure ResourceKey where
  sort : Nat
  number : Nat
  parts : List (Nat × String)
  deriving DecidableEq

/-! ## The order of keys -/

/-- Ranks go by number, then by text. -/
def compareRanks (a b : Nat × String) : Ordering :=
  (compare a.1 b.1).then (compare a.2 b.2)

/-- Lists of ranks go by the first difference; a list goes after its own beginnings. -/
def compareParts : List (Nat × String) → List (Nat × String) → Ordering
  | [], [] => .eq
  | [], _ :: _ => .lt
  | _ :: _, [] => .gt
  | a :: as, b :: bs => (compareRanks a b).then (compareParts as bs)

def ResourceKey.order (a b : ResourceKey) : Ordering :=
  (compare a.sort b.sort).then ((compare a.number b.number).then (compareParts a.parts b.parts))

namespace ResourceId

def key : ResourceId → ResourceKey
  | .path text => ⟨0, 0, (Path.components text).map Component.rank⟩
  | .pipeRead pipe => ⟨1, pipe, []⟩
  | .pipeWrite pipe => ⟨2, pipe, []⟩
  | .named name => ⟨3, 0, [(0, name)]⟩

/-- `true` if both names mean one resource. -/
def same (a b : ResourceId) : Bool := a.key == b.key

def order (a b : ResourceId) : Ordering := a.key.order b.key

def isPipe : ResourceId → Bool
  | .pipeRead _ | .pipeWrite _ => true
  | _ => false

def render : ResourceId → String
  | .path text => "path:" ++ text
  | .pipeRead pipe => "pipe:" ++ toString pipe ++ ":r"
  | .pipeWrite pipe => "pipe:" ++ toString pipe ++ ":w"
  | .named name => "named:" ++ name

/-! ## Lists of resources -/

/-- Put `id` in its place, after those that are not greater. -/
def insertAfter (id : ResourceId) : List ResourceId → List ResourceId
  | [] => [id]
  | other :: rest =>
      if id.order other = .lt then id :: other :: rest else other :: insertAfter id rest

/-- The list in ascending order; equal resources keep the order they came in. -/
def sorted (ids : List ResourceId) : List ResourceId :=
  ids.foldl (fun acc id => insertAfter id acc) []

/-- Put `id` in its place unless the resource is there already. -/
def insertOnce (id : ResourceId) : List ResourceId → List ResourceId
  | [] => [id]
  | other :: rest =>
      match id.order other with
      | .lt => id :: other :: rest
      | .eq => other :: rest
      | .gt => other :: insertOnce id rest

/-- Each resource once, in ascending order, under its first spelling. -/
def canonical (ids : List ResourceId) : List ResourceId :=
  ids.foldl (fun acc id => insertOnce id acc) []

end ResourceId

end Transact
