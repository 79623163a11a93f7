/-
# Transact.Resource.Version -- optimistic control of concurrency by counters

A `VersionTable` counts, for each resource, how often it was published.  An `AccessSet` is what one
participant touched: each resource with the version it had at the first touch, and which of them it
changes.  `validate` asks whether any touched resource was published since; `publish` counts the
changed ones up by one.
-/
import Transact.Resource.Id
import Transact.Table

namespace Transact

set_option autoImplicit false

/-- How often each resource was published; a resource without a counter stands at zero. -/
structure VersionTable where
  counters : Table ResourceKey Nat := {}
  deriving DecidableEq

namespace VersionTable

def current (v : VersionTable) (id : ResourceId) : Nat := (v.counters.get? id.key).getD 0

/-- Make sure that `id` has a counter. -/
def track (v : VersionTable) (id : ResourceId) : VersionTable :=
  ⟨v.counters.set id.key (v.current id)⟩

/-- Count `id` up by one.  A counter of 64 bits starts again at zero after `2 ^ 64` counts; this one does
not, so it is right for that many publications of one resource. -/
def bump (v : VersionTable) (id : ResourceId) : VersionTable :=
  ⟨v.counters.set id.key (v.current id + 1)⟩

/-- How many resources have a counter. -/
def size (v : VersionTable) : Nat := v.counters.size

theorem current_bump_self (v : VersionTable) (id : ResourceId) :
    (v.bump id).current id = v.current id + 1 := by
  simp [bump, current]

theorem current_bump_of_ne (v : VersionTable) {id other : ResourceId} (h : other.key ≠ id.key) :
    (v.bump id).current other = v.current other := by
  simp only [bump, current, Table.get?_set_of_ne _ _ h]

end VersionTable

/-- The resources one participant touched. -/
structure AccessSet where
  /-- Each touched resource as first written, with its version at that time. -/
  observed : Table ResourceKey (ResourceId × Nat) := {}
  /-- The touched resources that change. -/
  written : Table ResourceKey ResourceId := {}
  deriving DecidableEq

namespace AccessSet

/-- The version of `id` at the first touch. -/
def snapshot (a : AccessSet) (id : ResourceId) : Option Nat :=
  (a.observed.get? id.key).map Prod.snd

/-- Touch `id`: its version is noted the first time only. -/
def observe (a : AccessSet) (v : VersionTable) (id : ResourceId) : AccessSet :=
  if a.observed.contains id.key then a
  else { a with observed := a.observed.set id.key (id, v.current id) }

/-- Touch `id` and mark it as changed. -/
def write (a : AccessSet) (v : VersionTable) (id : ResourceId) : AccessSet :=
  let seen := a.observe v id
  if seen.written.contains id.key then seen
  else { seen with written := seen.written.set id.key id }

/-- `true` if no touched resource was published since it was first touched. -/
def validate (a : AccessSet) (v : VersionTable) : Bool :=
  a.observed.values.all fun entry => v.current entry.1 == entry.2

/-- Count every changed resource up by one. -/
def publish (a : AccessSet) (v : VersionTable) : VersionTable :=
  a.written.values.foldl VersionTable.bump v

/-- `true` if `id` was touched and stands where it stood then. -/
def isCurrent (a : AccessSet) (v : VersionTable) (id : ResourceId) : Bool :=
  a.snapshot id == some (v.current id)

def isWritten (a : AccessSet) (id : ResourceId) : Bool := a.written.contains id.key

/-- The touched resources in order of the first touch. -/
def observedIds (a : AccessSet) : List ResourceId := a.observed.values.map Prod.fst

/-- The changed resources in order of the first change. -/
def writtenIds (a : AccessSet) : List ResourceId := a.written.values

def isEmpty (a : AccessSet) : Bool := a.observed.isEmpty

end AccessSet

end Transact
