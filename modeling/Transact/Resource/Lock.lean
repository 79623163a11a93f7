/-
# Transact.Resource.Lock -- exclusive locks and the locks a participant holds

A lock belongs to a transaction, not to a call, so it can be taken in one step of a commit and given
back in another.  Taking a lock that one holds already succeeds and is not counted.  `HeldLocks` is
what one participant took, newest first; `acquireAll` takes a whole request in canonical order and
gives back everything it holds when one lock cannot be had.
-/
import Transact.Error
import Transact.Resource.Id
import Transact.Table

namespace Transact

set_option autoImplicit false

/-- Who holds locks: told apart by a number and a label, shown by the label. -/
structure TxId where
  serial : Nat
  label : String
  deriving DecidableEq

def TxId.render (tx : TxId) : String := "<" ++ tx.label ++ ">"

/-- The locks that were ever asked for, with their holders. -/
structure LockTable where
  slots : Table ResourceKey (Option TxId) := {}
  deriving DecidableEq

namespace LockTable

/-- Who holds `id`, if anybody does. -/
def holder (t : LockTable) (id : ResourceId) : Option TxId := (t.slots.get? id.key).join

/-- Make sure that `id` has a lock. -/
def track (t : LockTable) (id : ResourceId) : LockTable :=
  ⟨t.slots.set id.key (t.holder id)⟩

/-- Take `id` for `owner` if nobody else holds it; a refusal leaves the holder as it is. -/
def acquire (t : LockTable) (id : ResourceId) (owner : TxId) : Bool × LockTable :=
  match t.holder id with
  | none => (true, ⟨t.slots.set id.key (some owner)⟩)
  | some other => (other == owner, t.track id)

/-- Give `id` back; `false` if `owner` does not hold it. -/
def release (t : LockTable) (id : ResourceId) (owner : TxId) : Bool × LockTable :=
  if t.holder id = some owner then (true, ⟨t.slots.set id.key none⟩) else (false, t)

/-- How many locks there are, held or not. -/
def size (t : LockTable) : Nat := t.slots.size

end LockTable

/-- A lock could not be had in time. -/
def Error.busy (id : ResourceId) : Error :=
  .of .resourceBusy ("Resource " ++ id.render ++ " is busy")

/-- The locks one participant holds, newest first. -/
structure HeldLocks where
  ids : List ResourceId := []
  deriving DecidableEq

namespace HeldLocks

def holds (h : HeldLocks) (id : ResourceId) : Bool := h.ids.any (·.same id)

def size (h : HeldLocks) : Nat := h.ids.length

def isEmpty (h : HeldLocks) : Bool := h.ids.isEmpty

/-- Give back the locks `ids`, in that order. -/
def releaseEach (owner : TxId) : List ResourceId → LockTable → LockTable
  | [], t => t
  | id :: rest, t => releaseEach owner rest (t.release id owner).2

/-- Give back every lock, newest first. -/
def releaseAll (h : HeldLocks) (owner : TxId) (t : LockTable) : LockTable :=
  releaseEach owner h.ids t

/-- Take the locks `ids` one after another, passing over those held already.  The first that cannot
be had ends the request, and with it everything held. -/
def acquireEach (owner : TxId) :
    List ResourceId → HeldLocks → LockTable → Except Error Unit × HeldLocks × LockTable
  | [], h, t => (.ok (), h, t)
  | id :: rest, h, t =>
      if h.holds id then acquireEach owner rest h t
      else
        match t.acquire id owner with
        | (true, t') => acquireEach owner rest ⟨id :: h.ids⟩ t'
        | (false, t') => (.error (.busy id), {}, h.releaseAll owner t')

/-- Take every lock of a request in canonical order. -/
def acquireAll (h : HeldLocks) (ids : List ResourceId) (owner : TxId) (t : LockTable) :
    Except Error Unit × HeldLocks × LockTable :=
  acquireEach owner (ResourceId.canonical ids) h t

end HeldLocks

end Transact
