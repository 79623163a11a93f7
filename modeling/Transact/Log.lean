/-
# Transact.Log -- what a transaction did and has yet to do

A participant writes down each effect on a resource.  A *deferred* record is an effect that apply
has to perform; an *eager* one already happened, and carries the state to which undo goes back.

Both `applyAll` and `undoAll` leave the log empty, so no record is acted on twice: apply goes
through it in order and stops at the first failure, undo goes through all of it from the newest
record to the oldest and reports the first failure it met.
-/
import Transact.Bytes
import Transact.Error
import Transact.Resource.Id

namespace Transact

set_option autoImplicit false

/-- What a resource was before an eager effect. -/
inductive PreState where
  | absent
  | offset (n : Nat)
  | bytes (content : Bytes)
  deriving DecidableEq

/-- One effect on one resource. -/
structure Record (P : Type) where
  resource : ResourceId
  preState : Option PreState := none
  payload : P
  deriving DecidableEq

namespace Record

variable {P : Type}

/-- An effect still to be performed. -/
def deferred (resource : ResourceId) (payload : P) : Record P := { resource, payload }

/-- An effect that happened, with what was there before. -/
def eager (resource : ResourceId) (preState : PreState) (payload : P) : Record P :=
  { resource, preState := some preState, payload }

def isDeferred (r : Record P) : Bool := r.preState.isNone

end Record

/-- The records of one participant, oldest first. -/
structure DeferredLog (P : Type) where
  records : List (Record P) := []
  deriving DecidableEq

namespace DeferredLog

variable {P S : Type}

def append (log : DeferredLog P) (r : Record P) : DeferredLog P := ⟨log.records ++ [r]⟩

def size (log : DeferredLog P) : Nat := log.records.length

def isEmpty (log : DeferredLog P) : Bool := log.records.isEmpty

/-! ## Acting on records -/

/-- Act on each record in order until one fails. -/
def applyEach (act : Record P → S → Except Error Unit × S) :
    List (Record P) → S → Except Error Unit × S
  | [], s => (.ok (), s)
  | r :: rest, s =>
      match act r s with
      | (.ok (), s') => applyEach act rest s'
      | (.error e, s') => (.error e, s')

/-- Act on each record from the last to the first, and remember the first failure. -/
def undoEach (act : Record P → S → Except Error Unit × S) :
    List (Record P) → S → Except Error Unit × S
  | [], s => (.ok (), s)
  | r :: rest, s =>
      match undoEach act rest s with
      | (.ok (), s') => act r s'
      | (.error e, s') => (.error e, (act r s').2)

/-- Perform the records.  The answer is how many there were; the log is empty afterwards, and what
stood after a failing record is never performed. -/
def applyAll (log : DeferredLog P) (act : Record P → S → Except Error Unit × S) (s : S) :
    Except Error Nat × DeferredLog P × S :=
  match applyEach act log.records s with
  | (.ok (), s') => (.ok log.size, {}, s')
  | (.error e, s') => (.error e, {}, s')

/-- Revert the records, newest first.  The answer is how many there were; a failing one does not
keep the others from being reverted, and the log is empty afterwards. -/
def undoAll (log : DeferredLog P) (act : Record P → S → Except Error Unit × S) (s : S) :
    Except Error Nat × DeferredLog P × S :=
  match undoEach act log.records s with
  | (.ok (), s') => (.ok log.size, {}, s')
  | (.error e, s') => (.error e, {}, s')

/-- Drop every record without acting on it. -/
def discard (log : DeferredLog P) : Nat × DeferredLog P := (log.size, {})

/-- Reverting acts on the records one by one, from the last to the first. -/
theorem undoEach_foldr (act : Record P → S → Except Error Unit × S) (rs : List (Record P)) (s : S) :
    (undoEach act rs s).2 = rs.foldr (fun r s => (act r s).2) s := by
  induction rs with
  | nil => rfl
  | cons r rest ih =>
      rw [List.foldr_cons, ← ih, undoEach]
      rcases undoEach act rest s with ⟨_ | _, s'⟩ <;> rfl

theorem undoAll_foldr (log : DeferredLog P) (act : Record P → S → Except Error Unit × S) (s : S) :
    (log.undoAll act s).2.2 = log.records.foldr (fun r s => (act r s).2) s := by
  rw [← undoEach_foldr, undoAll]
  rcases undoEach act log.records s with ⟨_ | _, s'⟩ <;> rfl

/-- Where no record does anything there is nothing to revert. -/
theorem undoEach_idle {act : Record P → S → Except Error Unit × S} {rs : List (Record P)} {s : S}
    (idle : ∀ r ∈ rs, act r s = (.ok (), s)) : undoEach act rs s = (.ok (), s) := by
  induction rs with
  | nil => rfl
  | cons r rest ih =>
      obtain ⟨first, others⟩ := List.forall_mem_cons.1 idle
      simp only [undoEach, ih others, first]

end DeferredLog

end Transact
