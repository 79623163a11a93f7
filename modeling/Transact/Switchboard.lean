/-
# Transact.Switchboard -- a delivery service that calls one listener after another

Listeners are called in order of registration, until one fails; that failure is what publishing answers.
The switchboard keeps a record of who was told what, and of what it was given to deliver.
-/
import Transact.EventBus

namespace Transact

set_option autoImplicit false

/-- Somebody who is told of events, and fails with `fault` after taking note if there is one. -/
structure Listener where
  name : String
  fault : Option Error := none
  deriving DecidableEq

structure Switchboard (E : Type) where
  /-- Listeners by their number, in order of registration. -/
  listeners : List (Nat × Listener) := []
  /-- The number of the next listener. -/
  next : Nat := 0
  /-- Whether anybody registered since it was last cleared. -/
  known : Bool := false
  /-- What was to be delivered, oldest first. -/
  attempted : List E := []
  /-- Who was told what, oldest first. -/
  told : List (String × E) := []

namespace Switchboard

variable {E : Type}

/-- Tell the listeners one after another until one fails. -/
def tell (event : E) : List (Nat × Listener) → List (String × E) × Except Delivery.Fault Unit
  | [] => ([], .ok ())
  | (_, listener) :: rest =>
      match listener.fault with
      | some e => ([(listener.name, event)], .error (.handler e))
      | none =>
          let (told, result) := tell event rest
          ((listener.name, event) :: told, result)

/-- A listener may be gone already when it is removed.  Where nobody registered since the switchboard was
cleared it does not know of any events. -/
instance : Delivery (Switchboard E) Listener E where
  subscribe listener s :=
    (.ok s.next,
      { s with
        listeners := s.listeners ++ [(s.next, listener)]
        next := s.next + 1
        known := true })
  unsubscribe number s :=
    if s.known then (.ok (), { s with listeners := s.listeners.filter (·.1 ≠ number) })
    else (.error .unknownEvent, s)
  publish event s :=
    let (told, result) := tell event s.listeners
    (result, { s with attempted := s.attempted ++ [event], told := s.told ++ told })
  clear s := (.ok (), { s with listeners := [], known := false })
  count s := if s.known then .ok s.listeners.length else .error .unknownEvent

theorem attempts : Delivery.Attempts (attempted : Switchboard E → List E) where
  publish _ _ _ _ := rfl
  subscribe _ _ := rfl
  unsubscribe _ s := by
    rcases s with ⟨listeners, next, known | known, attempted, told⟩ <;> rfl
  clear _ := rfl

/-- What the listeners called `name` were told, oldest first. -/
def toldTo (s : Switchboard E) (name : String) : List E :=
  s.told.filterMap fun entry => if entry.1 = name then some entry.2 else none

end Switchboard

end Transact
