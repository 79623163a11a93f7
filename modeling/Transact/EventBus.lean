/-
# Transact.EventBus -- telling listeners what happened

Listeners are registered with a delivery service, which hands them every event that is published.
`Delivery` lists what can be asked of such a service, and nothing is presumed of how it answers.  What
is known of one is said where it is needed: `Delivery.Attempts`, that publishing to listeners is one
attempt to deliver.

The bus is what stands before the service: it publishes nothing where nobody listens, and turns the
faults of the service into errors.
-/
import Transact.Error

namespace Transact

set_option autoImplicit false

/-- How a delivery service fails. -/
inductive Delivery.Fault where
  /-- Nobody was registered for such events yet. -/
  | unknownEvent
  | poisoned
  /-- A listener failed. -/
  | handler (e : Error)

/-- A service that hands events of type `E` to listeners of type `L`.  Registrations go by numbers. -/
class Delivery (B : Type) (L E : outParam Type) where
  subscribe : L → B → Except Delivery.Fault Nat × B
  unsubscribe : Nat → B → Except Delivery.Fault Unit × B
  publish : E → B → Except Delivery.Fault Unit × B
  /-- Remove every listener. -/
  clear : B → Except Delivery.Fault Unit × B
  /-- How many listeners are registered. -/
  count : B → Except Delivery.Fault Nat

namespace EventBus

variable {B L E α : Type}

/-- The error for a fault.  That of a listener is shown by the cause behind it if there is one. -/
def explain : Delivery.Fault → Error
  | .unknownEvent =>
      .of .eventError "Event bus error: no listener registered for transaction events"
  | .poisoned => .of .eventError "Event bus error: internal mutex poisoned"
  | .handler e =>
      .of .eventError ("Event handler error: " ++ (match e.cause? with
        | some cause => cause.message
        | none => e.message))

/-- The answer of a service, with its fault explained. -/
def answer (r : Except Delivery.Fault α × B) : Except Error α × B := (r.1.mapError explain, r.2)

variable [Delivery B L E]

/-- Add a listener.  The answer is the number of its registration. -/
def register (listener : L) (bus : B) : Except Error Nat × B :=
  answer (Delivery.subscribe listener bus)

def deregister (number : Nat) (bus : B) : Except Error Unit × B :=
  answer (Delivery.unsubscribe number bus)

/-- Whether anybody listens.  A service that cannot tell counts as one where nobody does. -/
def hasListeners (bus : B) : Bool :=
  match Delivery.count bus with
  | .ok n => 0 < n
  | .error _ => false

/-- Where nobody listens nothing is published. -/
def publish (event : E) (bus : B) : Except Error Unit × B :=
  if hasListeners bus then answer (Delivery.publish event bus) else (.ok (), bus)

/-- Remove every listener. -/
def close (bus : B) : Except Error Unit × B := answer (Delivery.clear bus)

end EventBus

/-! ## What is known of a service -/

namespace Delivery

variable {B L E : Type} [Delivery B L E]

/-- `attempted` lists the deliveries that a service attempted, oldest first: to publish an event where
listeners are registered is one attempt, whatever comes of it, and nothing else is. -/
structure Attempts (attempted : B → List E) : Prop where
  publish : ∀ (event : E) (service : B) (n : Nat), count service = .ok (n + 1) →
    attempted (publish event service).2 = attempted service ++ [event]
  subscribe : ∀ (listener : L) (service : B),
    attempted (subscribe listener service).2 = attempted service
  unsubscribe : ∀ (number : Nat) (service : B),
    attempted (unsubscribe number service).2 = attempted service
  clear : ∀ service : B, attempted (clear service).2 = attempted service

/-- The bus attempts one delivery where somebody listens, and none where nobody does. -/
theorem Attempts.published {attempted : B → List E} (attempts : Attempts attempted) (event : E)
    (bus : B) :
    attempted (EventBus.publish event bus).2 =
      attempted bus ++ if EventBus.hasListeners bus then [event] else [] := by
  unfold EventBus.publish
  by_cases heard : EventBus.hasListeners bus = true
  · rw [if_pos heard, if_pos heard]
    unfold EventBus.hasListeners at heard
    split at heard
    · next n counted =>
      cases n with
      | zero => cases heard
      | succ n => exact attempts.publish event bus n counted
    · cases heard
  · rw [if_neg heard, if_neg heard, List.append_nil]

end Delivery

end Transact
