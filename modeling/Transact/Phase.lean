/-
# Transact.Phase -- the life of a transaction

    active → locked → validating → applying → finishing → released
       \                  \                      /
        ——————————————————— undoing ————————————

A transaction leaves `active` once, ends in `released`, and passes through exactly one of `applying`
and `undoing` on the way.
-/

namespace Transact

set_option autoImplicit false

inductive Phase where
  /-- The body runs. -/
  | active
  /-- Every participant holds its locks. -/
  | locked
  /-- Versions seen are compared with those in force. -/
  | validating
  /-- Deferred effects are performed. -/
  | applying
  /-- Eager effects are reverted. -/
  | undoing
  /-- Cleanup, whatever the outcome. -/
  | finishing
  /-- Every participant is gone. -/
  | released
  deriving DecidableEq

namespace Phase

/-- The steps of the picture above. -/
def canAdvance : Phase → Phase → Bool
  | .active, .locked | .active, .undoing | .locked, .validating | .validating, .applying
  | .validating, .undoing | .applying, .finishing | .undoing, .finishing
  | .finishing, .released => true
  | _, _ => false

def isTerminal (p : Phase) : Bool := p == .released

/-- The name of the phase as a term. -/
def term : Phase → String
  | .active => "Active"
  | .locked => "Locked"
  | .validating => "Validating"
  | .applying => "Applying"
  | .undoing => "Undoing"
  | .finishing => "Finishing"
  | .released => "Released"

def render : Phase → String
  | .active => "ACTIVE"
  | .locked => "LOCKED"
  | .validating => "VALIDATING"
  | .applying => "APPLYING"
  | .undoing => "UNDOING"
  | .finishing => "FINISHING"
  | .released => "RELEASED"

end Phase

end Transact
