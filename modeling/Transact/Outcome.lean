/-
# Transact.Outcome -- how a transaction ended

A transaction commits or aborts for one of four reasons.  Contention -- a failed validation or a
lock that could not be had -- may be retried; a participant's failure and a requested abort may not.
-/
import Transact.Error

namespace Transact

set_option autoImplicit false

/-- Why a transaction did not commit. -/
inductive AbortReason where
  | validationFailed
  | lockFailed
  /-- A participant failed with this number. -/
  | moduleError (code : Int)
  | requested
  deriving DecidableEq

namespace AbortReason

def isRetryable : AbortReason → Bool
  | .validationFailed | .lockFailed => true
  | _ => false

/-- The kind of error that reports the reason. -/
def errorKind : AbortReason → ErrorKind
  | .validationFailed => .validationConflict
  | .lockFailed => .resourceBusy
  | .moduleError _ => .moduleInternalError
  | .requested => .invalidOperation

/-- The reason as a term. -/
def term : AbortReason → String
  | .validationFailed => "ValidationFailed"
  | .lockFailed => "LockFailed"
  | .moduleError code => "ModuleError(" ++ toString code ++ ")"
  | .requested => "Requested"

def render : AbortReason → String
  | .validationFailed => "VALIDATION_FAILED"
  | .lockFailed => "LOCK_FAILED"
  | .moduleError code => "MODULE_ERROR(" ++ toString code ++ ")"
  | .requested => "REQUESTED"

/-- The error of a commit that aborted. -/
def toError (reason : AbortReason) : Error :=
  .of reason.errorKind ("Transaction aborted: " ++ reason.render)

/-- A reason is retryable exactly when its error is. -/
theorem isRetryable_toError (reason : AbortReason) :
    reason.toError.isRetryable = reason.isRetryable := by
  cases reason <;> rfl

end AbortReason

/-- The end of a transaction. -/
inductive Outcome where
  | committed
  | aborted (reason : AbortReason)
  deriving DecidableEq

namespace Outcome

def isCommitted : Outcome → Bool
  | .committed => true
  | .aborted _ => false

def reason? : Outcome → Option AbortReason
  | .committed => none
  | .aborted reason => some reason

/-- Success, or the error that reports the abort. -/
def toResult : Outcome → Except Error Unit
  | .committed => .ok ()
  | .aborted reason => .error reason.toError

/-- The outcome as a term. -/
def term : Outcome → String
  | .committed => "Committed"
  | .aborted reason => "Aborted(" ++ reason.term ++ ")"

def render : Outcome → String
  | .committed => "COMMITTED"
  | .aborted reason => "ABORTED(" ++ reason.render ++ ")"

end Outcome

end Transact
