/-
# Transact.Error -- failures: what happened, of which kind, and why

An `Error` is a fault and the chain of faults that caused it, outermost first.  Its number is that
of the system call at the root of the chain if there is one, and otherwise that of its kind, so
that an effect that was put off reports the number it would have reported at once.
`isRetryable` separates contention, after which the whole transaction may run again, from all else.

The named errors at the end are the ones this library raises; each wording is written here once.
-/
import Transact.Error.SystemText

namespace Transact

set_option autoImplicit false

/-- What a failure means to the caller. -/
inductive ErrorKind where
  | resourceBusy
  | validationConflict
  | moduleInternalError
  | decodingError
  | invalidOperation
  | notFound
  | invalidConfig
  | ioError
  | eventError
  | internalError
  deriving DecidableEq

namespace ErrorKind

/-- Contention: nothing is wrong with the transaction, another one came first. -/
def isRetryable : ErrorKind → Bool
  | .resourceBusy | .validationConflict => true
  | _ => false

/-- The number reported when no system call failed. -/
def code : ErrorKind → Int
  | .resourceBusy => 1001
  | .validationConflict => 1002
  | .moduleInternalError => 1003
  | .decodingError => 1004
  | .invalidOperation => 1005
  | .notFound => 1006
  | .invalidConfig => 1007
  | .ioError => 1008
  | .eventError => 1009
  | .internalError => 1010

def describe : ErrorKind → String
  | .resourceBusy => "Resource busy"
  | .validationConflict => "Validation conflict"
  | .moduleInternalError => "Module internal error"
  | .decodingError => "Decoding error"
  | .invalidOperation => "Invalid operation"
  | .notFound => "Not found"
  | .invalidConfig => "Invalid configuration"
  | .ioError => "IO error"
  | .eventError => "Event error"
  | .internalError => "Internal error"

end ErrorKind

/-- One link of a chain of causes. -/
structure Fault where
  message : String
  kind : ErrorKind
  osCode : Option Int := none
  deriving DecidableEq

/-- A fault with the faults behind it, outermost first.  All of them carry the number of the system
call at the root, or none if no system call failed. -/
structure Error extends Fault where
  causes : List Fault := []
  carried : ∀ fault ∈ causes, fault.osCode = osCode := by simp
  deriving DecidableEq

namespace Error

/-- An error without a cause. -/
def of (kind : ErrorKind) (message : String) : Error := { message, kind }

/-- An error caused by `cause`, whose system call it carries on. -/
def wrap (kind : ErrorKind) (message : String) (cause : Error) : Error :=
  { message, kind, osCode := cause.osCode, causes := cause.toFault :: cause.causes,
    carried := by simpa using cause.carried }

/-- The error behind `e`, if there is one. -/
def cause? (e : Error) : Option Error :=
  match chain : e.causes with
  | [] => none
  | fault :: rest =>
      some { fault with
        causes := rest
        carried := fun other member => by
          rw [e.carried other (by simp [chain, member]), e.carried fault (by simp [chain])] }

/-- The fault at the root of the chain. -/
def root (e : Error) : Fault := e.causes.getLastD e.toFault

/-- The number of the failed system call, or else of the kind. -/
def code (e : Error) : Int := e.osCode.getD e.kind.code

def isRetryable (e : Error) : Bool := e.kind.isRetryable

/-- The message with those of all causes, a line each. -/
def chainText (e : Error) : String :=
  e.causes.foldl (fun text fault => text ++ "\nCaused by: " ++ fault.message) e.message

/-! ## Faults of the system -/

/-- An input or output failure by what it means rather than by its number. -/
inductive IoKind where
  | notFound
  | wouldBlock
  | permissionDenied
  | alreadyExists
  | invalidInput
  | unexpectedEof
  | brokenPipe
  | interrupted
  | timedOut
  | other
  deriving DecidableEq

def IoKind.describe : IoKind → String
  | .notFound => "entity not found"
  | .wouldBlock => "operation would block"
  | .permissionDenied => "permission denied"
  | .alreadyExists => "entity already exists"
  | .invalidInput => "invalid input parameter"
  | .unexpectedEof => "unexpected end of file"
  | .brokenPipe => "broken pipe"
  | .interrupted => "operation interrupted"
  | .timedOut => "timed out"
  | .other => "other error"

/-- A missing entity and an operation that would block keep their meaning. -/
def IoKind.errorKind : IoKind → ErrorKind
  | .notFound => .notFound
  | .wouldBlock => .resourceBusy
  | _ => .ioError

def ofIo (kind : IoKind) (text : String) : Error := of kind.errorKind ("IO error: " ++ text)

/-- The error for the number of a failed system call. -/
def ofOsCode (code : Int) : Error :=
  let kind :=
    if code = 2 then ErrorKind.notFound else if code = 11 then .resourceBusy else .ioError
  { message := "IO error: " ++ systemText code ++ " (os error " ++ toString code ++ ")", kind,
    osCode := some code }

/-- The error for text that could not be formatted. -/
def formatting : Error :=
  of .internalError
    "Formatting error: an error occurred when formatting an argument"

end Error

end Transact
