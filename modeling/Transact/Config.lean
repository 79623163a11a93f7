/-
# Transact.Config -- settings of a transaction manager

Settings can be changed until the manager is built; then they are frozen and every change is
refused.  `backoff` is the longest delay before a retry: the base doubled with each of the first
sixteen attempts, and never more than `Config.maxBackoff`.
-/
import Transact.Duration
import Transact.Error

namespace Transact

set_option autoImplicit false

structure Config where
  /-- How long a commit waits for one lock. -/
  lockTimeout : Duration := .ofMillis 100
  /-- How often `run` starts anew after contention. -/
  maxRetries : Nat := 8
  /-- The delay before the first retry. -/
  retryBackoff : Duration := .ofMillis 1
  /-- Whether a yield validates. -/
  validateOnYield : Bool := true
  frozen : Bool := false
  deriving DecidableEq

namespace Config

/-- No delay between attempts is longer. -/
def maxBackoff : Duration := .ofMillis 64

def freeze (c : Config) : Config := { c with frozen := true }

/-- Delay before retry number `attempt`, counted from zero, before jitter.  It doubles with each of
the first sixteen attempts, and never passes the cap. -/
def backoff (c : Config) (attempt : Nat) : Duration :=
  (c.retryBackoff.times (Nat.pow 2 (Nat.min attempt 16))).min maxBackoff

/-! ## Changes -/

/-- One change of a setting. -/
inductive Setting where
  | lockTimeout (d : Duration)
  | maxRetries (n : Nat)
  | retryBackoff (d : Duration)
  | validateOnYield (on : Bool)
  deriving DecidableEq

def Setting.name : Setting → String
  | .lockTimeout _ => "lock_timeout"
  | .maxRetries _ => "max_retries"
  | .retryBackoff _ => "retry_backoff"
  | .validateOnYield _ => "validate_on_yield"

/-- Why a change is refused. -/
inductive Refusal where
  | frozen (setting : String)
  | zeroTimeout
  | longBackoff (d : Duration)
  deriving DecidableEq

def Refusal.toError : Refusal → Error
  | .frozen setting =>
      .of .invalidOperation (setting ++ " cannot be changed after the manager is built")
  | .zeroTimeout => .of .invalidConfig "Lock timeout must be greater than zero"
  | .longBackoff d =>
      .of .invalidConfig
        ("Retry backoff " ++ d.render ++ " exceeds the maximum of " ++ maxBackoff.render)

/-- Make one change; a frozen configuration refuses it before the value is looked at. -/
def change (c : Config) (s : Setting) : Except Refusal Config :=
  if c.frozen then .error (.frozen s.name)
  else
    match s with
    | .lockTimeout d => if d.isZero then .error .zeroTimeout else .ok { c with lockTimeout := d }
    | .maxRetries n => .ok { c with maxRetries := n }
    | .retryBackoff d =>
        if maxBackoff.nanos < d.nanos then .error (.longBackoff d)
        else .ok { c with retryBackoff := d }
    | .validateOnYield on => .ok { c with validateOnYield := on }

/-- Make the changes one after another and freeze the result; the first refusal ends it. -/
def build (c : Config) : List Setting → Except Refusal Config
  | [] => .ok c.freeze
  | s :: rest =>
      match c.change s with
      | .ok c' => build c' rest
      | .error r => .error r

def render (c : Config) : String :=
  "TxConfig \x7b lock_timeout: " ++ c.lockTimeout.render
    ++ ", max_retries: " ++ toString c.maxRetries
    ++ ", retry_backoff: " ++ c.retryBackoff.render
    ++ ", validate_on_yield: " ++ toString c.validateOnYield ++ " \x7d"

end Config

end Transact
