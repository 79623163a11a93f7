/-
# Transact.Stats -- counting transactions

One counter per way to end, one for those begun and one for retries.
-/
import Transact.Outcome

namespace Transact

set_option autoImplicit false

structure Stats where
  started : Nat := 0
  committed : Nat := 0
  validationFailed : Nat := 0
  lockFailed : Nat := 0
  requested : Nat := 0
  faulted : Nat := 0
  retried : Nat := 0
  deriving DecidableEq

namespace Stats

def recordStarted (s : Stats) : Stats := { s with started := s.started + 1 }

def recordRetry (s : Stats) : Stats := { s with retried := s.retried + 1 }

/-- Count one more transaction that ended with `outcome`. -/
def recordOutcome (s : Stats) : Outcome → Stats
  | .committed => { s with committed := s.committed + 1 }
  | .aborted .validationFailed => { s with validationFailed := s.validationFailed + 1 }
  | .aborted .lockFailed => { s with lockFailed := s.lockFailed + 1 }
  | .aborted .requested => { s with requested := s.requested + 1 }
  | .aborted (.moduleError _) => { s with faulted := s.faulted + 1 }

def aborted (s : Stats) : Nat := s.validationFailed + s.lockFailed + s.requested + s.faulted

/-- How many transactions ended. -/
def ended (s : Stats) : Nat := s.committed + s.aborted

/-- Every outcome is counted once. -/
theorem ended_recordOutcome (s : Stats) (o : Outcome) :
    (s.recordOutcome o).ended = s.ended + 1 := by
  cases o with
  | committed => simp only [recordOutcome, ended, aborted]; omega
  | aborted r => cases r <;> simp only [recordOutcome, ended, aborted] <;> omega

def render (s : Stats) : String :=
  "StatsSnapshot \x7b started: " ++ toString s.started
    ++ ", committed: " ++ toString s.committed
    ++ ", validation_failed: " ++ toString s.validationFailed
    ++ ", lock_failed: " ++ toString s.lockFailed
    ++ ", requested: " ++ toString s.requested
    ++ ", faulted: " ++ toString s.faulted
    ++ ", retried: " ++ toString s.retried ++ " \x7d"

end Stats

end Transact
