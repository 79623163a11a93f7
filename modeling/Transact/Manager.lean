/-
# Transact.Manager -- beginning, counting, announcing and retrying transactions

A manager owns the world its transactions share, their configuration, the counters and the event bus.
Each transaction it begins is counted once when it begins and once when it ends, and is announced
once, after its release, with its outcome and its roster; what the bus makes of it changes nothing else.

`run` performs a body in a fresh transaction and commits it.  After contention -- in the body or at
the commit -- it starts anew, at most `maxRetries` times; any other error is the answer at once.
-/
import Transact.EventBus
import Transact.Stats
import Transact.Transaction

namespace Transact

set_option autoImplicit false

/-- What listeners are told about a transaction that was released. -/
structure TxEvent where
  tx : TxId
  outcome : Outcome
  roster : List Domain
  deriving DecidableEq

structure Manager (W B : Type) where
  world : W
  config : Config := {}
  stats : Stats := {}
  /-- What listeners are registered with. -/
  bus : B
  /-- The serial of the last transaction begun. -/
  serial : Nat := 0
  /-- How many attempts `run` has made. -/
  attempts : Nat := 0

namespace Manager

variable {P M W B L α X : Type}

/-! ## Transactions -/

/-- Begin a transaction shown as `label`. -/
def begin (m : Manager W B) (label : String) : Transaction P × Manager W B :=
  ({ id := { serial := m.serial + 1, label }, config := m.config },
    { m with serial := m.serial + 1, stats := m.stats.recordStarted })

/-- Begin a transaction with a configuration of its own, which is neither counted nor announced. -/
def beginDetached (m : Manager W B) (label : String) (config : Config) :
    Transaction P × Manager W B :=
  ({ id := { serial := m.serial + 1, label }, config, reports := false },
    { m with serial := m.serial + 1 })

section Reports

variable [Delivery B L TxEvent]

/-- Count and announce the end of a transaction.  Nothing comes of a failure to announce it. -/
def report (m : Manager W B) (t : Transaction P) (outcome : Outcome) : Manager W B :=
  if t.reports then
    { m with
      stats := m.stats.recordOutcome outcome
      bus := (EventBus.publish { tx := t.id, outcome, roster := t.roster } m.bus).2 }
  else m

/-- Report `t` if it ended with the call that made it of `before`. -/
def reportEnd (m : Manager W B) (before t : Transaction P) : Manager W B :=
  match before.outcome, t.outcome with
  | none, some outcome => m.report t outcome
  | _, _ => m

/-- Make a call of a transaction on the world, and report the transaction if that ends it. -/
def through (m : Manager W B) (t : Transaction P)
    (call : Transaction P → W → α × Transaction P × W) : α × Transaction P × Manager W B :=
  let (answer, t', world) := call t m.world
  (answer, t', { m with world }.reportEnd t t')

end Reports

section Calls

variable [Delivery B L TxEvent] [Participant P W]

def commit (m : Manager W B) (t : Transaction P) :
    Except Error Outcome × Transaction P × Manager W B := m.through t Transaction.commit

def abort (m : Manager W B) (t : Transaction P) :
    Except Error Outcome × Transaction P × Manager W B := m.through t Transaction.abort

def validateEarly (m : Manager W B) (t : Transaction P) :
    Except Error Unit × Transaction P × Manager W B := m.through t Transaction.validateEarly

def drop (m : Manager W B) (t : Transaction P) : Transaction P × Manager W B :=
  (m.through t fun t w => ((), t.drop w)).2

end Calls

/-! ## Retrying -/

/-- How an attempt ended. -/
inductive Attempt (α : Type) where
  /-- With the answer of the whole run. -/
  | final (answer : Except Error α)
  /-- With an error that another attempt may mend. -/
  | failed (e : Error)

/-- What a body does in attempt number `k`: it works on the transaction, on the manager and on a
state `X` of the caller. -/
abbrev Body (P W B X α : Type) : Type :=
  Nat → Transaction P → Manager W B → X → Except Error α × Transaction P × Manager W B × X

section Run

variable [Delivery B L TxEvent] [Participant P W]

/-- One attempt: begin, perform the body, commit.  A body that fails has its transaction aborted. -/
def attempt (body : Body P W B X α) (k : Nat) (m : Manager W B) (x : X) :
    Attempt α × Manager W B × X :=
  let m := { m with attempts := m.attempts + 1 }
  let (t, m) := m.begin (P := P) ("run" ++ toString m.attempts)
  match body k t m x with
  | (.ok value, t, m, x) =>
      match m.commit t with
      | (.error e, _, m) => (.final (.error e), m, x)
      | (.ok .committed, _, m) => (.final (.ok value), m, x)
      | (.ok (.aborted reason), _, m) => (.failed reason.toError, m, x)
  | (.error e, t, m, x) =>
      if t.isActive then
        match m.abort t with
        | (.error e, _, m) => (.final (.error e), m, x)
        | (.ok _, _, m) => (.failed e, m, x)
      else (.failed e, m, x)

/-- Attempt number `k`, and after contention at most `retries` more. -/
def runFrom (body : Body P W B X α) : Nat → Nat → Manager W B → X → Except Error α × Manager W B × X
  | retries, k, m, x =>
      match attempt body k m x with
      | (.final answer, m, x) => (answer, m, x)
      | (.failed e, m, x) =>
          if e.isRetryable then
            match retries with
            | 0 => (.error e, m, x)
            | retries + 1 =>
                runFrom body retries (k + 1) { m with stats := m.stats.recordRetry } x
          else (.error e, m, x)

/-- Perform `body` in a transaction and commit it, again after contention. -/
def run (body : Body P W B X α) (m : Manager W B) (x : X) : Except Error α × Manager W B × X :=
  runFrom body m.config.maxRetries 0 m x

end Run

/-! ## Listeners -/

section Listeners

variable [Delivery B L TxEvent]

def subscribe (m : Manager W B) (listener : L) : Except Error Nat × Manager W B :=
  let (answer, bus) := EventBus.register listener m.bus
  (answer, { m with bus })

def unsubscribe (m : Manager W B) (number : Nat) : Except Error Unit × Manager W B :=
  let (answer, bus) := EventBus.deregister number m.bus
  (answer, { m with bus })

/-- Remove every listener. -/
def close (m : Manager W B) : Except Error Unit × Manager W B :=
  let (answer, bus) := EventBus.close m.bus
  (answer, { m with bus })

end Listeners

/-- The debugging form of a manager. -/
def render (m : Manager W B) : String :=
  "TransactionManager \x7b config: " ++ m.config.render ++ ", stats: " ++ m.stats.render ++ " \x7d"

end Manager

end Transact
