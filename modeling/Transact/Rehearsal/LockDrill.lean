/-
# Transact.Rehearsal.LockDrill -- a lock table and held locks, call by call

A drill has a clock.  A release can be announced for later; whoever waits for a lock lets the clock
run up to the end of the wait, and the announced releases happen when they are due.
-/
import Transact.Rehearsal.Report
import Transact.Resource.Lock

namespace Transact.Rehearsal.LockDrill

set_option autoImplicit false

inductive Call where
  | acquire
  | release
  | holder
  /-- As `holder`, and the lock is there afterwards. -/
  | lockHolder
  | acquireAll (ids : List ResourceId)
  | releaseAll
  | holds
  | releaseLater

/-- A call by `owner` on the resource `id`, through the locks called `held`, with a time. -/
structure Step where
  call : Call
  owner : String := ""
  held : String := ""
  id : ResourceId := .named ""
  millis : Nat := 1

/-- A release that was announced. -/
structure Announced where
  due : Nat
  id : ResourceId
  owner : TxId

structure State where
  locks : LockTable := {}
  held : Table String HeldLocks := {}
  clock : Nat := 0
  /-- In order of time. -/
  announced : List Announced := []

def owner (name : String) : TxId := { serial := 0, label := name }

def heldOf (s : State) (name : String) : HeldLocks := (s.held.get? name).getD {}

/-! ## Waiting -/

/-- Put an announcement in its place. -/
def announce (a : Announced) : List Announced → List Announced
  | [] => [a]
  | other :: rest => if a.due < other.due then a :: other :: rest else other :: announce a rest

/-- Whether `who` could take `id` at once. -/
def free (locks : LockTable) (id : ResourceId) (who : TxId) : Bool :=
  match locks.holder id with
  | none => true
  | some other => other == who

/-- Let announced releases happen until `who` could take `id` or the deadline is there. -/
def waitFor (id : ResourceId) (who : TxId) (deadline : Nat) :
    List Announced → LockTable → Nat → LockTable × List Announced × Nat
  | [], locks, clock => (locks, [], if free locks id who then clock else deadline)
  | a :: rest, locks, clock =>
      if free locks id who then (locks, a :: rest, clock)
      else if deadline < a.due then (locks, a :: rest, deadline)
      else waitFor id who deadline rest (locks.release a.id a.owner).2 (max clock a.due)

/-- Wait for a lock at most `millis`. -/
def await (s : State) (id : ResourceId) (who : TxId) (millis : Nat) : State :=
  let (locks, announced, clock) :=
    waitFor id who (s.clock + millis) s.announced s.locks s.clock
  { s with locks, announced, clock }

/-- Take locks one after another, each after waiting for it. -/
def acquireEach (who : TxId) (millis : Nat) (name : String) :
    List ResourceId → State → Except Error Unit × State
  | [], s => (.ok (), s)
  | id :: rest, s =>
      let held := heldOf s name
      let s := if held.holds id then s else await s id who millis
      let (result, held, locks) := held.acquireAll [id] who s.locks
      let s := { s with locks, held := s.held.set name held }
      match result with
      | .ok () => acquireEach who millis name rest s
      | .error e => (.error e, s)

/-! ## Calls -/

def holderReport (locks : LockTable) (id : ResourceId) : Report :=
  .optional (fun tx => .text tx.label) (locks.holder id)

def perform (s : State) (step : Step) : Report × State :=
  let who := owner step.owner
  match step.call with
  | .acquire =>
      let s := await s step.id who step.millis
      let (taken, locks) := s.locks.acquire step.id who
      (.flag taken, { s with locks })
  | .release =>
      let (given, locks) := s.locks.release step.id who
      (.flag given, { s with locks })
  | .holder => (holderReport s.locks step.id, s)
  | .lockHolder =>
      let locks := s.locks.track step.id
      (holderReport locks step.id, { s with locks })
  | .acquireAll ids =>
      let (result, s) := acquireEach who step.millis step.held (ResourceId.canonical ids) s
      (.ofUnit result, s)
  | .releaseAll =>
      let locks := (heldOf s step.held).releaseAll who s.locks
      (.null, { s with locks, held := s.held.set step.held {} })
  | .holds => (.flag ((heldOf s step.held).holds step.id), s)
  | .releaseLater =>
      let a := { due := s.clock + step.millis, id := step.id, owner := who }
      (.null, { s with announced := announce a s.announced })

def performAll : List Step → State → List Report
  | [], _ => []
  | step :: rest, s =>
      let (report, s) := perform s step
      let held := heldOf s step.held
      .record [("result", report), ("locks", .nat s.locks.size), ("held", .nat held.size),
        ("held_empty", .flag held.isEmpty)] :: performAll rest s

end Transact.Rehearsal.LockDrill
