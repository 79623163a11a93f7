/-
# Transact.Thread -- threads that are asked for now and start at a commit

A thread is requested with a task and stays pending until the requesting transaction starts or
discards it.  The system may refuse to start one: `refusals` are its answers to the coming starts,
and where they run out it agrees.  `started` lists the threads whose task was let run, in order.

What a task does is data: it panics, or it reads from a pipe if told to, and reports the name of its
thread and what it read.
-/
import Transact.Bytes
import Transact.Error
import Transact.Table

namespace Transact

set_option autoImplicit false

/-- What the body of a thread does. -/
structure ThreadTask where
  panics : Bool := false
  /-- The pipe to read from, and at most how many bytes. -/
  reads : Option (Nat × Nat) := none
  deriving DecidableEq

/-- What a finished body leaves behind. -/
structure ThreadReport where
  name : Option String
  read : Option Bytes
  deriving DecidableEq

/-- How far the request for a thread has come. -/
inductive ThreadState where
  | pending
  /-- The thread runs; its body may have ended already, by a panic (`none`) or with a report. -/
  | running (ended : Option (Option ThreadReport))
  | joined
  | discarded
  deriving DecidableEq

/-- A requested thread. -/
structure Thread where
  name : Option String
  task : ThreadTask
  state : ThreadState := .pending
  deriving DecidableEq

namespace Thread

def isSpawned (t : Thread) : Bool :=
  match t.state with
  | .running _ | .joined => true
  | _ => false

def isDiscarded (t : Thread) : Bool := t.state == .discarded

def isRunning (t : Thread) : Bool :=
  match t.state with
  | .running _ => true
  | _ => false

/-- Give up a request that is still pending. -/
def discard (t : Thread) : Thread :=
  if t.state = .pending then { t with state := .discarded } else t

/-- The debugging form of a request. -/
def render (t : Thread) : String :=
  "SpawnedThread \x7b spawned: " ++ toString t.isSpawned ++ ", discarded: "
    ++ toString t.isDiscarded ++ " \x7d"

/-- Why a thread that does not run cannot be joined. -/
def joinError : ThreadState → Error
  | .pending => .of .invalidOperation "Thread has not been spawned yet"
  | .discarded => .of .invalidOperation "Thread spawn was discarded by an abort"
  | _ => .of .invalidOperation "Thread was already joined"

def panickedError : Error := .of .internalError "Spawned thread panicked"

end Thread

structure ThreadTable where
  threads : Table Nat Thread := {}
  next : Nat := 0
  /-- Whether the system refuses each of the coming starts. -/
  refusals : List Bool := []
  started : List Nat := []
  deriving DecidableEq

namespace ThreadTable

/-- Ask for a thread. -/
def request (t : ThreadTable) (name : Option String) (task : ThreadTask) : Nat × ThreadTable :=
  (t.next, { t with threads := t.threads.set t.next { name, task }, next := t.next + 1 })

/-- The system's answer to a start: no resources for another thread. -/
def refusalError : Error := .ofOsCode 11

/-- Let a requested thread run. -/
def start (t : ThreadTable) (id : Nat) : Except Error Unit × ThreadTable :=
  match t.refusals with
  | true :: rest => (.error refusalError, { t with refusals := rest })
  | _ =>
      (.ok (),
        { t with
          threads := t.threads.modify id fun thread => { thread with state := .running none }
          refusals := t.refusals.tail
          started := t.started ++ [id] })

def discard (t : ThreadTable) (id : Nat) : ThreadTable :=
  { t with threads := t.threads.modify id Thread.discard }

def setState (t : ThreadTable) (id : Nat) (state : ThreadState) : ThreadTable :=
  { t with threads := t.threads.modify id fun thread => { thread with state } }

end ThreadTable

end Transact
