/-
# Transact.Participant.Threads -- threads in a transaction

A thread cannot be taken back, so a request is written down and the thread starts in apply.  Undo
discards the requests; release discards what an apply that failed half-way left behind.
-/
import Transact.Log.Journal
import Transact.Participant
import Transact.World

namespace Transact

set_option autoImplicit false

/-- A thread asked for. -/
structure SpawnRequest where
  thread : Nat
  name : Option String
  deriving DecidableEq

/-- The threads of one transaction. -/
structure Threads where
  log : DeferredLog SpawnRequest := {}
  requested : Nat := 0
  deriving DecidableEq

namespace Threads

def spawnFailed (cause : Error) : Error :=
  .wrap .moduleInternalError "Deferred thread spawn failed" cause

/-- Ask for a thread that starts when the transaction commits. -/
def spawn (name : Option String) (task : ThreadTask) (s : Threads) (w : World) :
    Nat × Threads × World :=
  let (thread, threads) := w.threads.request name task
  let id := ResourceId.named ("thread-spawn-" ++ toString s.requested)
  (thread,
    { log := s.log.append (.deferred id { thread, name }), requested := s.requested + 1 },
    { w with threads })

def pendingSpawns (s : Threads) : Nat := s.log.size

def applyRecord (r : Record SpawnRequest) (w : World) : Except Error Unit × World :=
  match w.startThread r.payload.thread with
  | (.ok (), w) => (.ok (), w)
  | (.error e, w) => (.error (spawnFailed e), w)

/-- Start the threads in the order they were asked for; the first refusal ends it. -/
def apply (s : Threads) (w : World) : Except Error Unit × Threads × World :=
  let (applied, log, w) := s.log.applyAll applyRecord w
  (applied.map fun _ => (), { s with log }, w)

def discardRecord (r : Record SpawnRequest) (w : World) : World :=
  { w with threads := w.threads.discard r.payload.thread }

def undo (s : Threads) (w : World) : Except Error Unit × Threads × World :=
  let (result, log, w) := s.log.undoAll (fun r w => (.ok (), discardRecord r w)) w
  (result.map fun _ => (), { s with log }, w)

/-- Discard what is still written down. -/
def release (s : Threads) (w : World) : Threads × World :=
  ({ s with log := {} }, s.log.records.foldl (fun w r => discardRecord r w) w)

def describe (r : SpawnRequest) : String × Bytes :=
  ("spawn", Text.Base64.utf8 (r.name.getD ""))

def journal (s : Threads) : List String := s.log.journal .thread describe

instance : Participant Threads World where
  domain _ := .thread
  lock _ s w := (.ok (), s, w)
  unlock _ s w := (s, w)
  validate _ _ _ w := (true, w)
  apply _ := apply
  undo _ := undo
  finish _ s w := (s, w)
  release := release
  journal s _ := s.journal

end Threads

end Transact
