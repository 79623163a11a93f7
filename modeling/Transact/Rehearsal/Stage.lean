/-
# Transact.Rehearsal.Stage -- a world to rehearse on

A stage is a world with a key-value store, a trace of what happened, and the scripts of the players.
`WorldStep` is what anybody can do to a stage from outside a transaction; a script can ask for it in
the middle of a commit.

A read that would wait for ever ends when the stage closes the writer; it reports `blocked`.
-/
import Transact.Rehearsal.Report
import Transact.World

namespace Transact.Rehearsal

set_option autoImplicit false

/-- A step on the world itself. -/
inductive WorldStep where
  | bump (id : ResourceId)
  | version (id : ResourceId)
  | lock (id : ResourceId) (owner : String)
  | unlock (id : ResourceId) (owner : String)
  | holder (id : ResourceId)
  | rawWrite (pipe : Nat) (data : Bytes)
  | rawRead (pipe max : Nat)
  | rawPeek (pipe offset max : Nat)
  | rawConsume (pipe offset len : Nat)
  | closeWriter (pipe : Nat)
  | pipeState (pipe : Nat)
  | store (path : String) (data : Bytes)
  | load (path : String)
  | unlink (path : String)
  | names (path : String)
  | makeDirectory (path : String)
  | rename (path newPath : String)
  | makeLink (path target : String)
  | valueOf (key : String)

/-- The calls a player can be asked for. -/
inductive Moment where
  | lock
  | validate
  | validateEarly
  | apply
  | undo
  | finish
  | unlock
  | release
  deriving DecidableEq

def Moment.name : Moment → String
  | .lock => "lock"
  | .validate => "validate"
  | .validateEarly => "validate-early"
  | .apply => "apply"
  | .undo => "undo"
  | .finish => "finish"
  | .unlock => "unlock"
  | .release => "release"

/-- What a scripted player does when it is called. -/
structure Script where
  name : String
  valid : Bool := true
  failures : List (Moment × Error) := []
  hooks : List (Moment × List WorldStep) := []
  journal : List String := []

structure Stage where
  world : World
  store : Table String Bytes := {}
  trace : List String := []
  scripts : Table Nat Script := {}
  nextScript : Nat := 0
  /-- What brought the rehearsal down, if anything; nothing reported then counts. -/
  downfall : Option String := none

namespace Stage

/-- Somebody who holds locks without a transaction. -/
def owner (name : String) : TxId := { serial := 0, label := name }

/-- A stage where the working directory is `home` and nothing else is there. -/
def empty (home : Location) : Stage := { world := { files := .ofHome home } }

/-! ## Steps on the world -/

/-- What a step came to: a report, an error, or a complaint of the stage. -/
inductive Answer where
  | done (report : Report)
  | failed (e : Error)
  | complaint (message : String)

def Answer.report : Answer → Report
  | .done report => report
  | .failed e => .ofError e
  | .complaint message => .complaint message

def Answer.ofExcept {α : Type} (f : α → Report) : Except Error α → Answer
  | .ok a => .done (f a)
  | .error e => .failed e

/-- A read that nobody was going to end. -/
def blocked : Report := .record [("blocked", .flag true)]

def noPipe (pipe : Nat) : Answer := .complaint ("no pipe " ++ toString pipe)

def setPipe (s : Stage) (p : Pipe) : Stage :=
  { s with world := { s.world with pipes := s.world.pipes.set p } }

def setFiles (s : Stage) (files : Filesystem) : Stage :=
  { s with world := { s.world with files } }

/-- Close the write end of a pipe. -/
def closeWriter (s : Stage) (pipe : Nat) : Stage :=
  match s.world.pipes.get? pipe with
  | some p => s.setPipe p.closeWriter
  | none => s

/-- Read from a pipe, and where that would wait, close its writer and read to the end. -/
def readPipe (s : Stage) (pipe : Nat) (call : Pipe → Pipe.Reading × Pipe) : Answer × Stage :=
  match s.world.pipes.get? pipe with
  | none => (noPipe pipe, s)
  | some p =>
      match call p with
      | (.bytes content, p) => (.done (.bytes content), s.setPipe p)
      | (.failed e, p) => (.failed e, s.setPipe p)
      | (.waits, p) => (.done blocked, s.setPipe (call p.closeWriter).2)

/-- Change a pipe. -/
def changePipe (s : Stage) (pipe : Nat) (call : Pipe → Except Error Pipe) : Answer × Stage :=
  match s.world.pipes.get? pipe with
  | none => (noPipe pipe, s)
  | some p =>
      match call p with
      | .ok p => (.done .null, s.setPipe p)
      | .error e => (.failed e, s)

/-- Change the file system. -/
def changeFiles (s : Stage) (r : Except IoFault Filesystem) : Answer × Stage :=
  match r with
  | .ok files => (.done .null, s.setFiles files)
  | .error e => (.failed e.toError, s)

def pipeReport (p : Pipe) : Report :=
  .record [("front", .nat p.front), ("buffered", .nat p.buffer.length),
    ("closed", .flag !p.writerOpen)]

def perform (s : Stage) : WorldStep → Answer × Stage
  | .bump id =>
      let world := s.world.bump id
      (.done (.nat (world.versions.current id)), { s with world })
  | .version id => (.done (.nat (s.world.versions.current id)), s)
  | .lock id who =>
      let (taken, locks) := s.world.locks.acquire id (owner who)
      (.done (.flag taken), { s with world := { s.world with locks } })
  | .unlock id who =>
      let (given, locks) := s.world.locks.release id (owner who)
      (.done (.flag given), { s with world := { s.world with locks } })
  | .holder id =>
      (.done (.optional (fun tx => .text tx.label) (s.world.locks.holder id)), s)
  | .rawWrite pipe data => s.changePipe pipe (·.writeAll data)
  | .rawRead pipe max => s.readPipe pipe (·.read Pipe.fullChunks max)
  | .rawPeek pipe offset max => s.readPipe pipe (·.peekAt Pipe.fullChunks offset max)
  | .rawConsume pipe offset len => s.changePipe pipe (·.consumeAt offset len)
  | .closeWriter pipe => s.changePipe pipe fun p => .ok p.closeWriter
  | .pipeState pipe =>
      match s.world.pipes.get? pipe with
      | none => (noPipe pipe, s)
      | some p => (.done (pipeReport p), s)
  | .store path data => s.changeFiles (s.world.files.store path data)
  | .load path =>
      (.ofExcept .bytes ((s.world.files.load path).mapError (·.toError)), s)
  | .unlink path => s.changeFiles (s.world.files.unlink path)
  | .names path => (.done (.flag (s.world.files.names path)), s)
  | .makeDirectory path => s.changeFiles (s.world.files.makeDirectory path)
  | .rename path newPath => s.changeFiles (s.world.files.rename path newPath)
  | .makeLink path target => s.changeFiles (s.world.files.makeLink path target)
  | .valueOf key => (.done (.optional .bytes (s.store.get? key)), s)

/-! ## The trace -/

def note (s : Stage) (line : String) : Stage := { s with trace := s.trace ++ [line] }

/-- Perform steps and note what each came to, after `head`. -/
def performNoting (head : String) : List WorldStep → Stage → Stage
  | [], s => s
  | step :: rest, s =>
      let (answer, s) := s.perform step
      performNoting head rest (s.note (head ++ "> " ++ answer.report.render))

end Stage

end Transact.Rehearsal
