/-
# Transact.Participant.Pipes -- pipes in a transaction

Writes are written down and reach the pipe in apply, in the order they were made.  Reads look at the
bytes and leave them in place: a cursor per pipe says where this transaction's reads began and where
the next one goes on, and apply consumes what was read.  A transaction is valid while nobody else
consumed from a pipe it reads, which both the versions and the front of the stream show.
-/
import Transact.Log.Journal
import Transact.Participant
import Transact.World

namespace Transact

set_option autoImplicit false

/-- An effect on a pipe. -/
inductive PipeEffect where
  | write (bytes : Bytes)
  | read (offset : Nat) (bytes : Bytes)
  deriving DecidableEq

/-- Where the reads of one pipe began and where the next one goes on. -/
structure ReadCursor where
  start : Nat
  next : Nat
  deriving DecidableEq

/-- The pipes of one transaction. -/
structure Pipes where
  /-- The pipes touched. -/
  tracked : List Nat := []
  cursors : Table Nat ReadCursor := {}
  log : DeferredLog PipeEffect := {}
  access : AccessSet := {}
  held : HeldLocks := {}
  deriving DecidableEq

namespace Pipes

/-! ## Errors -/

def notAPipe (id : ResourceId) : Error := .of .internalError (id.render ++ " is not a pipe")

def notTracked (pipe : Nat) : Error :=
  .of .internalError ("Pipe " ++ toString pipe ++ " is not tracked by this transaction")

def effectFailed (id : ResourceId) (cause : Error) : Error :=
  .wrap .moduleInternalError ("Deferred operation on " ++ id.render ++ " failed") cause

/-! ## Reading and writing -/

def track (s : Pipes) (pipe : Nat) : Pipes :=
  if s.tracked.contains pipe then s else { s with tracked := s.tracked ++ [pipe] }

/-- Write down `bytes` for a pipe whose writer is open. -/
def write (pipe : Nat) (bytes : Bytes) (s : Pipes) (w : World) : Except Error Nat × Pipes × World :=
  match w.pipes.get? pipe with
  | none => (.error (PipeTable.notRegistered pipe), s, w)
  | some p =>
      if p.writerOpen then
        let s := s.track pipe
        (.ok bytes.length,
          { s with
            access := s.access.write w.versions p.writeId
            log := s.log.append (.deferred p.writeId (.write bytes)) },
          w)
      else (.error p.closedError, s, w)

/-- Look at most `max` bytes where the last read of this pipe ended.  `none` if that has to wait for
a writer.  The version is noted before the front: who consumes publishes only after moving it. -/
def read (chunk : Nat → Nat) (pipe max : Nat) (s : Pipes) (w : World) :
    Except Error (Option Bytes) × Pipes × World :=
  match w.pipes.get? pipe with
  | none => (.error (PipeTable.notRegistered pipe), s, w)
  | some p =>
      let s := s.track pipe
      let cursor := (s.cursors.get? pipe).getD { start := p.front, next := p.front }
      let s :=
        { s with
          access := s.access.write w.versions p.readId
          cursors := s.cursors.set pipe cursor }
      let (reading, p) := p.peekAt chunk cursor.next max
      let w := { w with pipes := w.pipes.set p }
      match reading with
      | .failed e => (.error e, s, w)
      | .waits => (.ok none, s, w)
      | .bytes content =>
          let s :=
            { s with
              cursors := s.cursors.set pipe { cursor with next := cursor.next + content.length } }
          if content = [] then (.ok (some content), s, w)
          else
            (.ok (some content),
              { s with log := s.log.append (.deferred p.readId (.read cursor.next content)) },
              w)

/-- How many bytes are written down for a pipe. -/
def pendingBytes (s : Pipes) (pipe : Nat) : Nat :=
  s.log.records.foldl (fun n r => match r.payload with
    | .write bytes => if r.resource.same (.pipeWrite pipe) then n + bytes.length else n
    | .read .. => n) 0

/-! ## The way to a commit -/

def lock (ctx : Context) (s : Pipes) (w : World) : Except Error Unit × Pipes × World :=
  let (result, held, locks) := s.held.acquireAll s.access.observedIds ctx.tx w.locks
  (result, { s with held }, { w with locks })

def unlock (ctx : Context) (s : Pipes) (w : World) : Pipes × World :=
  ({ s with held := {} }, { w with locks := s.held.releaseAll ctx.tx w.locks })

/-- `true` while nobody consumed from a pipe this transaction reads. -/
def frontsUnmoved (s : Pipes) (w : World) : Bool :=
  s.cursors.entries.all fun (pipe, cursor) =>
    s.tracked.contains pipe &&
      match w.pipes.get? pipe with
      | some p => p.front == cursor.start
      | none => false

def validate (s : Pipes) (w : World) : Bool :=
  s.access.validate w.versions && s.frontsUnmoved w

/-- The pipe a record is about. -/
def pipeOf (s : Pipes) (id : ResourceId) (w : World) : Except Error Pipe :=
  let tracked (pipe : Nat) : Except Error Pipe :=
    match s.tracked.contains pipe, w.pipes.get? pipe with
    | true, some p => .ok p
    | _, _ => .error (notTracked pipe)
  match id with
  | .pipeRead pipe => tracked pipe
  | .pipeWrite pipe => tracked pipe
  | other => .error (notAPipe other)

/-- Perform one record: write the bytes, or consume the bytes that were read. -/
def applyRecord (s : Pipes) (r : Record PipeEffect) (w : World) : Except Error Unit × World :=
  match s.pipeOf r.resource w with
  | .error e => (.error e, w)
  | .ok p =>
      let moved := match r.payload with
        | .write bytes => p.writeAll bytes
        | .read offset bytes => p.consumeAt offset bytes.length
      match moved with
      | .ok p => (.ok (), { w with pipes := w.pipes.set p })
      | .error e => (.error (effectFailed r.resource e), w)

/-- Perform the log.  Versions are published whatever happens: what was applied before a failure is
on the pipe. -/
def apply (s : Pipes) (w : World) : Except Error Unit × Pipes × World :=
  let (applied, log, w) := s.log.applyAll (applyRecord s) w
  (applied.map fun _ => (), { s with log, cursors := {} },
    { w with versions := s.access.publish w.versions })

/-! ## The way to an abort -/

/-- Nothing reached a pipe, so it is enough to forget the records. -/
def undo (s : Pipes) (w : World) : Except Error Unit × Pipes × World :=
  let (result, log, w) := s.log.undoAll (fun _ w => (.ok (), w)) w
  (result.map fun _ => (), { s with log, cursors := {} }, w)

def release (s : Pipes) : Pipes := { s with tracked := [], cursors := {}, log := {}, access := {} }

def describe : PipeEffect → String × Bytes
  | .write bytes => ("write", bytes)
  | .read _ bytes => ("read", bytes)

def journal (s : Pipes) : List String := s.log.journal .pipe describe

instance : Participant Pipes World where
  domain _ := .pipe
  lock := lock
  unlock := unlock
  validate _ _ s w := (s.validate w, w)
  apply _ := apply
  undo _ := undo
  finish _ s w := (s, w)
  release s w := (s.release, w)
  journal s _ := s.journal

end Pipes

end Transact
