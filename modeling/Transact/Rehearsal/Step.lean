/-
# Transact.Rehearsal.Step -- what can be asked of a scene

An `Action` is one call: on the world, on a transaction, through one of its participants, or on the
manager.  A `Step` is an action, or a body to run, or a step that is left out of some attempts or
whose error does not end its body.
-/
import Transact.Participant.Files
import Transact.Rehearsal.Stage

namespace Transact.Rehearsal

set_option autoImplicit false

/-- The sorts of participants a step can name. -/
inductive Cast where
  | files
  | pipes
  | threads
  | yields
  | toucher
  | keeper
  | scripted

/-- A direct call of one participant. -/
inductive Method where
  | lock
  | unlock
  | validate (v : Validation)
  | apply
  | undo
  | finish
  | release
  | journal
  | domain

/-- What can be shown in its debugging form. -/
inductive Showable where
  | transaction (tx : Option String)
  | context (tx : Option String)
  | manager
  | pipe (pipe : Nat)
  | thread (handle : String)

/-- A player to be registered. -/
structure Role where
  domain : Domain
  script : Script
  observe : List ResourceId := []
  write : List ResourceId := []

/-- A change of the newest script of a name. -/
structure Revision where
  name : String
  valid : Option Bool := none
  failures : Option (List (Moment × Error)) := none
  hooks : Option (List (Moment × List WorldStep)) := none
  journal : List String := []

/-- One call.  A transaction is named by `tx`; without a name it is the one of the current attempt,
or else the default one. -/
inductive Action where
  | onWorld (step : WorldStep)
  | begin (tx : Option String) (detached : Bool)
  | commit (tx : Option String)
  | abort (tx : Option String)
  | drop (tx : Option String)
  | validateEarly (tx : Option String)
  | state (tx : Option String)
  | journal (tx : Option String)
  | times (tx : Option String)
  | debug (what : Showable)
  | openFile (tx : Option String) (fd path : String) (flags : OpenFlags)
  | adopt (tx : Option String) (fd outer path : String)
  | read (tx : Option String) (fd : String) (len : Nat)
  | write (tx : Option String) (fd : String) (data : Bytes)
  | seek (tx : Option String) (fd : String) (pos : SeekFrom)
  | tell (tx : Option String) (fd : String)
  | close (tx : Option String) (fd : String)
  | remove (tx : Option String) (path : String)
  | outerOpen (outer path : String) (access : Filesystem.Access)
  | outerSeek (outer : String) (pos : SeekFrom)
  | outerTell (outer : String)
  | outerRead (outer : String) (len : Nat)
  | outerWrite (outer : String) (data : Bytes)
  | pipeOpen
  | pipeLookup (pipe : Nat)
  | pipeForget (pipe : Nat)
  | pipeCount
  | pipeWrite (tx : Option String) (pipe : Nat) (data : Bytes)
  | pipeRead (tx : Option String) (pipe max : Nat)
  | yieldNow (tx : Option String)
  | current (tx : Option String)
  | spawn (tx : Option String) (handle : String) (name : Option String) (task : ThreadTask)
  | threadState (handle : String)
  | join (handle : String)
  | register (tx : Option String) (role : Role)
  | revise (revision : Revision)
  | touch (tx : Option String) (id : ResourceId)
  | look (tx : Option String) (id : ResourceId)
  | put (tx : Option String) (key : String) (data : Bytes)
  | delete (tx : Option String) (key : String)
  | call (tx : Option String) (cast : Cast) (method : Method)
  | module (tx : Option String) (cast : Cast) (pipe : Nat)
  | takeTrace
  | stats
  | subscribe (listener : String) (fault : Option Error)
  | unsubscribe (listener : String)
  | closeManager
  | fail (e : Error)

inductive Step where
  | act (action : Action)
  /-- Left out of every attempt but these. -/
  | only (attempts : List Nat) (step : Step)
  /-- An error of the step does not end the body. -/
  | caught (step : Step)
  /-- Run a body in transactions of its own. -/
  | run (body : List Step)

end Transact.Rehearsal
