/-
# Transact.Rehearsal.Scene -- a manager, a stage, and names for what is used

A scene gives names to transactions, file handles, descriptors from outside, threads and listeners.
Here is what each call does to it.  A name that stands for nothing is a complaint of the scene, and
the call is not made.
-/
import Transact.Manager
import Transact.Rehearsal.Players
import Transact.Rehearsal.Step
import Transact.Switchboard

namespace Transact.Rehearsal

set_option autoImplicit false

/-! ## Names -/

/-- Which transaction a step is on. -/
inductive TxName where
  | given (name : String)
  /-- That of an attempt, by its number. -/
  | attempt (number : Nat)
  deriving DecidableEq

namespace TxName

/-- The transaction a step means: within an attempt `run` is another word for none. -/
def of (attempt : Option Nat) (tx : Option String) : TxName :=
  match attempt, tx with
  | some number, none => .attempt number
  | some number, some name => if name = "run" then .attempt number else .given name
  | none, tx => .given (tx.getD "t")

def text : TxName → String
  | .given name => name
  | .attempt _ => "run"

end TxName

/-- What the names of a script stand for. -/
structure Names where
  txs : Table TxName (Transaction Player) := {}
  /-- Handles keep their last value, whatever becomes of their transaction. -/
  fds : Table String FileHandle := {}
  outers : Table String Nat := {}
  threads : Table String Nat := {}
  listeners : Table String Nat := {}

/-- The manager of a scene, whose listeners are called by a switchboard. -/
abbrev Direction : Type := Manager Stage (Switchboard TxEvent)

structure Scene where
  manager : Direction
  names : Names := {}

namespace Scene

open Stage (Answer)

def stage (s : Scene) : Stage := s.manager.world

def setStage (s : Scene) (stage : Stage) : Scene :=
  { s with manager := { s.manager with world := stage } }

def setManager (s : Scene) (manager : Direction) : Scene := { s with manager }

def setTx (s : Scene) (name : TxName) (t : Transaction Player) : Scene :=
  { s with names := { s.names with txs := s.names.txs.set name t } }

def noTransaction (name : TxName) : Answer := .complaint ("no transaction " ++ name.text)

def noDescriptor (name : String) : Answer := .complaint ("no descriptor " ++ name)

def noOuterFile : Answer := .complaint "no such outer file"

def noListener : Answer := .complaint "no such listener"

def noThread (name : String) : Answer := .complaint ("no thread " ++ name)

/-! ## Reports -/

def stateReport (t : Transaction Player) : Report :=
  .record [("phase", .text t.phase.render), ("active", .flag t.isActive),
    ("outcome", .optional (fun o => .text o.render) t.outcome),
    ("participants", .texts (t.roster.map Domain.render))]

def outcomeReport (outcome : Outcome) (t : Transaction Player) : Report :=
  .record [("outcome", .text outcome.render), ("state", stateReport t)]

def statsFields (s : Stats) : List (String × Report) :=
  [("started", .nat s.started), ("committed", .nat s.committed),
    ("validation_failed", .nat s.validationFailed), ("lock_failed", .nat s.lockFailed),
    ("requested", .nat s.requested), ("faulted", .nat s.faulted), ("retried", .nat s.retried)]

def eventReport (e : TxEvent) : Report :=
  .record [("tx", .text e.tx.label), ("outcome", .text e.outcome.render),
    ("participants", .texts (e.roster.map Domain.render)), ("ordered", .flag true)]

def threadReport (r : ThreadReport) : Report :=
  .record [("name", .optional .text r.name), ("read", .optional .bytes r.read)]

/-! ## Calls of a transaction -/

section Calls

variable {α M : Type}

/-- Make a call of a named transaction. -/
def onTx (s : Scene) (name : TxName)
    (call : Direction → Transaction Player → Answer × Transaction Player × Direction) :
    Answer × Scene :=
  match s.names.txs.get? name with
  | none => (noTransaction name, s)
  | some t =>
      let (answer, t, manager) := call s.manager t
      (answer, (s.setManager manager).setTx name t)

/-- Work through a participant of a named transaction. -/
def onModule (s : Scene) (name : TxName) (facet : Facet Player M) (report : α → Report)
    (f : Context → M → Stage → Except Error α × M × Stage) : Answer × Scene :=
  s.onTx name fun manager t =>
    let (result, t, stage) := t.withModule facet f manager.world
    (.ofExcept report result, t, { manager with world := stage })

/-- A call of a built-in participant, which sees only the world of the stage. -/
def onStage (f : M → World → Except Error α × M × World) :
    Context → M → Stage → Except Error α × M × Stage :=
  fun _ state stage =>
    let (result, state, world) := f state stage.world
    (result, state, { stage with world })

/-- A call that cannot fail and answers nothing. -/
def quietly (f : M → Stage → M × Stage) :
    Context → M → Stage → Except Error Unit × M × Stage :=
  fun _ state stage =>
    let (state, stage) := f state stage
    (.ok (), state, stage)

end Calls

/-- Use a file handle by its name, in a named transaction. -/
def onHandle {α : Type} (s : Scene) (name : TxName) (fd : String) (report : α → Report)
    (f : FileHandle → Files → World → Except Error α × Files × World) : Answer × Scene :=
  match s.names.txs.get? name with
  | none => (noTransaction name, s)
  | some _ =>
      match s.names.fds.get? fd with
      | none => (noDescriptor fd, s)
      | some h => s.onModule name Player.filesFacet report (onStage (f h))

/-- An offset past the last one brings the rehearsal down. -/
def watchOffsets (s : Scene) (name : TxName) : Scene :=
  match (s.names.txs.get? name).bind (·.module? Player.filesFacet) with
  | some files =>
      if files.offsetsFit then s
      else s.setStage { s.stage with downfall := some "attempt to add with overflow" }
  | none => s

/-- Open or adopt a file, and keep its handle under a name. -/
def keepHandle (s : Scene) (name : TxName) (fd : String)
    (f : Files → World → Except Error FileHandle × Files × World) : Answer × Scene :=
  match s.names.txs.get? name with
  | none => (noTransaction name, s)
  | some t =>
      match t.withModule Player.filesFacet (onStage f) s.stage with
      | (.error e, t, stage) => (.failed e, (s.setStage stage).setTx name t)
      | (.ok h, t, stage) =>
          let s := (s.setStage stage).setTx name t
          (.done (.text h.render),
            { s with names := { s.names with fds := s.names.fds.set fd h } })

/-! ## Files from outside -/

/-- Change the file system through a descriptor from outside. -/
def onOuter {α : Type} (s : Scene) (outer : String) (report : α → Report)
    (f : Filesystem → Nat → Except Errno α × Filesystem) : Answer × Scene :=
  match s.names.outers.get? outer with
  | none => (noOuterFile, s)
  | some fd =>
      let (result, files) := f s.stage.world.files fd
      (.ofExcept report (result.mapError fun e => (IoFault.os e).toError),
        s.setStage (s.stage.setFiles files))

/-- A refused call leaves the file system as it is. -/
def orUnchanged {α : Type} (fs : Filesystem) :
    Except Errno (α × Filesystem) → Except Errno α × Filesystem
  | .ok (a, fs) => (.ok a, fs)
  | .error e => (.error e, fs)

/-- Seek as the system does: a negative or too large position is refused. -/
def seekOuter (pos : SeekFrom) (fs : Filesystem) (fd : Nat) : Except Errno Nat × Filesystem :=
  let moved := match pos with
    | .start n => fs.seek fd n
    | .current delta => fs.seekFrom fd (fs.position fd) delta
    | .fromEnd delta => fs.seekFrom fd (fs.endPosition fd) delta
  orUnchanged fs (moved.map fun fs => (fs.position fd, fs))

def readOuter (len : Nat) (fs : Filesystem) (fd : Nat) : Except Errno Bytes × Filesystem :=
  orUnchanged fs (fs.read fd len Filesystem.probeSize)

def openOuter (s : Scene) (outer path : String) (access : Filesystem.Access) : Answer × Scene :=
  match s.stage.world.files.openExisting path access with
  | .error e => (.failed e.toError, s)
  | .ok (fd, files) =>
      let s := s.setStage (s.stage.setFiles files)
      (.done .null, { s with names := { s.names with outers := s.names.outers.set outer fd } })

/-! ## Pipes and threads -/

def openPipe (s : Scene) : Answer × Scene :=
  let (id, pipes) := s.stage.world.pipes.openPipe
  (.done (.nat id), s.setStage { s.stage with world := { s.stage.world with pipes } })

def lookupPipe (s : Scene) (pipe : Nat) : Answer :=
  .ofExcept (fun p => .record [("id", .nat p.id), ("read_id", .text p.readId.render),
    ("write_id", .text p.writeId.render)]) (s.stage.world.pipes.lookup pipe)

def forgetPipe (s : Scene) (pipe : Nat) : Answer × Scene :=
  let (known, pipes) := s.stage.world.pipes.forget pipe
  (.done (.flag known), s.setStage { s.stage with world := { s.stage.world with pipes } })

/-- Read from a pipe in a transaction, and where that would wait, close its writer and read to the
end. -/
def readPipe (s : Scene) (name : TxName) (pipe max : Nat) : Answer × Scene :=
  let read : Context → Pipes → Stage → Except Error (Option Bytes) × Pipes × Stage :=
    onStage (Pipes.read Pipe.fullChunks pipe max)
  match s.names.txs.get? name with
  | none => (noTransaction name, s)
  | some t =>
      match t.withModule Player.pipesFacet read s.stage with
      | (.error e, t, stage) => (.failed e, (s.setStage stage).setTx name t)
      | (.ok (some content), t, stage) =>
          (.done (.bytes content), (s.setStage stage).setTx name t)
      | (.ok none, t, stage) =>
          let (_, t, stage) := t.withModule Player.pipesFacet read (stage.closeWriter pipe)
          (.done Stage.blocked, (s.setStage stage).setTx name t)

def spawnThread (s : Scene) (name : TxName) (handle : String) (threadName : Option String)
    (task : ThreadTask) : Answer × Scene :=
  match s.names.txs.get? name with
  | none => (noTransaction name, s)
  | some t =>
      let ask : Context → Threads → Stage → Except Error Nat × Threads × Stage :=
        onStage fun state world =>
          let (id, state, world) := state.spawn threadName task world
          (.ok id, state, world)
      match t.withModule Player.threadsFacet ask s.stage with
      | (.error e, t, stage) => (.failed e, (s.setStage stage).setTx name t)
      | (.ok id, t, stage) =>
          let s := (s.setStage stage).setTx name t
          (.done .null, { s with names := { s.names with threads := s.names.threads.set handle id } })

def thread? (s : Scene) (handle : String) : Option Thread :=
  (s.names.threads.get? handle).bind fun id => s.stage.world.threads.threads.get? id

def threadState (s : Scene) (handle : String) : Answer :=
  match s.thread? handle with
  | none => noThread handle
  | some t =>
      .done (.record [("spawned", .flag t.isSpawned), ("discarded", .flag t.isDiscarded),
        ("has_id", .flag t.isRunning)])

def joinThread (s : Scene) (handle : String) : Answer × Scene :=
  match s.names.threads.get? handle with
  | none => (noThread handle, s)
  | some id =>
      let (result, world) := s.stage.world.joinThread id
      let s := s.setStage { s.stage with world }
      match result with
      | some result => (.ofExcept threadReport result, s)
      | none => (.done Stage.blocked, s)

/-! ## Players -/

/-- Register a player.  It touches its resources and gets its script even where its domain is taken
and it is dropped. -/
def registerRole (s : Scene) (name : TxName) (role : Role) : Answer × Scene :=
  match s.names.txs.get? name with
  | none => (noTransaction name, s)
  | some t =>
      let stage := s.stage
      let versions := stage.world.versions
      let access := role.observe.foldl (fun a id => a.observe versions id) {}
      let access := role.write.foldl (fun a id => a.write versions id) access
      let player := Player.scripted
        { domain := role.domain, script := some stage.nextScript, access }
      let stage :=
        { stage with
          scripts := stage.scripts.set stage.nextScript role.script
          nextScript := stage.nextScript + 1 }
      let (result, t) := t.register player
      (.ofExcept (fun domain => .record [("kind", .text domain.render), ("own", .flag true)]) result,
        (s.setStage stage).setTx name t)

def Revision.apply (r : Revision) (script : Script) : Script :=
  { script with
    valid := r.valid.getD script.valid
    failures := r.failures.getD script.failures
    hooks := r.hooks.getD script.hooks
    journal := script.journal ++ r.journal }

/-- Change the newest script of a name. -/
def revise (s : Scene) (r : Revision) : Answer × Scene :=
  match s.stage.scripts.entries.reverse.find? (·.2.name = r.name) with
  | none => (.complaint ("no script " ++ r.name), s)
  | some (number, script) =>
      (.done .null,
        s.setStage
          { s.stage with scripts := s.stage.scripts.set number (Revision.apply r script) })

/-- One call of one participant. -/
def methodCall {M : Type} (facet : Facet Player M) (method : Method) (ctx : Context) (state : M)
    (stage : Stage) : Except Error Report × M × Stage :=
  let player := facet.wrap state
  let back (p : Player) : M := (facet.view p).getD state
  let unit (r : Except Error Unit × Player × Stage) : Except Error Report × M × Stage :=
    (r.1.map fun () => .null, back r.2.1, r.2.2)
  let quiet (r : Player × Stage) : Except Error Report × M × Stage := (.ok .null, back r.1, r.2)
  match method with
  | .lock => unit (Participant.lock ctx player stage)
  | .unlock => quiet (Participant.unlock ctx player stage)
  | .validate v =>
      let (valid, stage) := Participant.validate ctx v player stage
      (.ok (.flag valid), state, stage)
  | .apply => unit (Participant.apply ctx player stage)
  | .undo => unit (Participant.undo ctx player stage)
  | .finish => quiet (Participant.finish ctx player stage)
  | .release => quiet (Participant.release player stage)
  | .journal => (.ok (.texts (Participant.journal player stage)), state, stage)
  | .domain => (.ok (.text (Participant.domain player).render), state, stage)

def callMethod (s : Scene) (name : TxName) (cast : Cast) (method : Method) : Answer × Scene :=
  match cast with
  | .files => s.onModule name Player.filesFacet id (methodCall Player.filesFacet method)
  | .pipes => s.onModule name Player.pipesFacet id (methodCall Player.pipesFacet method)
  | .threads => s.onModule name Player.threadsFacet id (methodCall Player.threadsFacet method)
  | .yields => s.onModule name Player.yieldsFacet id (methodCall Player.yieldsFacet method)
  | .toucher => s.onModule name Player.toucherFacet id (methodCall Player.toucherFacet method)
  | .keeper => s.onModule name Player.keeperFacet id (methodCall Player.keeperFacet method)
  | .scripted => s.onModule name Player.scriptedFacet id (methodCall Player.scriptedFacet method)

/-- A glance at a participant, if there is one. -/
def glance (s : Scene) (t : Transaction Player) (cast : Cast) (pipe : Nat) : Report :=
  match cast with
  | .files => .optional (fun m => .nat m.pendingWrites) (t.module? Player.filesFacet)
  | .pipes => .optional (fun m => .nat (m.pendingBytes pipe)) (t.module? Player.pipesFacet)
  | .threads => .optional (fun m => .nat m.pendingSpawns) (t.module? Player.threadsFacet)
  | .yields => .optional (fun m => .nat m.count) (t.module? Player.yieldsFacet)
  | .toucher => .optional (fun m => .nat m.held.size) (t.module? Player.toucherFacet)
  | .keeper => .optional (fun m => .nat m.log.size) (t.module? Player.keeperFacet)
  | .scripted => .optional (fun m => .text (m.name s.stage)) (t.module? Player.scriptedFacet)

/-! ## Transactions -/

/-- The settings of a transaction that belongs to no manager. -/
def detachedConfig : Config := { lockTimeout := .ofMillis 5 }

/-- Let go of a named transaction. -/
def dropTx (s : Scene) (name : TxName) : Scene :=
  match s.names.txs.get? name with
  | none => s
  | some t =>
      let (_, manager) := s.manager.drop t
      { s with manager, names := { s.names with txs := s.names.txs.erase name } }

/-- Begin a transaction under a name; an older one of that name is let go first.  That of an attempt
begins with the attempt and at no other time. -/
def beginTx (s : Scene) (name : TxName) (detached : Bool) : Answer × Scene :=
  match name with
  | .attempt _ => (noTransaction name, s)
  | .given label =>
      let s := s.dropTx name
      let (t, manager) :=
        if detached then s.manager.beginDetached label detachedConfig else s.manager.begin label
      (.done (stateReport t), (s.setManager manager).setTx name t)

/-- Let go of a transaction by a step, which the one of an attempt is not subject to. -/
def dropByStep (s : Scene) (name : TxName) : Answer × Scene :=
  match name with
  | .attempt _ => (noTransaction name, s)
  | .given _ =>
      if s.names.txs.contains name then (.done .null, s.dropTx name) else (noTransaction name, s)

/-- Yield, and validate where the settings of the transaction ask for it. -/
def yieldNow (s : Scene) (name : TxName) : Answer × Scene :=
  s.onTx name fun manager t =>
    let count : Context → Yields → Stage → Except Error Unit × Yields × Stage :=
      fun _ state stage => (.ok (), state.yieldOnce, stage)
    let (result, t, stage) := t.withModule Player.yieldsFacet count manager.world
    let manager := { manager with world := stage }
    match result with
    | .error e => (.failed e, t, manager)
    | .ok () =>
        if t.config.validateOnYield then
          let (result, t, manager) := manager.validateEarly t
          (.ofExcept (fun () => .null) result, t, manager)
        else (.done .null, t, manager)

/-- Show something in its debugging form. -/
def debug (s : Scene) (attempt : Option Nat) : Showable → Answer
  | .transaction tx =>
      match s.names.txs.get? (TxName.of attempt tx) with
      | none => noTransaction (TxName.of attempt tx)
      | some t => .done (.text t.render)
  | .context tx =>
      match s.names.txs.get? (TxName.of attempt tx) with
      | none => noTransaction (TxName.of attempt tx)
      | some t =>
          .done (.text ("TransactionContext \x7b id: TransactionId(" ++ t.id.render ++ ") \x7d"))
  | .manager => .done (.text s.manager.render)
  | .pipe pipe =>
      match s.stage.world.pipes.get? pipe with
      | none => Stage.noPipe pipe
      | some p => .done (.text p.render)
  | .thread handle =>
      match s.thread? handle with
      | none => noThread handle
      | some t => .done (.text t.render)

/-! ## Listeners -/

def subscribe (s : Scene) (name : String) (fault : Option Error) : Answer × Scene :=
  match s.manager.subscribe { name, fault } with
  | (.ok number, manager) =>
      (.done .null,
        { manager, names := { s.names with listeners := s.names.listeners.set name number } })
  | (.error e, manager) => (.failed e, s.setManager manager)

/-- Remove the newest listener of a name; the name is free afterwards. -/
def unsubscribe (s : Scene) (name : String) : Answer × Scene :=
  match s.names.listeners.get? name with
  | none => (noListener, s)
  | some number =>
      let (result, manager) := s.manager.unsubscribe number
      (.ofExcept (fun () => .null) result,
        { manager, names := { s.names with listeners := s.names.listeners.erase name } })

/-- Remove every listener. -/
def closeManager (s : Scene) : Answer × Scene :=
  let (result, manager) := s.manager.close
  (.ofExcept (fun () => .null) result, s.setManager manager)

end Scene

end Transact.Rehearsal
