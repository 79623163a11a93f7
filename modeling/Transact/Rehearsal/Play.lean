/-
# Transact.Rehearsal.Play -- performing the steps of a scene

Because every step is one call, a list of steps is one interleaving of the transactions in it.  A
body is a list of steps on the transaction of the current attempt, and ends with the first step that
fails unless that step is caught.  When all steps are done every transaction is let go in order of
name, and the finale lists what is left.
-/
import Transact.Rehearsal.Scene

namespace Transact.Rehearsal

set_option autoImplicit false

namespace Scene

open Stage (Answer)

/-! ## Performing -/

/-- Make one call. -/
def act (attempt : Option Nat) (s : Scene) (action : Action) : Answer × Scene :=
  let on := TxName.of attempt
  match action with
  | .onWorld step => let (answer, stage) := s.stage.perform step; (answer, s.setStage stage)
  | .begin tx detached => s.beginTx (on tx) detached
  | .commit tx =>
      s.onTx (on tx) fun manager t =>
        let (result, t, manager) := manager.commit t
        (.ofExcept (fun outcome => outcomeReport outcome t) result, t, manager)
  | .abort tx =>
      s.onTx (on tx) fun manager t =>
        let (result, t, manager) := manager.abort t
        (.ofExcept (fun outcome => outcomeReport outcome t) result, t, manager)
  | .drop tx => s.dropByStep (on tx)
  | .validateEarly tx =>
      s.onTx (on tx) fun manager t =>
        let (result, t, manager) := manager.validateEarly t
        (.ofExcept (fun () => .null) result, t, manager)
  | .state tx => s.onTx (on tx) fun manager t => (.done (stateReport t), t, manager)
  | .journal tx =>
      s.onTx (on tx) fun manager t =>
        (.done (.texts (t.journal manager.world)), t, manager)
  | .times tx => s.onTx (on tx) fun manager t => (.done (.flag true), t, manager)
  | .debug what => (s.debug attempt what, s)
  | .openFile tx fd path flags => s.keepHandle (on tx) fd (Files.openPath path flags)
  | .adopt tx fd outer path =>
      let name := on tx
      if s.names.txs.contains name then
        match s.names.outers.get? outer with
        | none => (noOuterFile, s)
        | some descriptor => s.keepHandle name fd (Files.adopt descriptor path)
      else (noTransaction name, s)
  | .read tx fd len =>
      s.onHandle (on tx) fd .bytes fun h => Files.read h len
  | .write tx fd data =>
      let name := on tx
      let (answer, s) := s.onHandle name fd .nat fun h => Files.write h data
      (answer, s.watchOffsets name)
  | .seek tx fd pos => s.onHandle (on tx) fd .nat fun h => Files.seek h pos
  | .tell tx fd => s.onHandle (on tx) fd .nat Files.tell
  | .close tx fd => s.onHandle (on tx) fd (fun () => .null) Files.close
  | .remove tx path =>
      s.onModule (on tx) Player.filesFacet (fun () => .null)
        (onStage (Files.remove path))
  | .outerOpen outer path access => s.openOuter outer path access
  | .outerSeek outer pos => s.onOuter outer .nat (seekOuter pos)
  | .outerTell outer => s.onOuter outer .nat fun fs fd => (.ok (fs.position fd), fs)
  | .outerRead outer len => s.onOuter outer .bytes (readOuter len)
  | .outerWrite outer data =>
      s.onOuter outer (fun () => .null) fun fs fd => fs.write fd data
  | .pipeOpen => s.openPipe
  | .pipeLookup pipe => (s.lookupPipe pipe, s)
  | .pipeForget pipe => s.forgetPipe pipe
  | .pipeCount => (.done (.nat s.stage.world.pipes.count), s)
  | .pipeWrite tx pipe data =>
      s.onModule (on tx) Player.pipesFacet .nat (onStage (Pipes.write pipe data))
  | .pipeRead tx pipe max => s.readPipe (on tx) pipe max
  | .yieldNow tx => s.yieldNow (on tx)
  | .current tx =>
      s.onModule (on tx) Player.threadsFacet
        (fun () => .list [.flag true, .flag false, .flag false])
        (fun _ state stage => (.ok (), state, stage))
  | .spawn tx handle name task => s.spawnThread (on tx) handle name task
  | .threadState handle => (s.threadState handle, s)
  | .join handle => s.joinThread handle
  | .register tx role => s.registerRole (on tx) role
  | .revise revision => s.revise revision
  | .touch tx id =>
      s.onModule (on tx) Player.toucherFacet (fun () => .null)
        (quietly fun state stage => (state.touch id stage, stage))
  | .look tx id =>
      s.onModule (on tx) Player.toucherFacet (fun () => .null)
        (quietly fun state stage => (state.look id stage, stage))
  | .put tx key data =>
      s.onModule (on tx) Player.keeperFacet (fun () => .null)
        (quietly (Keeper.put key data))
  | .delete tx key =>
      s.onModule (on tx) Player.keeperFacet (fun () => .null)
        (quietly fun state stage => (state.delete key, stage))
  | .call tx cast method => s.callMethod (on tx) cast method
  | .module tx cast pipe =>
      s.onTx (on tx) fun manager t => (.done (s.glance t cast pipe), t, manager)
  | .takeTrace => (.done (.texts s.stage.trace), s.setStage { s.stage with trace := [] })
  | .stats =>
      (.done (.record (("aborted", .nat s.manager.stats.aborted) :: statsFields s.manager.stats)),
        s)
  | .subscribe listener fault => s.subscribe listener fault
  | .unsubscribe listener => s.unsubscribe listener
  | .closeManager => s.closeManager
  | .fail e => (.failed e, s)

/-! ## Bodies -/

/-- What the steps of an attempt answered, and the error that ended it. -/
structure BodyEnd where
  reports : List Report
  error : Option Error
  scene : Scene

/-- The body of one attempt as the manager wants it.  The transaction stands among the others while
the steps run, and the reports of each attempt are collected. -/
def body (steps : Nat → Nat → Scene → BodyEnd) :
    Manager.Body Player Stage (Switchboard TxEvent) (Names × List Report) Nat :=
  fun k t manager (names, reports) =>
    let name := TxName.attempt manager.attempts
    let result := steps k manager.attempts (({ manager, names : Scene }).setTx name t)
    let t := (result.scene.names.txs.get? name).getD t
    let names := { result.scene.names with txs := result.scene.names.txs.erase name }
    let answer := match result.error with
      | none => .ok k
      | some e => .error e
    (answer, t, result.scene.manager, (names, reports ++ [.list result.reports]))

/-- Run a body and report every attempt and the result. -/
def runBody (s : Scene) (steps : Nat → Nat → Scene → BodyEnd) : Answer × Scene :=
  let (result, manager, (names, reports)) := s.manager.run (body steps) (s.names, [])
  let report := match result with
    | .ok k => .nat k
    | .error e => .ofError e
  (.done (.record [("attempts", .list reports), ("result", report)]), { manager, names })

/-- Whether a step is left out of attempt number `k`. -/
def skipped (k : Nat) : Step → Bool
  | .only attempts step => !attempts.contains k || skipped k step
  | .caught step => skipped k step
  | _ => false

/-- Whether an error of a step does not end the body. -/
def isCaught : Step → Bool
  | .only _ step => isCaught step
  | .caught _ => true
  | _ => false

mutual

/-- Perform one step. -/
def perform (attempt : Option Nat) : Step → Scene → Answer × Scene
  | .act action, s => s.act attempt action
  | .only _ step, s => perform attempt step s
  | .caught step, s => perform attempt step s
  | .run steps, s => s.runBody fun k number s => performBody k number steps s

/-- Perform the steps of attempt `k` of a run, which is attempt `number` of the scene, up to the first
that fails and is not caught. -/
def performBody (k number : Nat) : List Step → Scene → BodyEnd
  | [], s => { reports := [], error := none, scene := s }
  | step :: rest, s =>
      if skipped k step then performBody k number rest s
      else
        match perform (some number) step s with
        | (.failed e, s) =>
            if isCaught step then
              let r := performBody k number rest s
              { r with reports := .ofError e :: r.reports }
            else { reports := [.ofError e], error := some e, scene := s }
        | (answer, s) =>
            let r := performBody k number rest s
            { r with reports := answer.report :: r.reports }

end

/-! ## Playing -/

/-- Perform steps one after another. -/
def performAll : List Step → Scene → List Report × Scene
  | [], s => ([], s)
  | step :: rest, s =>
      let (answer, s) := perform none step s
      let (reports, s) := performAll rest s
      (answer.report :: reports, s)

/-- Put a name in its place. -/
def insertName (name : TxName) : List TxName → List TxName
  | [] => [name]
  | other :: rest =>
      if name.text < other.text then name :: other :: rest else other :: insertName name rest

/-- The names of all transactions in order. -/
def orderedNames (s : Scene) : List TxName :=
  s.names.txs.keys.foldl (fun acc name => insertName name acc) []

/-- Let go of every transaction, in order of name. -/
def dropAll (s : Scene) : Scene := s.orderedNames.foldl dropTx s

def entryReport (fs : Filesystem) : Entry → Report
  | .directory => .text "dir"
  | .file inode => .bytes (fs.content inode).toBytes
  | .link target => .record [("link", .text target)]

/-- What is left when the scene is over; files are listed by their names from `home`. -/
def finale (home : Location) (s : Scene) : Report :=
  let world := s.stage.world
  let told := s.manager.bus.told
  let listeners := (told.map (·.1)).eraseDups
  .record [
    ("files", .record ((world.files.below home).map fun (at_, entry) =>
      (String.intercalate "/" at_, entryReport world.files entry))),
    ("pipes", .record (world.pipes.pipes.entries.map fun (id, p) =>
      (toString id, Stage.pipeReport p))),
    ("kv", .record (s.stage.store.entries.map fun (key, data) => (key, .bytes data))),
    ("stats", .record (statsFields s.manager.stats)),
    ("events", .record (listeners.map fun name =>
      (name, .list ((s.manager.bus.toldTo name).map eventReport)))),
    ("trace", .texts s.stage.trace),
    ("locks", .nat world.locks.size),
    ("versions", .nat world.versions.size)]

/-- The settings a scene starts from. -/
def baseSettings : List Config.Setting := [.lockTimeout (.ofMillis 5), .retryBackoff .zero]

/-- A scene in an empty working directory, or the refusal of its settings. -/
def opening (home : Location) (settings : List Config.Setting) : Except Error Scene :=
  match ({ : Config }).build (baseSettings ++ settings) with
  | .error r => .error r.toError
  | .ok config => .ok { manager := { world := Stage.empty home, config, bus := {} } }

/-- Play a list of steps and report each of them and the finale, or what brought it down. -/
def play (home : Location) (settings : List Config.Setting) (steps : List Step) : Report :=
  match opening home settings with
  | .error e => .ofError e
  | .ok s =>
      let (reports, s) := performAll steps s
      match s.stage.downfall with
      | some message => .downfall message
      | none => .record [("steps", .list reports), ("final", s.dropAll.finale home)]

end Scene

end Transact.Rehearsal
