/-
# Transact.Rehearsal.Players -- participants to rehearse with

* A `Scripted` player notes every call it gets, does to the stage what its script says, and fails or
  finds itself invalid where the script says so.  It has an access set and locks like any other.
* A `Toucher` only touches resources.
* A `Keeper` keeps values under keys: storing happens at once and is reverted by undo, deleting is
  written down and happens in apply.

`Player` is one of these or a built-in participant.
-/
import Transact.Participant.Builtin
import Transact.Rehearsal.Stage

namespace Transact.Rehearsal

set_option autoImplicit false

/-! ## Locks of an access set -/

/-- Take the locks of everything touched. -/
def lockObserved (ctx : Context) (access : AccessSet) (held : HeldLocks) (st : Stage) :
    Except Error Unit × HeldLocks × Stage :=
  let (result, held, locks) := held.acquireAll access.observedIds ctx.tx st.world.locks
  (result, held, { st with world := { st.world with locks } })

def unlockHeld (ctx : Context) (held : HeldLocks) (st : Stage) : Stage :=
  { st with world := { st.world with locks := held.releaseAll ctx.tx st.world.locks } }

def publishAccess (access : AccessSet) (st : Stage) : Stage :=
  { st with world := { st.world with versions := access.publish st.world.versions } }

/-! ## Scripted players -/

/-- A player that follows a script; one without a script does nothing by itself. -/
structure Scripted where
  domain : Domain
  script : Option Nat := none
  access : AccessSet := {}
  held : HeldLocks := {}

namespace Scripted

def scriptOf (s : Scripted) (st : Stage) : Option Script :=
  s.script.bind fun number => st.scripts.get? number

/-- Note the call and do what the script says for this moment.  The answer is the failure the script
asks for. -/
def play (s : Scripted) (moment : Moment) (st : Stage) : Option Error × Stage :=
  match s.scriptOf st with
  | none => (none, st)
  | some script =>
      let head := script.name ++ ":" ++ moment.name
      let st := st.note head
      let steps := (script.hooks.filter (·.1 = moment)).flatMap (·.2)
      let st := Stage.performNoting head steps st
      ((script.failures.find? (·.1 = moment)).map (·.2), st)

/-- The name in the script; a player without one has the empty name. -/
def name (s : Scripted) (st : Stage) : String := ((s.scriptOf st).map (·.name)).getD ""

def lock (ctx : Context) (s : Scripted) (st : Stage) : Except Error Unit × Scripted × Stage :=
  match s.play .lock st with
  | (some e, st) => (.error e, s, st)
  | (none, st) =>
      let (result, held, st) := lockObserved ctx s.access s.held st
      (result, { s with held }, st)

def unlock (ctx : Context) (s : Scripted) (st : Stage) : Scripted × Stage :=
  let (_, st) := s.play .unlock st
  ({ s with held := {} }, unlockHeld ctx s.held st)

def validate (v : Validation) (s : Scripted) (st : Stage) : Bool × Stage :=
  let (_, st) := s.play (if v = .final then .validate else .validateEarly) st
  let valid := ((s.scriptOf st).map (·.valid)).getD true
  (valid && s.access.validate st.world.versions, st)

def apply (s : Scripted) (st : Stage) : Except Error Unit × Scripted × Stage :=
  match s.play .apply st with
  | (some e, st) => (.error e, s, st)
  | (none, st) => (.ok (), s, publishAccess s.access st)

def undo (s : Scripted) (st : Stage) : Except Error Unit × Scripted × Stage :=
  match s.play .undo st with
  | (some e, st) => (.error e, s, st)
  | (none, st) => (.ok (), s, st)

def journal (s : Scripted) (st : Stage) : List String :=
  ((s.scriptOf st).map (·.journal)).getD []

instance : Participant Scripted Stage where
  domain s := s.domain
  lock := lock
  unlock := unlock
  validate _ v s st := s.validate v st
  apply _ := apply
  undo _ := undo
  finish _ s st := (s, (s.play .finish st).2)
  release s st := (s, (s.play .release st).2)
  journal := journal

end Scripted

/-! ## Touchers -/

/-- A player that only touches resources. -/
structure Toucher where
  access : AccessSet := {}
  held : HeldLocks := {}

namespace Toucher

def touch (id : ResourceId) (s : Toucher) (st : Stage) : Toucher :=
  { s with access := s.access.write st.world.versions id }

def look (id : ResourceId) (s : Toucher) (st : Stage) : Toucher :=
  { s with access := s.access.observe st.world.versions id }

def domain : Domain := .custom 9

instance : Participant Toucher Stage where
  domain _ := domain
  lock ctx s st :=
    let (result, held, st) := lockObserved ctx s.access s.held st
    (result, { s with held }, st)
  unlock ctx s st := ({ s with held := {} }, unlockHeld ctx s.held st)
  validate _ _ s st := (s.access.validate st.world.versions, st)
  apply _ s st := (.ok (), s, publishAccess s.access st)
  undo _ s st := (.ok (), s, st)
  finish _ s st := (s, st)
  release s st := (s, st)
  journal _ _ := []

end Toucher

/-! ## Keepers -/

/-- An effect on the value of a key. -/
inductive KeeperEffect where
  | put (key : String) (data : Bytes)
  | delete (key : String)
  deriving DecidableEq

def KeeperEffect.key : KeeperEffect → String
  | .put key _ => key
  | .delete key => key

/-- A player that keeps values under keys. -/
structure Keeper where
  log : DeferredLog KeeperEffect := {}

namespace Keeper

def domain : Domain := .custom 42

/-- What a key holds, as the state to go back to. -/
def preState (store : Table String Bytes) (key : String) : PreState :=
  match store.get? key with
  | some old => .bytes old
  | none => .absent

/-- Store a value at once. -/
def put (key : String) (data : Bytes) (s : Keeper) (st : Stage) : Keeper × Stage :=
  (⟨s.log.append (.eager (.named key) (preState st.store key) (.put key data))⟩,
    { st with store := st.store.set key data })

/-- Write down that a key is to be removed. -/
def delete (key : String) (s : Keeper) : Keeper :=
  ⟨s.log.append (.deferred (.named key) (.delete key))⟩

/-- Keys that cannot be applied. -/
def isPoison (key : String) : Bool := "poison".toList.isPrefixOf key.toList

/-- Keys that cannot be undone. -/
def isStuck (key : String) : Bool := "stuck".toList.isPrefixOf key.toList

def cannotApply (key : String) : Error := .of .moduleInternalError ("cannot apply " ++ key)

def cannotUndo (key : String) : Error := .of .moduleInternalError ("cannot undo " ++ key)

/-- Perform one record; only a removal is still to be done. -/
def applyRecord (r : Record KeeperEffect) (store : Table String Bytes) :
    Except Error Unit × Table String Bytes :=
  if isPoison r.payload.key then (.error (cannotApply r.payload.key), store)
  else
    match r.payload with
    | .put .. => (.ok (), store)
    | .delete key => (.ok (), store.erase key)

/-- Go back to the state a record carries. -/
def restore (key : String) (store : Table String Bytes) : Option PreState → Table String Bytes
  | some (.bytes old) => store.set key old
  | some .absent => store.erase key
  | _ => store

def undoRecord (r : Record KeeperEffect) (store : Table String Bytes) :
    Except Error Unit × Table String Bytes :=
  if isStuck r.payload.key then (.error (cannotUndo r.payload.key), store)
  else (.ok (), restore r.payload.key store r.preState)

def describe : KeeperEffect → String × Bytes
  | .put _ data => ("put", data)
  | .delete _ => ("delete", [])

instance : Participant Keeper Stage where
  domain _ := domain
  lock _ s st := (.ok (), s, st)
  unlock _ s st := (s, st)
  validate _ _ _ st := (true, st)
  apply _ s st :=
    let (result, log, store) := s.log.applyAll applyRecord st.store
    (result.map fun _ => (), ⟨log⟩, { st with store })
  undo _ s st :=
    let (result, log, store) := s.log.undoAll undoRecord st.store
    (result.map fun _ => (), ⟨log⟩, { st with store })
  finish _ s st := (s, st)
  release s st := (s, st)
  journal s _ := s.log.journal domain describe

end Keeper

/-! ## All of them -/

inductive Player where
  | builtin (b : Builtin)
  | scripted (s : Scripted)
  | toucher (s : Toucher)
  | keeper (s : Keeper)

namespace Player

/-- Let a built-in participant act on the world of a stage. -/
def onWorld {α : Type} (st : Stage) (r : α × Builtin × World) : α × Player × Stage :=
  (r.1, .builtin r.2.1, { st with world := r.2.2 })

/-- Put back the state of a player next to what it answered. -/
def withState {α S : Type} (wrap : S → Player) (r : α × S × Stage) : α × Player × Stage :=
  (r.1, wrap r.2.1, r.2.2)

instance : Participant Player Stage where
  domain
    | .builtin b => Participant.domain b
    | .scripted s => Participant.domain s
    | .toucher s => Participant.domain s
    | .keeper s => Participant.domain s
  lock
    | ctx, .builtin b, st => onWorld st (Participant.lock ctx b st.world)
    | ctx, .scripted s, st => withState .scripted (Participant.lock ctx s st)
    | ctx, .toucher s, st => withState .toucher (Participant.lock ctx s st)
    | ctx, .keeper s, st => withState .keeper (Participant.lock ctx s st)
  unlock
    | ctx, .builtin b, st =>
        let (b, world) := Participant.unlock ctx b st.world; (.builtin b, { st with world })
    | ctx, .scripted s, st => let (s, st) := Participant.unlock ctx s st; (.scripted s, st)
    | ctx, .toucher s, st => let (s, st) := Participant.unlock ctx s st; (.toucher s, st)
    | ctx, .keeper s, st => let (s, st) := Participant.unlock ctx s st; (.keeper s, st)
  validate
    | ctx, v, .builtin b, st =>
        let (valid, world) := Participant.validate ctx v b st.world; (valid, { st with world })
    | ctx, v, .scripted s, st => Participant.validate ctx v s st
    | ctx, v, .toucher s, st => Participant.validate ctx v s st
    | ctx, v, .keeper s, st => Participant.validate ctx v s st
  apply
    | ctx, .builtin b, st => onWorld st (Participant.apply ctx b st.world)
    | ctx, .scripted s, st => withState .scripted (Participant.apply ctx s st)
    | ctx, .toucher s, st => withState .toucher (Participant.apply ctx s st)
    | ctx, .keeper s, st => withState .keeper (Participant.apply ctx s st)
  undo
    | ctx, .builtin b, st => onWorld st (Participant.undo ctx b st.world)
    | ctx, .scripted s, st => withState .scripted (Participant.undo ctx s st)
    | ctx, .toucher s, st => withState .toucher (Participant.undo ctx s st)
    | ctx, .keeper s, st => withState .keeper (Participant.undo ctx s st)
  finish
    | ctx, .builtin b, st =>
        let (b, world) := Participant.finish ctx b st.world; (.builtin b, { st with world })
    | ctx, .scripted s, st => let (s, st) := Participant.finish ctx s st; (.scripted s, st)
    | ctx, .toucher s, st => let (s, st) := Participant.finish ctx s st; (.toucher s, st)
    | ctx, .keeper s, st => let (s, st) := Participant.finish ctx s st; (.keeper s, st)
  release
    | .builtin b, st =>
        let (b, world) := Participant.release b st.world; (.builtin b, { st with world })
    | .scripted s, st => let (s, st) := Participant.release s st; (.scripted s, st)
    | .toucher s, st => let (s, st) := Participant.release s st; (.toucher s, st)
    | .keeper s, st => let (s, st) := Participant.release s st; (.keeper s, st)
  journal
    | .builtin b, st => Participant.journal b st.world
    | .scripted s, st => Participant.journal s st
    | .toucher s, st => Participant.journal s st
    | .keeper s, st => Participant.journal s st

/-! ### Facets -/

/-- A sort of built-in participant, found among players. -/
def ofBuiltin {M : Type} (facet : Facet Builtin M) : Facet Player M where
  domain := facet.domain
  fresh := facet.fresh
  wrap s := .builtin (facet.wrap s)
  view
    | .builtin b => facet.view b
    | _ => none

def filesFacet : Facet Player Files := ofBuiltin Builtin.filesFacet

def pipesFacet : Facet Player Pipes := ofBuiltin Builtin.pipesFacet

def threadsFacet : Facet Player Threads := ofBuiltin Builtin.threadsFacet

def yieldsFacet : Facet Player Yields := ofBuiltin Builtin.yieldsFacet

def scriptedFacet : Facet Player Scripted where
  domain := .custom 0
  fresh := { domain := .custom 0 }
  wrap := .scripted
  view
    | .scripted s => some s
    | _ => none

def toucherFacet : Facet Player Toucher where
  domain := Toucher.domain
  fresh := {}
  wrap := .toucher
  view
    | .toucher s => some s
    | _ => none

def keeperFacet : Facet Player Keeper where
  domain := Keeper.domain
  fresh := {}
  wrap := .keeper
  view
    | .keeper s => some s
    | _ => none

end Player

end Transact.Rehearsal
