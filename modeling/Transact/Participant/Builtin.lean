/-
# Transact.Participant.Builtin -- the participants that come with the library

Files, pipes, threads and yields as one type, with a facet to find each of them in a transaction.
-/
import Transact.Participant.Files
import Transact.Participant.Pipes
import Transact.Participant.Threads
import Transact.Participant.Yields

namespace Transact

set_option autoImplicit false

inductive Builtin where
  | files (s : Files)
  | pipes (s : Pipes)
  | threads (s : Threads)
  | yields (s : Yields)
  deriving DecidableEq

namespace Builtin

/-- Put back the state of a participant next to what it answered. -/
def withState {α S : Type} (wrap : S → Builtin) (r : α × S × World) : α × Builtin × World :=
  (r.1, wrap r.2.1, r.2.2)

instance : Participant Builtin World where
  domain
    | .files s => Participant.domain s
    | .pipes s => Participant.domain s
    | .threads s => Participant.domain s
    | .yields s => Participant.domain s
  lock
    | ctx, .files s, w => withState .files (Participant.lock ctx s w)
    | ctx, .pipes s, w => withState .pipes (Participant.lock ctx s w)
    | ctx, .threads s, w => withState .threads (Participant.lock ctx s w)
    | ctx, .yields s, w => withState .yields (Participant.lock ctx s w)
  unlock
    | ctx, .files s, w => let (s, w) := Participant.unlock ctx s w; (.files s, w)
    | ctx, .pipes s, w => let (s, w) := Participant.unlock ctx s w; (.pipes s, w)
    | ctx, .threads s, w => let (s, w) := Participant.unlock ctx s w; (.threads s, w)
    | ctx, .yields s, w => let (s, w) := Participant.unlock ctx s w; (.yields s, w)
  validate
    | ctx, v, .files s, w => Participant.validate ctx v s w
    | ctx, v, .pipes s, w => Participant.validate ctx v s w
    | ctx, v, .threads s, w => Participant.validate ctx v s w
    | ctx, v, .yields s, w => Participant.validate ctx v s w
  apply
    | ctx, .files s, w => withState .files (Participant.apply ctx s w)
    | ctx, .pipes s, w => withState .pipes (Participant.apply ctx s w)
    | ctx, .threads s, w => withState .threads (Participant.apply ctx s w)
    | ctx, .yields s, w => withState .yields (Participant.apply ctx s w)
  undo
    | ctx, .files s, w => withState .files (Participant.undo ctx s w)
    | ctx, .pipes s, w => withState .pipes (Participant.undo ctx s w)
    | ctx, .threads s, w => withState .threads (Participant.undo ctx s w)
    | ctx, .yields s, w => withState .yields (Participant.undo ctx s w)
  finish
    | ctx, .files s, w => let (s, w) := Participant.finish ctx s w; (.files s, w)
    | ctx, .pipes s, w => let (s, w) := Participant.finish ctx s w; (.pipes s, w)
    | ctx, .threads s, w => let (s, w) := Participant.finish ctx s w; (.threads s, w)
    | ctx, .yields s, w => let (s, w) := Participant.finish ctx s w; (.yields s, w)
  release
    | .files s, w => let (s, w) := Participant.release s w; (.files s, w)
    | .pipes s, w => let (s, w) := Participant.release s w; (.pipes s, w)
    | .threads s, w => let (s, w) := Participant.release s w; (.threads s, w)
    | .yields s, w => let (s, w) := Participant.release s w; (.yields s, w)
  journal
    | .files s, w => Participant.journal s w
    | .pipes s, w => Participant.journal s w
    | .threads s, w => Participant.journal s w
    | .yields s, w => Participant.journal s w

/-! ## Facets -/

def filesFacet : Facet Builtin Files where
  domain := .file
  fresh := {}
  wrap := .files
  view
    | .files s => some s
    | _ => none

def pipesFacet : Facet Builtin Pipes where
  domain := .pipe
  fresh := {}
  wrap := .pipes
  view
    | .pipes s => some s
    | _ => none

def threadsFacet : Facet Builtin Threads where
  domain := .thread
  fresh := {}
  wrap := .threads
  view
    | .threads s => some s
    | _ => none

def yieldsFacet : Facet Builtin Yields where
  domain := .scheduler
  fresh := {}
  wrap := .yields
  view
    | .yields s => some s
    | _ => none

end Builtin

end Transact
