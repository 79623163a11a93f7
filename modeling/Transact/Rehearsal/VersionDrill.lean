/-
# Transact.Rehearsal.VersionDrill -- a version table and access sets, call by call
-/
import Transact.Rehearsal.Report
import Transact.Resource.Version

namespace Transact.Rehearsal.VersionDrill

set_option autoImplicit false

inductive Call where
  | bump
  | current
  | counter
  | observe
  | write
  | validate
  | publish
  | snapshot
  | isCurrent
  | isWritten
  | observed
  | written
  | isEmpty
  | clear

/-- A call on the resource `id`, through the access set called `set`. -/
structure Step where
  call : Call
  set : String := ""
  id : ResourceId := .named ""

structure State where
  versions : VersionTable := {}
  sets : Table String AccessSet := {}

def access (s : State) (name : String) : AccessSet := (s.sets.get? name).getD {}

def perform (s : State) (step : Step) : Report × State :=
  let a := access s step.set
  let keep (a : AccessSet) : State := { s with sets := s.sets.set step.set a }
  let v := s.versions
  match step.call with
  | .bump =>
      let v := v.bump step.id
      (.nat (v.current step.id), { s with versions := v })
  | .current => (.nat (v.current step.id), s)
  | .counter =>
      let v := v.track step.id
      (.nat (v.current step.id), { s with versions := v })
  | .observe => (.null, keep (a.observe v step.id))
  | .write => (.null, keep (a.write v step.id))
  | .validate => (.flag (a.validate v), s)
  | .publish => (.null, { s with versions := a.publish v })
  | .snapshot => (.optional .nat (a.snapshot step.id), s)
  | .isCurrent => (.flag (a.isCurrent v step.id), s)
  | .isWritten => (.flag (a.isWritten step.id), s)
  | .observed => (.texts (a.observedIds.map ResourceId.render), s)
  | .written => (.texts (a.writtenIds.map ResourceId.render), s)
  | .isEmpty => (.flag a.isEmpty, s)
  | .clear => (.null, keep {})

def performAll : List Step → State → List Report
  | [], _ => []
  | step :: rest, s =>
      let (report, s) := perform s step
      .record [("result", report), ("len", .nat s.versions.size),
        ("empty", .flag (s.versions.size == 0))] :: performAll rest s

end Transact.Rehearsal.VersionDrill
