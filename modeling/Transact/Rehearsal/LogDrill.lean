/-
# Transact.Rehearsal.LogDrill -- one deferred log, call by call

Every record gets the next tag, and acting on a record can be made to fail by its tag, so a drill
shows which records were visited and in which order.
-/
import Transact.Log.Journal
import Transact.Rehearsal.Report

namespace Transact.Rehearsal.LogDrill

set_option autoImplicit false

/-- What a record carries. -/
structure Load where
  tag : Nat
  name : String
  data : Bytes

inductive Step where
  | append (resource : ResourceId) (name : String) (data : Bytes) (preState : Option PreState)
  | apply (failing : List Nat)
  | undo (failing : List Nat)
  | discard
  | save
  | restore
  | iter
  | journal (domain : Domain)

structure State where
  log : DeferredLog Load := {}
  saved : DeferredLog Load := {}
  nextTag : Nat := 0

/-- Visit a record; one of the `failing` tags fails. -/
def visit (failing : List Nat) (r : Record Load) (visited : List Nat) :
    Except Error Unit × List Nat :=
  let visited := visited ++ [r.payload.tag]
  if failing.contains r.payload.tag then
    (.error (.of .internalError ("fail " ++ toString r.payload.tag)), visited)
  else (.ok (), visited)

def visitReport (result : Except Error Nat) (visited : List Nat) : Report :=
  let count := match result with
    | .ok n => .nat n
    | .error e => .ofError e
  .record [("result", count), ("visited", .list (visited.map .nat))]

def preStateReport : PreState → Report
  | .absent => .text "Absent"
  | .offset n => .record [("Offset", .nat n)]
  | .bytes content => .record [("Bytes", .bytes content)]

def recordReport (r : Record Load) : Report :=
  .record [("tag", .nat r.payload.tag), ("resource", .text r.resource.render),
    ("pre", .optional preStateReport r.preState), ("deferred", .flag r.isDeferred)]

/-- The names a journal of a drill can show. -/
def knownNames : List String := ["write", "read", "put", "delete", "create", "two words", ""]

def describe (load : Load) : String × Bytes :=
  (if knownNames.contains load.name then load.name else "other", load.data)

def perform (s : State) : Step → Report × State
  | .append resource name data preState =>
      let r := { resource, preState, payload := { tag := s.nextTag, name, data } }
      (.null, { s with log := s.log.append r, nextTag := s.nextTag + 1 })
  | .apply failing =>
      let (result, log, visited) := s.log.applyAll (visit failing) []
      (visitReport result visited, { s with log })
  | .undo failing =>
      let (result, log, visited) := s.log.undoAll (visit failing) []
      (visitReport result visited, { s with log })
  | .discard => let (n, log) := s.log.discard; (.nat n, { s with log })
  | .save => (.null, { s with saved := s.log })
  | .restore => (.null, { s with log := s.saved })
  | .iter => (.list (s.log.records.map recordReport), s)
  | .journal domain => (.texts (s.log.journal domain describe), s)

def performAll : List Step → State → List Report
  | [], _ => []
  | step :: rest, s =>
      let (report, s) := perform s step
      .record [("result", report), ("len", .nat s.log.size), ("empty", .flag s.log.isEmpty)]
        :: performAll rest s

end Transact.Rehearsal.LogDrill
