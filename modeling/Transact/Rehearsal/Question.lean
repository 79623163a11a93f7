/-
# Transact.Rehearsal.Question -- everything a rehearsal can be asked

A question is about one value of the library, or a drill of calls on one of its parts, or a whole
scene.  `answer` is its report.
-/
import Transact.Rehearsal.BusDrill
import Transact.Rehearsal.ConfigDrill
import Transact.Rehearsal.LockDrill
import Transact.Rehearsal.LogDrill
import Transact.Rehearsal.Play
import Transact.Rehearsal.VersionDrill

namespace Transact.Rehearsal

set_option autoImplicit false

open Text

inductive Question where
  | encode (data : Bytes)
  | decode (text : String)
  | renderJournal (domain : Domain) (op : String) (resource : ResourceId) (payload : Bytes)
  | parseJournal (line : String)
  | resources (ids : List ResourceId)
  | domains (domains : List Domain)
  | phase (here : Phase) (there : List Phase)
  | outcome (outcome : Outcome)
  | errorKind (kind : ErrorKind)
  /-- An error, with the text of its whole chain if `chain`. -/
  | error (e : Error) (chain : Bool)
  | config (source : ConfigDrill.Source) (steps : List ConfigDrill.Step)
  | log (steps : List LogDrill.Step)
  | versions (steps : List VersionDrill.Step)
  | locks (steps : List LockDrill.Step)
  | bus (steps : List BusDrill.Step)
  | scene (home : Location) (settings : List Config.Setting) (steps : List Step)

namespace Question

/-! ## Values -/

def lineReport (line : JournalLine) : Report :=
  .record [("module", .text line.module), ("name", .text line.op),
    ("resource", .text line.resource), ("payload", .bytes line.payload)]

/-- A rendered line, what reading it gives, and whether that is the line again. -/
def journalReport (line : JournalLine) : Report :=
  let reparsed := JournalLine.parse line.render
  let (report, same) := match reparsed with
    | .ok back => (lineReport back, decide (back = line))
    | .error e => (.ofError e, false)
  .record [("line", .text line.render), ("reparsed", report), ("same", .flag same)]

def idReport : ResourceId → Report
  | .path text => .record [("Path", .text text)]
  | .pipeRead pipe => .record [("PipeRead", .nat pipe)]
  | .pipeWrite pipe => .record [("PipeWrite", .nat pipe)]
  | .named name => .record [("Named", .text name)]

def resourcesReport (ids : List ResourceId) : Report :=
  let distinct := .nat (ResourceId.canonical ids).length
  .record [("display", .texts (ids.map ResourceId.render)),
    ("is_pipe", .list (ids.map fun id => .flag id.isPipe)),
    ("sorted", .list ((ResourceId.sorted ids).map idReport)),
    ("distinct", distinct), ("distinct_hashed", distinct)]

def domainReport : Domain → Report
  | .custom number => .record [("Custom", .nat number)]
  | domain => .text domain.term

def reasonReport : AbortReason → Report
  | .moduleError code => .record [("ModuleError", .number code)]
  | reason => .text reason.term

def outcomeTermReport : Outcome → Report
  | .committed => .text Outcome.committed.term
  | .aborted reason => .record [("Aborted", reasonReport reason)]

def outcomeReport (outcome : Outcome) : Report :=
  let reason (r : AbortReason) : Report :=
    .record [("display", .text r.render), ("retryable", .flag r.isRetryable),
      ("kind", .text (Report.kindName r.errorKind))]
  .record [("display", .text outcome.render), ("committed", .flag outcome.isCommitted),
    ("json", outcomeTermReport outcome), ("reason", .optional reason outcome.reason?),
    ("result", .ofUnit outcome.toResult)]

def errorReport (e : Error) (chain : Bool) : Report :=
  .record
    ([("fields", .ofError e), ("display", .text e.message), ("retryable", .flag e.isRetryable),
      ("sources", .texts (e.causes.map (·.message)))]
      ++ if chain then [("debug_head", .text e.chainText)] else [])

/-- The reports of the steps of a drill. -/
def steps (reports : List Report) : Report := .record [("steps", .list reports)]

/-! ## Answers -/

def answer : Question → Report
  | .encode data => .record [("text", .text (Base64.encode data))]
  | .decode text =>
      match Base64.decode text with
      | .ok data => .record [("data", .bytes data)]
      | .error e => .ofError e
  | .renderJournal domain op resource payload =>
      journalReport (JournalLine.of domain op resource payload)
  | .parseJournal line =>
      match JournalLine.parse line with
      | .ok line => lineReport line
      | .error e => .ofError e
  | .resources ids => resourcesReport ids
  | .domains ds =>
      .record [("display", .texts (ds.map Domain.render)),
        ("sorted", .list ((Domain.sorted ds).map domainReport))]
  | .phase here there =>
      .record [("display", .text here.render), ("terminal", .flag here.isTerminal),
        ("can_advance", .list (there.map fun p => .flag (here.canAdvance p)))]
  | .outcome o => outcomeReport o
  | .errorKind kind =>
      .record [("display", .text kind.describe), ("code", .number kind.code),
        ("retryable", .flag kind.isRetryable)]
  | .error e chain => errorReport e chain
  | .config source changes => ConfigDrill.play source changes
  | .log calls => steps (LogDrill.performAll calls {})
  | .versions calls => steps (VersionDrill.performAll calls {})
  | .locks calls => steps (LockDrill.performAll calls {})
  | .bus calls => steps (BusDrill.performAll calls {})
  | .scene home settings calls => Scene.play home settings calls

end Question

end Transact.Rehearsal
