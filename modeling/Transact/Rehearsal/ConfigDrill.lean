/-
# Transact.Rehearsal.ConfigDrill -- a configuration, change by change
-/
import Transact.Config
import Transact.Rehearsal.Report

namespace Transact.Rehearsal.ConfigDrill

set_option autoImplicit false

inductive Step where
  | change (setting : Config.Setting)
  | backoff (attempt : Nat)
  | render

/-- Where the configuration comes from. -/
inductive Source where
  /-- A builder to which these changes were made. -/
  | built (settings : List Config.Setting)
  /-- A manager with default settings. -/
  | manager
  /-- Nowhere: it is fresh and can be changed. -/
  | fresh

/-- Seconds and nanoseconds. -/
def durationReport (d : Duration) : Report :=
  .list [.nat d.parts.1, .nat d.parts.2]

def stateReport (c : Config) : Report :=
  .record [("lock_timeout", durationReport c.lockTimeout), ("max_retries", .nat c.maxRetries),
    ("retry_backoff", durationReport c.retryBackoff), ("validate_on_yield", .flag c.validateOnYield),
    ("frozen", .flag c.frozen)]

def perform (c : Config) : Step → Report × Config
  | .change setting =>
      match c.change setting with
      | .ok c => (.null, c)
      | .error r => (.ofError r.toError, c)
  | .backoff attempt => (durationReport (c.backoff attempt), c)
  | .render => (.text c.render, c)

def performAll : List Step → Config → List Report × Config
  | [], c => ([], c)
  | step :: rest, c =>
      let (report, c) := perform c step
      let (reports, last) := performAll rest c
      (.record [("result", report), ("state", stateReport c)] :: reports, last)

def Source.config : Source → Except Error Config
  | .built settings => (({ : Config }).build settings).mapError (·.toError)
  | .manager => .ok (({ : Config }).freeze)
  | .fresh => .ok {}

def play (source : Source) (steps : List Step) : Report :=
  match source.config with
  | .error e => .ofError e
  | .ok c =>
      let (reports, last) := performAll steps c
      .record [("steps", .list reports), ("state", stateReport last)]

end Transact.Rehearsal.ConfigDrill
