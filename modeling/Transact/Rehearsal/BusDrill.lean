/-
# Transact.Rehearsal.BusDrill -- an event bus of numbers, call by call
-/
import Transact.Rehearsal.Report
import Transact.Switchboard
import Transact.Table

namespace Transact.Rehearsal.BusDrill

set_option autoImplicit false

inductive Step where
  | register (name : String) (fault : Option Error)
  | deregister (name : String)
  | publish (n : Nat)
  | close

structure State where
  bus : Switchboard Nat := {}
  /-- The newest listener of each name. -/
  names : Table String Nat := {}

def perform (s : State) : Step → Report × State
  | .register name fault =>
      match EventBus.register { name, fault } s.bus with
      | (.ok number, bus) => (.null, { bus, names := s.names.set name number })
      | (.error e, bus) => (.ofError e, { s with bus })
  | .deregister name =>
      match s.names.get? name with
      | none => (.complaint "no such listener", s)
      | some number =>
          let (result, bus) := EventBus.deregister number s.bus
          (.ofUnit result, { bus, names := s.names.erase name })
  | .publish n =>
      let (result, bus) := EventBus.publish n s.bus
      (.ofUnit result, { s with bus })
  | .close =>
      let (result, bus) := EventBus.close s.bus
      (.ofUnit result, { s with bus })

/-- What each listener was told so far. -/
def seen (bus : Switchboard Nat) : Report :=
  .record ((bus.told.map (·.1)).eraseDups.map fun name =>
    (name, .list ((bus.toldTo name).map .nat)))

def performAll : List Step → State → List Report
  | [], _ => []
  | step :: rest, s =>
      let (report, s) := perform s step
      .record [("result", report), ("listening", .flag (EventBus.hasListeners s.bus)), ("seen", seen s.bus)]
        :: performAll rest s

end Transact.Rehearsal.BusDrill
