/-
# Transact.World -- everything transactions share

Versions and locks of the resources, the file system, the pipes and the threads.  A participant of a
transaction gets the world and gives back the world it leaves behind, so an interleaving of
transactions is a sequence of worlds.
-/
import Transact.Filesystem.Calls
import Transact.Pipe
import Transact.Resource.Lock
import Transact.Resource.Version
import Transact.Thread

namespace Transact

set_option autoImplicit false

structure World where
  versions : VersionTable := {}
  locks : LockTable := {}
  files : Filesystem := {}
  pipes : PipeTable := {}
  threads : ThreadTable := {}
  deriving DecidableEq

namespace World

/-- Count `id` up by one. -/
def bump (w : World) (id : ResourceId) : World := { w with versions := w.versions.bump id }

/-! ## Threads at work -/

/-- Run the body of a started thread as far as it gets.  A body that has to wait for its pipe has
not ended yet. -/
def runThread (w : World) (id : Nat) : World :=
  match w.threads.threads.get? id with
  | some { name, task, state := .running none } =>
      let finish (w : World) (ended : Option ThreadReport) : World :=
        { w with threads := w.threads.setState id (.running (some ended)) }
      if task.panics then finish w none
      else
        match task.reads with
        | none => finish w (some { name, read := none })
        | some (pipe, max) =>
            match w.pipes.get? pipe with
            | none => finish w (some { name, read := none })
            | some p =>
                let (reading, p) := p.read Pipe.fullChunks max
                let w := { w with pipes := w.pipes.set p }
                match reading with
                | .bytes content => finish w (some { name, read := some content })
                | .waits => w
                | .failed _ => finish w (some { name, read := none })
  | _ => w

/-- Start a requested thread and let it run. -/
def startThread (w : World) (id : Nat) : Except Error Unit × World :=
  match w.threads.start id with
  | (.ok (), threads) => (.ok (), { w with threads }.runThread id)
  | (.error e, threads) => (.error e, { w with threads })

/-- Wait for a thread.  `none` if its body still waits for its pipe.  Only a running thread can be
joined, and only once; a refused join changes nothing.

A join is one step here, taken when the thread is back.  Carried out beside other threads it is two: the
handle is marked as joined before the wait, and a refusal writes back what was found there.  Meanwhile
others find it joined, and a commit that lets the thread run in between is overwritten.  None of this is
modelled. -/
def joinThread (w : World) (id : Nat) : Option (Except Error ThreadReport) × World :=
  let w := w.runThread id
  match w.threads.threads.get? id with
  | none => (some (.error (Thread.joinError .pending)), w)
  | some thread =>
      match thread.state with
      | .running none => (none, w)
      | .running (some ended) =>
          let w := { w with threads := w.threads.setState id .joined }
          match ended with
          | some report => (some (.ok report), w)
          | none => (some (.error Thread.panickedError), w)
      | state => (some (.error (Thread.joinError state)), w)

end World

end Transact
