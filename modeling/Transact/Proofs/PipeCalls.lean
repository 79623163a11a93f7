/-
# Transact.Proofs.PipeCalls -- transactions on pipes, and calls past them

A `PipeStep` is a call of a program on pipes: through a transaction, or on a pipe itself.  A
`PipeSession` makes such calls one after another.  It keeps the calls with their answers, and for each
pipe the bytes that came in, as they show in the pipe before and after every call.

What a transaction was granted on a pipe are its `Deed`s.  From them and from the answers to the raw
calls the ledger of a pipe is drawn up: `enteredBy` and `takenBy` say what a call brought in and took
out, where `share` is the part of its deeds that each transaction performed.
-/
import Transact.Proofs.FileCalls
import Transact.Proofs.PipeFlow

namespace Transact

set_option autoImplicit false

/-! ## Calls -/

/-- A call on a transaction that works on pipes. -/
inductive PipeCall where
  | read (pipe max : Nat)
  | write (pipe : Nat) (bytes : Bytes)
  | commit
  | abort
  | drop

/-- A call past all transactions. -/
inductive RawCall where
  | openPipe
  | read (pipe max : Nat)
  | peekAt (pipe offset max : Nat)
  | consumeAt (pipe offset len : Nat)
  | writeAll (pipe : Nat) (bytes : Bytes)
  | closeWriter (pipe : Nat)

inductive PipeStep where
  | call (who : TxId) (call : PipeCall)
  | raw (call : RawCall)

/-- What a call came to. -/
inductive PipeAnswer where
  /-- A transaction's read; no bytes yet if it has to wait. -/
  | read (result : Except Error (Option Bytes))
  | wrote (result : Except Error Nat)
  | ended (result : Except Error Outcome)
  | looked (reading : Pipe.Reading)
  /-- The bytes that were consumed. -/
  | consumed (result : Except Error Bytes)
  | done

/-- Make a call on a transaction.  `chunk pipe n` is the size of pull number `n` from a pipe. -/
def PipeCall.perform (chunk : Nat → Nat → Nat) (t : Transaction Builtin) (w : World) :
    PipeCall → PipeAnswer × Transaction Builtin × World
  | .read pipe max =>
      let r := Transaction.withModule Builtin.pipesFacet
        (fun _ s w => Pipes.read (chunk pipe) pipe max s w) t w
      (.read r.1, r.2)
  | .write pipe bytes =>
      let r := Transaction.withModule Builtin.pipesFacet (fun _ s w => Pipes.write pipe bytes s w) t w
      (.wrote r.1, r.2)
  | .commit => let r := t.commit w; (.ended r.1, r.2)
  | .abort => let r := t.abort w; (.ended r.1, r.2)
  | .drop => (.done, t.drop w)

namespace RawCall

/-- Act on one pipe. -/
def onPipe (chunk : Nat → Nat) (p : Pipe) : RawCall → PipeAnswer × Pipe
  | .openPipe => (.done, p)
  | .read _ max => let r := p.read chunk max; (.looked r.1, r.2)
  | .peekAt _ offset max => let r := p.peekAt chunk offset max; (.looked r.1, r.2)
  | .consumeAt _ offset len =>
      match p.consumeAt offset len with
      | .ok p' => (.consumed (.ok (p.buffer.take len)), p')
      | .error e => (.consumed (.error e), p)
  | .writeAll _ bytes =>
      match p.writeAll bytes with
      | .ok p' => (.wrote (.ok bytes.length), p')
      | .error e => (.wrote (.error e), p)
  | .closeWriter _ => (.done, p.closeWriter)

/-- The pipe a call is about. -/
def pipe? : RawCall → Option Nat
  | .openPipe => none
  | .read pipe _ | .peekAt pipe _ _ | .consumeAt pipe _ _ | .writeAll pipe _ | .closeWriter pipe =>
      some pipe

/-- Make a raw call; one on a pipe that was never opened does nothing. -/
def perform (chunk : Nat → Nat → Nat) (t : PipeTable) (call : RawCall) : PipeAnswer × PipeTable :=
  match call.pipe? with
  | none => (.done, t.openPipe.2)
  | some pipe =>
      match t.get? pipe with
      | none => (.done, t)
      | some p => let r := call.onPipe (chunk pipe) p; (r.1, t.set r.2)

end RawCall

/-! ## Sessions -/

/-- A pipe as it stands; one that was not opened yet is empty. -/
def PipeTable.standing (t : PipeTable) (pipe : Nat) : Pipe := (t.get? pipe).getD { id := pipe }

/-- A call with its answer. -/
abbrev PipeEvent : Type := PipeStep × PipeAnswer

/-- Transactions and other programs at work on pipes. -/
structure PipeSession where
  world : World
  transactions : TxId → Transaction Builtin
  /-- The calls so far, oldest first. -/
  history : List PipeEvent := []
  /-- All bytes that came into each pipe. -/
  entered : Nat → Bytes := fun _ => []

namespace PipeSession

/-- A world without pipes, where no transaction did anything yet. -/
def start (config : TxId → Config) (w : World) : PipeSession :=
  { world := { w with pipes := {} }, transactions := newTransaction config }

/-- After a step that led to these transactions and this world. -/
def next (s : PipeSession) (step : PipeStep) (answer : PipeAnswer)
    (transactions : TxId → Transaction Builtin) (w : World) : PipeSession where
  world := w
  transactions := transactions
  history := s.history ++ [(step, answer)]
  entered pipe := s.entered pipe ++
    Pipe.arrived (s.world.pipes.standing pipe) (w.pipes.standing pipe)

def step (chunk : Nat → Nat → Nat) (s : PipeSession) (step : PipeStep) : PipeSession :=
  match step with
  | .call who call =>
      let (answer, t, w) := call.perform chunk (s.transactions who) s.world
      s.next step answer (fun other => if other = who then t else s.transactions other) w
  | .raw call =>
      let (answer, pipes) := call.perform chunk s.world.pipes
      s.next step answer s.transactions { s.world with pipes }

/-- Make the calls of a schedule in its order. -/
def run (chunk : Nat → Nat → Nat) (s : PipeSession) (schedule : List PipeStep) : PipeSession :=
  schedule.foldl (step chunk) s

end PipeSession

/-! ## The ledger of a pipe -/

/-- Something a transaction did to a pipe and that its commit has to perform. -/
inductive Deed where
  | wrote (bytes : Bytes)
  | took (bytes : Bytes)
  deriving DecidableEq

/-- The deed in an event, if it is one of this transaction on this pipe.  A read of no bytes leaves
nothing to perform. -/
def deed? (who : TxId) (pipe : Nat) : PipeEvent → Option Deed
  | (.call other (.write there bytes), .wrote (.ok _)) =>
      if other = who ∧ there = pipe then some (.wrote bytes) else none
  | (.call other (.read there _), .read (.ok (some bytes))) =>
      if other = who ∧ there = pipe ∧ bytes ≠ [] then some (.took bytes) else none
  | _ => none

/-- What a transaction did to a pipe, in the order of its program. -/
def deedsOf (who : TxId) (pipe : Nat) (history : List PipeEvent) : List Deed :=
  history.filterMap (deed? who pipe)

/-- The bytes written in deeds. -/
def writesOf (deeds : List Deed) : Bytes := deeds.flatMap fun
  | .wrote bytes => bytes
  | .took _ => []

/-- The bytes read in deeds. -/
def readsOf (deeds : List Deed) : Bytes := deeds.flatMap fun
  | .wrote _ => []
  | .took bytes => bytes

/-- What an event brought into a pipe: the bytes of a raw write, or those of the deeds a commit
performed. -/
def enteredBy (share : TxId → List Deed) (pipe : Nat) : PipeEvent → Bytes
  | (.raw (.writeAll there bytes), .wrote (.ok _)) => if there = pipe then bytes else []
  | (.call who .commit, .ended (.ok _)) => writesOf (share who)
  | _ => []

/-- What an event took out of a pipe: the bytes of a raw read or of a raw consumption, or those read
in the deeds a commit performed. -/
def takenBy (share : TxId → List Deed) (pipe : Nat) : PipeEvent → Bytes
  | (.raw (.read there _), .looked (.bytes content)) => if there = pipe then content else []
  | (.raw (.consumeAt there _ _), .consumed (.ok bytes)) => if there = pipe then bytes else []
  | (.call who .commit, .ended (.ok _)) => readsOf (share who)
  | _ => []

/-- `share` is what each transaction performed of its deeds on a pipe. -/
structure Shares (pipe : Nat) (s : PipeSession) (share : TxId → List Deed) : Prop where
  /-- No more than it did, and from the beginning. -/
  first : ∀ who, share who <+: deedsOf who pipe s.history
  /-- All of it, if its commit was answered so. -/
  committed : ∀ who, (.call who .commit, .ended (.ok .committed)) ∈ s.history →
    share who = deedsOf who pipe s.history
  /-- Nothing before it gets to apply. -/
  pending : ∀ who, .applying ∉ (s.transactions who).visited → share who = []

/-! ### Laws -/

section Laws

variable {who other : TxId} {pipe : Nat}

theorem deedsOf_append (who : TxId) (pipe : Nat) (history more : List PipeEvent) :
    deedsOf who pipe (history ++ more) = deedsOf who pipe history ++ deedsOf who pipe more :=
  List.filterMap_append ..

theorem writesOf_append (deeds more : List Deed) :
    writesOf (deeds ++ more) = writesOf deeds ++ writesOf more :=
  List.flatMap_append ..

theorem readsOf_append (deeds more : List Deed) :
    readsOf (deeds ++ more) = readsOf deeds ++ readsOf more :=
  List.flatMap_append ..

/-- The deeds of a transaction come from its own calls. -/
theorem deed?_other (ne : other ≠ who) (call : PipeCall) (answer : PipeAnswer) :
    deed? who pipe (.call other call, answer) = none := by
  unfold deed?
  split
  · next same =>
    cases same
    exact if_neg fun both => ne both.1
  · next same =>
    cases same
    exact if_neg fun both => ne both.1
  · rfl

theorem deed?_raw (call : RawCall) (answer : PipeAnswer) :
    deed? who pipe (.raw call, answer) = none := rfl

end Laws

end Transact
