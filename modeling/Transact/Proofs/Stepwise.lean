/-
# Transact.Proofs.Stepwise -- the end of a transaction, one operation after another

What the participants do towards the end of a transaction, written as procedures: each asks for the same
operations in the same order as the function it takes apart, and decides what comes next by what it is
answered.  Run with nobody in between it does the same and comes to the same (`lock_run`, `validate_run`,
`apply_run`, `undo_run`).
-/
import Transact.Proofs.Procedure

namespace Transact.Stepwise

set_option autoImplicit false

open Procedure (ask run_pure run_ask run_bind)

variable {V : Type}

/-! ## Locks -/

/-- Give back the locks `ids`, in that order. -/
def releaseEach : List ResourceId → Procedure V Unit
  | [] => pure ()
  | id :: rest => do
      ask (.release id)
      releaseEach rest

/-- Take the locks `ids` one after another; the first that cannot be had ends it, and everything is
given back. -/
def acquireEach : List ResourceId → HeldLocks → Procedure V (Except Error Unit × HeldLocks)
  | [], h => pure (.ok (), h)
  | id :: rest, h =>
      if h.holds id then acquireEach rest h
      else do
        let granted ← ask (.acquire id)
        bif granted then acquireEach rest ⟨id :: h.ids⟩
        else do
          releaseEach h.ids
          pure (.error (.busy id), {})

section

variable (tx : TxId) (w : World) (v : V)

theorem releaseEach_run (ids : List ResourceId) :
    (releaseEach ids).run tx (w, v) =
      ((), { w with locks := HeldLocks.releaseEach tx ids w.locks }, v) := by
  induction ids generalizing w with
  | nil => rfl
  | cons id rest ih =>
      simp only [releaseEach, run_bind, run_ask, Primitive.perform, ih]
      rfl

theorem acquireEach_run (ids : List ResourceId) (h : HeldLocks) :
    (acquireEach ids h).run tx (w, v) =
      let r := HeldLocks.acquireEach tx ids h w.locks
      ((r.1, r.2.1), { w with locks := r.2.2 }, v) := by
  induction ids generalizing w h with
  | nil => rfl
  | cons id rest ih =>
      unfold acquireEach HeldLocks.acquireEach
      cases h.holds id with
      | true => exact ih w h
      | false =>
          simp only [Bool.false_eq_true, if_false, run_bind, run_ask, Primitive.perform]
          rcases w.locks.acquire id tx with ⟨_ | _, locks⟩
          · simp only [cond_false, run_bind, releaseEach_run]
            rfl
          · exact ih { w with locks } ⟨id :: h.ids⟩

end

/-! ## Versions -/

/-- Compare versions until one differs. -/
def checkEach : List (ResourceId × Nat) → Procedure V Bool
  | [] => pure true
  | entry :: rest => do
      let version ← ask (.current entry.1)
      bif version == entry.2 then checkEach rest else pure false

/-- Compare the fronts of pipes until one differs or is not tracked. -/
def frontsEach (tracked : List Nat) : List (Nat × ReadCursor) → Procedure V Bool
  | [] => pure true
  | entry :: rest =>
      bif tracked.contains entry.1 then do
        let front ← ask (.front entry.1)
        match front with
        | some front => bif front == entry.2.start then frontsEach tracked rest else pure false
        | none => pure false
      else pure false

/-- Count up one resource after another. -/
def bumpEach : List ResourceId → Procedure V Unit
  | [] => pure ()
  | id :: rest => do
      ask (.bump id)
      bumpEach rest

section

variable (tx : TxId) (w : World) (v : V)

theorem checkEach_run (entries : List (ResourceId × Nat)) :
    (checkEach entries).run tx (w, v) =
      (entries.all fun entry => w.versions.current entry.1 == entry.2, w, v) := by
  induction entries with
  | nil => rfl
  | cons entry rest ih =>
      simp only [checkEach, run_bind, run_ask, Primitive.perform, List.all_cons]
      cases w.versions.current entry.1 == entry.2 with
      | true => exact ih
      | false => rfl

theorem frontsEach_run (tracked : List Nat) (entries : List (Nat × ReadCursor)) :
    (frontsEach tracked entries).run tx (w, v) =
      (entries.all fun (pipe, cursor) => tracked.contains pipe &&
        match w.pipes.get? pipe with
        | some p => p.front == cursor.start
        | none => false, w, v) := by
  induction entries with
  | nil => rfl
  | cons entry rest ih =>
      obtain ⟨pipe, cursor⟩ := entry
      simp only [frontsEach, List.all_cons]
      cases tracked.contains pipe with
      | false => rfl
      | true =>
          simp only [cond_true, run_bind, run_ask, Primitive.perform, Bool.true_and]
          cases w.pipes.get? pipe with
          | none => rfl
          | some p =>
              simp only [Option.map_some]
              cases p.front == cursor.start with
              | true => exact ih
              | false => rfl

theorem bumpEach_run (ids : List ResourceId) :
    (bumpEach ids).run tx (w, v) =
      ((), { w with versions := ids.foldl VersionTable.bump w.versions }, v) := by
  induction ids generalizing w with
  | nil => rfl
  | cons id rest ih =>
      simp only [bumpEach, run_bind, run_ask, Primitive.perform, ih]
      rfl

end

/-! ## Records -/

section Records

variable {P : Type}

/-- Perform records until one fails. -/
def performEach (perform : Record P → Primitive V (Except Error Unit)) :
    List (Record P) → Procedure V (Except Error Unit)
  | [] => pure (.ok ())
  | r :: rest => do
      let answer ← ask (perform r)
      match answer with
      | .ok () => performEach perform rest
      | .error e => pure (.error e)

/-- Revert records, the last one first, and remember the first failure. -/
def undoEach (revert : Record P → Procedure V (Except Error Unit)) :
    List (Record P) → Procedure V (Except Error Unit)
  | [] => pure (.ok ())
  | r :: rest => do
      let later ← undoEach revert rest
      let here ← revert r
      pure (match later with
        | .ok () => here
        | .error e => .error e)

variable (tx : TxId) (w : World) (v : V)

theorem performEach_run (perform : Record P → Primitive V (Except Error Unit))
    (act : Record P → World → Except Error Unit × World)
    (each : ∀ r w, (perform r).perform tx (w, v) = ((act r w).1, (act r w).2, v))
    (rs : List (Record P)) :
    (performEach perform rs).run tx (w, v) =
      let r := DeferredLog.applyEach act rs w
      (r.1, r.2, v) := by
  induction rs generalizing w with
  | nil => rfl
  | cons r rest ih =>
      simp only [performEach, run_bind, run_ask, each, DeferredLog.applyEach]
      rcases act r w with ⟨_ | _, w'⟩
      · rfl
      · exact ih w'

theorem undoEach_run (revert : Record P → Procedure V (Except Error Unit))
    (act : Record P → World → Except Error Unit × World)
    (each : ∀ r w, (revert r).run tx (w, v) = ((act r w).1, (act r w).2, v))
    (rs : List (Record P)) :
    (undoEach revert rs).run tx (w, v) =
      let r := DeferredLog.undoEach act rs w
      (r.1, r.2, v) := by
  induction rs with
  | nil => rfl
  | cons r rest ih =>
      simp only [undoEach, run_bind, ih, each, run_pure, DeferredLog.undoEach]
      rcases DeferredLog.undoEach act rest w with ⟨_ | _, w'⟩ <;> rfl

end Records

/-! ## Files -/

/-- Put adopted descriptors at their handles' offsets until one fails. -/
def settleEach : List OpenFile → Procedure V (Except Error Unit)
  | [] => pure (.ok ())
  | f :: rest =>
      if f.adopted then do
        let answer ← ask (.seek f.descriptor f.offset)
        match answer with
        | .ok () => settleEach rest
        | .error e => pure (.error (Files.effectFailed f.id (IoFault.os e).toError))
      else settleEach rest

/-- Perform the log and put the descriptors at their offsets. -/
def performFiles (s : Files) : Procedure V (Except Error Unit) := do
  let applied ← performEach (.performFile s.handles) s.log.records
  match applied with
  | .ok () => settleEach s.handles.values
  | .error e => pure (.error e)

/-- Remove a created file while it stands at the version it was created at. -/
def removeIfCurrent (access : AccessSet) (id : ResourceId) (path : String) :
    Procedure V (Except Error Unit) := do
  let version ← ask (.current id)
  bif access.snapshot id == some version then do
    let answer ← ask (.uncreate id path)
    match answer with
    | .ok () => do
        ask (.bump id)
        pure (.ok ())
    | .error (.os .noEntry) => pure (.ok ())
    | .error e => pure (.error (Files.effectFailed id e.toError))
  else pure (.ok ())

/-- Revert a creation under the lock of its resource, which is borrowed where it is not held. -/
def revertCreation (access : AccessSet) (held : HeldLocks) (id : ResourceId) (path : String) :
    Procedure V (Except Error Unit) :=
  if held.holds id then removeIfCurrent access id path
  else do
    let granted ← ask (.borrow id)
    bif granted then do
      let result ← removeIfCurrent access id path
      ask (.release id)
      pure result
    else pure (.error (Files.creationBusy id))

/-- Revert one record. -/
def undoRecord (s : Files) (r : Record FileEffect) : Procedure V (Except Error Unit) :=
  match r.payload, r.preState with
  | .create, some .absent =>
      match r.resource with
      | .path path => revertCreation s.access s.held r.resource path
      | _ => pure (.ok ())
  | .adopt h, some (.offset before) =>
      match s.handles.get? h.number with
      | none => pure (.ok ())
      | some f => do
          let answer ← ask (.seek f.descriptor before)
          match answer with
          | .ok () => pure (.ok ())
          | .error e => pure (.error (Files.effectFailed r.resource (IoFault.os e).toError))
  | _, _ => pure (.ok ())

section

variable (tx : TxId) (w : World) (v : V)

theorem settleEach_run (files : List OpenFile) :
    (settleEach files).run tx (w, v) =
      let r := Files.settle files w
      (r.1, r.2, v) := by
  induction files generalizing w with
  | nil => rfl
  | cons f rest ih =>
      unfold settleEach Files.settle
      cases f.adopted with
      | false => exact ih w
      | true =>
          simp only [if_true, run_bind, run_ask, Primitive.perform]
          cases w.files.seek f.descriptor f.offset with
          | error e => rfl
          | ok files => exact ih { w with files }

theorem performFiles_run (s : Files) :
    (performFiles s).run tx (w, v) =
      let r := DeferredLog.applyEach (Files.applyRecord s.handles) s.log.records w
      match r with
      | (.ok (), w) => ((Files.settle s.handles.values w).1, (Files.settle s.handles.values w).2, v)
      | (.error e, w) => (.error e, w, v) := by
  simp only [performFiles, run_bind,
    performEach_run tx w v (.performFile s.handles) (Files.applyRecord s.handles) fun _ _ => rfl]
  rcases DeferredLog.applyEach (Files.applyRecord s.handles) s.log.records w with ⟨_ | _, w'⟩
  · rfl
  · exact settleEach_run tx w' v s.handles.values

theorem removeIfCurrent_run (access : AccessSet) (id : ResourceId) (path : String) :
    (removeIfCurrent access id path).run tx (w, v) =
      let r := Files.removeIfCurrent access id path w
      (r.1, r.2, v) := by
  have noted : (access.snapshot id == some (w.versions.current id)) =
      access.isCurrent w.versions id := rfl
  simp only [removeIfCurrent, Files.removeIfCurrent, run_bind, run_ask, Primitive.perform, noted]
  cases access.isCurrent w.versions id with
  | false => rfl
  | true =>
      simp only [cond_true, if_true, run_bind, run_ask, Primitive.perform]
      rcases w.files.unlink path with fault | files
      · cases fault with
        | os errno => cases errno <;> rfl
        | _ => rfl
      · rfl

theorem revertCreation_run (access : AccessSet) (held : HeldLocks) (id : ResourceId)
    (path : String) :
    (revertCreation access held id path).run tx (w, v) =
      let r := Files.revertCreation tx access held id path w
      (r.1, r.2, v) := by
  unfold revertCreation Files.revertCreation
  cases held.holds id with
  | true => exact removeIfCurrent_run tx w v access id path
  | false =>
      simp only [Bool.false_eq_true, if_false, run_bind, run_ask, Primitive.perform]
      rcases w.locks.acquire id tx with ⟨_ | _, locks⟩
      · rfl
      · simp only [cond_true, run_bind, removeIfCurrent_run, run_ask, Primitive.perform, run_pure]

theorem undoRecord_run (s : Files) (r : Record FileEffect) :
    (undoRecord s r).run tx (w, v) =
      let q := Files.undoRecord tx s r w
      (q.1, q.2, v) := by
  obtain ⟨resource, preState, payload⟩ := r
  cases payload with
  | create =>
      rcases preState with _ | ⟨_ | offset | content⟩
      · rfl
      · cases resource with
        | path path => exact revertCreation_run tx w v s.access s.held (.path path) path
        | _ => rfl
      · rfl
      · rfl
  | adopt h =>
      rcases preState with _ | ⟨_ | offset | content⟩
      · rfl
      · rfl
      · simp only [undoRecord, Files.undoRecord]
        cases s.handles.get? h.number with
        | none => rfl
        | some f =>
            simp only [run_bind, run_ask, Primitive.perform]
            cases w.files.seek f.descriptor offset <;> rfl
      · rfl
  | write h offset bytes => rfl
  | remove => rfl

end

/-! ## Threads -/

/-- Discard a requested thread. -/
def discardRecord (r : Record SpawnRequest) : Procedure V (Except Error Unit) := do
  ask (.discardThread r)
  pure (.ok ())

/-- Discard requested threads, in order. -/
def discardEach : List (Record SpawnRequest) → Procedure V Unit
  | [] => pure ()
  | r :: rest => do
      ask (.discardThread r)
      discardEach rest

theorem discardEach_run (tx : TxId) (w : World) (v : V) (rs : List (Record SpawnRequest)) :
    (discardEach rs).run tx (w, v) =
      ((), rs.foldl (fun w r => Threads.discardRecord r w) w, v) := by
  induction rs generalizing w with
  | nil => rfl
  | cons r rest ih =>
      simp only [discardEach, run_bind, run_ask, Primitive.perform, ih]
      rfl

/-! ## Parties -/

section Parties

variable {G : Type} [Participant G V] (ctx : Context)

/-- Call a guest that answers and changes. -/
def askGuest {α : Type} (call : V → α × G × V) : Procedure V (α × Party G) := do
  let r ← ask (.guest fun v => let r := call v; ((r.1, r.2.1), r.2.2))
  pure (r.1, .guest r.2)

/-- Call a guest that changes. -/
def tellGuest (call : V → G × V) : Procedure V (Party G) := do
  let g ← ask (.guest call)
  pure (.guest g)

def lock : Party G → Procedure V (Except Error Unit × Party G)
  | .builtin (.files s) => do
      let r ← acquireEach (ResourceId.canonical s.access.observedIds) s.held
      pure (r.1, .builtin (.files { s with held := r.2 }))
  | .builtin (.pipes s) => do
      let r ← acquireEach (ResourceId.canonical s.access.observedIds) s.held
      pure (r.1, .builtin (.pipes { s with held := r.2 }))
  | .builtin b => pure (.ok (), .builtin b)
  | .guest g => askGuest (Participant.lock ctx g)

def unlock : Party G → Procedure V (Party G)
  | .builtin (.files s) => do
      releaseEach s.held.ids
      pure (.builtin (.files { s with held := {} }))
  | .builtin (.pipes s) => do
      releaseEach s.held.ids
      pure (.builtin (.pipes { s with held := {} }))
  | .builtin b => pure (.builtin b)
  | .guest g => tellGuest (Participant.unlock ctx g)

def validate (mode : Validation) : Party G → Procedure V Bool
  | .builtin (.files s) => checkEach s.access.observed.values
  | .builtin (.pipes s) => do
      let current ← checkEach s.access.observed.values
      bif current then frontsEach s.tracked s.cursors.entries else pure false
  | .builtin _ => pure true
  | .guest g => ask (.guest (Participant.validate ctx mode g))

def apply : Party G → Procedure V (Except Error Unit × Party G)
  | .builtin (.files s) => do
      let result ← performFiles s
      bumpEach s.access.writtenIds
      pure (result, .builtin (.files { s with log := {} }))
  | .builtin (.pipes s) => do
      let applied ← performEach (.performPipe s) s.log.records
      bumpEach s.access.writtenIds
      pure (applied, .builtin (.pipes { s with log := {}, cursors := {} }))
  | .builtin (.threads s) => do
      let applied ← performEach .startThread s.log.records
      pure (applied, .builtin (.threads { s with log := {} }))
  | .builtin (.yields s) => pure (.ok (), .builtin (.yields s))
  | .guest g => askGuest (Participant.apply ctx g)

def undo : Party G → Procedure V (Except Error Unit × Party G)
  | .builtin (.files s) => do
      let result ← undoEach (undoRecord s) s.log.records
      pure (result, .builtin (.files { s with log := {}, removed := [] }))
  | .builtin (.pipes s) => pure (.ok (), .builtin (.pipes { s with log := {}, cursors := {} }))
  | .builtin (.threads s) => do
      let result ← undoEach discardRecord s.log.records
      pure (result, .builtin (.threads { s with log := {} }))
  | .builtin (.yields s) => pure (.ok (), .builtin (.yields s))
  | .guest g => askGuest (Participant.undo ctx g)

def finish : Party G → Procedure V (Party G)
  | .builtin (.files s) => pure (.builtin (.files s.finish))
  | .builtin b => pure (.builtin b)
  | .guest g => tellGuest (Participant.finish ctx g)

/-- Let go of a participant, who is not heard of again. -/
def release : Party G → Procedure V Unit
  | .builtin (.threads s) => discardEach s.log.records
  | .builtin _ => pure ()
  | .guest g => ask (.guest fun v => ((), (Participant.release g v).2))

variable (p : Party G) (w : World × V)

theorem lock_run :
    (lock ctx p).run ctx.tx w =
      let r := Participant.lock ctx p w
      ((r.1, r.2.1), r.2.2) := by
  obtain ⟨w, v⟩ := w
  cases p with
  | guest g => rfl
  | builtin b =>
      cases b with
      | files s =>
          simp only [lock, run_bind, acquireEach_run, run_pure]
          rfl
      | pipes s =>
          simp only [lock, run_bind, acquireEach_run, run_pure]
          rfl
      | threads s => rfl
      | yields s => rfl

theorem unlock_run : (unlock ctx p).run ctx.tx w = Participant.unlock ctx p w := by
  obtain ⟨w, v⟩ := w
  cases p with
  | guest g => rfl
  | builtin b =>
      cases b with
      | files s =>
          simp only [unlock, run_bind, releaseEach_run, run_pure]
          rfl
      | pipes s =>
          simp only [unlock, run_bind, releaseEach_run, run_pure]
          rfl
      | threads s => rfl
      | yields s => rfl

theorem validate_run (mode : Validation) :
    (validate ctx mode p).run ctx.tx w = Participant.validate ctx mode p w := by
  obtain ⟨w, v⟩ := w
  cases p with
  | guest g => rfl
  | builtin b =>
      cases b with
      | files s =>
          simp only [validate, checkEach_run]
          rfl
      | pipes s =>
          simp only [validate, run_bind, checkEach_run]
          have valid : Participant.validate ctx mode (Party.builtin (.pipes s) : Party G) (w, v) =
              (s.access.validate w.versions && s.frontsUnmoved w, (w, v)) := rfl
          rw [valid, show (s.access.observed.values.all fun entry =>
            w.versions.current entry.1 == entry.2) = s.access.validate w.versions from rfl]
          cases s.access.validate w.versions with
          | false => rfl
          | true =>
              simp only [cond_true, frontsEach_run]
              rfl
      | threads s => rfl
      | yields s => rfl

theorem apply_run :
    (apply ctx p).run ctx.tx w =
      let r := Participant.apply ctx p w
      ((r.1, r.2.1), r.2.2) := by
  obtain ⟨w, v⟩ := w
  cases p with
  | guest g => rfl
  | builtin b =>
      cases b with
      | files s =>
          have applied : Participant.apply ctx (Party.builtin (.files s) : Party G) (w, v) =
              ((s.apply w).1, .builtin (.files (s.apply w).2.1), (s.apply w).2.2, v) := rfl
          rw [applied]
          simp only [apply, run_bind, performFiles_run, Files.apply, DeferredLog.applyAll]
          rcases DeferredLog.applyEach (Files.applyRecord s.handles) s.log.records w with
            ⟨_ | _, w'⟩
          · simp only [bumpEach_run, run_pure]
            rfl
          · simp only [bumpEach_run, run_pure]
            rfl
      | pipes s =>
          have applied : Participant.apply ctx (Party.builtin (.pipes s) : Party G) (w, v) =
              ((s.apply w).1, .builtin (.pipes (s.apply w).2.1), (s.apply w).2.2, v) := rfl
          rw [applied]
          simp only [apply, run_bind, performEach_run ctx.tx w v (.performPipe s) s.applyRecord
            fun _ _ => rfl, Pipes.apply, DeferredLog.applyAll, bumpEach_run, run_pure]
          rcases DeferredLog.applyEach s.applyRecord s.log.records w with ⟨_ | _, w'⟩ <;> rfl
      | threads s =>
          have applied : Participant.apply ctx (Party.builtin (.threads s) : Party G) (w, v) =
              ((s.apply w).1, .builtin (.threads (s.apply w).2.1), (s.apply w).2.2, v) := rfl
          rw [applied]
          simp only [apply, run_bind, performEach_run ctx.tx w v .startThread Threads.applyRecord
            fun _ _ => rfl, Threads.apply, DeferredLog.applyAll, run_pure]
          rcases DeferredLog.applyEach Threads.applyRecord s.log.records w with ⟨_ | _, w'⟩ <;> rfl
      | yields s => rfl

theorem undo_run :
    (undo ctx p).run ctx.tx w =
      let r := Participant.undo ctx p w
      ((r.1, r.2.1), r.2.2) := by
  obtain ⟨w, v⟩ := w
  cases p with
  | guest g => rfl
  | builtin b =>
      cases b with
      | files s =>
          have undone : Participant.undo ctx (Party.builtin (.files s) : Party G) (w, v) =
              ((s.undo ctx w).1, .builtin (.files (s.undo ctx w).2.1), (s.undo ctx w).2.2,
                v) := rfl
          rw [undone]
          simp only [undo, run_bind, undoEach_run ctx.tx w v (undoRecord s) (Files.undoRecord ctx.tx s)
            fun r w' => undoRecord_run ctx.tx w' v s r, Files.undo, DeferredLog.undoAll, run_pure]
          rcases DeferredLog.undoEach (Files.undoRecord ctx.tx s) s.log.records w with
            ⟨_ | _, w'⟩ <;> rfl
      | pipes s =>
          have undone : Participant.undo ctx (Party.builtin (.pipes s) : Party G) (w, v) =
              ((s.undo w).1, .builtin (.pipes (s.undo w).2.1), (s.undo w).2.2, v) := rfl
          have idle (rs : List (Record PipeEffect)) :
              DeferredLog.undoEach (fun _ w => (.ok (), w)) rs w = (.ok (), w) :=
            DeferredLog.undoEach_idle fun _ _ => rfl
          rw [undone]
          simp only [undo, Pipes.undo, DeferredLog.undoAll, idle, run_pure]
          rfl
      | threads s =>
          have undone : Participant.undo ctx (Party.builtin (.threads s) : Party G) (w, v) =
              ((s.undo w).1, .builtin (.threads (s.undo w).2.1), (s.undo w).2.2, v) := rfl
          rw [undone]
          simp only [undo, run_bind, undoEach_run ctx.tx w v discardRecord
            (fun r w => (.ok (), Threads.discardRecord r w)) fun _ _ => rfl, Threads.undo,
            DeferredLog.undoAll, run_pure]
          rcases DeferredLog.undoEach (fun r w => (.ok (), Threads.discardRecord r w))
            s.log.records w with ⟨_ | _, w'⟩ <;> rfl
      | yields s => rfl

theorem finish_run : (finish ctx p).run ctx.tx w = Participant.finish ctx p w := by
  cases p with
  | guest g => rfl
  | builtin b => cases b <;> rfl

theorem release_run : (release p).run ctx.tx w = ((), (Participant.release p w).2) := by
  cases p with
  | guest g => rfl
  | builtin b =>
      cases b with
      | threads s => exact discardEach_run ctx.tx w.1 w.2 s.log.records
      | files s => rfl
      | pipes s => rfl
      | yields s => rfl

end Parties

end Transact.Stepwise
