/-
# Transact.Proofs.FileEnding -- the end of a transaction that works on files

With no lock taken, a commit takes its locks and gets to the apply phase exactly when every version it
noted is in force (`commit_applied`, `commit_refused`).  The apply phase writes what the log says and
nothing else, and counts what it may have written up; every other end leaves files and versions as
they were.  No end leaves a lock behind.

What the apply phase does depends on the face of the files and on contents (`applyEach_alike`).
-/
import Transact.Proofs.Ending
import Transact.Proofs.FileView
import Transact.Proofs.Requests

namespace Transact

set_option autoImplicit false

/-! ## Locks -/

/-- Nobody holds a lock. -/
def LockTable.Free (t : LockTable) : Prop := ∀ k, t.holderOf k = none

namespace HeldLocks

/-- The locks held are the owner's, and nothing else is taken. -/
def Exactly (h : HeldLocks) (owner : TxId) (t : LockTable) : Prop :=
  ∀ k, t.holderOf k = if k ∈ h.ids.map ResourceId.key then some owner else none

/-- Where nothing else is taken every lock can be had. -/
theorem acquireEach_free (owner : TxId) (ids : List ResourceId) {h : HeldLocks} {t : LockTable}
    (exactly : h.Exactly owner t) :
    ∃ h' t', acquireEach owner ids h t = (.ok (), h', t') ∧ h'.Exactly owner t' := by
  have answered := acquireEach_answered owner ids h t
  generalize acquireEach owner ids h t = r at answered ⊢
  cases answered with
  | @granted h' t' open_ keys distinct holders =>
      refine ⟨h', t', rfl, ?_⟩
      intro k
      rw [holders, exactly]
      simp only [keys]
      by_cases own : k ∈ h.ids.map ResourceId.key
      · simp [own]
      · simp [own]
  | refused before id after split open_ new barred holders =>
      obtain ⟨other, holder, -⟩ := barred
      rw [LockTable.holder_eq, exactly, if_neg new] at holder
      cases holder

/-- Giving back everything that is taken leaves nothing taken. -/
theorem releaseEach_free (owner : TxId) (ids : List ResourceId) {t : LockTable}
    (within : ∀ k, t.holderOf k = none ∨
      t.holderOf k = some owner ∧ k ∈ ids.map ResourceId.key) :
    (releaseEach owner ids t).Free := by
  intro k
  rw [holderOf_releaseEach]
  rcases within k with free | ⟨own, member⟩
  · rw [free, ite_self]
  · exact if_pos ⟨member, own⟩

theorem Exactly.releaseAll {h : HeldLocks} {owner : TxId} {t : LockTable}
    (exactly : h.Exactly owner t) : (h.releaseAll owner t).Free := by
  refine releaseEach_free owner h.ids ?_
  intro k
  rw [exactly k]
  split
  · rename_i member
    exact Or.inr ⟨rfl, member⟩
  · exact Or.inl rfl

theorem acquireAll_free (owner : TxId) (ids : List ResourceId) {t : LockTable} (free : t.Free) :
    ∃ h' t', acquireAll {} ids owner t = (.ok (), h', t') ∧ h'.Exactly owner t' :=
  acquireEach_free owner _ fun k => by
    rw [free k, if_neg]
    exact List.not_mem_nil

end HeldLocks

namespace Files

/-! ## The apply phase -/

variable {opened : String → Prop} {fs fs' : Filesystem} {s s' : Files} {w w' : World}

/-- A record acts on files alone. -/
theorem applyRecord_files (handles : Table Nat OpenFile) (r : Record FileEffect) (w : World) :
    applyRecord handles r w =
      ((applyRecord handles r { files := w.files }).1,
        { w with files := (applyRecord handles r { files := w.files }).2.files }) := by
  unfold applyRecord
  cases r.payload with
  | create => rfl
  | adopt h => rfl
  | write h offset bytes =>
      simp only
      cases handles.get? h.number with
      | none => rfl
      | some f =>
          simp only
          rcases w.files.writeAt f.descriptor offset bytes with ⟨e | _, files⟩ <;> rfl
  | remove =>
      simp only [unlinkResource]
      cases r.resource with
      | path path =>
          simp only
          cases w.files.unlink path <;> rfl
      | _ => rfl

theorem applyEach_files (handles : Table Nat OpenFile) (rs : List (Record FileEffect))
    (w : World) :
    DeferredLog.applyEach (applyRecord handles) rs w =
      ((DeferredLog.applyEach (applyRecord handles) rs { files := w.files }).1,
        { w with
          files := (DeferredLog.applyEach (applyRecord handles) rs { files := w.files }).2.files }) := by
  induction rs generalizing w with
  | nil => rfl
  | cons r rest ih =>
      simp only [DeferredLog.applyEach]
      rw [applyRecord_files handles r w]
      rcases applyRecord handles r { files := w.files } with ⟨_ | _, w'⟩
      · rfl
      · simp only
        rw [ih, ih w']

/-- What the apply phase makes of a file system. -/
def applied (s : Files) (fs : Filesystem) : Except Error Unit × Filesystem :=
  let r := DeferredLog.applyEach (applyRecord s.handles) s.log.records { files := fs }
  (r.1, r.2.files)

/-- Only adopted descriptors are settled. -/
theorem settle_own {files : List OpenFile} (own : ∀ f ∈ files, f.adopted = false) (w : World) :
    settle files w = (.ok (), w) := by
  induction files with
  | nil => rfl
  | cons f rest ih =>
      obtain ⟨first, others⟩ := List.forall_mem_cons.1 own
      simp only [settle, first, Bool.false_eq_true, if_false, ih others]

theorem settle_versions (files : List OpenFile) (w : World) :
    (settle files w).2.versions = w.versions := by
  induction files generalizing w with
  | nil => rfl
  | cons f rest ih =>
      unfold settle
      split
      · split
        · exact ih _
        · rfl
      · exact ih w

/-- Apply counts up what was written, and nothing else. -/
theorem apply_versions (s : Files) (w : World) :
    (s.apply w).2.2.versions = s.access.publish w.versions := by
  simp only [apply, DeferredLog.applyAll]
  rw [applyEach_files]
  rcases DeferredLog.applyEach (applyRecord s.handles) s.log.records { files := w.files } with
    ⟨_ | _, w'⟩
  · rfl
  · simp only [settle_versions]

theorem apply_eq (tidy : Tidy opened fs s) (held : HeldLocks) (w : World) :
    ({ s with held } : Files).apply w =
      ((s.applied w.files).1, { s with held, log := {} },
        { w with
          files := (s.applied w.files).2
          versions := s.access.publish w.versions }) := by
  have own : ∀ f ∈ s.handles.values, f.adopted = false := by
    intro f member
    obtain ⟨e, there, rfl⟩ := List.mem_map.1 member
    obtain ⟨_, on⟩ := tidy.handles e there
    exact on.own
  simp only [Files.apply, DeferredLog.applyAll, applied]
  rw [applyEach_files]
  rcases DeferredLog.applyEach (applyRecord s.handles) s.log.records { files := w.files } with
    ⟨_ | _, w'⟩
  · rfl
  · simp only [settle_own own]

/-- Of what was only written down nothing is to be reverted. -/
theorem undo_eq (tidy : Tidy opened fs s) (held : HeldLocks) (ctx : Context) (w : World) :
    ({ s with held } : Files).undo ctx w =
      (.ok (), { s with held, log := {}, removed := [] }, w) := by
  have idle : ∀ r ∈ s.log.records, undoRecord ctx.tx { s with held } r w = (.ok (), w) := by
    intro r member
    obtain ⟨h, offset, bytes, f, rfl, -, -⟩ := tidy.log r member
    rfl
  simp only [Files.undo, DeferredLog.undoAll, DeferredLog.undoEach_idle idle]
  rfl

/-- A write is performed through its handle. -/
theorem applyRecord_write {handles : Table Nat OpenFile} {h : FileHandle} {f : OpenFile}
    (found : handles.get? h.number = some f) (id : ResourceId) (offset : Nat) (bytes : Bytes)
    (fs : Filesystem) :
    applyRecord handles (.deferred id (.write h offset bytes)) { files := fs } =
      ((fs.writeAt f.descriptor offset bytes).1.mapError
          fun e => effectFailed id (IoFault.os e).toError,
        { files := (fs.writeAt f.descriptor offset bytes).2 }) := by
  simp only [applyRecord, Record.deferred, found]
  rcases fs.writeAt f.descriptor offset bytes with ⟨_ | _, files⟩ <;> rfl

/-- A handle that was written through is open on a file. -/
def Writes (s : Files) (fs : Filesystem) (inode : Inode) : Prop :=
  ∃ n f, s.handles.get? n = some f ∧ fs.inode? f.descriptor = some inode ∧
    f.id.key ∈ s.access.written.keys

theorem applyEach_changes (tidy : Tidy opened fs s) {rs : List (Record FileEffect)}
    (within : ∀ r ∈ rs, r ∈ s.log.records) :
    let after := (DeferredLog.applyEach (applyRecord s.handles) rs { files := fs }).2.files
    fs.Onward after ∧ ∀ inode, after.content inode = fs.content inode ∨ s.Writes fs inode := by
  induction rs generalizing fs with
  | nil => exact ⟨.refl fs, fun _ => Or.inl rfl⟩
  | cons r rest ih =>
      obtain ⟨first, others⟩ := List.forall_mem_cons.1 within
      obtain ⟨h, offset, bytes, f, rfl, found, written⟩ := tidy.log r first
      obtain ⟨target, on⟩ := tidy.openOn found
      obtain ⟨d, known, file, plain⟩ := on.behind
      obtain ⟨-, onward, content⟩ := Filesystem.writeAt_file known file plain offset bytes
      have here (inode : Inode) : (fs.writeAt f.descriptor offset bytes).2.content inode =
          fs.content inode ∨ s.Writes fs inode := by
        by_cases same : inode = target
        · exact Or.inr ⟨_, f, found, same ▸ on.inode?, written⟩
        · rw [content, if_neg same]
          exact Or.inl rfl
      simp only [DeferredLog.applyEach, applyRecord_write found]
      cases (fs.writeAt f.descriptor offset bytes).1 with
      | error e => exact ⟨onward, here⟩
      | ok _ =>
          obtain ⟨further, there⟩ := ih (tidy.onward onward) others
          refine ⟨onward.trans further, ?_⟩
          intro inode
          rcases there inode with kept | ⟨n, g, found', behind, written'⟩
          · rcases here inode with same | writes
            · exact Or.inl (kept.trans same)
            · exact Or.inr writes
          · obtain ⟨_, on'⟩ := tidy.openOn found'
            exact Or.inr ⟨n, g, found', (onward.inode? on'.handed).symm.trans behind, written'⟩

/-- The apply phase changes files that were written through a handle, and no other. -/
theorem applied_changes (tidy : Tidy opened fs s) :
    fs.Onward (s.applied fs).2 ∧
      ∀ inode, (s.applied fs).2.content inode = fs.content inode ∨ s.Writes fs inode :=
  applyEach_changes tidy fun _ member => member

/-- Behind a handle with one face there is one descriptor, but for its position. -/
theorem handle_alike (same : s.face fs = s'.face fs') {n : Nat} {f : OpenFile}
    (found : s.handles.get? n = some f) :
    ∃ f', s'.handles.get? n = some f' ∧ sealed fs f = sealed fs' f' := by
  have handles := congrArg (fun t : Table Nat _ => t.get? n) (face_eq.1 same).2.1
  simp only [Table.get?_map, found, Option.map_some] at handles
  obtain ⟨f', there, alike⟩ := Option.map_eq_some_iff.1 handles.symm
  exact ⟨f', there, alike.symm⟩

theorem applyEach_alike (tidy : Tidy opened fs s) (tidy' : Tidy opened fs' s')
    (same : s.face fs = s'.face fs')
    (contents : ∀ inode, fs'.content inode = fs.content inode) {rs : List (Record FileEffect)}
    (within : ∀ r ∈ rs, r ∈ s.log.records) :
    let r := DeferredLog.applyEach (applyRecord s.handles) rs { files := fs }
    let r' := DeferredLog.applyEach (applyRecord s'.handles) rs { files := fs' }
    r.1 = r'.1 ∧ ∀ inode, r'.2.files.content inode = r.2.files.content inode := by
  induction rs generalizing fs fs' with
  | nil => exact ⟨rfl, contents⟩
  | cons r rest ih =>
      obtain ⟨first, others⟩ := List.forall_mem_cons.1 within
      obtain ⟨h, offset, bytes, f, rfl, found, written⟩ := tidy.log r first
      obtain ⟨target, on⟩ := tidy.openOn found
      obtain ⟨f', found', alike⟩ := handle_alike same found
      obtain ⟨d, d', known, known', still, file, plain⟩ := on.alike alike
      have file' : d'.inode = some target := (congrArg Descriptor.inode still).symm.trans file
      have plain' : d'.appends = false := (congrArg Descriptor.appends still).symm.trans plain
      have writing : d'.writing offset bytes = d.writing offset bytes :=
        congrArg (fun e => e.writing offset bytes) still.symm
      obtain ⟨answer, onward, content⟩ := Filesystem.writeAt_file known file plain offset bytes
      obtain ⟨answer', onward', content'⟩ :=
        Filesystem.writeAt_file known' file' plain' offset bytes
      have after (inode : Inode) : (fs'.writeAt f'.descriptor offset bytes).2.content inode =
          (fs.writeAt f.descriptor offset bytes).2.content inode := by
        rw [content, content', writing, contents, contents]
      rw [writing] at answer'
      simp only [DeferredLog.applyEach, applyRecord_write found, applyRecord_write found',
        answer, answer']
      cases (d.writing offset bytes).1 with
      | error e => exact ⟨rfl, after⟩
      | ok _ =>
          refine ih (tidy.onward onward) (tidy'.onward onward') ?_ after others
          rw [tidy.face_onward onward, tidy'.face_onward onward', same]

/-- **What the apply phase does depends on the face and on contents.** -/
theorem applied_alike (tidy : Tidy opened fs s) (tidy' : Tidy opened fs' s')
    (same : s.face fs = s'.face fs')
    (contents : ∀ inode, fs'.content inode = fs.content inode) :
    (s.applied fs).1 = (s'.applied fs').1 ∧
      ∀ inode, (s'.applied fs').2.content inode = (s.applied fs).2.content inode := by
  have log : s'.log = s.log := (face_eq.1 same).2.2.2.1.symm
  simp only [applied, log]
  exact applyEach_alike tidy tidy' same contents fun _ member => member

end Files

/-! ## The end of a transaction -/

namespace Transaction

open Files (Tidy)

/-- The files of a transaction as its participant. -/
def filesMember (s : Files) : Member Builtin := { domain := .file, state := .files s }

/-- `t` is active and works on `s`, or did not begin to work on files. -/
structure Working (t : Transaction Builtin) (s : Files) : Prop where
  active : t.phase = .active
  unseen : t.visited = []
  undecided : t.outcome = none
  members : t.members = [] ∧ s = {} ∨ t.members = [filesMember s]

/-- The outcome of a transaction whose apply phase came to `result`. -/
def outcomeOf (result : Except Error Unit) : Outcome :=
  match result with
  | .ok _ => .committed
  | .error e => .aborted (.moduleError e.code)

/-- The number of a failure. -/
def faultOf (result : Except Error Unit) : Option Int :=
  match result with
  | .ok _ => none
  | .error e => some e.code

theorem outcomeOf_eq (result : Except Error Unit) :
    outcomeOf result = match faultOf result with
      | some code => .aborted (.moduleError code)
      | none => .committed := by
  cases result <;> rfl

/-- The outcome of a transaction given up for `reason` whose undo came to `result`. -/
def abandonedAs (reason : AbortReason) (result : Except Error Unit) : Outcome :=
  .aborted (match faultOf result with
    | some code => .moduleError code
    | none => reason)

variable {opened : String → Prop} {fs : Filesystem} {t : Transaction Builtin} {s : Files} {w : World}

/-! ### The last stretch -/

theorem finishAndRelease_empty (phase : t.phase.canAdvance .finishing) (nobody : t.members = [])
    (locked : Nat) (outcome : Outcome) (w : World) :
    t.finishAndRelease locked outcome w =
      (.ok outcome, t.ended [.finishing, .released] outcome, w) := by
  have last : Phase.canAdvance .finishing .released = true := rfl
  simp only [finishAndRelease, advance, phase, last, if_true, ended, List.append_assoc, nobody,
    finishAll, List.take_nil, List.drop_nil]
  rfl

theorem finishAndRelease_unlocked (phase : t.phase.canAdvance .finishing)
    (alone : t.members = [filesMember s]) (outcome : Outcome) (w : World) :
    t.finishAndRelease 0 outcome w =
      (.ok outcome, t.ended [.finishing, .released] outcome, w) := by
  have last : Phase.canAdvance .finishing .released = true := rfl
  simp only [finishAndRelease, advance, phase, last, if_true, ended, List.append_assoc, alone]
  rfl

theorem finishAndRelease_locked (phase : t.phase.canAdvance .finishing)
    (alone : t.members = [filesMember s]) (outcome : Outcome) (w : World) :
    t.finishAndRelease 1 outcome w =
      (.ok outcome, t.ended [.finishing, .released] outcome,
        { w with locks := s.held.releaseAll t.id w.locks }) := by
  have last : Phase.canAdvance .finishing .released = true := rfl
  simp only [finishAndRelease, advance, phase, last, if_true, ended, List.append_assoc, alone]
  rfl

theorem ended_ended (t : Transaction Builtin) (phase : Phase) (visited : List Phase)
    (members : List (Member Builtin)) (more : List Phase) (outcome : Outcome) :
    ({ t with phase, visited := t.visited ++ visited, members } : Transaction Builtin).ended more
        outcome =
      t.ended (visited ++ more) outcome := by
  simp only [ended, List.append_assoc]

/-! ### Calls on the files alone -/

theorem lockAll_alone (unheld : s.held = {}) {ctx : Context} {held : HeldLocks} {locks : LockTable}
    (taken : HeldLocks.acquireAll {} s.access.observedIds ctx.tx w.locks = (.ok (), held, locks)) :
    lockAll ctx [filesMember s] w =
      { members := [filesMember { s with held }], locked := 1, refusal := none
        world := { w with locks } } := by
  simp only [lockAll, filesMember, Participant.lock, Builtin.withState, Files.lock, unheld, taken]

theorem validateAll_alone (s : Files) (ctx : Context) (w : World) :
    validateAll ctx .final [filesMember s] w = (s.access.validate w.versions, w) := by
  simp only [validateAll, filesMember, Participant.validate, Files.validate]
  cases s.access.validate w.versions <;> rfl

theorem applyAll_alone (s : Files) (ctx : Context) (w : World) :
    applyAll ctx [filesMember s] w =
      (faultOf (s.apply w).1, [filesMember (s.apply w).2.1], (s.apply w).2.2) := by
  simp only [applyAll, filesMember, Participant.apply, Builtin.withState]
  rcases s.apply w with ⟨_ | _, s', w'⟩ <;> rfl

theorem undoAll_alone (s : Files) (ctx : Context) (w : World) :
    undoAll ctx [filesMember s] w =
      (faultOf (s.undo ctx w).1, [filesMember (s.undo ctx w).2.1], (s.undo ctx w).2.2) := by
  simp only [undoAll, filesMember, Participant.undo, Builtin.withState]
  rcases s.undo ctx w with ⟨_ | _, s', w'⟩ <;> rfl

/-! ### Two ends -/

/-- Giving up undoes the files. -/
theorem Working.gives_up (working : Working t s) (reason : AbortReason) (w : World) :
    let r := s.undo t.context w
    t.undoAndRelease 0 reason w =
      (.ok (abandonedAs reason r.1),
        t.ended [.undoing, .finishing, .released] (abandonedAs reason r.1), r.2.2) := by
  have legal : t.phase.canAdvance .undoing = true := by rw [working.active]; rfl
  intro r
  simp only [undoAndRelease, advance, legal, if_true]
  rcases working.members with ⟨nobody, rfl⟩ | alone
  · simp only [nobody, undoAll]
    rw [finishAndRelease_empty rfl rfl, ended_ended]
    rfl
  · simp only [alone, undoAll_alone]
    rw [finishAndRelease_unlocked rfl rfl, ended_ended]
    rfl

/-- **A commit applies exactly when every version noted is in force**, and undoes the files if not. -/
theorem Working.commits (working : Working t s) (unheld : s.held = {}) (free : w.locks.Free) :
    ∃ held locks, held.Exactly t.id locks ∧ t.commit w =
      if s.access.validate w.versions then
        let r := ({ s with held } : Files).apply { w with locks }
        (.ok (outcomeOf r.1),
          t.ended [.locked, .validating, .applying, .finishing, .released] (outcomeOf r.1),
          { r.2.2 with locks := held.releaseAll t.id r.2.2.locks })
      else
        let r := ({ s with held } : Files).undo t.context { w with locks }
        (.ok (abandonedAs .validationFailed r.1),
          t.ended [.locked, .validating, .undoing, .finishing, .released]
            (abandonedAs .validationFailed r.1),
          { r.2.2 with locks := held.releaseAll t.id r.2.2.locks }) := by
  have forward : t.phase.canAdvance .locked = true := by rw [working.active]; rfl
  have further : Phase.canAdvance .locked .validating = true := rfl
  have apply : Phase.canAdvance .validating .applying = true := rfl
  have undo : Phase.canAdvance .validating .undoing = true := rfl
  simp only [Transaction.commit, checkActive_active working.active]
  rcases working.members with ⟨nobody, rfl⟩ | alone
  · refine ⟨{}, w.locks, fun k => free k, ?_⟩
    simp only [nobody, lockAll, validateAndRelease, advance, forward, further, if_true, validateAll,
      applyAndRelease, apply, applyAll, List.append_assoc]
    rw [finishAndRelease_empty rfl rfl, ended_ended]
    rfl
  · obtain ⟨held, locks, taken, exactly⟩ :=
      HeldLocks.acquireAll_free t.id s.access.observedIds free
    refine ⟨held, locks, exactly, ?_⟩
    rw [alone, lockAll_alone unheld taken]
    simp only [validateAndRelease, advance, forward, further, if_true, validateAll_alone]
    cases s.access.validate w.versions with
    | false =>
        simp only [undoAndRelease, advance, undo, if_true, undoAll_alone, List.append_assoc]
        rw [finishAndRelease_locked rfl rfl, ended_ended]
        rfl
    | true =>
        simp only [applyAndRelease, advance, apply, if_true, applyAll_alone, List.append_assoc]
        rw [finishAndRelease_locked rfl rfl, ended_ended]
        simp only [outcomeOf_eq]
        rfl

/-- Giving up changes nothing. -/
theorem Working.abandon (working : Working t s) (tidy : Tidy opened w.files s)
    (reason : AbortReason) :
    t.undoAndRelease 0 reason w =
      (.ok (.aborted reason), t.ended [.undoing, .finishing, .released] (.aborted reason), w) := by
  have nothing := Files.undo_eq tidy s.held t.context w
  rw [working.gives_up, nothing]
  rfl

/-- **A commit applies exactly when every version noted is in force**, and leaves no lock behind. -/
theorem Working.commit (working : Working t s) (tidy : Tidy opened w.files s)
    (free : w.locks.Free) :
    ∃ locks : LockTable, locks.Free ∧ t.commit w =
      if s.access.validate w.versions then
        (.ok (outcomeOf (s.applied w.files).1),
          t.ended [.locked, .validating, .applying, .finishing, .released]
            (outcomeOf (s.applied w.files).1),
          { w with
            locks
            files := (s.applied w.files).2
            versions := s.access.publish w.versions })
      else
        (.ok (.aborted .validationFailed),
          t.ended [.locked, .validating, .undoing, .finishing, .released]
            (.aborted .validationFailed),
          { w with locks }) := by
  obtain ⟨held, locks, exactly, committed⟩ := working.commits tidy.held free
  refine ⟨held.releaseAll t.id locks, exactly.releaseAll, ?_⟩
  rw [committed, Files.apply_eq tidy, Files.undo_eq tidy]
  rfl

/-! ### Work -/

theorem Working.start (config : TxId → Config) (who : TxId) :
    Working (newTransaction config who) {} :=
  ⟨rfl, rfl, rfl, Or.inl ⟨rfl, rfl⟩⟩

/-- Work goes to the files of the transaction, which are registered at the first piece of it. -/
theorem Working.through {α : Type} (working : Working t s)
    (f : Files → World → Except Error α × Files × World) (w : World) :
    ∃ t', withModule Builtin.filesFacet (fun _ s w => f s w) t w =
        ((f s w).1, t', (f s w).2.2) ∧
      Working t' (f s w).2.1 := by
  have found (s : Files) : findFacet Builtin.filesFacet [filesMember s] =
      some (s, fun s => [filesMember s]) := rfl
  rcases working.members with ⟨nobody, rfl⟩ | alone
  · have ensured : t.ensure Builtin.filesFacet =
        .ok { t with members := [filesMember {}], roster := [.file] } := by
      have first : t.insert { domain := .file, state := .files {} } =
          { t with members := [filesMember {}], roster := [.file] } := by
        simp only [insert, nobody, insertMember]
        rfl
      have none : t.module? Builtin.filesFacet = none := by
        simp only [module?, nobody, findFacet, Option.map_none]
      have free : t.hasDomain .file = false := by
        simp only [hasDomain, nobody, List.any_nil]
      rw [← first, ensure, none]
      exact if_neg (by rw [show Builtin.filesFacet.domain = .file from rfl, free]; decide)
    refine ⟨{ t with members := [filesMember (f {} w).2.1], roster := [.file] }, ?_,
      working.active, working.unseen, working.undecided, Or.inr rfl⟩
    simp only [withModule, checkActive_active working.active, ensured, found]
  · have ensured : t.ensure Builtin.filesFacet = .ok t := by
      simp only [ensure, module?, alone, found, Option.map_some]
    refine ⟨{ t with members := [filesMember (f s w).2.1] }, ?_, working.active,
      working.unseen, working.undecided, Or.inr rfl⟩
    simp only [withModule, checkActive_active working.active, ensured, alone, found]

theorem Working.work (working : Working t s) (job : FileWork) (w : World) :
    ∃ t', (FileCall.work job).perform t w =
        (.worked (job.perform s w).1, t', (job.perform s w).2.2) ∧
      Working t' (job.perform s w).2.1 := by
  obtain ⟨t', done, working'⟩ := working.through (fun s w => job.perform s w) w
  refine ⟨t', ?_, working'⟩
  simp only [FileCall.perform, done]

end Transaction

end Transact
