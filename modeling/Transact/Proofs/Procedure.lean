/-
# Transact.Proofs.Procedure -- calls taken apart

What a call does to the world is one operation after another, and others may come in between any two of
them.  A `Primitive` is one operation that nobody interrupts.  A `Procedure` is what is left of a call:
it has come to its answer, or it asks for a primitive and goes on as that is answered.
`Procedure.run` lets nobody in between.

A primitive is aimed at the resources it has a lasting effect on (`Primitive.targets`); one that is
aimed at none changes no version, no name and no content of a file, and no pipe unless it starts a
thread (`Primitive.aimless`).

`Rules` say which primitives are allowed where a transaction stands, and where it stands afterwards.
A procedure that `Keeps` to them does so whatever it is answered, and so among others too.
-/
import Transact.Proofs.Conduct
import Transact.Proofs.Descriptors
import Transact.Proofs.FileEnding

namespace Transact

set_option autoImplicit false

/-! ## Targets -/

/-- The resources on which performing a record of the file log has an effect: that of the record, and
for a write also that under which its file was opened. -/
def Files.targets (handles : Table Nat OpenFile) (r : Record FileEffect) : List ResourceId :=
  match r.payload with
  | .create | .adopt _ => []
  | .write h _ _ => r.resource :: ((handles.get? h.number).map OpenFile.id).toList
  | .remove => [r.resource]

/-- The end of a pipe that an effect acts on. -/
def PipeEffect.endOf (pipe : Nat) : PipeEffect → ResourceId
  | .write _ => .pipeWrite pipe
  | .read .. => .pipeRead pipe

/-- The resources on which performing a record of the pipe log has an effect: that of the record, and
the end of the pipe that bytes go into or come out of. -/
def Pipes.targets (r : Record PipeEffect) : List ResourceId :=
  match r.resource with
  | .pipeRead pipe | .pipeWrite pipe => [r.resource, r.payload.endOf pipe]
  | other => [other]

/-! ## Records alone -/

/-- Locks and versions are as they were. -/
structure Unshared (w w' : World) : Prop where
  locks : w'.locks = w.locks
  versions : w'.versions = w.versions

theorem Files.applyRecord_unshared (handles : Table Nat OpenFile) (r : Record FileEffect) (w : World) :
    Unshared w (Files.applyRecord handles r w).2 := by
  rw [Files.applyRecord_files]
  exact ⟨rfl, rfl⟩

theorem Pipes.applyRecord_unshared (s : Pipes) (r : Record PipeEffect) (w : World) :
    Unshared w (s.applyRecord r w).2 := by
  simp only [Pipes.applyRecord]
  split
  · exact ⟨rfl, rfl⟩
  · split <;> exact ⟨rfl, rfl⟩

theorem Threads.applyRecord_unshared (r : Record SpawnRequest) (w : World) :
    Unshared w (Threads.applyRecord r w).2 := by
  have run (w : World) (id : Nat) : Unshared w (w.runThread id) := by
    unfold World.runThread
    split
    · simp only
      split
      · exact ⟨rfl, rfl⟩
      · split
        · exact ⟨rfl, rfl⟩
        · split
          · exact ⟨rfl, rfl⟩
          · split <;> exact ⟨rfl, rfl⟩
    · exact ⟨rfl, rfl⟩
  simp only [Threads.applyRecord, World.startThread]
  rcases w.threads.start r.payload.thread with ⟨_ | _, threads⟩
  · exact ⟨rfl, rfl⟩
  · have after := run { w with threads } r.payload.thread
    exact ⟨after.locks, after.versions⟩

/-! ## Primitives -/

/-- What cannot be interrupted; indexed by what it answers.  `V` is the world of the guests. -/
inductive Primitive (V : Type) : Type → Type 1 where
  /-- A commit asks for a lock. -/
  | acquire (id : ResourceId) : Primitive V Bool
  /-- An undo asks for a lock it was not given before. -/
  | borrow (id : ResourceId) : Primitive V Bool
  | release (id : ResourceId) : Primitive V Unit
  | current (id : ResourceId) : Primitive V Nat
  | bump (id : ResourceId) : Primitive V Unit
  /-- Where the stream of a pipe stands. -/
  | front (pipe : Nat) : Primitive V (Option Nat)
  /-- Perform a record of the file log. -/
  | performFile (handles : Table Nat OpenFile) (r : Record FileEffect) : Primitive V (Except Error Unit)
  | seek (descriptor offset : Nat) : Primitive V (Except Errno Unit)
  /-- Remove a file that was created here. -/
  | uncreate (id : ResourceId) (path : String) : Primitive V (Except IoFault Unit)
  /-- Perform a record of the pipe log. -/
  | performPipe (s : Pipes) (r : Record PipeEffect) : Primitive V (Except Error Unit)
  | startThread (r : Record SpawnRequest) : Primitive V (Except Error Unit)
  | discardThread (r : Record SpawnRequest) : Primitive V Unit
  /-- Call a guest. -/
  | guest {β : Type} (call : V → β × V) : Primitive V β

namespace Primitive

variable {V β : Type}

/-- What a transaction is answered, and the world it leaves behind. -/
def perform (tx : TxId) : {β : Type} → Primitive V β → World × V → β × World × V
  | _, .acquire id, (w, v) => let r := w.locks.acquire id tx; (r.1, { w with locks := r.2 }, v)
  | _, .borrow id, (w, v) => let r := w.locks.acquire id tx; (r.1, { w with locks := r.2 }, v)
  | _, .release id, (w, v) => ((), { w with locks := (w.locks.release id tx).2 }, v)
  | _, .current id, (w, v) => (w.versions.current id, w, v)
  | _, .bump id, (w, v) => ((), w.bump id, v)
  | _, .front pipe, (w, v) => ((w.pipes.get? pipe).map Pipe.front, w, v)
  | _, .performFile handles r, (w, v) => let r := Files.applyRecord handles r w; (r.1, r.2, v)
  | _, .seek descriptor offset, (w, v) =>
      match w.files.seek descriptor offset with
      | .ok files => (.ok (), { w with files }, v)
      | .error e => (.error e, w, v)
  | _, .uncreate _ path, (w, v) =>
      match w.files.unlink path with
      | .ok files => (.ok (), { w with files }, v)
      | .error e => (.error e, w, v)
  | _, .performPipe s r, (w, v) => let r := s.applyRecord r w; (r.1, r.2, v)
  | _, .startThread r, (w, v) => let r := Threads.applyRecord r w; (r.1, r.2, v)
  | _, .discardThread r, (w, v) => ((), Threads.discardRecord r w, v)
  | _, .guest call, (w, v) => let r := call v; (r.1, w, r.2)

/-- The resources a primitive has a lasting effect on. -/
def targets : {β : Type} → Primitive V β → List ResourceId
  | _, .bump id => [id]
  | _, .performFile handles r => Files.targets handles r
  | _, .uncreate id path => [id, .path path]
  | _, .performPipe _ r => Pipes.targets r
  | _, _ => []

/-- Whether a thread is started, which may read from a pipe on its own. -/
def starts : {β : Type} → Primitive V β → Bool
  | _, .startThread _ => true
  | _, _ => false

/-- Whether nothing is asked of resources: versions and fronts are looked up, descriptors moved, threads
and guests called. -/
def quiet : {β : Type} → Primitive V β → Bool
  | _, .current _ | _, .front _ | _, .seek .. | _, .startThread _ | _, .discardThread _
  | _, .guest _ => true
  | _, _ => false

/-- What has no target leaves versions, names, contents and pipes as they are. -/
structure Harmless (w w' : World) : Prop where
  versions : w'.versions = w.versions
  entries : w'.files.entries = w.files.entries
  contents : w'.files.contents = w.files.contents

theorem Harmless.ofFiles {w w' : World} (versions : w'.versions = w.versions)
    (files : w'.files = w.files) : Harmless w w' where
  versions := versions
  entries := by rw [files]
  contents := by rw [files]

theorem Harmless.refl (w : World) : Harmless w w := .ofFiles rfl rfl

/-- **A primitive without a target has no lasting effect**, but for the threads it starts. -/
theorem aimless (p : Primitive V β) (aimed : p.targets = []) (tx : TxId) (w : World × V) :
    Harmless w.1 (p.perform tx w).2.1 ∧
      ((p.perform tx w).2.1.pipes = w.1.pipes ∨ p.starts = true) := by
  cases p with
  | acquire id => exact ⟨.ofFiles rfl rfl, Or.inl rfl⟩
  | borrow id => exact ⟨.ofFiles rfl rfl, Or.inl rfl⟩
  | release id => exact ⟨.ofFiles rfl rfl, Or.inl rfl⟩
  | current id => exact ⟨.refl _, Or.inl rfl⟩
  | bump id => cases aimed
  | front pipe => exact ⟨.refl _, Or.inl rfl⟩
  | performFile handles r =>
      simp only [targets, Files.targets] at aimed
      have idle : Files.applyRecord handles r w.1 = (.ok (), w.1) := by
        unfold Files.applyRecord
        cases payload : r.payload with
        | create => rfl
        | adopt h => rfl
        | write h offset bytes => simp [payload] at aimed
        | remove => simp [payload] at aimed
      simp only [perform, idle]
      exact ⟨.refl _, Or.inl trivial⟩
  | seek descriptor offset =>
      simp only [perform]
      cases sought : w.1.files.seek descriptor offset with
      | error e => exact ⟨.refl _, Or.inl rfl⟩
      | ok files =>
          have moved := Filesystem.moved_seek sought
          exact ⟨⟨rfl, moved.tree.entries, moved.contents⟩, Or.inl rfl⟩
  | uncreate id path => cases aimed
  | performPipe s r =>
      simp only [targets, Pipes.targets] at aimed
      split at aimed <;> cases aimed
  | startThread r =>
      have still := Threads.still_startThread tx w.1 r.payload.thread
      have same : (Threads.applyRecord r w.1).2 = (w.1.startThread r.payload.thread).2 := by
        unfold Threads.applyRecord
        rcases w.1.startThread r.payload.thread with ⟨_ | _, w'⟩ <;> rfl
      simp only [perform, same]
      exact ⟨.ofFiles still.versions still.files, Or.inr rfl⟩
  | discardThread r => exact ⟨.ofFiles rfl rfl, Or.inl rfl⟩
  | guest call => exact ⟨.refl _, Or.inl rfl⟩

/-- What a primitive counts up. -/
def counted : {β : Type} → Primitive V β → Option ResourceId
  | _, .bump id => some id
  | _, _ => none

/-- **Versions are counted up, and by `bump` alone.** -/
theorem perform_versions (p : Primitive V β) (tx : TxId) (w : World × V) :
    (p.perform tx w).2.1.versions = p.counted.elim w.1.versions w.1.versions.bump := by
  cases p with
  | performFile handles r => exact (Files.applyRecord_unshared handles r w.1).versions
  | performPipe s r => exact (s.applyRecord_unshared r w.1).versions
  | startThread r => exact (Threads.applyRecord_unshared r w.1).versions
  | seek descriptor offset =>
      simp only [perform]
      split <;> rfl
  | uncreate id path =>
      simp only [perform]
      split <;> rfl
  | _ => rfl

/-- Only the version of a target moves. -/
theorem target_of_moved (p : Primitive V β) (tx : TxId) (w : World × V) {id : ResourceId}
    (moved : (p.perform tx w).2.1.versions.current id ≠ w.1.versions.current id) :
    ∃ id' ∈ p.targets, id.key = id'.key := by
  rw [p.perform_versions] at moved
  cases p with
  | bump id' =>
      refine ⟨id', List.mem_singleton_self _, ?_⟩
      by_contra other
      exact moved (VersionTable.current_bump_of_ne _ other)
  | _ => exact absurd rfl moved

end Primitive

/-! ## Procedures -/

/-- What is left of a call that comes to an answer of type `α`. -/
inductive Procedure (V : Type) (α : Type) : Type 1 where
  | done (a : α)
  | act {β : Type} (p : Primitive V β) (next : β → Procedure V α)

namespace Procedure

variable {V α β : Type}

/-- Go on with the answer. -/
def bind (q : Procedure V α) (f : α → Procedure V β) : Procedure V β :=
  match q with
  | .done a => f a
  | .act p next => .act p fun b => (next b).bind f

instance : Monad (Procedure V) where
  pure := .done
  bind := bind

instance : LawfulMonad (Procedure V) := LawfulMonad.mk' (Procedure V)
  (fun q => by
    induction q with
    | done a => rfl
    | act p next ih => exact congrArg (Procedure.act p) (funext ih))
  (fun _ _ => rfl)
  (fun q f g => by
    induction q with
    | done a => rfl
    | act p next ih => exact congrArg (Procedure.act p) (funext ih))

/-- A single primitive. -/
def ask (p : Primitive V β) : Procedure V β := .act p .done

/-- Perform one primitive after another, with nobody in between. -/
def run (tx : TxId) : Procedure V α → World × V → α × World × V
  | .done a, w => (a, w)
  | .act p next, w => let r := p.perform tx w; (next r.1).run tx r.2

variable (tx : TxId) (w : World × V)

@[simp] theorem run_pure (a : α) : (pure a : Procedure V α).run tx w = (a, w) := rfl

@[simp] theorem run_ask (p : Primitive V β) : (ask p).run tx w = p.perform tx w := rfl

@[simp] theorem run_bind (q : Procedure V α) (f : α → Procedure V β) :
    (q >>= f).run tx w = (f (q.run tx w).1).run tx (q.run tx w).2 := by
  induction q generalizing w with
  | done a => rfl
  | act p next ih => exact ih _ _

end Procedure

/-! ## Rules -/

/-- What a transaction may do where it stands, a place in `σ`, and where that takes it. -/
structure Rules (V σ : Type) where
  allowed : {β : Type} → Primitive V β → σ → Prop
  after : {β : Type} → Primitive V β → β → σ → σ

/-- At `s` quiet primitives are allowed and lead nowhere. -/
def Rules.Spares {V σ : Type} (rules : Rules V σ) (s : σ) : Prop :=
  ∀ (β : Type) (p : Primitive V β), p.quiet = true →
    rules.allowed p s ∧ ∀ b, rules.after p b s = s

namespace Procedure

variable {V α β σ : Type} (rules : Rules V σ)

/-- Whatever it is answered, the procedure does only what is allowed, and ends where `post` holds. -/
def Keeps (post : α → σ → Prop) : Procedure V α → σ → Prop
  | .done a, s => post a s
  | .act p next, s => rules.allowed p s ∧ ∀ b, (next b).Keeps post (rules.after p b s)

variable {rules} {post : α → σ → Prop} {s : σ}

theorem keeps_ask {p : Primitive V α} :
    (ask p).Keeps rules post s ↔ rules.allowed p s ∧ ∀ b, post b (rules.after p b s) := Iff.rfl

theorem keeps_bind {q : Procedure V α} {f : α → Procedure V β} {post : β → σ → Prop} :
    (q >>= f).Keeps rules post s ↔ q.Keeps rules (fun a => (f a).Keeps rules post) s := by
  induction q generalizing s with
  | done a => exact Iff.rfl
  | act p next ih => exact and_congr_right' (forall_congr' fun b => ih b)

theorem Keeps.bind {q : Procedure V α} {f : α → Procedure V β} {post : β → σ → Prop}
    (keeps : q.Keeps rules (fun a => (f a).Keeps rules post) s) : (q >>= f).Keeps rules post s :=
  keeps_bind.2 keeps

theorem Keeps.mono {q : Procedure V α} {more : α → σ → Prop} (keeps : q.Keeps rules post s)
    (weaker : ∀ a s, post a s → more a s) : q.Keeps rules more s := by
  induction q generalizing s with
  | done a => exact weaker a s keeps
  | act p next ih => exact ⟨keeps.1, fun b => ih b (keeps.2 b)⟩

/-! ### Staying in place -/

/-- The procedure keeps to the rules and ends where it began. -/
def Stays (rules : Rules V σ) (q : Procedure V α) (s : σ) : Prop :=
  q.Keeps rules (fun _ s' => s' = s) s

theorem Stays.keeps {q : Procedure V α} (stays : q.Stays rules s) (all : ∀ a, post a s) :
    q.Keeps rules post s :=
  Keeps.mono stays fun a _ same => same ▸ all a

theorem stays_pure (a : α) : (pure a : Procedure V α).Stays rules s := rfl

theorem Stays.bind {q : Procedure V α} {f : α → Procedure V β} (first : q.Stays rules s)
    (second : ∀ a, (f a).Stays rules s) : (q >>= f).Stays rules s :=
  Keeps.bind (first.keeps second)

theorem stays_ask (spares : rules.Spares s) {p : Primitive V α} (quiet : p.quiet = true) :
    (ask p).Stays rules s :=
  keeps_ask.2 (spares _ p quiet)

end Procedure

end Transact
