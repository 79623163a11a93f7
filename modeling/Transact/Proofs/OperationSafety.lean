/-
# Transact.Proofs.OperationSafety -- operations that do not slip

Some branches are there for records that no work writes down: one of the file log that is not about a
path or goes through a handle that there is not, one of the pipe log that is not about a tracked pipe,
and bytes to consume that were never pulled.  An operation that gets there *slips* (`Primitive.Slips`).
One that does not slip fails for what the system or others did, and for nothing else
(`Files.applyRecord_answer`, `Pipes.applyRecord_answer`).

By the rules of `footing` no operation slips, as far as the pipes may have been pulled meanwhile.  The
calls that end a transaction whose records are backed keep to them (`keeps_footing`).  Whatever these
calls are answered, none takes a step from one phase to another that there is not (`ends_legally`).
-/
import Transact.Proofs.Backing
import Transact.Proofs.Sparing

namespace Transact

set_option autoImplicit false

/-! ## Slips -/

/-- The operation gets to a branch that is there for records that no work writes down. -/
inductive Primitive.Slips {V : Type} (w : World) : {β : Type} → Primitive V β → Prop where
  /-- A record of the file log is not about a path. -/
  | noPath {handles : Table Nat OpenFile} {r : Record FileEffect}
      (other : ∀ path, r.resource ≠ .path path) : Slips w (.performFile handles r)
  /-- A write goes through a handle that there is not. -/
  | noHandle {handles : Table Nat OpenFile} {r : Record FileEffect} {h : FileHandle} {offset : Nat}
      {bytes : Bytes} (payload : r.payload = .write h offset bytes)
      (unknown : handles.get? h.number = none) : Slips w (.performFile handles r)
  /-- A record of the pipe log is not about a pipe, or about one that is not tracked. -/
  | noPipe {s : Pipes} {r : Record PipeEffect} {e : Error} (error : s.pipeOf r.resource w = .error e) :
      Slips w (.performPipe s r)
  /-- More bytes are to be consumed at the front than are buffered. -/
  | short {s : Pipes} {r : Record PipeEffect} {p : Pipe} {offset : Nat} {bytes : Bytes}
      (payload : r.payload = .read offset bytes) (looked : s.pipeOf r.resource w = .ok p)
      (front : p.front = offset) (fewer : p.buffer.length < bytes.length) :
      Slips w (.performPipe s r)

namespace Primitive

variable {V β : Type}

/-- Whether a record is performed. -/
def performs : {β : Type} → Primitive V β → Bool
  | _, .performFile .. | _, .performPipe .. => true
  | _, _ => false

theorem sure_of_aside {p : Primitive V β} (aside : p.performs = false) (w : World) : ¬ p.Slips w := by
  intro slips
  cases slips <;> cases aside

end Primitive

/-- A record of the file log that does not slip is performed, or the system refuses. -/
theorem Files.applyRecord_answer {V : Type} {handles : Table Nat OpenFile} {r : Record FileEffect}
    {w : World} (sure : ¬ (Primitive.performFile handles r : Primitive V _).Slips w) :
    (applyRecord handles r w).1 = .ok () ∨
      ∃ fault : IoFault, (applyRecord handles r w).1 = .error (effectFailed r.resource fault.toError) := by
  unfold applyRecord
  cases payload : r.payload with
  | create => exact Or.inl rfl
  | adopt h => exact Or.inl rfl
  | write h offset bytes =>
      cases found : handles.get? h.number with
      | none => exact absurd (.noHandle payload found) sure
      | some f =>
          rcases written : w.files.writeAt f.descriptor offset bytes with ⟨e | _, files⟩
          · simp only [found, written]
            exact Or.inr ⟨.os e, rfl⟩
          · simp only [found, written]
            exact Or.inl trivial
  | remove =>
      obtain ⟨path, place⟩ : ∃ path, r.resource = .path path := by
        by_contra pathless
        exact sure (.noPath fun path same => pathless ⟨path, same⟩)
      simp only [unlinkResource, place]
      cases w.files.unlink path with
      | error e => exact Or.inr ⟨e, rfl⟩
      | ok files => exact Or.inl rfl

/-- A record of the pipe log that does not slip is performed, or the writer is closed, or others
consumed from the pipe. -/
theorem Pipes.applyRecord_answer {V : Type} {s : Pipes} {r : Record PipeEffect} {w : World}
    (sure : ¬ (Primitive.performPipe s r : Primitive V _).Slips w) :
    (s.applyRecord r w).1 = .ok () ∨ ∃ p : Pipe,
      (s.applyRecord r w).1 = .error (effectFailed r.resource p.closedError) ∨
        ∃ offset, p.front ≠ offset ∧
          (s.applyRecord r w).1 = .error (effectFailed r.resource (p.consumedError offset)) := by
  unfold applyRecord
  cases looked : s.pipeOf r.resource w with
  | error e => exact absurd (.noPipe looked) sure
  | ok p =>
      cases payload : r.payload with
      | write bytes =>
          simp only [Pipe.writeAll]
          cases p.writerOpen with
          | true => exact Or.inl rfl
          | false => exact Or.inr ⟨p, Or.inl rfl⟩
      | read offset bytes =>
          simp only [Pipe.consumeAt]
          by_cases front : p.front = offset
          · have enough : ¬ p.buffer.length < bytes.length := fun fewer =>
              sure (.short payload looked front fewer)
            rw [if_neg (not_not.2 front), if_neg enough]
            exact Or.inl rfl
          · rw [if_pos front]
            exact Or.inr ⟨p, Or.inr ⟨offset, front, rfl⟩⟩

section Backed

variable {V : Type} {w : World}

/-- A record that is backed does not slip. -/
theorem Files.Backed.sure {s : Files} (backed : s.Backed) {r : Record FileEffect}
    (member : r ∈ s.log.records) : ¬ (Primitive.performFile s.handles r : Primitive V _).Slips w := by
  intro slips
  cases slips with
  | noPath other =>
      obtain ⟨path, place⟩ := backed.paths r member
      exact other path place
  | noHandle payload unknown => exact backed.handles r member _ _ _ payload unknown

theorem Pipes.Backing.sure {s : Pipes} {r : Record PipeEffect}
    (backing : Backing s.tracked w.pipes r) : ¬ (Primitive.performPipe s r : Primitive V _).Slips w := by
  intro slips
  cases backing with
  | @write pipe p bytes known there =>
      have looked : s.pipeOf (.pipeWrite pipe) w = .ok p := by
        simp only [pipeOf, List.contains_iff_mem.2 known, there]
      cases slips with
      | noPipe error => cases error.symm.trans looked
      | short payload => cases payload
  | @read pipe p offset bytes known there pulled =>
      have looked : s.pipeOf (.pipeRead pipe) w = .ok p := by
        simp only [pipeOf, List.contains_iff_mem.2 known, there]
      cases slips with
      | noPipe error => cases error.symm.trans looked
      | short payload same front fewer =>
          cases payload
          cases same.symm.trans looked
          -- what is behind the front up to the reach is what is buffered
          rw [Pipe.reach, front] at pulled
          omega

end Backed

/-! ## The rules -/

/-- No operation slips, in whatever table the pipes have grown to; where one stands is the table at
which the records were written down. -/
def footing {V : Type} : Rules V PipeTable where
  allowed p since := ∀ w : World, since.Grows w.pipes → ¬ p.Slips w
  after _ _ since := since

namespace Stepwise

open Procedure

section Footing

variable {V : Type} {since : PipeTable}

theorem stays_footing {β : Type} {p : Primitive V β}
    (sure : ∀ w : World, since.Grows w.pipes → ¬ p.Slips w) : (ask p).Stays footing since :=
  keeps_ask.2 ⟨sure, fun _ => rfl⟩

theorem stays_aside {β : Type} {p : Primitive V β} (aside : p.performs = false) :
    (ask p).Stays footing since :=
  stays_footing fun w _ => Primitive.sure_of_aside aside w

theorem footing_spares (since : PipeTable) : (footing (V := V)).Spares since := by
  intro β p quiet
  have aside : p.performs = false := by cases p <;> first | rfl | cases quiet
  exact ⟨fun w _ => Primitive.sure_of_aside aside w, fun _ => rfl⟩

theorem footing_removal (access : AccessSet) (id : ResourceId) (path : String) :
    (removeIfCurrent access id path : Procedure V _).Stays footing since := by
  refine (stays_ask (footing_spares since) rfl).bind fun version => ?_
  cases access.snapshot id == some version with
  | false => exact stays_pure _
  | true =>
      refine (stays_aside rfl).bind fun answer => ?_
      rcases answer with fault | _
      · cases fault with
        | os errno => cases errno <;> exact stays_pure _
        | _ => exact stays_pure _
      · exact (stays_aside rfl).bind fun _ => stays_pure _

theorem footing_reversal (access : AccessSet) (h : HeldLocks) (id : ResourceId) (path : String) :
    (revertCreation access h id path : Procedure V _).Stays footing since := by
  unfold revertCreation
  split
  · exact footing_removal access id path
  · refine (stays_aside rfl).bind fun granted => ?_
    cases granted with
    | false => exact stays_pure _
    | true =>
        refine (footing_removal access id path).bind fun result => ?_
        exact (stays_aside rfl).bind fun _ => stays_pure _

/-! ### Parties -/

section Parties

variable {G : Type} [Participant G V] (ctx : Context)

theorem footing_lock {p : Party G} (backed : p.Backed since) :
    (lock ctx p).Keeps footing (fun r now => r.2.Backed since ∧ now = since) since := by
  have request (ids : List ResourceId) (h : HeldLocks) :
      (acquireEach ids h : Procedure V _).Stays footing since :=
    stays_acquireEach (fun _ => stays_aside rfl)
      (fun _ => stays_aside rfl) ids h
  cases p with
  | guest g => exact Keeps.bind ((stays_ask (footing_spares since) rfl).keeps fun r => ⟨trivial, rfl⟩)
  | builtin b =>
      cases b with
      | files s =>
          exact Keeps.bind ((request _ _).keeps fun r =>
            ⟨Files.Backed.aside backed s.removed s.access r.2, rfl⟩)
      | pipes s => exact Keeps.bind ((request _ _).keeps fun r => ⟨backed, rfl⟩)
      | threads s => exact ⟨trivial, rfl⟩
      | yields s => exact ⟨trivial, rfl⟩

/-- **What is backed is applied without a slip.** -/
theorem footing_apply {p : Party G} (backed : p.Backed since) :
    (apply ctx p).Keeps footing (fun r now => r.2.held = p.held ∧ now = since) since := by
  refine keeps_apply (footing_spares since) ctx (fun s same r member => ?_) (fun s same r member => ?_)
    (stays_bumpEach fun id _ => stays_aside rfl)
  · subst same
    exact stays_footing fun w _ => Files.Backed.sure backed member
  · subst same
    exact stays_footing fun w grows => (Pipes.Backed.mono backed grows r member).sure

theorem footing_undo (p : Party G) :
    (undo ctx p).Keeps footing (fun r now => r.2.held = p.held ∧ now = since) since :=
  keeps_undo (footing_spares since) ctx fun s _ r _ path _ =>
    footing_reversal s.access s.held r.resource path

/-! ### All participants -/

theorem footing_lockAll {members : List (Member (Party G))}
    (backed : ∀ m ∈ members, m.state.Backed since) :
    (lockAll ctx members).Keeps footing
      (fun r now => (∀ m ∈ r.1, m.state.Backed since) ∧ now = since) since := by
  induction members with
  | nil => exact ⟨backed, rfl⟩
  | cons m rest ih =>
      obtain ⟨first, others⟩ := List.forall_mem_cons.1 backed
      refine Keeps.bind ((footing_lock ctx first).mono fun r now here => ?_)
      obtain ⟨mine, rfl⟩ := here
      obtain ⟨_ | _, p⟩ := r
      · exact ⟨List.forall_mem_cons.2 ⟨mine, others⟩, rfl⟩
      · refine Keeps.bind ((ih others).mono fun q now later => ?_)
        exact ⟨List.forall_mem_cons.2 ⟨mine, later.1⟩, later.2⟩

theorem footing_applyAll {members : List (Member (Party G))}
    (backed : ∀ m ∈ members, m.state.Backed since) : (applyAll ctx members).Stays footing since := by
  induction members with
  | nil => exact stays_pure _
  | cons m rest ih =>
      obtain ⟨first, others⟩ := List.forall_mem_cons.1 backed
      refine Keeps.bind ((footing_apply ctx first).mono fun r now here => ?_)
      obtain ⟨-, rfl⟩ := here
      exact (ih others).bind fun q => stays_pure _

theorem footing_close (members : List (Member (Party G))) (locked : Nat) :
    (close ctx members locked).Stays footing since :=
  stays_close (footing_spares since) ctx (fun _ => stays_aside rfl) members locked

/-! ### The coordinator -/

variable {t : Transaction (Party G)}

theorem footing_abandon (before : List Phase) (members : List (Member (Party G))) (locked : Nat)
    (reason : AbortReason) :
    (abandon t before members locked reason).Keeps footing (fun r now => r.2.Backed now) since := by
  have reverts : (undoAll t.context members).Keeps footing
      (fun r now => hands r.2 = hands members ∧ now = since) since :=
    keeps_undoAll t.context fun m _ => footing_undo t.context m.state
  refine Keeps.bind (reverts.mono fun r now done => ?_)
  obtain ⟨-, rfl⟩ := done
  exact Keeps.bind ((footing_close t.context r.2 locked).keeps fun _ => .ended _ _ _)

theorem footing_perform {members : List (Member (Party G))}
    (backed : ∀ m ∈ members, m.state.Backed since) (locked : Nat) :
    (perform t members locked).Keeps footing (fun r now => r.2.Backed now) since := by
  refine Keeps.bind ((footing_applyAll t.context backed).keeps fun r => ?_)
  exact Keeps.bind ((footing_close t.context r.2 locked).keeps fun _ => .ended _ _ _)

/-- **No call that ends a transaction slips** whose records are backed, whatever others do to the pipes
in the meantime. -/
theorem keeps_footing (backed : t.Backed since) {call : PartyCall G}
    {q : Procedure V (Transaction (Party G))} (taken : steps t call = some q) :
    q.Keeps footing (fun t' now => t'.Backed now) since := by
  refine keeps_steps taken backed (fun _ => ?_) (fun _ reason => footing_abandon [] _ _ reason)
    (stays_validateAll (footing_spares since) t.context .early t.members)
  refine Keeps.bind ((footing_lockAll t.context backed.members).mono fun r now done => ?_)
  obtain ⟨still, rfl⟩ := done
  rcases r.2.2 with _ | e
  · refine Keeps.bind ((stays_validateAll (footing_spares now) t.context .final r.1).keeps
      fun valid => ?_)
    cases valid with
    | true => exact footing_perform still _
    | false => exact footing_abandon _ _ _ _
  · exact footing_abandon _ _ _ _

end Parties

end Footing

end Stepwise

/-! ## Steps between phases -/

/-- Whatever the procedure is answered, it comes to something of which `post` holds. -/
def Procedure.Comes {V α : Type} (post : α → Prop) : Procedure V α → Prop
  | .done a => post a
  | .act _ next => ∀ b, (next b).Comes post

namespace Procedure

variable {V α β : Type} {first : α → Prop} {post : β → Prop} {f : α → Procedure V β}

theorem Comes.bind {q : Procedure V α} (comes : q.Comes first)
    (next : ∀ a, first a → (f a).Comes post) : (q >>= f).Comes post := by
  induction q with
  | done a => exact next a comes
  | act p rest ih => exact fun b => ih b (comes b)

theorem comes_bind (q : Procedure V α) (all : ∀ a, (f a).Comes post) : (q >>= f).Comes post := by
  have anyhow : q.Comes fun _ => True := by
    induction q with
    | done a => trivial
    | act p rest ih => exact fun b => ih b
  exact anyhow.bind fun a _ => all a

end Procedure

/-- The answer is not that a step was illegal. -/
def Legal {α : Type} (answer : Except Error α) : Prop :=
  ∀ source target, answer ≠ .error (Transaction.illegalStep source target)

theorem legal_ok {α : Type} (a : α) : Legal (.ok a : Except Error α) := by
  intro source target same
  cases same

/-- An error of another kind is not that of an illegal step. -/
theorem legal_error {α : Type} {e : Error} (other : e.kind ≠ .internalError) :
    Legal (.error e : Except Error α) := by
  intro source target same
  cases same
  exact other rfl

theorem legal_notActive {α : Type} (action : String) (phase : Phase) :
    Legal (.error (Transaction.notActive action phase) : Except Error α) :=
  legal_error (show ErrorKind.invalidOperation ≠ .internalError by decide)

namespace Stepwise

open Procedure

variable {G V : Type} [Participant G V]

theorem abandon_legal (t : Transaction (Party G)) (before : List Phase)
    (members : List (Member (Party G))) (locked : Nat) (reason : AbortReason) :
    (abandon t before members locked reason : Procedure V _).Comes fun r => Legal r.1 :=
  comes_bind _ fun _ => comes_bind _ fun _ => legal_ok _

theorem committing_legal (t : Transaction (Party G)) :
    (committing t : Procedure V _).Comes fun r => Legal r.1 := by
  refine comes_bind _ fun r => ?_
  rcases r.2.2 with _ | e
  · refine comes_bind _ fun valid => ?_
    cases valid with
    | true => exact comes_bind _ fun _ => comes_bind _ fun _ => legal_ok _
    | false => exact abandon_legal t _ _ _ _
  · exact abandon_legal t _ _ _ _

/-- **No call takes an illegal step**, whatever its operations are answered.  A transaction that is let
go of gives up, and its answer is lost. -/
theorem ends_legally (t : Transaction (Party G)) :
    ((commit t : Procedure V _).Comes fun r => Legal r.1) ∧
      ((abort t : Procedure V _).Comes fun r => Legal r.1) ∧
      ((validateEarly t : Procedure V _).Comes fun r => Legal r.1) ∧
      (t.phase = .active → (undoAndRelease t 0 .requested : Procedure V _).Comes fun r => Legal r.1) := by
  have gives (active : t.phase = .active) (reason : AbortReason) :
      (undoAndRelease t 0 reason : Procedure V _).Comes fun r => Legal r.1 := by
    rw [undoAndRelease_active active]
    exact abandon_legal t _ _ _ _
  by_cases active : t.phase = .active
  · refine ⟨?_, ?_, ?_, fun active => gives active _⟩
    · rw [commit_steps active]
      exact committing_legal t
    · simp only [abort, Transaction.checkActive_active active]
      exact gives active _
    · simp only [validateEarly, Transaction.checkActive_active active]
      refine comes_bind _ fun valid => ?_
      cases valid with
      | true => exact legal_ok _
      | false =>
          refine (gives active .validationFailed).bind fun r legal => ?_
          rcases r with ⟨e | outcome, t'⟩
          · exact fun source target same => legal source target (congrArg _ (Except.error.inj same))
          · exact legal_error (show ErrorKind.validationConflict ≠ .internalError by decide)
  · have refused := Transaction.checkActive_inactive active
    refine ⟨?_, ?_, ?_, fun now => absurd now active⟩
    · simp only [commit, refused]
      exact legal_notActive _ _
    · simp only [abort, refused]
      exact legal_notActive _ _
    · simp only [validateEarly, refused]
      exact legal_notActive _ _

end Stepwise

end Transact
