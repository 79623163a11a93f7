/-
# Transact.Proofs.RunSafety -- what no run comes to

Any number of transactions work and end, operation by operation, while others call pipes past them,
change the file system and join threads: a `Turn` is one of these moves.  The pipes are those of one
table, and they are opened, written, read and closed by calls alone.

The invariant is `Crowd.Surefooted`: what every transaction has written down is backed in a table that
the pipes have grown from, and what is left of its call keeps its footing from there.  So no run comes
to a branch that is there for records nobody writes down, for a participant that went away, or for a
step between phases that there is not (`Crowd.never_slips`).
-/
import Transact.Proofs.Crowd
import Transact.Proofs.OperationSafety

namespace Transact

set_option autoImplicit false

/-! ## Participants that are there -/

namespace Transaction

variable {P M : Type} {facet : Facet P M}

/-- **A participant that was made sure of is there.** -/
theorem module_of_ensure (lawful : facet.Lawful) {t t' : Transaction P}
    (ensured : t.ensure facet = .ok t') : t'.module? facet ≠ none := by
  unfold ensure at ensured
  split at ensured
  · next s there =>
    cases ensured
    rw [there]
    exact Option.some_ne_none s
  · split at ensured
    · cases ensured
    · next free =>
      cases ensured
      let new : Member P := { domain := facet.domain, state := facet.wrap facet.fresh }
      have member : new ∈ insertMember new t.members := by
        rcases insertMember_cases new t.members with ⟨-, taken⟩ | ⟨before, after, -, inserted⟩
        · obtain ⟨other, there, same⟩ := List.mem_map.1 taken
          have clash : t.hasDomain facet.domain = true :=
            List.any_eq_true.2 ⟨other, there, beq_iff_eq.2 same⟩
          exact absurd clash free
        · rw [inserted]
          exact List.mem_append_right _ List.mem_cons_self
      intro gone
      exact findFacet_of_seen member (lawful.view_wrap facet.fresh) (Option.map_eq_none_iff.1 gone)

end Transaction

/-! ## Turns -/

/-- What happens next, where pipes are worked on by calls alone. -/
inductive Turn (G V : Type) where
  /-- A transaction makes a call; one that may end it is begun. -/
  | call (who : TxId) (call : PartyCall G)
  /-- The next operation of the call that a transaction is in. -/
  | proceed (who : TxId)
  /-- A call on a pipe past all transactions, or a new pipe. -/
  | raw (call : RawCall)
  /-- A pipe can no longer be looked up. -/
  | forget (pipe : Nat)
  /-- A thread goes on, and is waited for. -/
  | join (thread : Nat)
  /-- Somebody changes files, threads and what guests work on. -/
  | outside (files : Filesystem) (threads : ThreadTable) (v : V)
  /-- A stranger asks for a lock. -/
  | take (owner : TxId) (id : ResourceId)
  /-- A stranger gives a lock back. -/
  | giveBack (owner : TxId) (id : ResourceId)
  /-- Somebody publishes a resource past all transactions. -/
  | publish (id : ResourceId)

/-- The move that a turn is in a world. -/
def Turn.move {G V : Type} (chunk : Nat → Nat → Nat) : World × V → Turn G V → Move G V
  | _, .call who made => .call who made
  | _, .proceed who => .proceed who
  | (w, v), .raw made => .change w.files (made.perform chunk w.pipes).2 w.threads v
  | (w, v), .forget pipe => .change w.files (w.pipes.forget pipe).2 w.threads v
  | (w, v), .join thread =>
      let w' := (w.joinThread thread).2
      .change w.files w'.pipes w'.threads v
  | (w, _), .outside files threads v => .change files w.pipes threads v
  | _, .take owner id => .take owner id
  | _, .giveBack owner id => .giveBack owner id
  | _, .publish id => .publish id

/-- What an agent's transaction has written down is backed in a table that `pipes` has grown from, and
what is left of its call keeps its footing from there. -/
def Agent.Surefooted {G V : Type} (pipes : PipeTable) (g : Agent G V) : Prop :=
  ∃ since : PipeTable, since.Grows pipes ∧ g.transaction.Backed since ∧
    ∀ q, g.call = some q → q.Keeps footing (fun t now => t.Backed now) since

namespace Agent.Surefooted

variable {G V : Type} {pipes pipes' : PipeTable}

theorem mono {g : Agent G V} (sure : g.Surefooted pipes) (grows : pipes.Grows pipes') :
    g.Surefooted pipes' := by
  obtain ⟨since, before, rest⟩ := sure
  exact ⟨since, before.trans grows, rest⟩

/-- Between calls nothing else is asked for. -/
theorem idle {since : PipeTable} (before : since.Grows pipes) {t : Transaction (Party G)}
    (backed : t.Backed since) : Agent.Surefooted pipes ({ transaction := t } : Agent G V) := by
  refine ⟨since, before, backed, fun q call => ?_⟩
  cases call

end Agent.Surefooted

namespace Crowd

variable {G V : Type}

/-- Every agent keeps its footing, and the pipes are in order. -/
structure Surefooted (c : Crowd G V) : Prop where
  sound : c.world.1.pipes.Sound
  agents : ∀ who, (c.agents who).Surefooted c.world.1.pipes

variable {c : Crowd G V} {who : TxId}

/-- A world without pipes, where no transaction did anything yet. -/
def pristine (config : TxId → Config) (stranger : TxId → Bool) (w : World × V) : Crowd G V :=
  start config stranger ({ w.1 with pipes := {} }, w.2)

theorem surefooted_pristine (config : TxId → Config) (stranger : TxId → Bool) (w : World × V) :
    (pristine config stranger w : Crowd G V).Surefooted where
  sound := PipeTable.sound_empty
  agents who := .idle (.refl PipeTable.sound_empty) (.fresh {} who (config who))

namespace Surefooted

/-- One agent moves, and takes no pipe back. -/
theorem put (sure : c.Surefooted) {g : Agent G V} {w : World × V}
    (grows : c.world.1.pipes.Grows w.1.pipes) (mine : g.Surefooted w.1.pipes) :
    (c.put who g w).Surefooted where
  sound := grows.sound
  agents other := by
    by_cases same : other = who
    · subst same
      rw [put_agents]
      exact mine
    · rw [put_agents_of_ne _ _ _ _ same]
      exact (sure.agents other).mono grows

/-- Somebody else moves, and takes no pipe back. -/
theorem withWorld (sure : c.Surefooted) {w : World × V} (grows : c.world.1.pipes.Grows w.1.pipes) :
    ({ c with world := w } : Crowd G V).Surefooted where
  sound := grows.sound
  agents who := (sure.agents who).mono grows

theorem proceed (sure : c.Surefooted) (who : TxId) : (c.proceed who).Surefooted := by
  obtain ⟨since, before, backed, keeps⟩ := sure.agents who
  rcases call : (c.agents who).call with _ | (t | ⟨p, next⟩)
  · simp only [Crowd.proceed, call]
    exact sure
  · simp only [Crowd.proceed, call]
    exact sure.put (.refl sure.sound) (.idle before (keeps _ call))
  · simp only [Crowd.proceed, call]
    have grows := p.perform_grows who sure.sound
    refine sure.put grows ⟨since, before.trans grows, backed, fun q left => ?_⟩
    cases left
    exact (keeps _ call).2 _

variable [Participant G V] (chunk : Nat → Nat → Nat)

theorem begin (sure : c.Surefooted) (who : TxId) (call : PartyCall G) :
    (c.begin chunk who call).Surefooted := by
  simp only [Crowd.begin]
  split
  · exact sure
  · obtain ⟨since, before, backed, -⟩ := sure.agents who
    split
    · next q taken =>
      refine sure.put (.refl sure.sound) ⟨since, before, backed, fun q' left => ?_⟩
      cases left
      exact Stepwise.keeps_footing backed taken
    · next taken =>
      cases call with
      | work job =>
          have grows := job.perform_grows chunk (c.agents who).transaction sure.sound
          have mine := job.perform_backed chunk (backed.mono before) sure.sound
          exact sure.put grows (.idle (.refl grows.sound) mine)
      | register g =>
          exact sure.put (.refl sure.sound) (.idle before (backed.register g))
      | validate => cases taken
      | commit => cases taken
      | abort => cases taken
      | drop => cases taken

end Surefooted

variable [Participant G V] (chunk : Nat → Nat → Nat)

/-- Somebody takes a turn. -/
def turn (c : Crowd G V) (x : Turn G V) : Crowd G V := c.step chunk (x.move chunk c.world)

/-- One turn after another. -/
def play (c : Crowd G V) (turns : List (Turn G V)) : Crowd G V := turns.foldl (turn chunk) c

/-- **Whoever takes a turn**, everybody keeps its footing. -/
theorem Surefooted.turn (sure : c.Surefooted) (x : Turn G V) : (c.turn chunk x).Surefooted := by
  have still : c.world.1.pipes.Grows c.world.1.pipes := .refl sure.sound
  have withLocks (locks : LockTable) : (c.withLocks locks).Surefooted := sure.withWorld still
  have change (files : Filesystem) {pipes : PipeTable} (grows : c.world.1.pipes.Grows pipes)
      (threads : ThreadTable) (v : V) : (c.step chunk (.change files pipes threads v)).Surefooted :=
    sure.withWorld grows
  cases x with
  | call who call => exact sure.begin chunk who call
  | proceed who => exact sure.proceed who
  | raw call => exact change _ (call.perform_grows chunk sure.sound) _ _
  | forget pipe => exact change _ (sure.sound.grows_forget pipe) _ _
  | join thread => exact change _ (World.joinThread_grows sure.sound thread) _ _
  | outside files threads v => exact change files still threads v
  | take owner id =>
      simp only [Crowd.turn, Turn.move, step]
      split
      · exact withLocks _
      · exact sure
  | giveBack owner id =>
      simp only [Crowd.turn, Turn.move, step]
      split
      · exact withLocks _
      · exact sure
  | publish id => exact sure.withWorld still

theorem Surefooted.play (sure : c.Surefooted) (turns : List (Turn G V)) :
    (c.play chunk turns).Surefooted := by
  induction turns generalizing c with
  | nil => exact sure
  | cons x rest ih => exact ih (sure.turn chunk x)

/-! ## What no run comes to -/

/-- **No run slips.**  Any number of transactions work, and begin and go on with calls that end them,
with calls on pipes past them and changes of the file system in between any two operations.  No
operation that a transaction is about to do gets to a branch that is there for records nobody writes
down; no record of a file log is about anything but a path; whatever the operations of a commit, an
abort, an early validation or a drop are answered, no step between phases is illegal; and a participant
that work made sure of is there. -/
theorem never_slips (config : TxId → Config) (stranger : TxId → Bool) (w : World × V)
    (turns : List (Turn G V)) (who : TxId) :
    let c : Crowd G V := (pristine config stranger w).play chunk turns
    let t := (c.agents who).transaction
    (∀ (β : Type) (p : Primitive V β), c.AboutTo who p → ¬ p.Slips c.world.1) ∧
      (∀ m ∈ t.members, ∀ s : Files, m.state = .builtin (.files s) →
        ∀ r ∈ s.log.records, ∃ path, r.resource = .path path) ∧
      (((Stepwise.commit t : Procedure V _).Comes fun r => Legal r.1) ∧
        ((Stepwise.abort t : Procedure V _).Comes fun r => Legal r.1) ∧
        ((Stepwise.validateEarly t : Procedure V _).Comes fun r => Legal r.1) ∧
        (t.phase = .active →
          (Stepwise.undoAndRelease t 0 .requested : Procedure V _).Comes fun r => Legal r.1)) ∧
      ∀ (M : Type) (facet : Facet (Party G) M), facet.Lawful →
        ∀ t', t.ensure facet = .ok t' → t'.module? facet ≠ none := by
  intro c t
  obtain ⟨since, grows, backed, keeps⟩ :=
    ((surefooted_pristine config stranger w : (_ : Crowd G V).Surefooted).play chunk turns).agents who
  refine ⟨?_, ?_, Stepwise.ends_legally t, fun M facet lawful t' => Transaction.module_of_ensure lawful⟩
  · rintro β p ⟨next, call⟩
    exact (keeps _ call).1 c.world.1 grows
  · intro m member s files r written
    have mine := backed.members m member
    rw [files] at mine
    exact Files.Backed.paths mine r written

/-- One transaction reads two bytes of a pipe and begins its commit; when it is about to consume them,
somebody takes the first one past it. -/
def overtakenReader : List (Turn Builtin World) :=
  let reader : TxId := ⟨1, "reader"⟩
  [.raw .openPipe, .raw (.writeAll 0 [7, 8, 9]), .call reader (.work (.readPipe 0 2)),
    .call reader .commit, .proceed reader, .proceed reader, .proceed reader, .raw (.read 0 1)]

/-- Its next operation is to consume what is no longer at the front.  That is refused, and not for bytes
that are not there. -/
theorem never_slips_overtaken :
    let c : Crowd Builtin World :=
      (pristine (fun _ => {}) (fun _ => false) ({}, {})).play (fun _ _ => 2) overtakenReader
    ∃ s, c.AboutTo ⟨1, "reader"⟩
        (.performPipe s (.deferred (.pipeRead 0) (.read 0 [7, 8])) : Primitive World _) ∧
      ¬ (.performPipe s (.deferred (.pipeRead 0) (.read 0 [7, 8])) : Primitive World _).Slips c.world.1 ∧
      (s.applyRecord (.deferred (.pipeRead 0) (.read 0 [7, 8])) c.world.1).1 ≠ .ok () := by
  intro c
  refine ⟨_, ⟨_, rfl⟩, ?_, by decide⟩
  exact (never_slips (fun _ _ => 2) (fun _ => {}) (fun _ => false) (({}, {}) : World × World)
    overtakenReader ⟨1, "reader"⟩).1 _ _ ⟨_, rfl⟩

end Crowd

end Transact
