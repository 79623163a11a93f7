/-
# Transact.Proofs.Exclusion -- effects under locks, no deadlock, no lock left behind

What the rules of locking come to in a `Crowd`, after any moves whatever from a beginning where nobody
but strangers holds locks.

* `effects_under_lock`: what a call is about to act on is locked for its transaction, and no version moves
  without its lock.
* `never_deadlocked`: a lock is asked for above all that are held, so nobody waits for himself in the end.
* `no_lock_left`: a call comes to its return, who is not in a call holds no lock, and what others hold is
  not touched.
-/
import Mathlib.Logic.Relation
import Transact.Proofs.Crowd

namespace Transact

set_option autoImplicit false

namespace Primitive

variable {V β : Type}

/-- What is entitled to its targets holds their locks. -/
theorem covered (p : Primitive V β) {held : Set ResourceKey} (entitled : p.entitled held) :
    ∀ id ∈ p.targets, id.key ∈ held := by
  intro id target
  cases p with
  | acquire id => cases target
  | borrow id => cases target
  | _ => exact entitled id target

end Primitive

namespace Crowd

variable {G V β : Type}

/-- A lock is the next thing that `who` needs, in a commit or in an undo. -/
def Requests (c : Crowd G V) (who : TxId) (id : ResourceId) : Prop :=
  c.AboutTo who (.acquire id) ∨ c.AboutTo who (.borrow id)

/-- The next thing that `who` needs is a lock that the `other` holds. -/
def Waits (c : Crowd G V) (who other : TxId) : Prop :=
  ∃ id, c.Requests who id ∧ c.world.1.locks.holder id = some other ∧ other ≠ who

section Invariant

variable {c : Crowd G V} {who : TxId}

/-- Who is in a call is no stranger. -/
theorem Sound.known (sound : c.Sound) {p : Primitive V β} (next : c.AboutTo who p) :
    c.stranger who = false := by
  obtain ⟨rest, call⟩ := next
  rw [Bool.eq_false_iff]
  intro stranger
  rw [sound.strangers who stranger] at call
  cases call

/-- **Whoever is about to do something is entitled to.** -/
theorem Sound.entitled (sound : c.Sound) {p : Primitive V β} (next : c.AboutTo who p) :
    p.entitled (c.world.1.locks.heldBy who) := by
  have mine := sound.agents who (sound.known next)
  obtain ⟨rest, call⟩ := next
  simp only [Agent.Sound, call] at mine
  exact mine.1

/-- A lock is borrowed with empty hands. -/
theorem Sound.free (sound : c.Sound) {id : ResourceId} (next : c.AboutTo who (.borrow id))
    (k : ResourceKey) : c.world.1.locks.holderOf k ≠ some who := by
  have nothingHeld : c.world.1.locks.heldBy who = ∅ := sound.entitled next
  exact fun held => Set.notMem_empty k (nothingHeld ▸ held : k ∈ (∅ : Set ResourceKey))

/-- A lock is asked for above all that are held. -/
theorem Sound.above (sound : c.Sound) {id : ResourceId} (next : c.Requests who id) {k : ResourceKey}
    (held : c.world.1.locks.holderOf k = some who) : k.Below id.key := by
  rcases next with next | next
  · exact sound.entitled next k held
  · exact absurd held (sound.free next k)

/-- Along a chain of waiting the locks asked for go up. -/
theorem Sound.ascends (sound : c.Sound) {other : TxId} (chain : Relation.TransGen c.Waits who other) :
    ∃ id, c.Requests who id ∧ ∀ id', c.Requests other id' → id.key.Below id'.key := by
  induction chain with
  | single waits =>
      obtain ⟨id, asks, held, -⟩ := waits
      exact ⟨id, asks, fun id' next => sound.above next held⟩
  | tail _ waits ih =>
      obtain ⟨id, asks, below⟩ := ih
      obtain ⟨id', asks', held, -⟩ := waits
      exact ⟨id, asks, fun last next => (below id' asks').trans (sound.above next held)⟩

end Invariant

/-! ## What the rules come to -/

section Run

variable [Participant G V]

/-- **Effects happen under the lock of the resource.**  Whatever a call is about to act on is locked for
its transaction; what it is not aimed at changes neither versions nor names nor contents, nor pipes
unless it starts a thread; and no version changes when a transaction makes a call, or when it goes on
without holding the lock. -/
theorem effects_under_lock (chunk : Nat → Nat → Nat) (config : TxId → Config)
    {stranger : TxId → Bool} {w : World × V} (foreign : Foreign stranger w) (moves : List (Move G V))
    (who : TxId) :
    let c := (start config stranger w : Crowd G V).run chunk moves
    (∀ (β : Type) (p : Primitive V β), c.AboutTo who p →
      (∀ id ∈ p.targets, c.world.1.locks.holder id = some who) ∧
        (p.targets = [] → Primitive.Harmless c.world.1 (c.proceed who).world.1 ∧
          ((c.proceed who).world.1.pipes = c.world.1.pipes ∨ p.starts = true))) ∧
      (∀ id, (c.proceed who).world.1.versions.current id ≠ c.world.1.versions.current id →
        c.world.1.locks.holder id = some who) ∧
      ∀ call, (c.step chunk (.call who call)).world.1.versions = c.world.1.versions := by
  intro c
  have sound : c.Sound := sound_run chunk (sound_start config foreign) moves
  have locked (β : Type) (p : Primitive V β) (next : c.AboutTo who p) :
      ∀ id ∈ p.targets, c.world.1.locks.holder id = some who :=
    fun id target => p.covered (sound.entitled next) id target
  refine ⟨fun β p next => ⟨locked β p next, fun aimed => ?_⟩, fun id moved => ?_, fun call => ?_⟩
  · rw [proceed_world next]
    exact p.aimless aimed who c.world
  · rcases c.proceed_cases who with same | ⟨β, p, next⟩
    · exact absurd (congrArg (fun w : World × V => w.1.versions.current id) same) moved
    · rw [proceed_world next] at moved
      obtain ⟨id', target, same⟩ := p.target_of_moved who c.world moved
      rw [LockTable.holder_eq, same, ← LockTable.holder_eq]
      exact locked β p next id' target
  · exact (c.begin_unshared chunk who call).versions

/-! A reader and a writer of one pipe commit at the same time: the writer has its lock, the reader needs
it after its own. -/

def reader : TxId := ⟨1, "reader"⟩

def writer : TxId := ⟨2, "writer"⟩

/-- A pipe with a byte in it. -/
def beginning : Crowd Builtin World :=
  start (fun _ => {}) (fun _ => false)
    ({ pipes := { pipes := ⟨[(0, { id := 0, channel := [5] })]⟩, registered := [0], next := 1 } }, {})

theorem foreign_beginning : Foreign (fun _ => false) beginning.world := by
  intro k owner held
  cases held

def crossing : List (Move Builtin World) :=
  [.call reader (.work (.readPipe 0 1)),
    .call reader (.work (.writePipe 0 [6])),
    .call writer (.work (.writePipe 0 [7])),
    .call writer .commit,
    .proceed writer,
    .call reader .commit,
    .proceed reader]

/-- The writer is about to write, under its lock. -/
theorem effects_under_lock_crossing :
    let c := beginning.run (fun _ _ => 1) (crossing ++ [.proceed writer])
    ∃ (s : Pipes) (r : Record PipeEffect), c.AboutTo writer (.performPipe s r) ∧
      ResourceId.pipeWrite 0 ∈ (Primitive.performPipe (V := World) s r).targets ∧
      c.world.1.locks.holder (.pipeWrite 0) = some writer := by
  refine ⟨_, _, ⟨_, rfl⟩, List.mem_cons_self, ?_⟩
  exact ((effects_under_lock (fun _ _ => 1) (fun _ => {}) foreign_beginning _ writer).1 _ _
    ⟨_, rfl⟩).1 _ List.mem_cons_self

/-- **Locking cannot deadlock.**  Whatever lock a transaction asks for is above all that it holds, an undo
that needs a lock of its own holds no other, and nobody waits for himself. -/
theorem never_deadlocked (chunk : Nat → Nat → Nat) (config : TxId → Config)
    {stranger : TxId → Bool} {w : World × V} (foreign : Foreign stranger w) (moves : List (Move G V)) :
    let c := (start config stranger w : Crowd G V).run chunk moves
    (∀ who id, c.Requests who id →
      ∀ k, c.world.1.locks.holderOf k = some who → k.Below id.key) ∧
      (∀ who id, c.AboutTo who (.borrow id) → ∀ k, c.world.1.locks.holderOf k ≠ some who) ∧
      ∀ who, ¬ Relation.TransGen c.Waits who who := by
  intro c
  have sound : c.Sound := sound_run chunk (sound_start config foreign) moves
  refine ⟨fun who id next k held => sound.above next held, fun who id next => sound.free next,
    fun who cycle => ?_⟩
  obtain ⟨id, asks, below⟩ := sound.ascends cycle
  exact ResourceKey.Below.irrefl _ (below id asks)

/-- The reader waits for the writer, with a lower lock in hand. -/
theorem never_deadlocked_crossing :
    let c := beginning.run (fun _ _ => 1) crossing
    c.Waits reader writer ∧ c.world.1.locks.holder (.pipeRead 0) = some reader ∧
      (ResourceId.pipeRead 0).key.Below (ResourceId.pipeWrite 0).key ∧
      ¬ Relation.TransGen c.Waits reader reader := by
  have asks : (beginning.run (fun _ _ => 1) crossing).Requests reader (.pipeWrite 0) :=
    Or.inl ⟨_, rfl⟩
  have ordered := never_deadlocked (fun _ _ => 1) (fun _ => {}) foreign_beginning crossing
  exact ⟨⟨.pipeWrite 0, asks, rfl, by decide⟩, rfl, ordered.1 reader _ asks _ rfl,
    ordered.2.2 reader⟩

/-- **No lock is left behind.**  A transaction that is in no call holds no lock, every call comes to its
return, and nothing that a transaction does moves a lock of others. -/
theorem no_lock_left (chunk : Nat → Nat → Nat) (config : TxId → Config)
    {stranger : TxId → Bool} {w : World × V} (foreign : Foreign stranger w) (moves : List (Move G V))
    (who : TxId) (known : stranger who = false) :
    let c := (start config stranger w : Crowd G V).run chunk moves
    ((c.agents who).call = none → ∀ k, c.world.1.locks.holderOf k ≠ some who) ∧
      (∃ n, ((c.run chunk (List.replicate n (.proceed who))).agents who).call = none) ∧
      ∀ m, (m = .proceed who ∨ ∃ call, m = .call who call) → ∀ owner, owner ≠ who → ∀ k,
        (c.step chunk m).world.1.locks.holderOf k = some owner ↔
          c.world.1.locks.holderOf k = some owner := by
  intro c
  have sound : c.Sound := sound_run chunk (sound_start config foreign) moves
  refine ⟨fun idle k held => ?_, c.returns chunk who, fun m mine owner ne k => ?_⟩
  · have same : c.stranger who = false := by
      rw [show c.stranger = stranger from run_stranger chunk _ moves]
      exact known
    have here := sound.agents who same
    simp only [Agent.Sound, idle] at here
    exact absurd (here.2.2 ▸ held : k ∈ (∅ : Set ResourceKey)) (Set.notMem_empty k)
  · have kept : (c.step chunk m).world.1.locks.heldBy owner = c.world.1.locks.heldBy owner := by
      rcases mine with rfl | ⟨call, rfl⟩
      · exact c.proceed_others ne
      · exact congrArg (LockTable.heldBy · owner) (c.begin_unshared chunk who call).locks
    exact Set.ext_iff.1 kept k

/-- The reader is refused what the writer holds.  When its commit has returned nothing is left in its
hands, and the writer has what it had. -/
theorem no_lock_left_refused :
    let c := beginning.run (fun _ _ => 1) (crossing ++ List.replicate 3 (.proceed reader))
    (c.agents reader).call.isNone = true ∧
      c.world.1.locks.holder (.pipeRead 0) = none ∧ c.world.1.locks.holder (.pipeWrite 0) = some writer ∧
      ∀ k, c.world.1.locks.holderOf k ≠ some reader := by
  have idle : ((beginning.run (fun _ _ => 1)
      (crossing ++ List.replicate 3 (.proceed reader))).agents reader).call = none := rfl
  exact ⟨by rw [idle]; rfl, rfl, rfl, (no_lock_left (fun _ _ => 1) (fun _ => {}) foreign_beginning _
    reader rfl).1 idle⟩

end Run

end Crowd

end Transact
