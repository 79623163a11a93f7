/-
# Transact.Proofs.Crowd -- any number of transactions, operation by operation

In a `Crowd` any number of transactions share a world.  A transaction works, and it may begin a call
that ends it; what is left of that call goes on one operation at a time, and between two operations
anybody may do anything of theirs.  Strangers, who are no transactions, take locks and give them back,
publish resources and change files, pipes and threads.

A call that nobody interrupts is the call of an `Assembly` (`call_alone`).

The invariant is `Sound`: a transaction between calls is ready for its end and holds no lock, and one in a
call has the locks in hand with which what is left of it keeps to the rules of locking.
-/
import Mathlib.Logic.Function.Basic
import Transact.Proofs.Custody

namespace Transact

set_option autoImplicit false

/-- One transaction, with what is left of the call it is in. -/
structure Agent (G V : Type) : Type 1 where
  transaction : Transaction (Party G)
  call : Option (Procedure V (Transaction (Party G))) := none

/-- How `who` stands with the locks `held` in hand: between calls it is ready and holds none, and in a
call it has what the rest of the call needs. -/
def Agent.Sound {G V : Type} (g : Agent G V) (who : TxId) (held : Set ResourceKey) : Prop :=
  match g.call with
  | none => g.transaction.Ready ∧ g.transaction.id = who ∧ held = ∅
  | some q => q.Keeps custody (fun t held => t.Ready ∧ t.id = who ∧ held = ∅) held

/-- Transactions at work on one world, which their guests share another one besides. -/
structure Crowd (G V : Type) : Type 1 where
  world : World × V
  agents : TxId → Agent G V
  /-- Who takes locks without being a transaction. -/
  stranger : TxId → Bool

/-- What happens next. -/
inductive Move (G V : Type) where
  /-- A transaction makes a call; one that may end it is begun. -/
  | call (who : TxId) (call : PartyCall G)
  /-- The next operation of the call that a transaction is in. -/
  | proceed (who : TxId)
  /-- A stranger asks for a lock. -/
  | take (owner : TxId) (id : ResourceId)
  /-- A stranger gives a lock back. -/
  | giveBack (owner : TxId) (id : ResourceId)
  /-- Somebody publishes a resource past all transactions. -/
  | publish (id : ResourceId)
  /-- Somebody changes what transactions work on. -/
  | change (files : Filesystem) (pipes : PipeTable) (threads : ThreadTable) (v : V)

/-- The transaction that makes the move, if it is one. -/
def Move.mover {G V : Type} : Move G V → Option TxId
  | .call who _ | .proceed who => some who
  | _ => none

namespace Crowd

variable {G V : Type}

/-- Transactions at their beginning. -/
def start (config : TxId → Config) (stranger : TxId → Bool) (w : World × V) : Crowd G V where
  world := w
  agents who := { transaction := { id := who, config := config who } }
  stranger := stranger

def put (c : Crowd G V) (who : TxId) (g : Agent G V) (w : World × V) : Crowd G V :=
  { c with world := w, agents := Function.update c.agents who g }

def withLocks (c : Crowd G V) (locks : LockTable) : Crowd G V :=
  { c with world := ({ c.world.1 with locks }, c.world.2) }

/-- Nobody but strangers holds a lock. -/
def Foreign (stranger : TxId → Bool) (w : World × V) : Prop :=
  ∀ k owner, w.1.locks.holderOf k = some owner → stranger owner = true

/-! ## Going on with a call -/

section Put

variable (c : Crowd G V) (who : TxId) (g g' : Agent G V) (w w' : World × V)

@[simp] theorem put_agents : (c.put who g w).agents who = g := Function.update_self ..

@[simp] theorem put_world : (c.put who g w).world = w := rfl

@[simp] theorem put_put : (c.put who g w).put who g' w' = c.put who g' w' := by
  simp only [put, Function.update_idem]

theorem put_agents_of_ne {other : TxId} (ne : other ≠ who) :
    (c.put who g w).agents other = c.agents other :=
  Function.update_of_ne ne ..

end Put

/-- The next operation of the call that `who` is in, or its return. -/
def proceed (c : Crowd G V) (who : TxId) : Crowd G V :=
  match (c.agents who).call with
  | none => c
  | some (.done t) => c.put who { transaction := t } c.world
  | some (.act p next) =>
      let r := p.perform who c.world
      c.put who { c.agents who with call := some (next r.1) } r.2

/-- The next operation of the call of `who` is `p`. -/
def AboutTo (c : Crowd G V) (who : TxId) {β : Type} (p : Primitive V β) : Prop :=
  ∃ next, (c.agents who).call = some (.act p next)

section Proceed

variable {β : Type} {c : Crowd G V} {who : TxId}

theorem proceed_stranger (c : Crowd G V) (who : TxId) : (c.proceed who).stranger = c.stranger := by
  unfold proceed
  split <;> rfl

theorem proceed_world {p : Primitive V β} (next : c.AboutTo who p) :
    (c.proceed who).world = (p.perform who c.world).2 := by
  obtain ⟨rest, call⟩ := next
  simp only [proceed, call, put_world]

/-- What goes on either does its next operation or leaves the world as it is. -/
theorem proceed_cases (c : Crowd G V) (who : TxId) :
    (c.proceed who).world = c.world ∨ ∃ (β : Type) (p : Primitive V β), c.AboutTo who p := by
  rcases call : (c.agents who).call with _ | (t | ⟨p, next⟩)
  · simp only [proceed, call]
    exact Or.inl trivial
  · simp only [proceed, call, put_world]
    exact Or.inl trivial
  · exact Or.inr ⟨_, p, next, call⟩

/-- Whose call goes on moves no lock of others. -/
theorem proceed_others (c : Crowd G V) {who other : TxId} (ne : other ≠ who) :
    (c.proceed who).world.1.locks.heldBy other = c.world.1.locks.heldBy other := by
  rcases c.proceed_cases who with same | ⟨β, p, next⟩
  · rw [same]
  · rw [proceed_world next, p.perform_heldBy who c.world other, if_neg ne]

end Proceed

/-! ## Moves -/

section Moves

variable [Participant G V] (chunk : Nat → Nat → Nat) {who : TxId}

/-- A call of `who`, who makes one at a time. -/
def begin (c : Crowd G V) (who : TxId) (call : PartyCall G) : Crowd G V :=
  let g := c.agents who
  if c.stranger who || g.call.isSome then c
  else
    match Stepwise.steps g.transaction call with
    | some q => c.put who { g with call := some q } c.world
    | none =>
        let r := call.perform chunk g.transaction c.world
        c.put who { transaction := r.1 } r.2

def step (c : Crowd G V) : Move G V → Crowd G V
  | .call who call => c.begin chunk who call
  | .proceed who => c.proceed who
  | .take owner id =>
      if c.stranger owner then c.withLocks (c.world.1.locks.acquire id owner).2 else c
  | .giveBack owner id =>
      if c.stranger owner then c.withLocks (c.world.1.locks.release id owner).2 else c
  | .publish id => { c with world := (c.world.1.bump id, c.world.2) }
  | .change files pipes threads v =>
      { c with world := ({ c.world.1 with files, pipes, threads }, v) }

/-- One move after another. -/
def run (c : Crowd G V) (moves : List (Move G V)) : Crowd G V :=
  moves.foldl (step chunk) c

theorem step_stranger (c : Crowd G V) (m : Move G V) :
    (c.step chunk m).stranger = c.stranger := by
  cases m with
  | call who call =>
      simp only [step, begin]
      split
      · rfl
      · split <;> rfl
  | proceed who => exact c.proceed_stranger who
  | take owner id =>
      simp only [step]
      split <;> rfl
  | giveBack owner id =>
      simp only [step]
      split <;> rfl
  | publish id => rfl
  | change files pipes threads v => rfl

theorem run_stranger (c : Crowd G V) (moves : List (Move G V)) :
    (c.run chunk moves).stranger = c.stranger := by
  induction moves generalizing c with
  | nil => rfl
  | cons m rest ih => exact (ih _).trans (c.step_stranger chunk m)

/-- To begin a call takes no lock and publishes nothing. -/
theorem begin_unshared (c : Crowd G V) (who : TxId) (call : PartyCall G) :
    Unshared c.world.1 (c.begin chunk who call).world.1 := by
  simp only [begin]
  split
  · exact ⟨rfl, rfl⟩
  · split
    · exact ⟨rfl, rfl⟩
    · next taken =>
      cases call with
      | work job => exact job.perform_unshared chunk (c.agents who).transaction c.world
      | register g => exact ⟨rfl, rfl⟩
      | validate => cases taken
      | commit => cases taken
      | abort => cases taken
      | drop => cases taken

/-- Who makes no move stays as he is. -/
theorem run_other {moves : List (Move G V)} (silent : ∀ m ∈ moves, m.mover ≠ some who) (c : Crowd G V) :
    (c.run chunk moves).agents who = c.agents who := by
  induction moves generalizing c with
  | nil => rfl
  | cons m rest ih =>
      refine (ih (fun m member => silent m (List.mem_cons_of_mem _ member)) _).trans ?_
      have ne : m.mover ≠ some who := silent m List.mem_cons_self
      cases m with
      | call other call =>
          have others : who ≠ other := fun same => ne (congrArg some same.symm)
          simp only [step, begin]
          split
          · rfl
          · split <;> exact put_agents_of_ne _ _ _ _ others
      | proceed other =>
          have others : who ≠ other := fun same => ne (congrArg some same.symm)
          simp only [step, proceed]
          split
          · rfl
          · exact put_agents_of_ne _ _ _ _ others
          · exact put_agents_of_ne _ _ _ _ others
      | take owner id =>
          simp only [step]
          split <;> rfl
      | giveBack owner id =>
          simp only [step]
          split <;> rfl
      | publish id => rfl
      | change files pipes threads v => rfl

/-! ### A call without a break -/

/-- Going on alone leads to the end of the call. -/
theorem proceed_alone (c : Crowd G V) (who : TxId)
    (t : Transaction (Party G)) (q : Procedure V (Transaction (Party G))) (w : World × V) :
    ∃ n, (c.put who ⟨t, some q⟩ w).run chunk (List.replicate n (.proceed who)) =
      c.put who { transaction := (q.run who w).1 } (q.run who w).2 := by
  induction q generalizing w with
  | done t' =>
      refine ⟨1, ?_⟩
      simp only [run, List.replicate, List.foldl, step, proceed, put_agents, put_world, put_put]
      rfl
  | act p next ih =>
      obtain ⟨n, done⟩ := ih (p.perform who w).1 (p.perform who w).2
      refine ⟨n + 1, ?_⟩
      have first : (c.put who ⟨t, some (.act p next)⟩ w).step chunk (.proceed who) =
          c.put who ⟨t, some (next (p.perform who w).1)⟩ (p.perform who w).2 := by
        simp only [step, proceed, put_agents, put_world, put_put]
      rw [List.replicate_succ, run, List.foldl_cons, first]
      exact done

/-- **With nobody in between a call does what it does in one piece.** -/
theorem call_alone {c : Crowd G V}
    (known : c.stranger who = false) (idle : (c.agents who).call = none)
    (named : (c.agents who).transaction.id = who) (call : PartyCall G) :
    ∃ n, c.run chunk (.call who call :: List.replicate n (.proceed who)) =
      c.put who { transaction := (call.perform chunk (c.agents who).transaction c.world).1 }
        (call.perform chunk (c.agents who).transaction c.world).2 := by
  cases taken : Stepwise.steps (c.agents who).transaction call with
  | none =>
      refine ⟨0, ?_⟩
      simp only [run, List.replicate, List.foldl, step, begin, known, idle, Option.isSome_none,
        Bool.or_self, Bool.false_eq_true, if_false, taken]
  | some q =>
      obtain ⟨n, done⟩ := proceed_alone chunk c who (c.agents who).transaction q c.world
      refine ⟨n, ?_⟩
      have first : c.step chunk (.call who call) =
          c.put who ⟨(c.agents who).transaction, some q⟩ c.world := by
        simp only [step, begin, known, idle, Option.isSome_none, Bool.or_self, Bool.false_eq_true,
          if_false, taken]
      rw [run, List.foldl_cons, first, ← Stepwise.steps_run chunk taken, named]
      exact done

/-- A call that is begun comes to its return. -/
theorem returns (c : Crowd G V) (who : TxId) :
    ∃ n, ((c.run chunk (List.replicate n (.proceed who))).agents who).call = none := by
  cases call : (c.agents who).call with
  | none => exact ⟨0, call⟩
  | some q =>
      have same : c = c.put who ⟨(c.agents who).transaction, some q⟩ c.world := by
        rw [put, ← call, Function.update_eq_self]
      obtain ⟨n, done⟩ := proceed_alone chunk c who (c.agents who).transaction q c.world
      refine ⟨n, ?_⟩
      rw [same, done, put_agents]

end Moves

/-! ## The invariant -/

structure Sound (c : Crowd G V) : Prop where
  agents : ∀ who, c.stranger who = false → (c.agents who).Sound who (c.world.1.locks.heldBy who)
  strangers : ∀ who, c.stranger who = true → (c.agents who).call = none

variable {c : Crowd G V} {who : TxId}

theorem sound_start (config : TxId → Config) {stranger : TxId → Bool} {w : World × V}
    (foreign : Foreign stranger w) : (start config stranger w : Crowd G V).Sound where
  agents who known := by
    refine ⟨.fresh who (config who), rfl, Set.eq_empty_iff_forall_notMem.2 fun k own => ?_⟩
    have known : stranger who = false := known
    rw [foreign k who own] at known
    cases known
  strangers _ _ := rfl

/-- One agent moves, and takes no lock from the others. -/
theorem Sound.put (sound : c.Sound) (known : c.stranger who = false) {g : Agent G V} {w : World × V}
    (mine : g.Sound who (w.1.locks.heldBy who))
    (others : ∀ other, other ≠ who → w.1.locks.heldBy other = c.world.1.locks.heldBy other) :
    (c.put who g w).Sound where
  agents other known' := by
    by_cases same : other = who
    · subst same
      rw [put_agents]
      exact mine
    · rw [put_agents_of_ne _ _ _ _ same, put_world, others other same]
      exact sound.agents other known'
  strangers other stranger := by
    have ne : other ≠ who := by
      rintro rfl
      have stranger : c.stranger other = true := stranger
      rw [known] at stranger
      cases stranger
    rw [put_agents_of_ne _ _ _ _ ne]
    exact sound.strangers other stranger

/-- Strangers move, and take no lock from a transaction. -/
theorem Sound.withWorld (sound : c.Sound) {w : World × V}
    (kept : ∀ who, c.stranger who = false → w.1.locks.heldBy who = c.world.1.locks.heldBy who) :
    ({ c with world := w } : Crowd G V).Sound where
  agents who known := by
    have same := sound.agents who known
    rw [← kept who known] at same
    exact same
  strangers := sound.strangers

theorem sound_proceed (sound : c.Sound) (who : TxId) : (c.proceed who).Sound := by
  cases stranger : c.stranger who with
  | true =>
      simp only [proceed, sound.strangers who stranger]
      exact sound
  | false =>
      have mine := sound.agents who stranger
      rcases call : (c.agents who).call with _ | (t | ⟨p, next⟩)
      · simp only [proceed, call]
        exact sound
      · simp only [Agent.Sound, call] at mine
        simp only [proceed, call]
        exact sound.put stranger mine fun _ _ => rfl
      · simp only [Agent.Sound, call] at mine
        simp only [proceed, call]
        refine sound.put stranger ?_ fun other ne => ?_
        · have after := mine.2 (p.perform who c.world).1
          have held := p.perform_heldBy who c.world who
          rw [if_pos rfl] at held
          simp only [Agent.Sound]
          rw [held]
          exact after
        · rw [p.perform_heldBy who c.world other, if_neg ne]

variable [Participant G V] (chunk : Nat → Nat → Nat)

theorem sound_begin (sound : c.Sound) (who : TxId) (call : PartyCall G) :
    (c.begin chunk who call).Sound := by
  simp only [begin]
  split
  · exact sound
  · next free =>
    simp only [Bool.or_eq_true, not_or, Bool.not_eq_true, Option.isSome_eq_false_iff,
      Option.isNone_iff_eq_none] at free
    obtain ⟨known, idle⟩ := free
    have mine := sound.agents who known
    simp only [Agent.Sound, idle] at mine
    obtain ⟨ready, named, nothingHeld⟩ := mine
    split
    · next q taken =>
      refine sound.put known ?_ fun _ _ => rfl
      have keeps := Stepwise.keeps_custody ready taken
      rw [named] at keeps
      simp only [Agent.Sound, nothingHeld]
      exact keeps
    · next taken =>
      cases call with
      | work job =>
          have unshared := job.perform_unshared chunk (c.agents who).transaction c.world
          refine sound.put known ?_ fun other _ => ?_
          · refine ⟨job.perform_ready chunk ready c.world, ?_, ?_⟩
            · exact (job.perform_id chunk _ c.world).trans named
            · exact (congrArg (LockTable.heldBy · who) unshared.locks).trans nothingHeld
          · exact congrArg (LockTable.heldBy · other) unshared.locks
      | register g =>
          refine sound.put known ⟨Transaction.register_ready ready g, ?_, nothingHeld⟩ fun _ _ => rfl
          exact (Transaction.register_id _ _).trans named
      | validate => cases taken
      | commit => cases taken
      | abort => cases taken
      | drop => cases taken

/-- **Whatever happens next**, every transaction keeps to the rules. -/
theorem sound_step (sound : c.Sound) (m : Move G V) :
    (c.step chunk m).Sound := by
  have mine (owner : TxId) (stranger : c.stranger owner = true) (who : TxId)
      (known : c.stranger who = false) : who ≠ owner := by
    rintro rfl
    rw [known] at stranger
    cases stranger
  cases m with
  | call who call => exact sound_begin chunk sound who call
  | proceed who => exact sound_proceed sound who
  | take owner id =>
      simp only [step]
      split
      · next stranger =>
        refine sound.withWorld fun who known => ?_
        exact LockTable.acquire_heldBy.trans (if_neg (mine owner stranger who known))
      · exact sound
  | giveBack owner id =>
      simp only [step]
      split
      · next stranger =>
        refine sound.withWorld fun who known => ?_
        exact LockTable.release_heldBy.trans (if_neg (mine owner stranger who known))
      · exact sound
  | publish id => exact sound.withWorld fun _ _ => rfl
  | change files pipes threads v => exact sound.withWorld fun _ _ => rfl

theorem sound_run (sound : c.Sound) (moves : List (Move G V)) :
    (c.run chunk moves).Sound := by
  induction moves generalizing c with
  | nil => exact sound
  | cons m rest ih => exact ih (sound_step chunk sound m)

end Crowd

end Transact
