/-
# Transact.Proofs.Contention -- transactions that commit at the same time

A commit is not one step: between one lock and the next, one comparison of versions and the next,
one counter and the next, other transactions may do anything of theirs.  `step` is one such step of
one transaction, and `run` takes the steps of any number of transactions in any order.

A transaction touches resources in its body.  It commits by taking the lock of every resource it
touched, comparing every version it saw, counting up what it changes and giving the locks back;
where a lock or a version is refused it gives back the locks alone.  `commit_alone` says that these
are the steps of `HeldLocks.acquireAll`, `AccessSet.validate`, `AccessSet.publish` and
`HeldLocks.releaseAll`: taken without a break they come to the same.
-/
import Mathlib.Logic.Function.Basic
import Transact.Proofs.Access

namespace Transact.Contention

set_option autoImplicit false

/-! ## Steps -/

/-- Where a transaction stands, and what it has yet to do there. -/
inductive Stage where
  | body
  | locking (todo : List ResourceId)
  | validating (todo : List (ResourceId × Nat))
  | publishing (todo : List ResourceId)
  | releasing
  | ended

/-- One transaction. -/
structure Agent where
  access : AccessSet := {}
  held : HeldLocks := {}
  stage : Stage := .body

/-- All transactions, with the counters and the locks they share. -/
structure Floor where
  agents : TxId → Agent := fun _ => {}
  versions : VersionTable := {}
  locks : LockTable := {}

def Floor.put (f : Floor) (tx : TxId) (g : Agent) : Floor :=
  { f with agents := Function.update f.agents tx g }

def Floor.withLocks (f : Floor) (locks : LockTable) : Floor := { f with locks }

def Floor.withVersions (f : Floor) (versions : VersionTable) : Floor := { f with versions }

/-- What a step did that others can see or wait for. -/
inductive Event where
  /-- The first touch of a resource. -/
  | observed (tx : TxId) (resource : ResourceKey)
  | acquired (tx : TxId) (resource : ResourceKey)
  /-- Every version was found current, under all locks. -/
  | passed (tx : TxId)
  | published (tx : TxId) (resource : ResourceKey)
  | released (tx : TxId) (resource : ResourceKey)
  deriving DecidableEq

inductive Act where
  | observe (id : ResourceId)
  | write (id : ResourceId)
  | commit
  | abort
  /-- Give up before the validation is through, for a reason of one's own. -/
  | refuse
  /-- The next step of a commit. -/
  | proceed

/-- One step of a commit: one lock, one comparison, one count or one release. -/
def proceed (f : Floor) (tx : TxId) : List Event × Floor :=
  let g := f.agents tx
  match g.stage with
  | .body | .ended => ([], f)
  | .locking [] => ([], f.put tx { g with stage := .validating g.access.observed.values })
  | .locking (id :: rest) =>
      if g.held.holds id then ([], f.put tx { g with stage := .locking rest })
      else
        match f.locks.acquire id tx with
        | (true, locks) =>
            ([.acquired tx id.key], (f.withLocks locks).put tx
              { g with held := ⟨id :: g.held.ids⟩, stage := .locking rest })
        | (false, locks) => ([], (f.withLocks locks).put tx { g with stage := .releasing })
  | .validating [] =>
      ([.passed tx], f.put tx { g with stage := .publishing g.access.writtenIds })
  | .validating ((id, seen) :: rest) =>
      if f.versions.current id = seen then ([], f.put tx { g with stage := .validating rest })
      else ([], f.put tx { g with stage := .releasing })
  | .publishing [] => ([], f.put tx { g with stage := .releasing })
  | .publishing (id :: rest) =>
      ([.published tx id.key],
        (f.withVersions (f.versions.bump id)).put tx { g with stage := .publishing rest })
  | .releasing =>
      match g.held.ids with
      | [] => ([], f.put tx { g with stage := .ended })
      | id :: rest =>
          ([.released tx id.key],
            (f.withLocks (f.locks.release id tx).2).put tx { g with held := ⟨rest⟩ })

/-- One step of a transaction.  What it cannot do where it stands does nothing. -/
def step (f : Floor) (tx : TxId) (act : Act) : List Event × Floor :=
  let g := f.agents tx
  match act, g.stage with
  | .observe id, .body =>
      (if g.access.observed.contains id.key then [] else [.observed tx id.key],
        f.put tx { g with access := g.access.observe f.versions id })
  | .write id, .body =>
      (if g.access.observed.contains id.key then [] else [.observed tx id.key],
        f.put tx { g with access := g.access.write f.versions id })
  | .commit, .body =>
      ([], f.put tx { g with stage := .locking (ResourceId.canonical g.access.observedIds) })
  | .abort, .body | .refuse, .locking _ | .refuse, .validating _ =>
      ([], f.put tx { g with stage := .releasing })
  | .proceed, _ => proceed f tx
  | _, _ => ([], f)

/-- The steps of a schedule one after another: all that happened, oldest first, and what is left. -/
def run : List (TxId × Act) → Floor → List Event × Floor
  | [], f => ([], f)
  | (tx, act) :: rest, f =>
      let (events, f) := step f tx act
      let (more, f) := run rest f
      (events ++ more, f)

/-! ## A commit without a break -/

/-- `n` steps of one commit. -/
def proceedAlone (tx : TxId) : Nat → Floor → Floor
  | 0, f => f
  | n + 1, f => proceedAlone tx n (proceed f tx).2

theorem proceedAlone_add (tx : TxId) (m n : Nat) (f : Floor) :
    proceedAlone tx (m + n) f = proceedAlone tx n (proceedAlone tx m f) := by
  induction m generalizing f with
  | zero => rw [Nat.zero_add]; rfl
  | succ m ih => rw [Nat.succ_add]; exact ih _

section Floors

variable (f : Floor) (tx : TxId) (g g' : Agent) (locks : LockTable) (versions : VersionTable)

@[simp] theorem put_agents : (f.put tx g).agents tx = g := Function.update_self ..

@[simp] theorem put_versions : (f.put tx g).versions = f.versions := rfl

@[simp] theorem put_locks : (f.put tx g).locks = f.locks := rfl

@[simp] theorem put_put : (f.put tx g).put tx g' = f.put tx g' := by
  simp only [Floor.put, Function.update_idem]

@[simp] theorem put_withLocks : (f.put tx g).withLocks locks = (f.withLocks locks).put tx g := rfl

@[simp] theorem put_withVersions :
    (f.put tx g).withVersions versions = (f.withVersions versions).put tx g := rfl

end Floors

theorem put_agents_of_ne (f : Floor) {tx other : TxId} (ne : other ≠ tx) (g : Agent) :
    (f.put tx g).agents other = f.agents other :=
  Function.update_of_ne ne ..

/-- Giving the locks back one by one. -/
theorem releasing_alone (f : Floor) (tx : TxId) (access : AccessSet) (ids : List ResourceId) :
    ∃ n, proceedAlone tx n (f.put tx ⟨access, ⟨ids⟩, .releasing⟩) =
      (f.withLocks (HeldLocks.releaseEach tx ids f.locks)).put tx ⟨access, {}, .ended⟩ := by
  induction ids generalizing f with
  | nil =>
      refine ⟨1, ?_⟩
      simp only [proceedAlone, proceed, put_agents, put_put, HeldLocks.releaseEach]
      rfl
  | cons id rest ih =>
      obtain ⟨n, done⟩ := ih (f.withLocks (f.locks.release id tx).2)
      refine ⟨n + 1, ?_⟩
      simp only [proceedAlone, proceed, put_agents, put_locks, put_withLocks, put_put,
        HeldLocks.releaseEach]
      exact done

/-- Counting up one by one. -/
theorem publishing_alone (f : Floor) (tx : TxId) (access : AccessSet) (held : HeldLocks)
    (todo : List ResourceId) :
    ∃ n, proceedAlone tx n (f.put tx ⟨access, held, .publishing todo⟩) =
      (f.withVersions (todo.foldl VersionTable.bump f.versions)).put tx
        ⟨access, held, .releasing⟩ := by
  induction todo generalizing f with
  | nil =>
      refine ⟨1, ?_⟩
      simp only [proceedAlone, proceed, put_agents, put_put, List.foldl_nil]
      rfl
  | cons id rest ih =>
      obtain ⟨n, done⟩ := ih (f.withVersions (f.versions.bump id))
      refine ⟨n + 1, ?_⟩
      simp only [proceedAlone, proceed, put_agents, put_versions, put_withVersions, put_put,
        List.foldl_cons]
      exact done

/-- Comparing one by one. -/
theorem validating_alone (f : Floor) (tx : TxId) (access : AccessSet) (held : HeldLocks)
    (todo : List (ResourceId × Nat)) :
    ∃ n, proceedAlone tx n (f.put tx ⟨access, held, .validating todo⟩) =
      f.put tx ⟨access, held,
        if todo.all fun entry => f.versions.current entry.1 == entry.2 then
          .publishing access.writtenIds
        else .releasing⟩ := by
  induction todo with
  | nil =>
      refine ⟨1, ?_⟩
      simp only [proceedAlone, proceed, put_agents, put_put, List.all_nil, if_true]
  | cons entry rest ih =>
      obtain ⟨id, seen⟩ := entry
      by_cases current : f.versions.current id = seen
      · obtain ⟨n, done⟩ := ih
        refine ⟨n + 1, ?_⟩
        simp only [proceedAlone, proceed, put_agents, put_versions, put_put, current, if_true,
          List.all_cons, beq_self_eq_true, Bool.true_and]
        exact done
      · refine ⟨1, ?_⟩
        simp only [proceedAlone, proceed, put_agents, put_versions, put_put, current, if_false,
          List.all_cons, beq_iff_eq, Bool.and_eq_true, false_and]

/-- Taking locks one by one, as `HeldLocks.acquireEach` does. -/
theorem locking_alone (f : Floor) (tx : TxId) (access : AccessSet) (held : HeldLocks)
    (todo : List ResourceId) :
    ∃ n, proceedAlone tx n (f.put tx ⟨access, held, .locking todo⟩) =
      match HeldLocks.acquireEach tx todo held f.locks with
      | (.ok (), held, locks) =>
          (f.withLocks locks).put tx ⟨access, held, .validating access.observed.values⟩
      | (.error _, held, locks) => (f.withLocks locks).put tx ⟨access, held, .ended⟩ := by
  induction todo generalizing f held with
  | nil =>
      refine ⟨1, ?_⟩
      simp only [proceedAlone, proceed, put_agents, put_put, HeldLocks.acquireEach]
      rfl
  | cons id rest ih =>
      cases mine : held.holds id with
      | true =>
          obtain ⟨n, done⟩ := ih f held
          refine ⟨n + 1, ?_⟩
          simp only [proceedAlone, proceed, put_agents, put_put, mine, if_true,
            HeldLocks.acquireEach]
          exact done
      | false =>
          rcases taken : f.locks.acquire id tx with ⟨granted, locks⟩
          cases granted with
          | true =>
              obtain ⟨n, done⟩ := ih (f.withLocks locks) ⟨id :: held.ids⟩
              refine ⟨n + 1, ?_⟩
              simp only [proceedAlone, proceed, put_agents, put_locks, put_withLocks, put_put, mine,
                Bool.false_eq_true, if_false, taken, HeldLocks.acquireEach]
              exact done
          | false =>
              obtain ⟨n, done⟩ := releasing_alone (f.withLocks locks) tx access held.ids
              refine ⟨n + 1, ?_⟩
              simp only [proceedAlone, proceed, put_agents, put_locks, put_withLocks, put_put, mine,
                Bool.false_eq_true, if_false, taken, HeldLocks.acquireEach, HeldLocks.releaseAll]
              exact done

/-- **A commit that is not interrupted** is `acquireAll`, `validate`, `publish` and `releaseAll`. -/
theorem commit_alone (f : Floor) (tx : TxId) (access : AccessSet) :
    ∃ n, proceedAlone tx n (step (f.put tx { access }) tx .commit).2 =
      match HeldLocks.acquireAll {} access.observedIds tx f.locks with
      | (.error _, held, locks) => (f.withLocks locks).put tx ⟨access, held, .ended⟩
      | (.ok (), held, locks) =>
          ((f.withLocks (held.releaseAll tx locks)).withVersions
            (if access.validate f.versions then access.publish f.versions else f.versions)).put tx
            ⟨access, {}, .ended⟩ := by
  have start : (step (f.put tx { access }) tx .commit).2 =
      f.put tx ⟨access, {}, .locking (ResourceId.canonical access.observedIds)⟩ := by
    simp only [step, put_agents, put_put]
  obtain ⟨n, locked⟩ :=
    locking_alone f tx access {} (ResourceId.canonical access.observedIds)
  rw [start, HeldLocks.acquireAll]
  rcases taken : HeldLocks.acquireEach tx (ResourceId.canonical access.observedIds) {} f.locks with
    ⟨answer, held, locks⟩
  rw [taken] at locked
  cases answer with
  | error e => exact ⟨n, locked⟩
  | ok _ =>
      obtain ⟨m, checked⟩ := validating_alone (f.withLocks locks) tx access held
        access.observed.values
      have valid : (access.observed.values.all fun entry =>
          (f.withLocks locks).versions.current entry.1 == entry.2) = access.validate f.versions := rfl
      rw [valid] at checked
      cases answer : access.validate f.versions with
      | true =>
          rw [answer, if_pos rfl] at checked
          obtain ⟨p, counted⟩ := publishing_alone (f.withLocks locks) tx access held
            access.writtenIds
          obtain ⟨q, released⟩ := releasing_alone
            ((f.withLocks locks).withVersions (access.publish f.versions)) tx access held.ids
          refine ⟨n + (m + (p + q)), ?_⟩
          rw [proceedAlone_add, locked, proceedAlone_add, checked, proceedAlone_add, counted]
          exact released
      | false =>
          rw [answer, if_neg (by decide)] at checked
          obtain ⟨q, released⟩ := releasing_alone (f.withLocks locks) tx access held.ids
          refine ⟨n + (m + q), ?_⟩
          rw [proceedAlone_add, locked, proceedAlone_add, checked]
          exact released

end Transact.Contention
