/-
# Transact.Proofs.Compensating -- reverting a log takes a store back to where it began

A participant that changes a store at once writes down what the key held before.  Reverting goes from
the newest record to the oldest, so of several changes to one key the first one is reverted last, and
what it carries is what the key held at the beginning (`undoEach_compensates`).  A callback is free to
fail on a record as long as it leaves the store alone then; that concerns the key of this record only.

Main statement: `undoAll_compensates`.  A `Keeper` is such a participant (`Keeper.undo_run`).
-/
import Transact.Proofs.Access
import Transact.Proofs.LogVisits
import Transact.Rehearsal.Players

namespace Transact.DeferredLog

set_option autoImplicit false

variable {P K X : Type} [DecidableEq K]

/-! ## Changes -/

/-- What a participant does: it changes what a key holds at once, or writes down what is to be done. -/
inductive Update (P : Type) where
  | eager (resource : ResourceId) (content : Option Bytes) (payload : P)
  | deferred (resource : ResourceId) (payload : P)

/-- The store in which `key` holds `content`, or is not there at all. -/
def holding (store : Table K Bytes) (key : K) : Option Bytes → Table K Bytes
  | some content => store.set key content
  | none => store.erase key

/-- What a key held, as the state to go back to. -/
def before : Option Bytes → PreState
  | some content => .bytes content
  | none => .absent

section

variable (keyOf : ResourceId → P → K)

/-- The record of a change made to `store`. -/
def Update.record (store : Table K Bytes) : Update P → Record P
  | .eager resource _ payload =>
      .eager resource (before (store.get? (keyOf resource payload))) payload
  | .deferred resource payload => .deferred resource payload

/-- The store after a change; what is only written down changes nothing yet. -/
def Update.perform (store : Table K Bytes) : Update P → Table K Bytes
  | .eager resource content payload => holding store (keyOf resource payload) content
  | .deferred .. => store

/-- Make the changes one by one, each with its record. -/
def performAll : List (Update P) → DeferredLog P → Table K Bytes → DeferredLog P × Table K Bytes
  | [], log, store => (log, store)
  | u :: rest, log, store =>
      performAll rest (log.append (u.record keyOf store)) (u.perform keyOf store)

/-- Go back to the state that a record carries, if it carries one of a key. -/
def restore (r : Record P) (store : Table K Bytes) : Table K Bytes :=
  match r.preState with
  | some (.bytes old) => store.set (keyOf r.resource r.payload) old
  | some .absent => store.erase (keyOf r.resource r.payload)
  | some (.offset _) | none => store

/-- A callback with a state of its own that restores what a record carries, or fails and leaves the
store as it is. -/
structure Compensator (X : Type) where
  act : Record P → Table K Bytes × X → Except Error Unit × Table K Bytes × X
  restores : ∀ r s, (act r s).1 = .ok () →
    ∀ key, (act r s).2.1.get? key = (restore keyOf r s.1).get? key
  spares : ∀ r s e, (act r s).1 = .error e → ∀ key, (act r s).2.1.get? key = s.1.get? key

/-- The callback that never fails. -/
def restoring : Compensator keyOf X where
  act r s := (.ok (), restore keyOf r s.1, s.2)
  restores _ _ _ _ := rfl
  spares _ _ _ failed := nomatch failed

/-! ## One record -/

theorem get?_holding (store : Table K Bytes) (key other : K) (content : Option Bytes) :
    (holding store key content).get? other = if other = key then content else store.get? other := by
  by_cases same : other = key
  · subst same
    cases content <;> simp [holding]
  · cases content <;> simp [holding, same, Table.get?_set_of_ne, Table.get?_erase_of_ne]

/-- Restoring what a change logged puts back what the key held; other keys keep what they hold. -/
theorem restore_record (u : Update P) (store now : Table K Bytes) (key : K)
    (stands : now.get? key = (u.perform keyOf store).get? key) :
    (restore keyOf (u.record keyOf store) now).get? key = store.get? key := by
  cases u with
  | deferred resource payload => exact stands
  | eager resource content payload =>
      have restored : restore keyOf ((Update.eager resource content payload).record keyOf store) now =
          holding now (keyOf resource payload) (store.get? (keyOf resource payload)) := by
        cases held : store.get? (keyOf resource payload) <;>
          simp [restore, Update.record, Record.eager, before, holding, held]
      rw [restored, get?_holding]
      rw [Update.perform, get?_holding] at stands
      by_cases here : key = keyOf resource payload
      · rw [if_pos here, here]
      · rw [if_neg here] at stands ⊢
        exact stands

/-- **Reverting one change** takes its key back, unless the callback fails on it; whatever it answers,
other keys keep what they hold. -/
theorem Compensator.act_record (c : Compensator (P := P) keyOf X) (u : Update P) (store : Table K Bytes)
    (s : Table K Bytes × X) (key : K) (stands : s.1.get? key = (u.perform keyOf store).get? key)
    (willing : let r := u.record keyOf store
      keyOf r.resource r.payload = key → r.preState.isSome → (c.act r s).1 = .ok ()) :
    (c.act (u.record keyOf store) s).2.1.get? key = store.get? key := by
  cases answer : (c.act (u.record keyOf store) s).1 with
  | ok _ => rw [c.restores _ _ answer, restore_record keyOf u store s.1 key stands]
  | error e =>
      rw [c.spares _ _ e answer, stands]
      cases u with
      | deferred resource payload => rfl
      | eager resource content payload =>
          rw [Update.perform, get?_holding]
          refine if_neg fun here => ?_
          have ok := willing here.symm rfl
          rw [answer] at ok
          cases ok

/-! ## The whole log -/

/-- The records of changes made one by one. -/
def recordsOf : List (Update P) → Table K Bytes → List (Record P)
  | [], _ => []
  | u :: rest, store => u.record keyOf store :: recordsOf rest (u.perform keyOf store)

theorem length_recordsOf (us : List (Update P)) (store : Table K Bytes) :
    (recordsOf keyOf us store).length = us.length := by
  induction us generalizing store with
  | nil => rfl
  | cons u rest ih => rw [recordsOf, List.length_cons, ih, List.length_cons]

theorem performAll_records (us : List (Update P)) (log : DeferredLog P) (store : Table K Bytes) :
    (performAll keyOf us log store).1.records = log.records ++ recordsOf keyOf us store := by
  induction us generalizing log store with
  | nil => exact (List.append_nil _).symm
  | cons u rest ih =>
      rw [performAll, ih, append, recordsOf, List.append_assoc, List.singleton_append]

/-- **Reverting the records** takes back every key whose change the callback did not fail to revert.  The
induction is on the changes: when the first one is reverted, the later ones have been taken back already
and the store holds what it held after this first one. -/
theorem undoEach_compensates (c : Compensator (P := P) keyOf X) (us : List (Update P))
    (log : DeferredLog P) (store : Table K Bytes) (w : Watched P (Table K Bytes × X)) (key : K)
    (stands : w.state.1.get? key = (performAll keyOf us log store).2.get? key) :
    let r := (undoEach (watch c.act) (recordsOf keyOf us store) w).2
    (∀ visit ∈ r.visits, keyOf visit.1.resource visit.1.payload = key → visit.1.preState.isSome →
      visit.2 = .ok ()) → r.state.1.get? key = store.get? key := by
  induction us generalizing log store with
  | nil => exact fun _ => stands
  | cons u rest ih =>
      intro r willing
      have later := ih (log.append (u.record keyOf store)) (u.perform keyOf store) stands
      have last : r = (watch c.act (u.record keyOf store)
          (undoEach (watch c.act) (recordsOf keyOf rest (u.perform keyOf store)) w).2).2 := by
        simp only [r, undoEach_foldr, recordsOf, List.foldr_cons]
      generalize (undoEach (watch c.act) (recordsOf keyOf rest (u.perform keyOf store)) w).2 = w'
        at later last
      rw [last] at willing ⊢
      simp only [watch, List.forall_mem_append, List.forall_mem_singleton] at willing ⊢
      exact c.act_record keyOf u store w'.state key (later willing.1) willing.2

end

/-- If the answer is no failure, no visit failed. -/
theorem PastFailures.visit_ok {rs : List (Record P)} {visits : List (Record P × Except Error Unit)}
    (past : PastFailures rs visits (.ok ())) {visit : Record P × Except Error Unit}
    (visited : visit ∈ visits) : visit.2 = .ok () := by
  cases past with
  | all =>
      obtain ⟨r, -, rfl⟩ := List.mem_map.1 visited
      rfl

theorem undoEach_restoring (keyOf : ResourceId → P → K) (rs : List (Record P))
    (s : Table K Bytes × X) : undoEach (restoring keyOf).act rs s =
      (.ok (), rs.foldr (restore keyOf) s.1, s.2) := by
  induction rs with
  | nil => rfl
  | cons r rest ih =>
      rw [undoEach, ih]
      rfl

/-- Each visit has the answer that the callback gave to its record in some state. -/
theorem undoEach_watch_answers (act : Record P → X → Except Error Unit × X) (rs : List (Record P))
    (x : X) : ∀ visit ∈ (undoEach (watch act) rs { state := x }).2.visits,
      ∃ now, visit.2 = (act visit.1 now).1 := by
  induction rs with
  | nil => exact fun _ visited => nomatch visited
  | cons r rest ih =>
      rw [undoEach_foldr] at ih ⊢
      simp only [List.foldr_cons, watch, List.forall_mem_append, List.forall_mem_singleton]
      exact ⟨ih, _, rfl⟩

/-- **Undoing what was done at once restores the store.**  Let changes to any keys be made one after the
other, each logged with what its key held, and let what is only to be done be logged among them.  If the
log is then reverted by the callback that restores what the records carry, every key holds what it held
before the first change, the answer is the number of records and the log is empty.  If the callback fails
on some records and leaves the store alone then, each record is still visited, the last first, and every
key holds what it held at first unless the callback failed on a change to this very key. -/
theorem undoAll_compensates (keyOf : ResourceId → P → K) (us : List (Update P)) (store : Table K Bytes)
    (x : X) :
    let done := performAll keyOf us {} store
    (∃ restored, done.1.undoAll (restoring keyOf).act (done.2, x) = (.ok us.length, {}, restored, x) ∧
      ∀ key, restored.get? key = store.get? key) ∧
    ∀ c : Compensator (P := P) keyOf X,
      let r := done.1.undoAll (watch c.act) { state := (done.2, x) }
      done.1.undoAll c.act (done.2, x) = (r.1, {}, r.2.2.state) ∧
      r.2.2.records = done.1.records.reverse ∧
      ∀ key, (∀ visit ∈ r.2.2.visits, keyOf visit.1.resource visit.1.payload = key →
        visit.1.preState.isSome → visit.2 = .ok ()) → r.2.2.state.1.get? key = store.get? key := by
  intro done
  have records : done.1.records = recordsOf keyOf us store := performAll_records keyOf us {} store
  have kept (c : Compensator (P := P) keyOf X) (key : K) :=
    undoEach_compensates keyOf c us {} store { state := (done.2, x) } key rfl
  rw [← records] at kept
  refine ⟨⟨done.1.records.foldr (restore keyOf) done.2, ?_, fun key => ?_⟩, fun c => ?_⟩
  · rw [undoAll, undoEach_restoring, size, records, length_recordsOf]
  · obtain ⟨same, visits, noted, past⟩ :=
      undoEach_watch (restoring keyOf).act done.1.records { state := (done.2, x) }
    rw [undoEach_restoring, Prod.mk.injEq] at same
    rw [← same.1] at past
    rw [← kept (restoring keyOf) key fun visit visited _ _ => past.visit_ok (by rwa [noted] at visited),
      ← same.2]
  · obtain ⟨same, empty, visits, answer, noted, past, came⟩ :=
      done.1.undoAll_watch c.act { state := (done.2, x) }
    refine ⟨?_, ?_, fun key => ?_⟩
    · rw [same, empty]
    · rw [Watched.records, noted]
      exact past.records_eq
    · rw [undoAll_foldr, ← undoEach_foldr]
      exact kept c key

end Transact.DeferredLog

/-! ## Keepers -/

namespace Transact.Rehearsal.Keeper

open DeferredLog

/-- What a keeper is asked for during a transaction. -/
inductive Request where
  | put (key : String) (data : Bytes)
  | delete (key : String)

/-- Answer the requests one by one. -/
def run : List Request → Keeper → Stage → Keeper × Stage
  | [], s, st => (s, st)
  | .put key data :: rest, s, st => run rest (s.put key data st).1 (s.put key data st).2
  | .delete key :: rest, s, st => run rest (s.delete key) st

/-- A request as a change to the store. -/
def Request.update : Request → Update KeeperEffect
  | .put key data => .eager (.named key) (some data) (.put key data)
  | .delete key => .deferred (.named key) (.delete key)

/-- A record of a keeper is about the key in its effect. -/
def keyOf (_ : ResourceId) (effect : KeeperEffect) : String := effect.key

/-- A keeper restores what a record carries, unless its key is stuck. -/
def compensator : Compensator (P := KeeperEffect) keyOf Unit where
  act r s := let (answer, store) := undoRecord r s.1; (answer, store, s.2)
  restores := by
    intro r s ok key
    by_cases stuck : isStuck r.payload.key <;> simp only [undoRecord, stuck] at ok ⊢
    · cases ok
    · rcases pre : r.preState with _ | _ | _ | _ <;> simp [pre, restore, DeferredLog.restore, keyOf]
  spares := by
    intro r s e failed key
    by_cases stuck : isStuck r.payload.key <;> simp only [undoRecord, stuck] at failed ⊢
    · rfl
    · cases failed

theorem run_performAll (requests : List Request) (s : Keeper) (st : Stage) :
    ((run requests s st).1.log, (run requests s st).2.store) =
      performAll keyOf (requests.map Request.update) s.log st.store := by
  induction requests generalizing s st with
  | nil => rfl
  | cons request rest ih =>
      cases request with
      | delete key => exact ih (s.delete key) st
      | put key data => exact ih (s.put key data st).1 (s.put key data st).2

theorem undoAll_compensator (log : DeferredLog KeeperEffect) (store : Table String Bytes) :
    (log.undoAll undoRecord store).2.2 = (undoEach compensator.act log.records (store, ())).2.1 := by
  rw [undoAll_foldr, undoEach_foldr]
  induction log.records with
  | nil => rfl
  | cons r rest ih =>
      rw [List.foldr_cons, List.foldr_cons, ih]
      rfl

/-- **A keeper that is undone** leaves nothing of what it stored, except under keys that cannot be
undone. -/
theorem undo_run (requests : List Request) (ctx : Context) (st : Stage) (key : String)
    (free : isStuck key = false) :
    let worked := run requests {} st
    (Participant.undo ctx worked.1 worked.2).2.2.store.get? key = st.store.get? key := by
  intro worked
  have performed : (worked.1.log, worked.2.store) =
      performAll keyOf (requests.map Request.update) {} st.store := run_performAll requests {} st
  have records : worked.1.log.records = recordsOf keyOf (requests.map Request.update) st.store := by
    rw [← List.nil_append (recordsOf ..)]
    exact (congrArg (·.1.records) performed).trans (performAll_records keyOf _ {} st.store)
  have willing : ∀ visit ∈ (undoEach (watch compensator.act) worked.1.log.records
      { state := (worked.2.store, ()) }).2.visits,
      keyOf visit.1.resource visit.1.payload = key → visit.1.preState.isSome → visit.2 = .ok () := by
    intro visit visited here _
    obtain ⟨now, answer⟩ := undoEach_watch_answers compensator.act _ _ visit visited
    have free : isStuck visit.1.payload.key = false := by rwa [← here] at free
    simp [answer, compensator, undoRecord, free]
  have undone : (Participant.undo ctx worked.1 worked.2).2.2.store =
      (worked.1.log.undoAll undoRecord worked.2.store).2.2 := rfl
  obtain ⟨same, -⟩ := undoEach_watch compensator.act worked.1.log.records
    { state := (worked.2.store, ()) }
  rw [undone, undoAll_compensator, same]
  rw [records] at willing ⊢
  exact undoEach_compensates keyOf compensator _ {} st.store { state := (worked.2.store, ()) } key
    (congrArg (·.2.get? key) performed) willing

end Transact.Rehearsal.Keeper
