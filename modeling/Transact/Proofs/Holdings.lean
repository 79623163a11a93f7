/-
# Transact.Proofs.Holdings -- what is in hand is held

Any number of owners take and give back locks, one by one or through `HeldLocks`, each of which has one
owner.  A call changes nothing but what its caller has or nobody has (`LockCall.perform_frame`).  So
what somebody has in hand can only be lost through the owner itself, and is not where the owner's calls
mind what it has in hand elsewhere: what is in hand is then held in the table at every point of every
run (`Holdings.Truthful`, `LockCall.Minds`).

Main statement: `Holdings.reached_truthful`.
-/
import Mathlib.Logic.Function.Basic
import Transact.Proofs.Requests

namespace Transact

set_option autoImplicit false

/-- A lock table, and the locks that everybody has in hand, by name. -/
structure Holdings (ν : Type) where
  locks : LockTable := {}
  held : ν → HeldLocks := fun _ => {}

/-- One call, on a single lock by `who` or through the locks called `n`. -/
inductive LockCall (ν : Type) where
  | acquire (id : ResourceId) (who : TxId)
  | release (id : ResourceId) (who : TxId)
  | acquireAll (n : ν) (ids : List ResourceId)
  | releaseAll (n : ν)

namespace LockCall

variable {ν : Type} (owner : ν → TxId)

/-- Whose call it is; locks in hand have one owner. -/
def caller : LockCall ν → TxId
  | .acquire _ who | .release _ who => who
  | .acquireAll n _ | .releaseAll n => owner n

/-- The caller does not give back one by one what it has in hand, and does not ask for what it has in
hand elsewhere. -/
def Minds (s : Holdings ν) : LockCall ν → Prop
  | .release id who => ∀ n, owner n = who → (s.held n).holds id = false
  | .acquireAll n ids => ∀ m, m ≠ n → owner m = owner n → ∀ id ∈ ids, (s.held m).holds id = false
  | .acquire _ _ | .releaseAll _ => True

variable [DecidableEq ν]

def perform : LockCall ν → Holdings ν → Holdings ν
  | .acquire id who, s => { s with locks := (s.locks.acquire id who).2 }
  | .release id who, s => { s with locks := (s.locks.release id who).2 }
  | .acquireAll n ids, s =>
      let r := (s.held n).acquireAll ids (owner n) s.locks
      { locks := r.2.2, held := Function.update s.held n r.2.1 }
  | .releaseAll n, s =>
      { locks := (s.held n).releaseAll (owner n) s.locks, held := Function.update s.held n {} }

/-- What a call changes was nobody's or the caller's. -/
theorem perform_frame (call : LockCall ν) (s : Holdings ν) {k : ResourceKey} {other : TxId}
    (stranger : other ≠ call.caller owner) (holder : s.locks.holderOf k = some other) :
    (call.perform owner s).locks.holderOf k = some other := by
  have taken : s.locks.holderOf k ≠ none := by
    rw [holder]
    exact nofun
  have foreign : s.locks.holderOf k ≠ some (call.caller owner) := by
    rw [holder]
    exact fun same => stranger (Option.some.inj same)
  cases call with
  | acquire id who =>
      show (s.locks.acquire id who).2.holderOf k = some other
      rw [LockTable.holderOf_acquired, if_neg fun both => taken both.2, holder]
  | release id who =>
      show (s.locks.release id who).2.holderOf k = some other
      rw [LockTable.holderOf_released, if_neg fun both => foreign both.2, holder]
  | acquireAll n ids =>
      show ((s.held n).acquireAll ids (owner n) s.locks).2.2.holderOf k = some other
      have answered := HeldLocks.acquireAll_answered (owner n) ids (s.held n) s.locks
      generalize (s.held n).acquireAll ids (owner n) s.locks = r at answered ⊢
      cases answered with
      | granted open_ keys distinct holders =>
          rw [holders, if_neg, holder]
          rintro ⟨asked, new⟩
          obtain ⟨id, member, rfl⟩ := List.mem_map.1 asked
          rcases open_ id member with own | unheld | mine
          · exact new own
          · exact taken unheld
          · exact foreign mine
      | refused before id after split open_ new barred holders =>
          rw [holders, if_neg fun both => foreign both.2, holder]
  | releaseAll n =>
      show (HeldLocks.releaseEach _ _ _).holderOf k = some other
      rw [HeldLocks.holderOf_releaseEach, if_neg fun both => foreign both.2, holder]

end LockCall

namespace Holdings

variable {ν : Type} {owner : ν → TxId} {s : Holdings ν}

/-- What is in hand is there once and held by its owner, and no owner has a lock in hand twice. -/
structure Truthful (owner : ν → TxId) (s : Holdings ν) : Prop where
  distinct : ∀ n, ((s.held n).ids.map ResourceId.key).Nodup
  mine : ∀ n, ∀ k ∈ (s.held n).ids.map ResourceId.key, s.locks.holderOf k = some (owner n)
  apart : ∀ m n, m ≠ n → owner m = owner n →
    ∀ k ∈ (s.held m).ids.map ResourceId.key, k ∉ (s.held n).ids.map ResourceId.key

/-- Nothing is in hand. -/
theorem Truthful.begun (owner : ν → TxId) (locks : LockTable) :
    Truthful owner { locks, held := fun _ => {} } where
  distinct _ := .nil
  mine _ _ member := absurd member List.not_mem_nil
  apart _ _ _ _ _ member := absurd member List.not_mem_nil

/-- A call on a single lock leaves what is in hand as it was. -/
theorem Truthful.locks (truthful : s.Truthful owner) {locks : LockTable}
    (kept : ∀ n, ∀ k ∈ (s.held n).ids.map ResourceId.key, locks.holderOf k = some (owner n)) :
    Truthful owner { s with locks } where
  distinct := truthful.distinct
  mine := kept
  apart := truthful.apart

variable [DecidableEq ν]

/-- A call through the locks called `n` changes those; what the owner has in hand elsewhere it keeps
and does not come to have here. -/
theorem Truthful.update (truthful : s.Truthful owner) {n : ν} {h : HeldLocks} {locks : LockTable}
    (distinct : (h.ids.map ResourceId.key).Nodup)
    (mine : ∀ k ∈ h.ids.map ResourceId.key, locks.holderOf k = some (owner n))
    (strangers : ∀ k other, other ≠ owner n → s.locks.holderOf k = some other →
      locks.holderOf k = some other)
    (elsewhere : ∀ m, m ≠ n → owner m = owner n → ∀ k ∈ (s.held m).ids.map ResourceId.key,
      locks.holderOf k = some (owner n) ∧ k ∉ h.ids.map ResourceId.key) :
    Truthful owner { locks, held := Function.update s.held n h } := by
  refine ⟨?_, ?_, ?_⟩
  · intro m
    by_cases here : m = n
    · subst here
      simpa only [Function.update_self] using distinct
    · simpa only [Function.update_of_ne here] using truthful.distinct m
  · intro m k
    by_cases here : m = n
    · subst here
      simpa only [Function.update_self] using mine k
    · simp only [Function.update_of_ne here]
      intro member
      by_cases same : owner m = owner n
      · rw [same]
        exact (elsewhere m here same k member).1
      · exact strangers k _ same (truthful.mine m k member)
  · intro m m' different same k
    by_cases here : m = n
    · subst here
      simp only [Function.update_self, Function.update_of_ne different.symm]
      intro member there
      exact (elsewhere m' different.symm same.symm k there).2 member
    · simp only [Function.update_of_ne here]
      intro member
      by_cases there : m' = n
      · subst there
        simp only [Function.update_self]
        exact (elsewhere m here same k member).2
      · simp only [Function.update_of_ne there]
        exact truthful.apart m m' different same k member

/-- **One call keeps what is in hand held**, if it minds what its owner has in hand elsewhere. -/
theorem Truthful.perform (truthful : s.Truthful owner) {call : LockCall ν}
    (minds : call.Minds owner s) : (call.perform owner s).Truthful owner := by
  have frame (k : ResourceKey) (other : TxId) (stranger : other ≠ call.caller owner)
      (holder : s.locks.holderOf k = some other) := call.perform_frame owner s stranger holder
  cases call with
  | acquire id who =>
      refine truthful.locks ?_
      intro n k member
      rw [LockTable.holderOf_acquired, if_neg, truthful.mine n k member]
      rintro ⟨-, free⟩
      rw [truthful.mine n k member] at free
      cases free
  | release id who =>
      refine truthful.locks ?_
      intro n k member
      have held := truthful.mine n k member
      by_cases same : owner n = who
      · rw [LockTable.holderOf_released, if_neg, held]
        rintro ⟨rfl, -⟩
        exact (HeldLocks.holds_eq_false _ id).1 (minds n same) member
      · exact frame k _ same held
  | acquireAll n ids =>
      have answered := HeldLocks.acquireAll_answered (owner n) ids (s.held n) s.locks
      simp only [LockCall.perform, LockCall.caller] at frame ⊢
      generalize (s.held n).acquireAll ids (owner n) s.locks = r at answered frame ⊢
      -- What the owner has in hand elsewhere is not asked for.
      have unasked (m : ν) (different : m ≠ n) (same : owner m = owner n) (k : ResourceKey)
          (member : k ∈ (s.held m).ids.map ResourceId.key) :
          k ∉ (ResourceId.canonical ids).map ResourceId.key := by
        rw [ResourceId.mem_keys_canonical]
        intro asked
        obtain ⟨id, there, rfl⟩ := List.mem_map.1 asked
        exact (HeldLocks.holds_eq_false _ id).1 (minds m different same id there) member
      cases answered with
      | granted open_ keys distinct holders =>
          refine truthful.update (distinct (truthful.distinct n)) ?_ frame ?_
          · intro k member
            by_cases own : k ∈ (s.held n).ids.map ResourceId.key
            · rw [holders, if_neg fun both => both.2 own]
              exact truthful.mine n k own
            · rw [holders, if_pos ⟨((keys k).1 member).resolve_left own, own⟩]
          · intro m different same k member
            have absent := unasked m different same k member
            constructor
            · rw [holders, if_neg fun both => absent both.1, truthful.mine m k member, same]
            · intro there
              rcases (keys k).1 there with own | asked
              · exact truthful.apart m n different same k member own
              · exact absent asked
      | refused before id after split open_ new barred holders =>
          refine truthful.update .nil (fun k member => absurd member List.not_mem_nil) frame ?_
          intro m different same k member
          refine ⟨?_, List.not_mem_nil⟩
          rw [holders, if_neg, truthful.mine m k member, same]
          rintro ⟨own | taken, -⟩
          · exact truthful.apart m n different same k member own
          · refine unasked m different same k member ?_
            rw [split, List.map_append]
            exact List.mem_append_left _ taken
  | releaseAll n =>
      refine truthful.update .nil (fun k member => absurd member List.not_mem_nil) frame ?_
      intro m different same k member
      refine ⟨?_, List.not_mem_nil⟩
      rw [HeldLocks.releaseAll, HeldLocks.holderOf_releaseEach, if_neg, truthful.mine m k member, same]
      rintro ⟨there, -⟩
      exact truthful.apart m n different same k member there

/-! ## Runs -/

/-- The states of runs in which everybody minds what it has in hand; nothing is in hand at first. -/
inductive Reached (owner : ν → TxId) : Holdings ν → Prop where
  | begun (locks : LockTable) : Reached owner { locks, held := fun _ => {} }
  | called {s : Holdings ν} (reached : Reached owner s) (call : LockCall ν)
      (minds : call.Minds owner s) : Reached owner (call.perform owner s)

theorem Reached.truthful (reached : s.Reached owner) : s.Truthful owner := by
  induction reached with
  | begun locks => exact .begun owner locks
  | called _ call minds ih => exact ih.perform minds

omit [DecidableEq ν] in
/-- Where what is in hand is held, a request is granted exactly if nobody else holds what it asks for,
and what is in hand then is what was and what was asked for. -/
theorem Truthful.acquireAll_granted (truthful : s.Truthful owner) (n : ν) (ids : List ResourceId) :
    let r := (s.held n).acquireAll ids (owner n) s.locks
    (r.1 = .ok () ↔ ∀ id ∈ ids, ∀ other, s.locks.holder id = some other → other = owner n) ∧
      (r.1 = .ok () → ∀ id, r.2.1.holds id = true ↔
        (s.held n).holds id = true ∨ id.key ∈ ids.map ResourceId.key) := by
  have answered := HeldLocks.acquireAll_answered (owner n) ids (s.held n) s.locks
  generalize (s.held n).acquireAll ids (owner n) s.locks = r at answered ⊢
  cases answered with
  | granted open_ keys distinct holders =>
      refine ⟨iff_of_true rfl ?_, fun _ id => ?_⟩
      · intro id member other holder
        obtain ⟨name, there, same⟩ :=
          List.mem_map.1 ((ResourceId.mem_keys_canonical ids _).2 (List.mem_map_of_mem member))
        have had := open_ name there
        rw [same] at had
        rw [LockTable.holder_eq] at holder
        rcases had with own | free | mine
        · rw [truthful.mine n _ own] at holder
          exact (Option.some.inj holder).symm
        · rw [free] at holder
          cases holder
        · rw [mine] at holder
          exact (Option.some.inj holder).symm
      · rw [HeldLocks.holds_iff, HeldLocks.holds_iff, keys, ResourceId.mem_keys_canonical]
  | refused before id after split open_ new barred holders =>
      refine ⟨iff_of_false (fun granted => by cases granted) ?_, fun granted => by cases granted⟩
      intro unopposed
      obtain ⟨other, holder, stranger⟩ := barred
      have there : id ∈ ids := ResourceId.mem_of_mem_canonical (by
        rw [split]
        exact List.mem_append_right _ List.mem_cons_self)
      exact stranger (unopposed id there other holder)

/-- **What is in hand is held.**  At every point of a run in which everybody minds what it has in hand,
what is in hand is there once and is held by its owner; no call changes who holds what somebody else
than its caller holds; a request is granted exactly if nobody else holds what it asks for, and what is
in hand then is what was and what was asked for; and what is given back at once nobody holds. -/
theorem reached_truthful (reached : s.Reached owner) :
    (∀ n, ((s.held n).ids.map ResourceId.key).Nodup ∧
      ∀ id, (s.held n).holds id = true → s.locks.holder id = some (owner n)) ∧
    (∀ (call : LockCall ν) (id : ResourceId) (other : TxId), other ≠ call.caller owner →
      s.locks.holder id = some other → (call.perform owner s).locks.holder id = some other) ∧
    (∀ (n : ν) (ids : List ResourceId),
      let r := (s.held n).acquireAll ids (owner n) s.locks
      (r.1 = .ok () ↔ ∀ id ∈ ids, ∀ other, s.locks.holder id = some other → other = owner n) ∧
        (r.1 = .ok () → ∀ id, r.2.1.holds id = true ↔
          (s.held n).holds id = true ∨ id.key ∈ ids.map ResourceId.key)) ∧
    ∀ n id, (s.held n).holds id = true →
      ((LockCall.releaseAll n).perform owner s).locks.holder id = none := by
  have truthful := reached.truthful
  refine ⟨fun n => ⟨truthful.distinct n, ?_⟩, ?_, truthful.acquireAll_granted, ?_⟩
  · intro id held
    exact truthful.mine n _ ((HeldLocks.holds_iff _ _).1 held)
  · intro call id other stranger holder
    exact call.perform_frame owner s stranger holder
  · intro n id held
    have member := (HeldLocks.holds_iff _ _).1 held
    rw [LockTable.holder_eq]
    simp only [LockCall.perform, HeldLocks.releaseAll]
    rw [HeldLocks.holderOf_releaseEach, if_pos ⟨member, truthful.mine n _ member⟩]

/-- Two owners ask for one lock; the one that is refused has nothing in hand, and is granted the rest. -/
theorem reached_truthful_contended :
    let owner : Bool → TxId := fun n => bif n then ⟨1, "a"⟩ else ⟨2, "b"⟩
    let first : LockCall Bool := .acquireAll true [.pipeRead 1, .pipeRead 0, .pipeRead 1]
    let second : LockCall Bool := .acquireAll false [.pipeRead 2, .pipeRead 1]
    let s : Holdings Bool := second.perform owner (first.perform owner {})
    (∀ id, (s.held true).holds id = true → s.locks.holder id = some (owner true)) ∧
      (s.held true).holds (.pipeRead 0) = true ∧ (s.held true).holds (.pipeRead 1) = true ∧
      ((s.held false).acquireAll [.pipeRead 1] (owner false) s.locks).1 ≠ .ok () ∧
      ((s.held false).acquireAll [.pipeRead 2] (owner false) s.locks).1 = .ok () ∧
      ((LockCall.releaseAll true).perform owner s).locks.holder (.pipeRead 1) = none := by
  intro owner first second s
  have differ (m n : Bool) (other : m ≠ n) : owner m ≠ owner n := by
    cases m <;> cases n <;> simp_all [owner]
  have reached : s.Reached owner :=
    ((Holdings.Reached.begun {}).called first fun m other same => absurd same (differ m _ other)).called
      second fun m other same => absurd same (differ m _ other)
  obtain ⟨held, -, granted, back⟩ := reached_truthful reached
  have zero : (s.held true).holds (.pipeRead 0) = true := by decide
  have one : (s.held true).holds (.pipeRead 1) = true := by decide
  have two : s.locks.holder (.pipeRead 2) = none := by decide
  refine ⟨(held true).2, zero, one, ?_, ?_, back true _ one⟩
  · rw [ne_eq, (granted false [.pipeRead 1]).1]
    intro unopposed
    exact differ true false (by decide)
      (unopposed (.pipeRead 1) List.mem_cons_self _ ((held true).2 _ one))
  · rw [(granted false [.pipeRead 2]).1]
    intro id member other holder
    rw [List.mem_singleton.1 member, two] at holder
    cases holder

end Holdings

end Transact
