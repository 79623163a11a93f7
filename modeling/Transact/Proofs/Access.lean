/-
# Transact.Proofs.Access -- what was touched, and the locks on it

The laws of the three structures behind concurrency control.  An access set notes each resource once
and never changes a note (`AccessSet.Keyed`); it is valid when every note is current
(`validate_iff`), and publishing counts what it changes up by one and nothing else
(`current_publish`).  A lock changes hands only by `acquire` and `release`.  A request in canonical
order asks for every resource of the list and for no other (`mem_keys_canonical`).
-/
import Transact.Resource.Lock
import Transact.Resource.Version

namespace Transact

set_option autoImplicit false

/-! ## Tables -/

namespace Table

variable {κ α : Type} [DecidableEq κ]

theorem find_isSome (l : List (κ × α)) (key : κ) :
    (find l key).isSome ↔ key ∈ l.map Prod.fst := by
  induction l with
  | nil => simp [find]
  | cons e rest ih =>
      obtain ⟨k, a⟩ := e
      by_cases here : k = key
      · simp [find, here]
      · simp [find, here, ih, Ne.symm here]

theorem contains_iff (t : Table κ α) (key : κ) : t.contains key ↔ key ∈ t.keys :=
  find_isSome t.entries key

/-- What a look-up finds is an entry. -/
theorem mem_of_get? {t : Table κ α} {key : κ} {value : α} (found : t.get? key = some value) :
    (key, value) ∈ t.entries := by
  rcases t with ⟨entries⟩
  simp only [get?] at found
  induction entries with
  | nil => simp [find] at found
  | cons e rest ih =>
      obtain ⟨k, a⟩ := e
      by_cases here : k = key
      · simp only [find, here, if_true, Option.some.injEq] at found
        rw [here, found]
        exact List.mem_cons_self
      · simp only [find, here, if_false] at found
        exact List.mem_cons_of_mem _ (ih found)

/-- Where every key has one entry, the look-up finds it. -/
theorem get?_of_mem {t : Table κ α} (once : t.keys.Nodup) {key : κ} {value : α}
    (member : (key, value) ∈ t.entries) : t.get? key = some value := by
  rcases t with ⟨entries⟩
  simp only [get?, keys] at once ⊢
  induction entries with
  | nil => cases member
  | cons e rest ih =>
      obtain ⟨k, a⟩ := e
      obtain ⟨absent, onceRest⟩ := List.nodup_cons.1 once
      rcases List.mem_cons.1 member with same | there
      · cases same
        simp [find]
      · have other : k ≠ key := by
          rintro rfl
          exact absent (List.mem_map.2 ⟨_, there, rfl⟩)
        simp [find, other, ih onceRest there]

theorem put_of_absent {l : List (κ × α)} {key : κ} (absent : find l key = none) (value : α) :
    put l key value = l ++ [(key, value)] := by
  induction l with
  | nil => rfl
  | cons e rest ih =>
      obtain ⟨k, a⟩ := e
      by_cases here : k = key
      · simp [find, here] at absent
      · simp only [find, here, if_false] at absent
        simp [put, here, ih absent]

/-- A new key comes last. -/
theorem entries_set_of_absent {t : Table κ α} {key : κ} (absent : t.contains key = false)
    (value : α) : (t.set key value).entries = t.entries ++ [(key, value)] := by
  simp only [contains, Option.isSome_eq_false_iff, Option.isNone_iff_eq_none] at absent
  exact put_of_absent absent value

/-- A changed value is a changed entry. -/
theorem mem_entries_set {t : Table κ α} {key : κ} {value : α} {e : κ × α}
    (member : e ∈ (t.set key value).entries) : e ∈ t.entries ∨ e = (key, value) := by
  rcases t with ⟨entries⟩
  simp only [set] at member ⊢
  induction entries with
  | nil => exact Or.inr (List.mem_singleton.1 member)
  | cons first rest ih =>
      obtain ⟨k, a⟩ := first
      by_cases here : k = key
      · simp only [put, here, if_true, List.mem_cons] at member ⊢
        exact member.elim Or.inr fun there => Or.inl (Or.inr there)
      · simp only [put, here, if_false, List.mem_cons] at member ⊢
        rcases member with same | there
        · exact Or.inl (Or.inl same)
        · exact (ih there).imp_left Or.inr

theorem get?_modify (t : Table κ α) (key other : κ) (f : α → α) :
    (t.modify key f).get? other = if other = key then (t.get? key).map f else t.get? other := by
  unfold modify
  by_cases same : other = key
  · subst same
    rw [if_pos rfl]
    cases found : t.get? other with
    | none => exact found
    | some value => simp
  · rw [if_neg same]
    cases found : t.get? key with
    | none => rfl
    | some value => exact get?_set_of_ne _ _ same

theorem mem_entries_modify {t : Table κ α} {key : κ} {f : α → α} {e : κ × α}
    (member : e ∈ (t.modify key f).entries) :
    e ∈ t.entries ∨ ∃ value, (key, value) ∈ t.entries ∧ e = (key, f value) := by
  unfold modify at member
  split at member
  · rename_i value found
    exact (mem_entries_set member).imp_right fun same => ⟨value, mem_of_get? found, same⟩
  · exact Or.inl member

/-- The table with every value changed. -/
def map {β : Type} (f : α → β) (t : Table κ α) : Table κ β :=
  ⟨t.entries.map fun e => (e.1, f e.2)⟩

variable {β : Type}

theorem get?_map (f : α → β) (t : Table κ α) (key : κ) :
    (t.map f).get? key = (t.get? key).map f := by
  rcases t with ⟨entries⟩
  simp only [map, get?]
  induction entries with
  | nil => rfl
  | cons first rest ih =>
      obtain ⟨k, a⟩ := first
      by_cases here : k = key
      · simp [find, here]
      · simp [find, here, ih]

theorem map_set (f : α → β) (t : Table κ α) (key : κ) (value : α) :
    (t.set key value).map f = (t.map f).set key (f value) := by
  rcases t with ⟨entries⟩
  simp only [map, set, Table.mk.injEq]
  induction entries with
  | nil => rfl
  | cons first rest ih =>
      obtain ⟨k, a⟩ := first
      by_cases here : k = key
      · simp [put, here]
      · simp [put, here, ih]

theorem map_modify {f : α → β} {change : α → α} (change' : β → β)
    (commute : ∀ a, f (change a) = change' (f a)) (t : Table κ α) (key : κ) :
    (t.modify key change).map f = (t.map f).modify key change' := by
  unfold modify
  rw [get?_map]
  cases t.get? key with
  | none => rfl
  | some value => simp only [Option.map_some, map_set, commute]

end Table

/-! ## Access sets -/

namespace AccessSet

/-- Every note stands under the key of its resource, and there is one a resource; what changes is
noted. -/
structure Keyed (a : AccessSet) : Prop where
  observed : ∀ e ∈ a.observed.entries, e.2.1.key = e.1
  written : ∀ e ∈ a.written.entries, e.2.key = e.1
  observedOnce : a.observed.keys.Nodup
  writtenOnce : a.written.keys.Nodup
  within : ∀ k ∈ a.written.keys, k ∈ a.observed.keys

theorem Keyed.empty : Keyed {} where
  observed _ member := absurd member List.not_mem_nil
  written _ member := absurd member List.not_mem_nil
  observedOnce := .nil
  writtenOnce := .nil
  within _ member := absurd member List.not_mem_nil

theorem observe_known {a : AccessSet} {id : ResourceId} (known : a.observed.contains id.key = true)
    (v : VersionTable) : a.observe v id = a :=
  if_pos known

theorem observe_new {a : AccessSet} {id : ResourceId} (new : a.observed.contains id.key = false)
    (v : VersionTable) :
    a.observe v id = { a with observed := a.observed.set id.key (id, v.current id) } :=
  if_neg (by rw [new]; decide)

@[simp] theorem written_observe (a : AccessSet) (v : VersionTable) (id : ResourceId) :
    (a.observe v id).written = a.written := by
  unfold observe
  split <;> rfl

/-- A touch notes its resource and keeps the other notes. -/
theorem observed_keys_observe (a : AccessSet) (v : VersionTable) (id : ResourceId) :
    (a.observe v id).observed.keys =
      if a.observed.contains id.key then a.observed.keys else a.observed.keys ++ [id.key] := by
  cases known : a.observed.contains id.key with
  | true => rw [observe_known known, if_pos rfl]
  | false =>
      rw [observe_new known, if_neg (by decide)]
      simp only [Table.keys, Table.entries_set_of_absent known, List.map_append, List.map_cons,
        List.map_nil]

theorem mem_keys_observe (a : AccessSet) (v : VersionTable) (id : ResourceId) (k : ResourceKey) :
    k ∈ (a.observe v id).observed.keys ↔ k ∈ a.observed.keys ∨ k = id.key := by
  rw [observed_keys_observe]
  split
  · rename_i known
    rw [Table.contains_iff] at known
    exact ⟨Or.inl, fun either => either.elim (fun here => here) (fun same => same ▸ known)⟩
  · rw [List.mem_append, List.mem_singleton]

theorem Keyed.observe {a : AccessSet} (keyed : a.Keyed) (v : VersionTable) (id : ResourceId) :
    (a.observe v id).Keyed := by
  cases known : a.observed.contains id.key with
  | true =>
      rw [observe_known known]
      exact keyed
  | false =>
      have absent : id.key ∉ a.observed.keys := by
        rw [← Table.contains_iff, known]
        decide
      refine ⟨?_, ?_, ?_, ?_, ?_⟩
      · rw [observe_new known, Table.entries_set_of_absent known]
        intro e member
        rcases List.mem_append.1 member with here | there
        · exact keyed.observed e here
        · rw [List.mem_singleton.1 there]
      · rw [written_observe]
        exact keyed.written
      · rw [observed_keys_observe, known, if_neg (by decide), List.nodup_append]
        refine ⟨keyed.observedOnce, List.pairwise_singleton _ _, ?_⟩
        rintro k here other there rfl
        exact absent (List.mem_singleton.1 there ▸ here)
      · rw [written_observe]
        exact keyed.writtenOnce
      · intro k member
        rw [written_observe] at member
        exact (mem_keys_observe ..).2 (Or.inl (keyed.within k member))

theorem write_known {a : AccessSet} {id : ResourceId} (known : a.written.contains id.key = true)
    (v : VersionTable) : a.write v id = a.observe v id := by
  simp only [write, written_observe, known, if_true]

theorem write_new {a : AccessSet} {id : ResourceId} (new : a.written.contains id.key = false)
    (v : VersionTable) :
    a.write v id = { a.observe v id with written := a.written.set id.key id } := by
  simp only [write, written_observe, new, Bool.false_eq_true, if_false]

@[simp] theorem observed_write (a : AccessSet) (v : VersionTable) (id : ResourceId) :
    (a.write v id).observed = (a.observe v id).observed := by
  cases known : a.written.contains id.key with
  | true => rw [write_known known]
  | false => rw [write_new known]

theorem written_keys_write (a : AccessSet) (v : VersionTable) (id : ResourceId) :
    (a.write v id).written.keys =
      if a.written.contains id.key then a.written.keys else a.written.keys ++ [id.key] := by
  cases known : a.written.contains id.key with
  | true => rw [write_known known, written_observe, if_pos rfl]
  | false =>
      rw [write_new known, if_neg (by decide)]
      simp only [Table.keys, Table.entries_set_of_absent known, List.map_append, List.map_cons,
        List.map_nil]

theorem mem_keys_write (a : AccessSet) (v : VersionTable) (id : ResourceId) (k : ResourceKey) :
    k ∈ (a.write v id).written.keys ↔ k ∈ a.written.keys ∨ k = id.key := by
  rw [written_keys_write]
  split
  · rename_i known
    rw [Table.contains_iff] at known
    exact ⟨Or.inl, fun either => either.elim (fun here => here) (fun same => same ▸ known)⟩
  · rw [List.mem_append, List.mem_singleton]

theorem Keyed.write {a : AccessSet} (keyed : a.Keyed) (v : VersionTable) (id : ResourceId) :
    (a.write v id).Keyed := by
  have seen := keyed.observe v id
  cases known : a.written.contains id.key with
  | true =>
      rw [write_known known]
      exact seen
  | false =>
      have absent : id.key ∉ a.written.keys := by
        rw [← Table.contains_iff, known]
        decide
      refine ⟨?_, ?_, ?_, ?_, ?_⟩
      · rw [observed_write]
        exact seen.observed
      · rw [write_new known, Table.entries_set_of_absent known]
        intro e member
        rcases List.mem_append.1 member with here | there
        · exact keyed.written e here
        · rw [List.mem_singleton.1 there]
      · rw [observed_write]
        exact seen.observedOnce
      · rw [written_keys_write, known, if_neg (by decide), List.nodup_append]
        refine ⟨keyed.writtenOnce, List.pairwise_singleton _ _, ?_⟩
        rintro k here other there rfl
        exact absent (List.mem_singleton.1 there ▸ here)
      · intro k member
        rw [observed_write, mem_keys_observe]
        exact ((mem_keys_write ..).1 member).imp_left (keyed.within k)

/-! ### Snapshots -/

theorem snapshot_iff {a : AccessSet} (keyed : a.Keyed) {id : ResourceId} {seen : Nat} :
    a.snapshot id = some seen ↔ ∃ name, (id.key, (name, seen)) ∈ a.observed.entries := by
  constructor
  · intro found
    obtain ⟨⟨name, version⟩, entry, rfl⟩ := Option.map_eq_some_iff.1 found
    exact ⟨name, Table.mem_of_get? entry⟩
  · rintro ⟨name, member⟩
    rw [snapshot, Table.get?_of_mem keyed.observedOnce member]
    rfl

/-- What was touched has a note. -/
theorem exists_snapshot {a : AccessSet} {id : ResourceId} (member : id.key ∈ a.observed.keys) :
    ∃ seen, a.snapshot id = some seen := by
  have known : (a.observed.get? id.key).isSome := (Table.contains_iff a.observed id.key).2 member
  obtain ⟨entry, found⟩ := Option.isSome_iff_exists.1 known
  exact ⟨entry.2, by rw [snapshot, found, Option.map_some]⟩

/-- A note stays as it is. -/
theorem snapshot_observe_kept {a : AccessSet} {id : ResourceId} {seen : Nat}
    (noted : a.snapshot id = some seen) (v : VersionTable) (other : ResourceId) :
    (a.observe v other).snapshot id = some seen := by
  cases known : a.observed.contains other.key with
  | true => rwa [observe_known known]
  | false =>
      have ne : id.key ≠ other.key := by
        intro same
        rw [snapshot, same] at noted
        simp only [Table.contains, Option.isSome_eq_false_iff, Option.isNone_iff_eq_none] at known
        rw [known] at noted
        cases noted
      rw [observe_new known, snapshot, Table.get?_set_of_ne _ _ ne]
      exact noted

/-- A new note is of the version in force. -/
theorem snapshot_of_observe {a : AccessSet} {v : VersionTable} {id other : ResourceId} {seen : Nat}
    (noted : (a.observe v other).snapshot id = some seen) :
    a.snapshot id = some seen ∨ v.current id = seen := by
  cases known : a.observed.contains other.key with
  | true =>
      rw [observe_known known] at noted
      exact Or.inl noted
  | false =>
      rw [observe_new known, snapshot] at noted
      by_cases same : id.key = other.key
      · rw [same, Table.get?_set_self] at noted
        cases noted
        exact Or.inr (by simp only [VersionTable.current, same])
      · rw [Table.get?_set_of_ne _ _ same] at noted
        exact Or.inl noted

/-- A resource is current by its key. -/
theorem current_congr (v : VersionTable) {id other : ResourceId} (same : id.key = other.key) :
    v.current id = v.current other := by
  simp only [VersionTable.current, same]

/-- Valid means that every note is current. -/
theorem validate_iff {a : AccessSet} (keyed : a.Keyed) (v : VersionTable) :
    a.validate v = true ↔ ∀ id seen, a.snapshot id = some seen → v.current id = seen := by
  simp only [validate, List.all_eq_true, beq_iff_eq]
  constructor
  · intro valid id seen noted
    obtain ⟨name, member⟩ := (snapshot_iff keyed).1 noted
    have same : name.key = id.key := keyed.observed _ member
    rw [← current_congr v same]
    exact valid (name, seen) (List.mem_map_of_mem member)
  · intro current entry member
    obtain ⟨⟨k, name, seen⟩, there, rfl⟩ := List.mem_map.1 member
    have same : name.key = k := keyed.observed _ there
    refine current name seen ((snapshot_iff keyed).2 ⟨name, ?_⟩)
    rw [same]
    exact there

/-- Counting a resource up counts no other. -/
theorem current_bump (v : VersionTable) (id other : ResourceId) :
    (v.bump id).current other = v.current other + if other.key = id.key then 1 else 0 := by
  split
  · rename_i same
    rw [current_congr _ same, VersionTable.current_bump_self, current_congr v same]
  · rename_i ne
    rw [VersionTable.current_bump_of_ne v ne, Nat.add_zero]

/-! ### Publishing -/

/-- Counting up resources of different keys counts each up by one. -/
theorem current_foldl_bump (ids : List ResourceId) (once : (ids.map ResourceId.key).Nodup)
    (v : VersionTable) (id : ResourceId) :
    (ids.foldl VersionTable.bump v).current id =
      v.current id + if id.key ∈ ids.map ResourceId.key then 1 else 0 := by
  induction ids generalizing v with
  | nil => rfl
  | cons first rest ih =>
      obtain ⟨absent, onceRest⟩ := List.nodup_cons.1 once
      rw [List.foldl_cons, ih onceRest]
      by_cases here : id.key = first.key
      · have later : id.key ∉ rest.map ResourceId.key := by rw [here]; exact absent
        rw [current_bump, if_pos here, if_neg later,
          if_pos (by rw [List.map_cons, here]; exact List.mem_cons_self)]
      · rw [current_bump, if_neg here]
        simp only [List.map_cons, List.mem_cons, here, false_or, Nat.add_zero]

theorem keys_written {a : AccessSet} (keyed : a.Keyed) :
    a.writtenIds.map ResourceId.key = a.written.keys := by
  simp only [writtenIds, Table.values, Table.keys, List.map_map]
  exact List.map_congr_left fun e member => keyed.written e member

theorem keys_observed {a : AccessSet} (keyed : a.Keyed) :
    a.observedIds.map ResourceId.key = a.observed.keys := by
  simp only [observedIds, Table.values, Table.keys, List.map_map]
  exact List.map_congr_left fun e member => keyed.observed e member

/-- Publishing counts each changed resource up by one, and no other. -/
theorem current_publish {a : AccessSet} (keyed : a.Keyed) (v : VersionTable) (id : ResourceId) :
    (a.publish v).current id = v.current id + if a.isWritten id then 1 else 0 := by
  have once : (a.writtenIds.map ResourceId.key).Nodup := by
    rw [keys_written keyed]
    exact keyed.writtenOnce
  have written : id.key ∈ a.writtenIds.map ResourceId.key ↔ a.isWritten id = true := by
    rw [keys_written keyed, isWritten, Table.contains_iff]
  rw [publish, ← writtenIds, current_foldl_bump _ once]
  simp only [written]

end AccessSet

/-! ## Requests in canonical order -/

theorem compareParts_eq {as bs : List (Nat × String)} (same : compareParts as bs = .eq) :
    as = bs := by
  induction as generalizing bs with
  | nil =>
      cases bs with
      | nil => rfl
      | cons b bs => cases same
  | cons a as ih =>
      cases bs with
      | nil => cases same
      | cons b bs =>
          simp only [compareParts, compareRanks, Ordering.then_eq_eq, Nat.compare_eq_eq] at same
          obtain ⟨⟨number, text⟩, rest⟩ := same
          have head : a = b := Prod.ext number (Std.LawfulEqOrd.eq_of_compare text)
          rw [head, ih rest]

namespace ResourceId

theorem key_eq_of_order {a b : ResourceId} (same : a.order b = .eq) : a.key = b.key := by
  simp only [order, ResourceKey.order, Ordering.then_eq_eq, Nat.compare_eq_eq] at same
  obtain ⟨sort, number, parts⟩ := same
  rcases keyA : a.key with ⟨_, _, _⟩
  rcases keyB : b.key with ⟨_, _, _⟩
  rw [keyA, keyB] at sort number parts
  simp only at sort number parts
  rw [sort, number, compareParts_eq parts]

theorem mem_keys_insertOnce (id : ResourceId) (ids : List ResourceId) (k : ResourceKey) :
    k ∈ (insertOnce id ids).map key ↔ k = id.key ∨ k ∈ ids.map key := by
  induction ids with
  | nil => simp [insertOnce]
  | cons other rest ih =>
      simp only [insertOnce]
      cases place : id.order other with
      | lt => simp
      | eq =>
          have same := key_eq_of_order place
          simp [same]
      | gt =>
          simp only [List.map_cons, List.mem_cons, ih]
          constructor
          · rintro (rfl | rfl | there)
            · exact Or.inr (Or.inl rfl)
            · exact Or.inl rfl
            · exact Or.inr (Or.inr there)
          · rintro (rfl | rfl | there)
            · exact Or.inr (Or.inl rfl)
            · exact Or.inl rfl
            · exact Or.inr (Or.inr there)

/-- A request asks for the resources of its list and for no other. -/
theorem mem_keys_canonical (ids : List ResourceId) (k : ResourceKey) :
    k ∈ (canonical ids).map key ↔ k ∈ ids.map key := by
  have each : ∀ acc : List ResourceId,
      k ∈ (ids.foldl (fun acc id => insertOnce id acc) acc).map key ↔
        k ∈ acc.map key ∨ k ∈ ids.map key := by
    induction ids with
    | nil => simp
    | cons id rest ih =>
        intro acc
        rw [List.foldl_cons, ih, mem_keys_insertOnce, List.map_cons, List.mem_cons]
        constructor
        · rintro ((same | acc) | there)
          · exact Or.inr (Or.inl same)
          · exact Or.inl acc
          · exact Or.inr (Or.inr there)
        · rintro (acc | same | there)
          · exact Or.inl (Or.inr acc)
          · exact Or.inl (Or.inl same)
          · exact Or.inr there
  rw [canonical, each]
  simp

end ResourceId

/-! ## Locks -/

namespace LockTable

/-- Who holds the lock with a key. -/
def holderOf (t : LockTable) (k : ResourceKey) : Option TxId := (t.slots.get? k).join

theorem holder_eq (t : LockTable) (id : ResourceId) : t.holder id = t.holderOf id.key := rfl

/-- A lock that is taken was free or the owner's, and is the owner's then; nothing else changes. -/
theorem acquire_true {t t' : LockTable} {id : ResourceId} {owner : TxId}
    (taken : t.acquire id owner = (true, t')) :
    (t.holder id = none ∨ t.holder id = some owner) ∧
      ∀ k, t'.holderOf k = if k = id.key then some owner else t.holderOf k := by
  unfold acquire at taken
  cases held : t.holder id with
  | none =>
      simp only [held, Prod.mk.injEq, true_and] at taken
      subst taken
      refine ⟨Or.inl rfl, ?_⟩
      intro k
      split
      · rename_i same
        simp [holderOf, same]
      · rename_i other
        simp [holderOf, Table.get?_set_of_ne _ _ other]
  | some other =>
      simp only [held, Prod.mk.injEq, beq_iff_eq] at taken
      obtain ⟨rfl, rfl⟩ := taken
      refine ⟨Or.inr rfl, ?_⟩
      intro k
      split
      · rename_i same
        simp [holderOf, track, same, held]
      · rename_i other
        simp [holderOf, track, Table.get?_set_of_ne _ _ other]

/-- A lock that is refused is somebody else's; nothing changes. -/
theorem acquire_false {t t' : LockTable} {id : ResourceId} {owner : TxId}
    (refused : t.acquire id owner = (false, t')) :
    (∃ other, t.holder id = some other ∧ other ≠ owner) ∧ ∀ k, t'.holderOf k = t.holderOf k := by
  unfold acquire at refused
  cases held : t.holder id with
  | none => simp [held] at refused
  | some other =>
      simp only [held, Prod.mk.injEq, beq_eq_false_iff_ne, ne_eq] at refused
      obtain ⟨ne, rfl⟩ := refused
      refine ⟨⟨other, rfl, ne⟩, ?_⟩
      intro k
      by_cases same : k = id.key
      · simp only [holderOf, track, same, Table.get?_set_self, Option.join_some]
        rfl
      · simp only [holderOf, track, Table.get?_set_of_ne _ _ same]

/-- Whoever holds a lock gives it back; nothing else changes. -/
theorem holderOf_release {t : LockTable} {id : ResourceId} {owner : TxId}
    (held : t.holder id = some owner) (k : ResourceKey) :
    (t.release id owner).2.holderOf k = if k = id.key then none else t.holderOf k := by
  rw [release, if_pos held]
  split
  · rename_i same
    simp [holderOf, same]
  · rename_i other
    simp [holderOf, Table.get?_set_of_ne _ _ other]

end LockTable

theorem HeldLocks.holds_iff (held : HeldLocks) (id : ResourceId) :
    held.holds id = true ↔ id.key ∈ held.ids.map ResourceId.key := by
  simp only [holds, ResourceId.same, List.any_eq_true, beq_iff_eq, List.mem_map]

theorem HeldLocks.holds_eq_false (held : HeldLocks) (id : ResourceId) :
    held.holds id = false ↔ id.key ∉ held.ids.map ResourceId.key := by
  rw [← Bool.not_eq_true, holds_iff]

end Transact
