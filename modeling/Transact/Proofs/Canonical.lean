/-
# Transact.Proofs.Canonical -- one request for one set of resources

Two names mean one resource when they are `Alike`: paths with the same components, the same end of the
same pipe, the same word of an application.  The key of a name says just that (`key_eq_iff`), and the
order of names is an order of keys, so sorting brings names of one resource together, and leaving out
every name that follows one like it leaves each resource once (`canonical_eq_distinct`).

What is asked for is therefore settled by which resources are asked for: in which order, how often and
in which spelling they were listed makes no difference, neither to the sequence in which the locks are
taken nor to what comes of it (`canonical_settled`).
-/
import Mathlib.Data.List.Destutter
import Mathlib.Data.List.Sort
import Transact.Proofs.Requests

namespace Transact

set_option autoImplicit false

instance : Std.Irrefl ResourceKey.Below := ⟨ResourceKey.Below.irrefl⟩

instance : Std.Antisymm ResourceKey.Below :=
  ⟨fun a _ below above => absurd (below.trans above) (ResourceKey.Below.irrefl a)⟩

/-! ## Names of one resource -/

theorem Component.rank_inj {a b : Component} (same : a.rank = b.rank) : a = b := by
  cases a <;> cases b <;> simp_all [rank]

namespace ResourceId

/-- Both mean the same resource. -/
inductive Alike : ResourceId → ResourceId → Prop where
  | path {p q : String} (components : Path.components p = Path.components q) :
      Alike (.path p) (.path q)
  | pipeRead (pipe : Nat) : Alike (.pipeRead pipe) (.pipeRead pipe)
  | pipeWrite (pipe : Nat) : Alike (.pipeWrite pipe) (.pipeWrite pipe)
  | named (name : String) : Alike (.named name) (.named name)

/-- **The key of a name says which resource it means.** -/
theorem key_eq_iff {a b : ResourceId} : a.key = b.key ↔ Alike a b := by
  constructor
  · intro same
    cases a <;> cases b <;> simp only [key, ResourceKey.mk.injEq, Nat.reduceEqDiff, false_and, true_and,
      and_true, List.cons.injEq, Prod.mk.injEq] at same
    case path.path p q =>
      exact .path (List.map_injective_iff.2 (fun _ _ => Component.rank_inj) same)
    all_goals
      subst same
      constructor
  · intro alike
    cases alike with
    | path components => simp only [key, components]
    | pipeRead | pipeWrite | named => rfl

instance (a b : ResourceId) : Decidable (Alike a b) := decidable_of_iff _ key_eq_iff

/-- Two lists are alike name by name if they have the same keys. -/
theorem forall₂_alike_iff {ids ids' : List ResourceId} :
    List.Forall₂ Alike ids ids' ↔ ids.map key = ids'.map key := by
  rw [← List.forall₂_eq_eq_eq, List.forall₂_map_left_iff, List.forall₂_map_right_iff]
  exact ⟨.imp fun _ _ => key_eq_iff.2, .imp fun _ _ => key_eq_iff.1⟩

theorem order_eq_iff {a b : ResourceId} : a.order b = .eq ↔ Alike a b := by
  rw [← key_eq_iff]
  refine ⟨key_eq_of_order, fun same => ?_⟩
  rw [order, same]
  exact Std.ReflCmp.compare_self

instance : Std.TransCmp order where
  eq_swap {a b} := @Std.OrientedCmp.eq_swap _ ResourceKey.order _ a.key b.key
  isLE_trans {a b c} := @Std.TransCmp.isLE_trans _ ResourceKey.order _ a.key b.key c.key

theorem order_swap (a b : ResourceId) : a.order b = (b.order a).swap := Std.OrientedCmp.eq_swap

theorem order_congr {a b c : ResourceId} (alike : Alike a b) : c.order a = c.order b := by
  rw [order, order, key_eq_iff.2 alike]

/-! ## Sorting -/

/-- In ascending order, with names of one resource next to each other. -/
def Ascending (ids : List ResourceId) : Prop := ids.Pairwise fun a b => (a.order b).isLE

theorem mem_insertAfter {id x : ResourceId} {ids : List ResourceId} :
    x ∈ insertAfter id ids ↔ x = id ∨ x ∈ ids := by
  induction ids with
  | nil => simp [insertAfter]
  | cons other rest ih =>
      unfold insertAfter
      split
      · simp
      · simp only [List.mem_cons, ih]
        tauto

theorem insertAfter_ascending (id : ResourceId) {ids : List ResourceId} (ascending : Ascending ids) :
    Ascending (insertAfter id ids) := by
  induction ids with
  | nil => exact List.pairwise_singleton _ _
  | cons other rest ih =>
      obtain ⟨least, others⟩ := List.pairwise_cons.1 ascending
      unfold insertAfter
      split
      · next before =>
        refine List.pairwise_cons.2 ⟨fun x member => ?_, ascending⟩
        have le : (id.order other).isLE := by rw [before]; rfl
        rcases List.mem_cons.1 member with rfl | there
        · exact le
        · exact Std.TransCmp.isLE_trans le (least x there)
      · next after =>
        refine List.pairwise_cons.2 ⟨fun x member => ?_, ih others⟩
        rcases mem_insertAfter.1 member with rfl | there
        · rw [order_swap]
          cases place : x.order other <;> first | rfl | exact absurd place after
        · exact least x there

/-- Sorting puts the names in ascending order. -/
theorem sorted_ascending (ids : List ResourceId) : Ascending (sorted ids) := by
  have each (acc : List ResourceId) (ascending : Ascending acc) :
      Ascending (ids.foldl (fun acc id => insertAfter id acc) acc) := by
    induction ids generalizing acc with
    | nil => exact ascending
    | cons id rest ih => exact ih _ (insertAfter_ascending id ascending)
  exact each [] .nil

/-! ## Leaving out what is there already -/

/-- Leave out every name that follows one of the same resource. -/
def distinct (ids : List ResourceId) : List ResourceId := ids.destutter fun a b => ¬ Alike a b

variable {id a b : ResourceId} {ids : List ResourceId}

theorem distinct_cons_alike (alike : Alike a b) :
    distinct (a :: b :: ids) = distinct (a :: ids) := by
  rw [distinct, List.destutter_cons', List.destutter'_cons_neg _ (not_not_intro alike)]
  rfl

theorem distinct_cons_other (other : ¬ Alike a b) :
    distinct (a :: b :: ids) = a :: distinct (b :: ids) := by
  rw [distinct, List.destutter_cons', List.destutter'_cons_pos _ other]
  rfl

/-- The first name stays. -/
theorem exists_distinct_cons (a : ResourceId) (ids : List ResourceId) :
    ∃ rest, distinct (a :: ids) = a :: rest := by
  induction ids with
  | nil => exact ⟨[], rfl⟩
  | cons b rest ih =>
      by_cases alike : Alike a b
      · rw [distinct_cons_alike alike]
        exact ih
      · exact ⟨_, distinct_cons_other alike⟩

/-- A name of the resource that a list begins with is left out of it. -/
theorem distinct_insertAfter_alike (alike : Alike id a) (ascending : Ascending (a :: ids)) :
    distinct (a :: insertAfter id ids) = distinct (a :: ids) := by
  have back : Alike a id := key_eq_iff.1 (key_eq_iff.2 alike).symm
  induction ids with
  | nil => exact distinct_cons_alike back
  | cons b rest ih =>
      obtain ⟨least, others⟩ := List.pairwise_cons.1 ascending
      unfold insertAfter
      split
      · exact distinct_cons_alike back
      · next after =>
        -- What is not above the name either is of the same resource.
        have same : Alike a b := by
          have le := least b List.mem_cons_self
          rw [order, ← key_eq_iff.2 alike, ← order] at le
          rw [← order_eq_iff, order, ← key_eq_iff.2 alike, ← order]
          cases place : id.order b with
          | lt => exact absurd place after
          | eq => rfl
          | gt => rw [place] at le; cases le
        rw [distinct_cons_alike same, distinct_cons_alike same]
        exact ih (List.pairwise_cons.2 ⟨fun x member => least x (List.mem_cons_of_mem b member),
          others.of_cons⟩)

/-- A name that is not above the first one goes before it, or is left out. -/
theorem distinct_insertAfter_first (ascending : Ascending (a :: ids)) (first : id.order a ≠ .gt) :
    distinct (insertAfter id (a :: ids)) = insertOnce id (distinct (a :: ids)) := by
  obtain ⟨rest, kept⟩ := exists_distinct_cons a ids
  cases place : id.order a with
  | lt =>
      have other : ¬ Alike id a := by
        rw [← order_eq_iff, place]
        decide
      rw [insertAfter, if_pos place, distinct_cons_other other, kept]
      simp only [insertOnce, place]
  | eq =>
      rw [insertAfter, if_neg (by rw [place]; decide),
        distinct_insertAfter_alike (order_eq_iff.1 place) ascending, kept]
      simp only [insertOnce, place]
  | gt => exact absurd place first

/-- **To put a name in its place and then leave out repetitions** is to put it in its place unless its
resource is there. -/
theorem distinct_insertAfter (id : ResourceId) (ascending : Ascending ids) :
    distinct (insertAfter id ids) = insertOnce id (distinct ids) := by
  cases ids with
  | nil => rfl
  | cons a rest =>
      induction rest generalizing a with
      | nil =>
          by_cases above : id.order a = .gt
          · have other : ¬ Alike a id := by
              rw [← order_eq_iff, order_swap, above]
              decide
            rw [insertAfter, if_neg (by rw [above]; decide)]
            refine (distinct_cons_other other).trans ?_
            simp [distinct, insertOnce, above]
          · exact distinct_insertAfter_first ascending above
      | cons b rest ih =>
          by_cases above : id.order a = .gt
          · obtain ⟨least, others⟩ := List.pairwise_cons.1 ascending
            rw [insertAfter, if_neg (by rw [above]; decide)]
            by_cases alike : Alike a b
            · have aboveNext : id.order b = .gt := by rw [← order_congr alike, above]
              have shorter : Ascending (a :: rest) := List.pairwise_cons.2
                ⟨fun x member => least x (List.mem_cons_of_mem b member), others.of_cons⟩
              have inner := ih a shorter
              rw [insertAfter, if_neg (by rw [above]; decide)] at inner
              rw [insertAfter, if_neg (by rw [aboveNext]; decide), distinct_cons_alike alike,
                distinct_cons_alike alike]
              exact inner
            · -- The first name stays first, whatever comes next.
              have next : ∃ c tail, insertAfter id (b :: rest) = c :: tail ∧ ¬ Alike a c := by
                unfold insertAfter
                split
                · refine ⟨id, _, rfl, ?_⟩
                  rw [← order_eq_iff, order_swap, above]
                  decide
                · exact ⟨b, _, rfl, alike⟩
              obtain ⟨c, tail, split, other⟩ := next
              have inner := ih b others
              rw [split] at inner ⊢
              rw [distinct_cons_other other, distinct_cons_other alike, inner]
              simp only [insertOnce, above]
          · exact distinct_insertAfter_first ascending above

/-- **A request is the sorted list without repetitions.** -/
theorem canonical_eq_distinct (ids : List ResourceId) : canonical ids = distinct (sorted ids) := by
  have each (acc : List ResourceId) (ascending : Ascending acc) :
      ids.foldl (fun acc id => insertOnce id acc) (distinct acc) =
        distinct (ids.foldl (fun acc id => insertAfter id acc) acc) := by
    induction ids generalizing acc with
    | nil => rfl
    | cons id rest ih =>
        rw [List.foldl_cons, List.foldl_cons, ← distinct_insertAfter id ascending]
        exact ih _ (insertAfter_ascending id ascending)
  exact each [] .nil

theorem key_mem_iff {ids : List ResourceId} {id : ResourceId} :
    id.key ∈ ids.map key ↔ ∃ a ∈ ids, Alike a id := by
  simp only [List.mem_map, key_eq_iff]

/-- Of every resource of the list there is one name in the request, and of no other. -/
theorem countP_canonical (ids : List ResourceId) (id : ResourceId) :
    (canonical ids).countP (fun a => Alike a id) = if ∃ a ∈ ids, Alike a id then 1 else 0 := by
  have count : (canonical ids).countP (fun a => Alike a id) = ((canonical ids).map key).count id.key := by
    rw [List.count_eq_countP, List.countP_map]
    refine List.countP_congr fun a _ => ?_
    simp only [Function.comp_apply, decide_eq_true_eq, beq_iff_eq, key_eq_iff]
  rw [count, (canonical_ascending ids).nodup.count]
  exact if_congr ((mem_keys_canonical ids id.key).trans key_mem_iff) rfl rfl

/-! ## Locks and versions -/

/-- Every call on a lock or a version comes to the same by either name. -/
structure Shares (a b : ResourceId) : Prop where
  holder : ∀ t : LockTable, t.holder a = t.holder b
  acquire : ∀ (t : LockTable) (who : TxId), t.acquire a who = t.acquire b who
  release : ∀ (t : LockTable) (who : TxId), t.release a who = t.release b who
  current : ∀ v : VersionTable, v.current a = v.current b
  bump : ∀ v : VersionTable, v.bump a = v.bump b

/-- No call on the lock or the version of the first is noticed at the second. -/
structure Apart (a b : ResourceId) : Prop where
  acquire : ∀ (t : LockTable) (who : TxId), (t.acquire a who).2.holder b = t.holder b
  release : ∀ (t : LockTable) (who : TxId), (t.release a who).2.holder b = t.holder b
  bump : ∀ v : VersionTable, (v.bump a).current b = v.current b

/-- **There is one lock and one version for each resource.** -/
theorem Alike.shares (alike : Alike a b) : Shares a b := by
  have same := key_eq_iff.2 alike
  have holder (t : LockTable) : t.holder a = t.holder b := by rw [LockTable.holder, same]; rfl
  have current (v : VersionTable) : v.current a = v.current b := AccessSet.current_congr v same
  refine ⟨holder, fun t who => ?_, fun t who => ?_, current, fun v => ?_⟩
  · simp only [LockTable.acquire, LockTable.track, holder, same]
  · rw [LockTable.release, holder, same]
    rfl
  · rw [VersionTable.bump, current, same]
    rfl

theorem apart (other : ¬ Alike a b) : Apart a b := by
  have ne : b.key ≠ a.key := fun same => other (key_eq_iff.1 same.symm)
  refine ⟨fun t who => ?_, fun t who => ?_, fun v => VersionTable.current_bump_of_ne v ne⟩
  · rcases taken : t.acquire a who with ⟨_ | _, t'⟩
    · exact (LockTable.acquire_false taken).2 b.key
    · exact ((LockTable.acquire_true taken).2 b.key).trans (if_neg ne)
  · by_cases held : t.holder a = some who
    · exact (LockTable.holderOf_release held b.key).trans (if_neg ne)
    · rw [LockTable.release, if_neg held]

end ResourceId

namespace HeldLocks

open ResourceId (Alike key_eq_iff forall₂_alike_iff)

theorem releaseEach_alike (owner : TxId) {ids ids' : List ResourceId}
    (alike : List.Forall₂ Alike ids ids') (t : LockTable) :
    releaseEach owner ids t = releaseEach owner ids' t := by
  induction alike generalizing t with
  | nil => rfl
  | cons first _ ih => rw [releaseEach, releaseEach, first.shares.release, ih]

/-- **What a request comes to** is settled by which resources it asks for and which are in hand. -/
theorem acquireEach_alike (owner : TxId) {ids ids' : List ResourceId}
    (alike : List.Forall₂ Alike ids ids') {h h' : HeldLocks}
    (held : List.Forall₂ Alike h.ids h'.ids) (t : LockTable) :
    let r := acquireEach owner ids h t
    let r' := acquireEach owner ids' h' t
    r.1.isOk = r'.1.isOk ∧ List.Forall₂ Alike r.2.1.ids r'.2.1.ids ∧ r.2.2 = r'.2.2 := by
  induction alike generalizing h h' t with
  | nil => exact ⟨rfl, held, rfl⟩
  | @cons id id' rest rest' first _ ih =>
      have known : h.holds id = h'.holds id' := by
        rw [Bool.eq_iff_iff, holds_iff, holds_iff, key_eq_iff.2 first, forall₂_alike_iff.1 held]
      simp only [acquireEach, known, first.shares.acquire]
      cases h'.holds id' with
      | true => exact ih held t
      | false =>
          rcases t.acquire id' owner with ⟨_ | _, t'⟩
          · exact ⟨rfl, .nil, releaseEach_alike owner held t'⟩
          · exact ih (.cons first held) t'

end HeldLocks

namespace ResourceId

/-- **A request is settled by the resources it asks for.**  Of two lists that name the same resources, in
any order, with any repetitions and in any spelling, sorting and leaving out repetitions makes the same
sequence, strictly ascending and with one name for each resource of the lists, and the locks come to the
same whichever is asked for.  Names of one resource share its lock and its version, and names of two
never do. -/
theorem canonical_settled {these those : List ResourceId}
    (same : ∀ id, (∃ a ∈ these, Alike a id) ↔ ∃ a ∈ those, Alike a id) :
    (∀ ids, canonical ids = distinct (sorted ids)) ∧
      List.Forall₂ Alike (canonical these) (canonical those) ∧
      (canonical these).Pairwise (fun a b => a.order b = .lt) ∧
      (∀ a ∈ canonical these, a ∈ these) ∧
      (∀ id, (canonical these).countP (fun a => Alike a id) =
        if ∃ a ∈ these, Alike a id then 1 else 0) ∧
      (∀ (h : HeldLocks) (who : TxId) (t : LockTable),
        (h.acquireAll these who t).1.isOk = (h.acquireAll those who t).1.isOk ∧
          (h.acquireAll these who t).2.2 = (h.acquireAll those who t).2.2) ∧
      ∀ a b, if Alike a b then Shares a b else Apart a b := by
  have within {ids ids' : List ResourceId} {k : ResourceKey}
      (named : ∀ id, (∃ a ∈ ids, Alike a id) → ∃ a ∈ ids', Alike a id) (member : k ∈ ids.map key) :
      k ∈ ids'.map key := by
    obtain ⟨a, listed, rfl⟩ := List.mem_map.1 member
    exact key_mem_iff.2 (named a ⟨a, listed, key_eq_iff.1 rfl⟩)
  have keys : (canonical these).map key = (canonical those).map key := by
    refine (canonical_ascending these).eq_of_mem_iff (canonical_ascending those) fun k => ?_
    rw [mem_keys_canonical, mem_keys_canonical]
    exact ⟨within fun id => (same id).1, within fun id => (same id).2⟩
  have alike := forall₂_alike_iff.2 keys
  refine ⟨canonical_eq_distinct, alike, List.pairwise_map.1 (canonical_ascending these),
    fun a => mem_of_mem_canonical, countP_canonical these, fun h who t => ?_, fun a b => ?_⟩
  · obtain ⟨answer, -, locks⟩ := HeldLocks.acquireEach_alike who alike
      (forall₂_alike_iff.2 (rfl : h.ids.map key = h.ids.map key)) t
    exact ⟨answer, locks⟩
  · split
    · next alike => exact alike.shares
    · next other => exact apart other

/-- One list names a file in two spellings and a pipe, the other the pipe twice and the file once. -/
theorem canonical_settled_spellings :
    canonical [.path "a//b", .pipeRead 0, .path "a/./b/"] = [.path "a//b", .pipeRead 0] ∧
      canonical [.pipeRead 0, .path "a/b", .pipeRead 0] = [.path "a/b", .pipeRead 0] ∧
      List.Forall₂ Alike (canonical [.path "a//b", .pipeRead 0, .path "a/./b/"])
        (canonical [.pipeRead 0, .path "a/b", .pipeRead 0]) := by
  have same : ∀ id, (∃ a ∈ [.path "a//b", .pipeRead 0, .path "a/./b/"], Alike a id) ↔
      ∃ a ∈ [.pipeRead 0, .path "a/b", .pipeRead 0], Alike a id := by
    intro id
    have first : key (.path "a//b") = key (.path "a/b") := by decide
    have last : key (.path "a/./b/") = key (.path "a/b") := by decide
    simp only [List.mem_cons, List.not_mem_nil, or_false, exists_eq_or_imp, exists_eq_left,
      ← key_eq_iff, first, last]
    tauto
  exact ⟨by decide, by decide, (canonical_settled same).2.1⟩

end ResourceId

end Transact
