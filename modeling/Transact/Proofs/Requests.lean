/-
# Transact.Proofs.Requests -- what comes of a request for locks

Giving back a list of locks frees those that are the owner's and changes nothing else
(`holderOf_releaseEach`).  Taking one lock after another ends in one of two ways (`Answered`): all of
them are had, or one that somebody else holds ends the request, and everything in hand is given back
with what was taken up to there.  In canonical order the one that ends it is the least that cannot be
had, and what was taken is what stands below it.

Main statement: `acquireAll_refused`.
-/
import Mathlib.Logic.Basic
import Transact.Proofs.Ranking

namespace Transact

set_option autoImplicit false

namespace LockTable

/-- A lock that is asked for is the owner's if it was free; nothing else changes. -/
theorem holderOf_acquired (t : LockTable) (id : ResourceId) (owner : TxId) (k : ResourceKey) :
    (t.acquire id owner).2.holderOf k =
      if k = id.key ∧ t.holderOf k = none then some owner else t.holderOf k := by
  rcases taken : t.acquire id owner with ⟨_ | _, t'⟩
  · obtain ⟨⟨other, holder, -⟩, same⟩ := acquire_false taken
    rw [same, if_neg]
    rintro ⟨rfl, free⟩
    rw [holder_eq, free] at holder
    cases holder
  · obtain ⟨free, holders⟩ := acquire_true taken
    rw [holders]
    by_cases here : k = id.key
    · subst here
      rw [holder_eq] at free
      rcases free with unheld | mine
      · simp [unheld]
      · simp [mine]
    · simp [here]

/-- A lock that is given back by its holder is free; nothing else changes. -/
theorem holderOf_released (t : LockTable) (id : ResourceId) (owner : TxId)
    (k : ResourceKey) :
    (t.release id owner).2.holderOf k =
      if k = id.key ∧ t.holderOf k = some owner then none else t.holderOf k := by
  by_cases held : t.holder id = some owner
  · rw [holderOf_release held]
    by_cases here : k = id.key
    · rw [if_pos here, if_pos ⟨here, here ▸ held⟩]
    · rw [if_neg here, if_neg fun both => here both.1]
  · rw [release, if_neg held, if_neg]
    rintro ⟨rfl, mine⟩
    exact held mine

end LockTable

namespace ResourceId

theorem mem_of_mem_insertOnce {id other : ResourceId} {ids : List ResourceId}
    (member : other ∈ insertOnce id ids) : other = id ∨ other ∈ ids := by
  induction ids with
  | nil => exact .inl (List.mem_singleton.1 member)
  | cons first rest ih =>
      rw [insertOnce] at member
      split at member
      · exact List.mem_cons.1 member
      · exact .inr member
      · rcases List.mem_cons.1 member with rfl | there
        · exact .inr List.mem_cons_self
        · exact (ih there).imp_right (List.mem_cons_of_mem _)

/-- A request asks for nothing under a name that is not on its list. -/
theorem mem_of_mem_canonical {id : ResourceId} {ids : List ResourceId}
    (member : id ∈ canonical ids) : id ∈ ids := by
  have each (acc : List ResourceId)
      (there : id ∈ ids.foldl (fun acc id => insertOnce id acc) acc) : id ∈ acc ∨ id ∈ ids := by
    clear member
    induction ids generalizing acc with
    | nil => exact .inl there
    | cons first rest ih =>
        rcases ih _ there with early | late
        · rcases mem_of_mem_insertOnce early with rfl | before
          · exact .inr List.mem_cons_self
          · exact .inl before
        · exact .inr (List.mem_cons_of_mem _ late)
  exact (each [] member).resolve_left List.not_mem_nil

end ResourceId

namespace HeldLocks

variable {owner : TxId} {h h' : HeldLocks} {t t' : LockTable}

/-- **Giving back locks** frees those of them that are the owner's; nothing else changes. -/
theorem holderOf_releaseEach (owner : TxId) (ids : List ResourceId) (t : LockTable)
    (k : ResourceKey) :
    (releaseEach owner ids t).holderOf k =
      if k ∈ ids.map ResourceId.key ∧ t.holderOf k = some owner then none else t.holderOf k := by
  induction ids generalizing t with
  | nil => rw [releaseEach, if_neg fun both => List.not_mem_nil both.1]
  | cons id rest ih =>
      rw [releaseEach, ih, LockTable.holderOf_released]
      simp only [List.map_cons, List.mem_cons]
      by_cases here : k = id.key
      · by_cases mine : t.holderOf k = some owner <;> simp [here]
      · simp [here]

/-! ## Answers -/

/-- What comes of a request for `ids` by somebody with the locks `h` in hand. -/
inductive Answered (owner : TxId) (ids : List ResourceId) (h : HeldLocks) (t : LockTable) :
    Except Error Unit × HeldLocks × LockTable → Prop where
  /-- Nobody else holds what is not in hand already; all of it is in hand then. -/
  | granted {h' : HeldLocks} {t' : LockTable}
      (open_ : ∀ id ∈ ids, id.key ∈ h.ids.map ResourceId.key ∨
        t.holderOf id.key = none ∨ t.holderOf id.key = some owner)
      (keys : ∀ k, k ∈ h'.ids.map ResourceId.key ↔
        k ∈ h.ids.map ResourceId.key ∨ k ∈ ids.map ResourceId.key)
      (distinct : (h.ids.map ResourceId.key).Nodup → (h'.ids.map ResourceId.key).Nodup)
      (holders : ∀ k, t'.holderOf k =
        if k ∈ ids.map ResourceId.key ∧ k ∉ h.ids.map ResourceId.key then some owner
        else t.holderOf k) :
      Answered owner ids h t (.ok (), h', t')
  /-- Somebody else holds `id`.  What was in hand is given back, and what was taken before it. -/
  | refused (before : List ResourceId) (id : ResourceId) (after : List ResourceId) {t' : LockTable}
      (split : ids = before ++ id :: after)
      (open_ : ∀ other ∈ before, other.key ∈ h.ids.map ResourceId.key ∨
        t.holderOf other.key = none ∨ t.holderOf other.key = some owner)
      (new : id.key ∉ h.ids.map ResourceId.key)
      (barred : ∃ other, t.holder id = some other ∧ other ≠ owner)
      (holders : ∀ k, t'.holderOf k =
        if (k ∈ h.ids.map ResourceId.key ∨ k ∈ before.map ResourceId.key) ∧
          t.holderOf k = some owner then none
        else t.holderOf k) :
      Answered owner ids h t (.error (.busy id), {}, t')

/-- What is in hand already need not be taken. -/
theorem Answered.skip {id : ResourceId} {ids : List ResourceId}
    {r : Except Error Unit × HeldLocks × LockTable} (known : id.key ∈ h.ids.map ResourceId.key)
    (answered : Answered owner ids h t r) : Answered owner (id :: ids) h t r := by
  cases answered with
  | granted open_ keys distinct holders =>
      refine .granted ?_ ?_ distinct ?_
      · intro other member
        rcases List.mem_cons.1 member with rfl | later
        · exact .inl known
        · exact open_ other later
      · intro k
        rw [keys, List.map_cons, List.mem_cons]
        constructor
        · exact Or.imp_right Or.inr
        · rintro (own | rfl | asked)
          · exact .inl own
          · exact .inl known
          · exact .inr asked
      · intro k
        rw [holders]
        refine if_congr ?_ rfl rfl
        rw [List.map_cons, List.mem_cons]
        constructor
        · exact And.imp_left Or.inr
        · rintro ⟨rfl | asked, absent⟩
          · exact absurd known absent
          · exact ⟨asked, absent⟩
  | refused before last after split open_ new barred holders =>
      refine .refused (id :: before) last after (by rw [split, List.cons_append]) ?_ new barred ?_
      · intro other member
        rcases List.mem_cons.1 member with rfl | earlier
        · exact .inl known
        · exact open_ other earlier
      · intro k
        rw [holders]
        refine if_congr (and_congr_left fun _ => ?_) rfl rfl
        rw [List.map_cons, List.mem_cons]
        constructor
        · exact Or.imp_right Or.inr
        · rintro (own | rfl | taken)
          · exact .inl own
          · exact .inl known
          · exact .inr taken

/-- A lock that is taken comes into hand before the others are asked for. -/
theorem Answered.take {id : ResourceId} {ids : List ResourceId}
    {r : Except Error Unit × HeldLocks × LockTable} (new : id.key ∉ h.ids.map ResourceId.key)
    (free : t.holder id = none ∨ t.holder id = some owner)
    (taken : ∀ k, t'.holderOf k = if k = id.key then some owner else t.holderOf k)
    (answered : Answered owner ids ⟨id :: h.ids⟩ t' r) : Answered owner (id :: ids) h t r := by
  rw [LockTable.holder_eq] at free
  -- Whoever could have a lock after this one was taken could have it before.
  have opens {k : ResourceKey} (open_ : k ∈ (id :: h.ids).map ResourceId.key ∨
      t'.holderOf k = none ∨ t'.holderOf k = some owner) :
      k ∈ h.ids.map ResourceId.key ∨ t.holderOf k = none ∨ t.holderOf k = some owner := by
    rw [List.map_cons, List.mem_cons, taken] at open_
    by_cases here : k = id.key
    · exact .inr (here ▸ free)
    · rw [if_neg here] at open_
      exact open_.imp_left fun own => own.resolve_left here
  cases answered with
  | granted open_ keys distinct holders =>
      refine .granted ?_ ?_ ?_ ?_
      · intro other member
        rcases List.mem_cons.1 member with rfl | later
        · exact .inr free
        · exact opens (open_ other later)
      · intro k
        rw [keys, List.map_cons, List.map_cons, List.mem_cons, List.mem_cons, or_assoc, or_left_comm]
      · intro once
        exact distinct (List.nodup_cons.2 ⟨new, once⟩)
      · intro k
        rw [holders, taken]
        simp only [List.map_cons, List.mem_cons]
        by_cases here : k = id.key
        · subst here
          simp [new]
        · simp [here]
  | refused before last after split open_ new' barred holders =>
      rw [List.map_cons, List.mem_cons, not_or] at new'
      refine .refused (id :: before) last after (by rw [split, List.cons_append]) ?_ new'.2 ?_ ?_
      · intro other member
        rcases List.mem_cons.1 member with rfl | earlier
        · exact .inr free
        · exact opens (open_ other earlier)
      · obtain ⟨other, holder, stranger⟩ := barred
        rw [LockTable.holder_eq, taken, if_neg new'.1] at holder
        exact ⟨other, holder, stranger⟩
      · intro k
        rw [holders, taken]
        simp only [List.map_cons, List.mem_cons]
        by_cases here : k = id.key
        · subst here
          rcases free with unheld | mine
          · simp [unheld]
          · simp [mine]
        · simp [here]

/-- **Taking one lock after another** grants all of them or comes to one that somebody else holds. -/
theorem acquireEach_answered (owner : TxId) (ids : List ResourceId) (h : HeldLocks)
    (t : LockTable) : Answered owner ids h t (acquireEach owner ids h t) := by
  induction ids generalizing h t with
  | nil =>
      refine .granted ?_ ?_ ?_ ?_
      · intro id member
        cases member
      · intro k
        rw [List.map_nil]
        exact (or_iff_left List.not_mem_nil).symm
      · exact fun once => once
      · intro k
        rw [if_neg fun both => List.not_mem_nil both.1]
  | cons id rest ih =>
      unfold acquireEach
      cases known : h.holds id with
      | true => exact (ih h t).skip ((h.holds_iff id).1 known)
      | false =>
          have new := (h.holds_eq_false id).1 known
          simp only [Bool.false_eq_true, if_false]
          rcases taken : t.acquire id owner with ⟨_ | _, t'⟩
          · obtain ⟨barred, same⟩ := LockTable.acquire_false taken
            refine .refused [] id rest rfl ?_ new barred ?_
            · intro other member
              cases member
            · intro k
              rw [releaseAll, holderOf_releaseEach, same]
              simp
          · obtain ⟨free, holders⟩ := LockTable.acquire_true taken
            exact (ih ⟨id :: h.ids⟩ t').take new free holders

theorem acquireAll_answered (owner : TxId) (ids : List ResourceId) (h : HeldLocks)
    (t : LockTable) :
    Answered owner (ResourceId.canonical ids) h t (h.acquireAll ids owner t) :=
  acquireEach_answered owner (ResourceId.canonical ids) h t

/-! ## Canonical order -/

/-- What stands before `id` in a canonical request is what was asked for and stands below it. -/
theorem mem_keys_before {ids before after : List ResourceId} {id : ResourceId}
    (split : ResourceId.canonical ids = before ++ id :: after) (k : ResourceKey) :
    k ∈ before.map ResourceId.key ↔ k ∈ ids.map ResourceId.key ∧ k.Below id.key := by
  have ascending := ResourceId.canonical_ascending ids
  rw [split, List.map_append, List.map_cons, List.pairwise_append, List.pairwise_cons] at ascending
  obtain ⟨-, ⟨later, -⟩, earlier⟩ := ascending
  rw [← ResourceId.mem_keys_canonical ids, split, List.map_append, List.map_cons, List.mem_append,
    List.mem_cons]
  constructor
  · intro member
    exact ⟨.inl member, earlier k member id.key List.mem_cons_self⟩
  · rintro ⟨member | rfl | member, below⟩
    · exact member
    · exact absurd below (ResourceKey.Below.irrefl _)
    · exact absurd (below.trans (later k member)) (ResourceKey.Below.irrefl k)

/-- **What a refused request leaves.**  It comes to the least resource asked for that is not in hand
and that somebody else holds.  Nothing is in hand then, and the owner holds nothing of what it had in
hand and of what was asked for below that resource, whether this request took it or it was held before;
everything else is held as it was.  So a refused request changes nothing exactly if nothing was in hand
and the owner held nothing of what was asked for below the resource that was refused. -/
theorem acquireAll_refused {ids : List ResourceId} {e : Error}
    (refused : h.acquireAll ids owner t = (.error e, h', t')) :
    ∃ id ∈ ids, e = .busy id ∧
      (h.holds id = false ∧ ∃ other, t.holder id = some other ∧ other ≠ owner) ∧
      (∀ before ∈ ids, before.key.Below id.key →
        h.holds before = true ∨ t.holder before = none ∨ t.holder before = some owner) ∧
      h' = {} ∧
      (∀ r : ResourceId, t'.holder r =
        if (h.holds r = true ∨ r.key ∈ ids.map ResourceId.key ∧ r.key.Below id.key) ∧
          t.holder r = some owner then none
        else t.holder r) ∧
      ((h' = h ∧ ∀ r : ResourceId, t'.holder r = t.holder r) ↔
        h = {} ∧ ∀ before ∈ ids, before.key.Below id.key → t.holder before ≠ some owner) := by
  have answered := acquireAll_answered owner ids h t
  rw [refused] at answered
  cases answered with
  | refused before id after split open_ new barred holders =>
      have below := mem_keys_before split
      have there : id ∈ ResourceId.canonical ids := by
        rw [split]
        exact List.mem_append_right _ List.mem_cons_self
      have holder (r : ResourceId) : t'.holder r =
          if (h.holds r = true ∨ r.key ∈ ids.map ResourceId.key ∧ r.key.Below id.key) ∧
            t.holder r = some owner then none
          else t.holder r := by
        rw [LockTable.holder_eq, holders]
        refine if_congr (and_congr_left fun _ => ?_) rfl rfl
        rw [holds_iff, below]
      refine ⟨id, ResourceId.mem_of_mem_canonical there, rfl, ⟨(h.holds_eq_false id).2 new, barred⟩,
        ?_, rfl, holder, ?_⟩
      · intro other member lower
        obtain ⟨name, taken, same⟩ := List.mem_map.1
          ((below other.key).2 ⟨List.mem_map_of_mem member, lower⟩)
        have had := open_ name taken
        rw [same, ← holds_iff] at had
        exact had
      · constructor
        · rintro ⟨rfl, unchanged⟩
          refine ⟨rfl, ?_⟩
          intro other member lower mine
          have after := unchanged other
          rw [holder, if_pos ⟨.inr ⟨List.mem_map_of_mem member, lower⟩, mine⟩, mine] at after
          cases after
        · rintro ⟨rfl, nobody⟩
          refine ⟨rfl, ?_⟩
          intro r
          rw [holder, if_neg]
          rintro ⟨held | ⟨asked, lower⟩, mine⟩
          · cases held
          · obtain ⟨other, member, same⟩ := List.mem_map.1 asked
            rw [LockTable.holder_eq, ← same] at mine
            exact nobody other member (same ▸ lower) mine

/-- What an earlier request took is lost with the refused one, and so is what is in hand elsewhere. -/
theorem acquireAll_refused_inHand :
    let a : TxId := ⟨1, "a"⟩
    let b : TxId := ⟨2, "b"⟩
    let t : LockTable := ((((({} : LockTable).acquire (.pipeRead 0) a).2.acquire
      (.pipeRead 1) a).2.acquire (.pipeRead 3) b).2)
    let h : HeldLocks := ⟨[.pipeRead 0]⟩
    let ids : List ResourceId := [.pipeRead 3, .pipeRead 2, .pipeRead 1, .pipeRead 2]
    let r := h.acquireAll ids a t
    r.1 = .error (.busy (.pipeRead 3)) ∧ r.2.1 ≠ h ∧
      t.holder (.pipeRead 0) = some a ∧ r.2.2.holder (.pipeRead 0) = none ∧
      t.holder (.pipeRead 1) = some a ∧ r.2.2.holder (.pipeRead 1) = none ∧
      r.2.2.holder (.pipeRead 2) = none ∧ r.2.2.holder (.pipeRead 3) = some b := by
  intro a b t h ids r
  have refused : h.acquireAll ids a t = (.error (.busy (.pipeRead 3)), r.2.1, r.2.2) := rfl
  obtain ⟨id, member, -, ⟨-, other, holder, stranger⟩, -, empty, holders, -⟩ :=
    acquireAll_refused refused
  have first : t.holder (.pipeRead 0) = some a := by decide
  have second : t.holder (.pipeRead 1) = some a := by decide
  have third : t.holder (.pipeRead 2) = none := by decide
  have last : t.holder (.pipeRead 3) = some b := by decide
  have is : id = .pipeRead 3 := by
    simp only [ids, List.mem_cons, List.not_mem_nil, or_false] at member
    rcases member with rfl | rfl | rfl | rfl
    · rfl
    · rw [third] at holder
      cases holder
    · rw [second] at holder
      exact absurd (Option.some.inj holder).symm stranger
    · rw [third] at holder
      cases holder
  subst is
  refine ⟨rfl, ?_, first, ?_, second, ?_, ?_, ?_⟩
  · rw [empty]
    decide
  · rw [holders, if_pos ⟨.inl (by decide), first⟩]
  · rw [holders, if_pos ⟨.inr (by decide), second⟩]
  · rw [holders, third, ite_self]
  · rw [holders, last]
    exact if_neg fun both => absurd both.2 (by decide)

end HeldLocks

end Transact
