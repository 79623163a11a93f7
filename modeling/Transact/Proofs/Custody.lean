/-
# Transact.Proofs.Custody -- which locks a call has in hand

`custody` are the rules of locking, for a transaction that holds a set of keys.  A commit asks for a lock
only above all it holds; an undo borrows one only with empty hands; what has a target has the lock of the
target in hand.  Where a transaction stands by these rules is what the lock table says, and it never moves
the locks of others (`perform_heldBy`).

Every call that ends a transaction which is ready keeps to the rules, whatever it is answered on the way,
and ends with empty hands (`keeps_custody`).
-/
import Mathlib.Data.Set.Insert
import Transact.Proofs.Ranking
import Transact.Proofs.Sparing

namespace Transact

set_option autoImplicit false

/-! ## The rules -/

/-- The locks that `who` holds. -/
def LockTable.heldBy (t : LockTable) (who : TxId) : Set ResourceKey := { k | t.holderOf k = some who }

namespace Primitive

variable {V : Type}

/-- What may be done with the locks `held` in hand. -/
def entitled : {β : Type} → Primitive V β → Set ResourceKey → Prop
  | _, .acquire id, held => ∀ k ∈ held, k.Below id.key
  | _, .borrow _, held => held = ∅
  | _, p, held => ∀ id ∈ p.targets, id.key ∈ held

/-- The locks in hand afterwards. -/
def hands : {β : Type} → Primitive V β → β → Set ResourceKey → Set ResourceKey
  | _, .acquire id, granted, held => bif granted then insert id.key held else held
  | _, .borrow id, granted, held => bif granted then insert id.key held else held
  | _, .release id, _, held => held \ {id.key}
  | _, _, _, held => held

end Primitive

/-- The rules of locking. -/
def custody {V : Type} : Rules V (Set ResourceKey) where
  allowed := Primitive.entitled
  after := Primitive.hands

section Custody

variable {V β : Type}

theorem custody_spares (held : Set ResourceKey) : (custody (V := V)).Spares held := by
  intro β p quiet
  have aimless (p : Primitive V β) (aimed : p.targets = []) : ∀ id ∈ p.targets, id.key ∈ held := by
    rw [aimed]
    exact fun _ member => absurd member List.not_mem_nil
  cases p with
  | current id => exact ⟨aimless _ rfl, fun _ => rfl⟩
  | front pipe => exact ⟨aimless _ rfl, fun _ => rfl⟩
  | seek descriptor offset => exact ⟨aimless _ rfl, fun _ => rfl⟩
  | startThread r => exact ⟨aimless _ rfl, fun _ => rfl⟩
  | discardThread r => exact ⟨aimless _ rfl, fun _ => rfl⟩
  | guest call => exact ⟨aimless _ rfl, fun _ => rfl⟩
  | _ => cases quiet

/-! ### What the lock table says -/

end Custody

namespace LockTable

variable {t : LockTable} {id : ResourceId} {tx who : TxId}

theorem acquire_heldBy : (t.acquire id tx).2.heldBy who =
    if who = tx then bif (t.acquire id tx).1 then insert id.key (t.heldBy tx) else t.heldBy tx
    else t.heldBy who := by
  ext k
  rcases taken : t.acquire id tx with ⟨_ | _, t'⟩
  · have same := (acquire_false taken).2 k
    split
    · next mine =>
      subst mine
      simp only [heldBy, Set.mem_ofPred_eq, same, cond_false]
    · simp only [heldBy, Set.mem_ofPred_eq, same]
  · obtain ⟨free, moved⟩ := acquire_true taken
    simp only [heldBy, Set.mem_ofPred_eq, moved k]
    by_cases here : k = id.key
    · subst here
      rw [if_pos rfl]
      split
      · next mine => simp [mine]
      · next other =>
        rw [holder_eq] at free
        rcases free with free | free <;> simp [free, Ne.symm other]
    · rw [if_neg here]
      split
      · next mine => simp [mine, here]
      · rfl

theorem release_heldBy : (t.release id tx).2.heldBy who =
    if who = tx then t.heldBy tx \ {id.key} else t.heldBy who := by
  ext k
  by_cases held : t.holder id = some tx
  · have moved := holderOf_release held k
    rw [holder_eq] at held
    simp only [heldBy, Set.mem_ofPred_eq, moved]
    by_cases here : k = id.key
    · subst here
      rw [if_pos rfl]
      split
      · next mine => simp
      · next other => simp [held, Ne.symm other]
    · rw [if_neg here]
      split
      · next mine => simp [mine, here]
      · rfl
  · rw [release, if_neg held]
    rw [holder_eq] at held
    split
    · next mine =>
      subst mine
      simp only [heldBy, Set.mem_ofPred_eq, Set.mem_sdiff, Set.mem_singleton_iff]
      refine ⟨fun own => ⟨own, ?_⟩, fun own => own.1⟩
      rintro rfl
      exact held own
    · rfl

end LockTable

/-- **What is in hand by the rules is what the lock table says**, and the locks of others stay where they
are. -/
theorem Primitive.perform_heldBy {V β : Type} (p : Primitive V β) (tx : TxId) (w : World × V)
    (who : TxId) :
    (p.perform tx w).2.1.locks.heldBy who =
      if who = tx then p.hands (p.perform tx w).1 (w.1.locks.heldBy tx)
      else w.1.locks.heldBy who := by
  have still (same : (p.perform tx w).2.1.locks = w.1.locks)
      (hands : p.hands (p.perform tx w).1 (w.1.locks.heldBy tx) = w.1.locks.heldBy tx) :
      (p.perform tx w).2.1.locks.heldBy who =
        if who = tx then p.hands (p.perform tx w).1 (w.1.locks.heldBy tx)
        else w.1.locks.heldBy who := by
    rw [same, hands]
    split
    · next mine => rw [mine]
    · rfl
  cases p with
  | acquire id => exact LockTable.acquire_heldBy
  | borrow id => exact LockTable.acquire_heldBy
  | release id => exact LockTable.release_heldBy
  | current id => exact still rfl rfl
  | bump id => exact still rfl rfl
  | front pipe => exact still rfl rfl
  | performFile handles r => exact still (Files.applyRecord_unshared handles r w.1).locks rfl
  | seek descriptor offset =>
      refine still ?_ rfl
      simp only [perform]
      split <;> rfl
  | uncreate id path =>
      refine still ?_ rfl
      simp only [perform]
      split <;> rfl
  | performPipe s r => exact still (s.applyRecord_unshared r w.1).locks rfl
  | startThread r => exact still (Threads.applyRecord_unshared r w.1).locks rfl
  | discardThread r => exact still rfl rfl
  | guest call => exact still rfl rfl

/-! ## Parties -/

section Parties

variable {G V : Type}

/-- Whether a party can be undone: its files have all they touched in hand, or nothing is in hand. -/
def Party.Undoable (held : Set ResourceKey) : Party G → Prop
  | .builtin (.files s) =>
      (∀ k ∈ s.access.observed.keys, k ∈ s.held.keys) ∧ (∀ k ∈ s.held.keys, k ∈ held) ∨
        s.held = {} ∧ held = ∅
  | _ => True

/-- Participants that may be locked one after another when `held` is in hand: the files before anybody
holds a lock, and each above all that come before. -/
structure Queued (held : Set ResourceKey) (members : List (Member (Party G))) : Prop where
  ready : ∀ m ∈ members, m.state.Ready ∧ m.state.held = {}
  first : held = ∅ ∨ ∀ m ∈ members, Party.files.view m.state = none
  later : members.Pairwise fun _ m => Party.files.view m.state = none
  apart : members.Pairwise fun m m' => ∀ k ∈ m.state.needs, ∀ k' ∈ m'.state.needs, k.Below k'
  above : ∀ k ∈ held, ∀ m ∈ members, ∀ k' ∈ m.state.needs, k.Below k'

/-- **The participants of a transaction may be locked in the order of their domains.** -/
theorem Transaction.Ready.queued {t : Transaction (Party G)} (ready : t.Ready) :
    Queued ∅ t.members := by
  have domains : t.members.Pairwise fun m m' => m.domain.Before m'.domain :=
    List.pairwise_map.1 ready.ascending
  refine ⟨fun m member => ⟨(ready.members m member).1.ready, (ready.members m member).2⟩,
    Or.inl rfl, ?_, ?_, fun k member => absurd member (Set.notMem_empty k)⟩
  · refine domains.imp_of_mem fun {m m'} _ there before => ?_
    have place := (ready.members m' there).1.place
    rcases state : m'.state with (s | s | s | s) | g
    · rw [place _ state] at before
      exact absurd before (Domain.not_before_file m.domain)
    all_goals rfl
  · refine domains.imp_of_mem fun {m m'} here there before k need k' need' => ?_
    obtain ⟨place, sound⟩ := (ready.members m here).1
    obtain ⟨place', sound'⟩ := (ready.members m' there).1
    rcases state : m.state with (s | s | s | s) | g <;> rw [state] at sound need <;>
      rcases state' : m'.state with (s' | s' | s' | s') | g' <;> rw [state'] at sound' need' <;>
      first
      | exact absurd need List.not_mem_nil
      | exact absurd need' List.not_mem_nil
      | skip
    · rw [place' _ state'] at before
      exact absurd before (Domain.not_before_file m.domain)
    · have path : k.sort = 0 := sound.paths k need
      refine ResourceKey.below_of_sort ?_
      rcases sound'.ends k' need' with read | write <;> omega
    · rw [place' _ state'] at before
      exact absurd before (Domain.not_before_file m.domain)
    · rw [place _ state, place' _ state'] at before
      exact absurd rfl before.ne

end Parties

namespace Stepwise

open Procedure

/-! ## Locks -/

section Custody

variable {V : Type} {held : Set ResourceKey}

theorem stays_custody {β : Type} {p : Primitive V β} (entitled : p.entitled held)
    (kept : ∀ b, p.hands b held = held) : (ask p).Stays custody held :=
  keeps_ask.2 ⟨entitled, kept⟩

theorem custody_releaseEach (ids : List ResourceId) :
    (releaseEach ids : Procedure V Unit).Keeps custody
      (fun _ held' => held' = held \ { k | k ∈ ids.map ResourceId.key }) held := by
  induction ids generalizing held with
  | nil => exact (by ext k; simp : held = held \ { k | k ∈ [] })
  | cons id rest ih =>
      refine Keeps.bind (keeps_ask.2 ⟨fun _ member => absurd member List.not_mem_nil, fun _ => ?_⟩)
      refine ih.mono fun _ held' same => ?_
      rw [same]
      ext k
      simp only [Primitive.hands, custody, Set.mem_sdiff, Set.mem_singleton_iff, Set.mem_ofPred_eq,
        List.map_cons, List.mem_cons, not_or, and_assoc]

/-- What came of a request for the locks `ids`, of which those in `h` were held. -/
inductive Requested (held : Set ResourceKey) (ids : List ResourceId) (h : HeldLocks) :
    Except Error Unit × HeldLocks → Set ResourceKey → Prop where
  | granted (h' : HeldLocks) (keys : ∀ k, k ∈ h'.keys ↔ k ∈ h.keys ∨ k ∈ ids.map ResourceId.key) :
      Requested held ids h (.ok (), h') (held ∪ { k | k ∈ ids.map ResourceId.key })
  | refused (e : Error) : Requested held ids h (.error e, {}) (held \ { k | k ∈ h.keys })

theorem Requested.nil (h : HeldLocks) : Requested held [] h (.ok (), h) held := by
  have same : held ∪ { k | k ∈ ([] : List ResourceId).map ResourceId.key } = held := by
    ext k
    simp
  have done : Requested held [] h (.ok (), h) _ := .granted h fun k => by simp
  rw [same] at done
  exact done

/-- One lock was granted, and then the rest was asked for. -/
theorem Requested.cons {id : ResourceId} {rest : List ResourceId} {h : HeldLocks}
    {r : Except Error Unit × HeldLocks} {held' : Set ResourceKey} (new : id.key ∉ held)
    (came : Requested (insert id.key held) rest ⟨id :: h.ids⟩ r held') :
    Requested held (id :: rest) h r held' := by
  cases came with
  | granted h' keys =>
      have same : insert id.key held ∪ { k | k ∈ rest.map ResourceId.key } =
          held ∪ { k | k ∈ (id :: rest).map ResourceId.key } := by
        ext k
        simp only [Set.mem_union, Set.mem_insert_iff, Set.mem_ofPred_eq, List.map_cons, List.mem_cons]
        tauto
      rw [same]
      refine .granted h' fun k => ?_
      rw [keys k]
      simp only [HeldLocks.keys, List.map_cons, List.mem_cons]
      tauto
  | refused e =>
      have same : insert id.key held \ { k | k ∈ (⟨id :: h.ids⟩ : HeldLocks).keys } =
          held \ { k | k ∈ h.keys } := by
        ext k
        simp only [Set.mem_sdiff, Set.mem_insert_iff, Set.mem_ofPred_eq, HeldLocks.keys,
          List.map_cons, List.mem_cons, not_or]
        constructor
        · rintro ⟨rfl | member, other, later⟩
          · exact absurd rfl other
          · exact ⟨member, later⟩
        · rintro ⟨member, later⟩
          exact ⟨Or.inr member, fun same => new (same ▸ member), later⟩
      rw [same]
      exact .refused e

/-- **A request in ascending order asks for each lock above all it holds.** -/
theorem custody_acquireEach {ids : List ResourceId} {h : HeldLocks}
    (ascending : (ids.map ResourceId.key).Pairwise ResourceKey.Below)
    (above : ∀ k ∈ held, ∀ k' ∈ ids.map ResourceId.key, k.Below k') (within : ∀ k ∈ h.keys, k ∈ held) :
    (acquireEach ids h : Procedure V _).Keeps custody (Requested held ids h) held := by
  induction ids generalizing h held with
  | nil => exact .nil h
  | cons id rest ih =>
      obtain ⟨least, others⟩ := List.pairwise_cons.1 ascending
      -- what is above all in hand is not in hand, so the lock is asked for
      have new : id.key ∉ held := fun member =>
        ResourceKey.Below.irrefl _ (above _ member id.key List.mem_cons_self)
      have unheld : h.holds id = false := by
        rw [Bool.eq_false_iff]
        exact fun holds => new (within _ ((h.holds_iff id).1 holds))
      rw [acquireEach, unheld, if_neg (by decide)]
      refine Keeps.bind (keeps_ask.2 ⟨fun k member => above k member _ List.mem_cons_self, fun b => ?_⟩)
      cases b with
      | true =>
          have later : (acquireEach rest ⟨id :: h.ids⟩ : Procedure V _).Keeps custody
              (Requested (insert id.key held) rest ⟨id :: h.ids⟩) (insert id.key held) := by
            refine ih others ?_ ?_
            · rintro k (rfl | member) k' later
              · exact least k' later
              · exact above k member k' (List.mem_cons_of_mem _ later)
            · intro k member
              rcases List.mem_cons.1 member with rfl | before
              · exact Or.inl rfl
              · exact Or.inr (within k before)
          exact later.mono fun r held' came => came.cons new
      | false =>
          refine Keeps.bind ((custody_releaseEach h.ids).mono fun _ held' same => ?_)
          rw [same]
          exact .refused _

/-! ## Parties -/

/-- What came of the request of a party that needs `needs` and held nothing. -/
inductive Secured (held : Set ResourceKey) (needs : List ResourceKey) :
    Except Error Unit → HeldLocks → Set ResourceKey → Prop where
  | granted (h : HeldLocks) (keys : ∀ k, k ∈ h.keys ↔ k ∈ needs) :
      Secured held needs (.ok ()) h (held ∪ { k | k ∈ needs })
  | refused (e : Error) : Secured held needs (.error e) {} held

theorem Secured.idle : Secured held [] (.ok ()) {} held := by
  have done : Secured held [] (.ok ()) {} _ := .granted {} fun k => Iff.rfl
  have same : held ∪ { k | k ∈ ([] : List ResourceKey) } = held := by
    ext k
    simp
  rw [same] at done
  exact done

/-- Touched resources are asked for in canonical order. -/
theorem custody_request {access : AccessSet} (keyed : access.Keyed)
    (above : ∀ k ∈ held, ∀ k' ∈ access.observed.keys, k.Below k') :
    (acquireEach (ResourceId.canonical access.observedIds) {} : Procedure V _).Keeps custody
      (fun r => Secured held access.observed.keys r.1 r.2) held := by
  have keys (k : ResourceKey) : k ∈ (ResourceId.canonical access.observedIds).map ResourceId.key ↔
      k ∈ access.observed.keys := by
    rw [ResourceId.mem_keys_canonical, AccessSet.keys_observed keyed]
  refine (custody_acquireEach (ResourceId.canonical_ascending _)
    (fun k member k' asked => above k member k' ((keys k').1 asked))
    (fun k member => absurd member List.not_mem_nil)).mono fun r held' came => ?_
  cases came with
  | granted h' asked =>
      have same : { k | k ∈ (ResourceId.canonical access.observedIds).map ResourceId.key } =
          { k | k ∈ access.observed.keys } := Set.ext keys
      rw [same]
      refine .granted h' fun k => (asked k).trans ?_
      rw [keys k]
      exact or_iff_right List.not_mem_nil
  | refused e =>
      have same : held \ { k | k ∈ ({} : HeldLocks).keys } = held := by
        ext k
        simp [HeldLocks.keys]
      rw [same]
      exact .refused e

section Parties

variable {G : Type} [Participant G V] (ctx : Context)

/-- A party asks for what it needs, and stays what it is. -/
theorem custody_lock {p : Party G} (ready : p.Ready) (free : p.held = {})
    (above : ∀ k ∈ held, ∀ k' ∈ p.needs, k.Below k') :
    (lock ctx p).Keeps custody (fun r held' => r.2.Ready ∧ r.2.needs = p.needs ∧
      (Party.files.view r.2 = none ↔ Party.files.view p = none) ∧
      Secured held p.needs r.1 r.2.held held') held := by
  cases p with
  | guest g =>
      refine Keeps.bind ((stays_ask (custody_spares held) rfl).keeps fun r => ?_)
      refine ⟨trivial, rfl, Iff.rfl, ?_⟩
      rcases r with ⟨e | _, g'⟩
      · exact .refused e
      · exact .idle
  | builtin b =>
      cases b with
      | files s =>
          have nothingHeld : s.held = {} := free
          rw [lock, nothingHeld]
          refine Keeps.bind ((custody_request ready.keyed above).mono fun r held' came => ?_)
          refine ⟨ready.aside s.nextHandle s.removed r.2, rfl, ⟨fun seen => ?_, fun seen => ?_⟩, came⟩ <;>
            cases seen
      | pipes s =>
          have nothingHeld : s.held = {} := free
          rw [lock, nothingHeld]
          refine Keeps.bind ((custody_request ready.keyed above).mono fun r held' came => ?_)
          exact ⟨ready.aside s.cursors r.2, rfl, Iff.rfl, came⟩
      | threads s => exact ⟨trivial, rfl, Iff.rfl, .idle⟩
      | yields s => exact ⟨trivial, rfl, Iff.rfl, .idle⟩

theorem custody_unlock (p : Party G) :
    (unlock ctx p).Keeps custody (fun _ held' => held' = held \ { k | k ∈ p.held.keys }) held := by
  have idle : held = held \ { k | k ∈ ({} : HeldLocks).keys } := by
    ext k
    simp [HeldLocks.keys]
  cases p with
  | guest g => exact Keeps.bind ((stays_ask (custody_spares held) rfl).keeps fun _ => idle)
  | builtin b =>
      cases b with
      | files s => exact Keeps.bind (custody_releaseEach s.held.ids)
      | pipes s => exact Keeps.bind (custody_releaseEach s.held.ids)
      | threads s => exact idle
      | yields s => exact idle

/-- **What a party performs and publishes is in hand.** -/
theorem custody_apply {p : Party G} (ready : p.Ready) (covered : ∀ k ∈ p.needs, k ∈ held) :
    (apply ctx p).Keeps custody (fun r held' => r.2.held = p.held ∧ held' = held) held := by
  refine keeps_apply (custody_spares held) ctx (fun s same r member => ?_) (fun s same r member => ?_)
    (stays_bumpEach fun id member => stays_custody (fun target same => ?_) fun _ => rfl)
  · subst same
    have ready : s.Ready := ready
    exact stays_custody (fun id target => covered _ (ready.targets member target)) fun _ => rfl
  · subst same
    have ready : s.Ready := ready
    exact stays_custody (fun id target => covered _ (ready.records r member id target)) fun _ => rfl
  · rw [List.mem_singleton.1 same]
    refine covered _ (ready.keyed.within _ ?_)
    rw [← AccessSet.keys_written ready.keyed]
    exact List.mem_map_of_mem member

theorem stays_removeIfCurrent (access : AccessSet) {path : String}
    (locked : (ResourceId.path path).key ∈ held) :
    (removeIfCurrent access (.path path) path : Procedure V _).Stays custody held := by
  have spares := custody_spares (V := V) held
  refine (stays_ask spares rfl).bind fun version => ?_
  cases access.snapshot (.path path) == some version with
  | false => exact stays_pure _
  | true =>
      have removes : (ask (.uncreate (.path path) path) : Procedure V _).Stays custody held := by
        refine stays_custody (fun id target => ?_) fun _ => rfl
        rcases List.mem_cons.1 target with rfl | other
        · exact locked
        · rw [List.mem_singleton.1 other]
          exact locked
      have publishes : (ask (.bump (.path path)) : Procedure V Unit).Stays custody held := by
        refine stays_custody (fun id target => ?_) fun _ => rfl
        rw [List.mem_singleton.1 target]
        exact locked
      refine removes.bind fun answer => ?_
      rcases answer with fault | _
      · cases fault with
        | os errno => cases errno <;> exact stays_pure _
        | _ => exact stays_pure _
      · exact publishes.bind fun _ => stays_pure _

/-- **A creation is reverted under its lock**: one in hand, or one borrowed with empty hands and given
back. -/
theorem stays_revertCreation (access : AccessSet) {h : HeldLocks} {path : String}
    (within : ∀ k ∈ h.keys, k ∈ held)
    (either : (ResourceId.path path).key ∈ h.keys ∨ held = ∅) :
    (revertCreation access h (.path path) path : Procedure V _).Stays custody held := by
  unfold revertCreation
  split
  · next holds => exact stays_removeIfCurrent access (within _ ((h.holds_iff _).1 holds))
  · next unheld =>
    have nothingHeld : held = ∅ := either.resolve_left fun member => unheld ((h.holds_iff _).2 member)
    refine Keeps.bind (keeps_ask.2 ⟨nothingHeld, fun granted => ?_⟩)
    cases granted with
    | false => exact stays_pure _
    | true =>
        -- the hands were empty, so to give back the one lock empties them again
        refine Keeps.bind ((stays_removeIfCurrent access (Set.mem_insert _ _)).keeps fun result => ?_)
        refine Keeps.bind (keeps_ask.2 ⟨fun _ member => absurd member List.not_mem_nil, fun _ => ?_⟩)
        subst nothingHeld
        refine Set.eq_empty_iff_forall_notMem.2 fun k member => ?_
        obtain ⟨borrowed | nothing, other⟩ := member
        · exact other borrowed
        · exact nothing

theorem custody_undo {p : Party G} (ready : p.Ready) (undoable : p.Undoable held) :
    (undo ctx p).Keeps custody (fun r held' => r.2.held = p.held ∧ held' = held) held := by
  refine keeps_undo (custody_spares held) ctx fun s same r member path resource => ?_
  subst same
  have ready : s.Ready := ready
  have touched := ready.records r member
  rw [resource] at touched ⊢
  rcases undoable with ⟨locked, within⟩ | ⟨free, nothingHeld⟩
  · exact stays_revertCreation s.access within (Or.inl (locked _ touched))
  · refine stays_revertCreation s.access (fun k member => ?_) (Or.inr nothingHeld)
    rw [free] at member
    exact absurd member List.not_mem_nil

/-! ## All participants -/

/-- What came of locking participants one after another, from `held` on. -/
structure Locked (held : Set ResourceKey) (members : List (Member (Party G))) (locked : Nat)
    (refusal : Option Error) (held' : Set ResourceKey) : Prop where
  ready : ∀ m ∈ members, m.state.Ready
  taken : held' = held ∪ { k | heldIn ((hands members).take locked) k }
  undoable : ∀ m ∈ members, m.state.Undoable held'
  covered : refusal = none → ∀ m ∈ members, ∀ k ∈ m.state.needs, k ∈ held'

theorem heldIn_nil : { k | heldIn [] k } = (∅ : Set ResourceKey) := by
  ext k
  simp [heldIn]

omit [Participant G V] in
theorem undoable_unseen {p : Party G} (unseen : Party.files.view p = none) : p.Undoable held := by
  rcases p with (s | s | s | s) | g
  · cases unseen
  all_goals trivial

omit [Participant G V] in
/-- Whoever was granted its request can be undone while it keeps what it got. -/
theorem Secured.undoable {p : Party G} {before : Set ResourceKey}
    (keys : ∀ k, k ∈ p.held.keys ↔ k ∈ p.needs) (within : ∀ k ∈ p.needs, k ∈ before) :
    p.Undoable before := by
  rcases p with (s | s | s | s) | g
  · exact Or.inl ⟨fun k touched => (keys k).2 touched, fun k own => within k ((keys k).1 own)⟩
  all_goals trivial

/-- **Participants are locked in ascending order**, across all of them. -/
theorem custody_lockAll {members : List (Member (Party G))} (queued : Queued held members) :
    (lockAll ctx members).Keeps custody (fun r => Locked held r.1 r.2.1 r.2.2) held := by
  induction members generalizing held with
  | nil =>
      refine ⟨fun _ member => absurd member List.not_mem_nil, ?_,
        fun _ member => absurd member List.not_mem_nil,
        fun _ _ member => absurd member List.not_mem_nil⟩
      rw [List.take_zero, heldIn_nil, Set.union_empty]
  | cons m rest ih =>
      obtain ⟨sound, free⟩ := queued.ready m List.mem_cons_self
      obtain ⟨below, apart⟩ := List.pairwise_cons.1 queued.apart
      obtain ⟨unseen, later⟩ := List.pairwise_cons.1 queued.later
      refine Keeps.bind ((custody_lock ctx sound free fun k member k' need =>
        queued.above k member m List.mem_cons_self k' need).mono fun r held₁ came => ?_)
      obtain ⟨answer, p⟩ := r
      obtain ⟨sound', needs, same, secured⟩ := came
      generalize name : p.held = h at secured
      cases secured with
      | refused e =>
          -- files come first: if it was theirs to be refused nothing is in hand, and who comes later
          -- has no creation to revert
          refine ⟨fun m' member => ?_, ?_, fun m' member => ?_, fun unrefused => by cases unrefused⟩
          · rcases List.mem_cons.1 member with rfl | there
            · exact sound'
            · exact (queued.ready m' (List.mem_cons_of_mem _ there)).1
          · rw [List.take_zero, heldIn_nil, Set.union_empty]
          · rcases List.mem_cons.1 member with rfl | there
            · rcases queued.first with nothingHeld | nobody
              · rcases p with (s | s | s | s) | g
                · exact Or.inr ⟨name, nothingHeld⟩
                all_goals trivial
              · exact undoable_unseen (same.2 (nobody m List.mem_cons_self))
            · exact undoable_unseen (unseen m' there)
      | granted h keys =>
          have next : Queued (held ∪ { k | k ∈ m.state.needs }) rest := by
            refine ⟨fun m' there => queued.ready m' (List.mem_cons_of_mem _ there), Or.inr unseen, later,
              apart, ?_⟩
            rintro k (before | mine) m' there k' need
            · exact queued.above k before m' (List.mem_cons_of_mem _ there) k' need
            · exact below m' there k mine k' need
          refine Keeps.bind ((ih next).mono fun q held' done => ?_)
          have kept : ∀ k ∈ p.needs, k ∈ held' := fun k need => by
            rw [done.taken]
            exact Or.inl (Or.inr (needs ▸ need))
          refine ⟨fun m' member => ?_, ?_, fun m' member => ?_, fun unrefused m' member => ?_⟩
          · rcases List.mem_cons.1 member with rfl | there
            · exact sound'
            · exact done.ready m' there
          · rw [done.taken]
            ext k
            simp only [hands, List.map_cons, List.take_succ_cons, Set.mem_union, Set.mem_ofPred_eq,
              heldIn_cons, name, keys k, or_assoc]
          · rcases List.mem_cons.1 member with rfl | there
            · refine Secured.undoable (fun k => ?_) kept
              rw [name, keys k, needs]
            · exact done.undoable m' there
          · rcases List.mem_cons.1 member with rfl | there
            · exact kept
            · exact done.covered unrefused m' there

theorem custody_applyAll {members : List (Member (Party G))}
    (ready : ∀ m ∈ members, m.state.Ready)
    (covered : ∀ m ∈ members, ∀ k ∈ m.state.needs, k ∈ held) :
    (applyAll ctx members).Keeps custody
      (fun r held' => hands r.2 = hands members ∧ held' = held) held := by
  induction members with
  | nil => exact ⟨rfl, rfl⟩
  | cons m rest ih =>
      refine Keeps.bind ((custody_apply ctx (ready m List.mem_cons_self)
        (covered m List.mem_cons_self)).mono fun r held' here => ?_)
      obtain ⟨same, rfl⟩ := here
      refine Keeps.bind ((ih (fun m' there => ready m' (List.mem_cons_of_mem _ there))
        fun m' there => covered m' (List.mem_cons_of_mem _ there)).mono fun q held' later => ?_)
      exact ⟨congrArg₂ List.cons same later.1, later.2⟩

theorem custody_unlockAll (members : List (Member (Party G))) :
    (unlockAll ctx members).Keeps custody
      (fun _ held' => held' = held \ { k | heldIn (hands members) k }) held := by
  induction members with
  | nil => exact (by ext k; simp [hands, heldIn] : held = held \ { k | heldIn (hands []) k })
  | cons m rest ih =>
      refine Keeps.bind (ih.mono fun ms held' others => ?_)
      refine Keeps.bind ((custody_unlock ctx m.state).mono fun p held'' mine => ?_)
      change held'' = _
      rw [mine, others]
      ext k
      simp only [hands, List.map_cons, Set.mem_sdiff, Set.mem_ofPred_eq, heldIn_cons, not_or]
      tauto

/-! ## The coordinator -/

/-- **Closing leaves nothing in hand** of what those that were locked had. -/
theorem custody_close {members : List (Member (Party G))} {locked : Nat}
    (taken : held = { k | heldIn ((hands members).take locked) k }) :
    (close ctx members locked).Keeps custody (fun _ held' => held' = ∅) held := by
  refine Keeps.bind ((keeps_finishAll (custody_spares held) ctx members).mono fun ms held' done => ?_)
  obtain ⟨same, rfl⟩ := done
  refine Keeps.bind ((custody_unlockAll ctx (ms.take locked)).mono fun unlocked held'' given => ?_)
  have those : hands (ms.take locked) = (hands members).take locked := by
    rw [← same]
    exact List.map_take
  refine (stays_releaseAll (custody_spares held'') _).keeps fun _ => ?_
  rw [given, taken, those]
  exact Set.eq_empty_iff_forall_notMem.2 fun k member => member.2 member.1

variable {t : Transaction (Party G)}

theorem custody_abandon (before : List Phase) {members : List (Member (Party G))} {locked : Nat}
    (reason : AbortReason) (taken : held = { k | heldIn ((hands members).take locked) k })
    (ready : ∀ m ∈ members, m.state.Ready) (undoable : ∀ m ∈ members, m.state.Undoable held) :
    (abandon t before members locked reason).Keeps custody
      (fun r held' => r.2.Ready ∧ r.2.id = t.id ∧ held' = ∅) held := by
  have reverts := keeps_undoAll t.context fun m member =>
    custody_undo t.context (ready m member) (undoable m member)
  refine Keeps.bind (reverts.mono fun r held' done => ?_)
  obtain ⟨same, rfl⟩ := done
  rw [← same] at taken
  refine Keeps.bind ((custody_close t.context taken).mono fun _ held'' nothingHeld => ?_)
  exact ⟨.ended _ _, rfl, nothingHeld⟩

theorem custody_perform {members : List (Member (Party G))} {locked : Nat}
    (taken : held = { k | heldIn ((hands members).take locked) k })
    (ready : ∀ m ∈ members, m.state.Ready)
    (covered : ∀ m ∈ members, ∀ k ∈ m.state.needs, k ∈ held) :
    (perform t members locked).Keeps custody
      (fun r held' => r.2.Ready ∧ r.2.id = t.id ∧ held' = ∅) held := by
  refine Keeps.bind ((custody_applyAll t.context ready covered).mono fun r held' done => ?_)
  obtain ⟨same, rfl⟩ := done
  rw [← same] at taken
  refine Keeps.bind ((custody_close t.context taken).mono fun _ held'' nothingHeld => ?_)
  exact ⟨.ended _ _, rfl, nothingHeld⟩

theorem custody_committing (ready : t.Ready) :
    (committing t).Keeps custody (fun r held' => r.2.Ready ∧ r.2.id = t.id ∧ held' = ∅) ∅ := by
  refine Keeps.bind ((custody_lockAll t.context ready.queued).mono fun r held' done => ?_)
  have taken : held' = { k | heldIn ((hands r.1).take r.2.1) k } := by
    rw [done.taken, Set.empty_union]
  rcases refusal : r.2.2 with _ | e
  · refine Keeps.bind ((stays_validateAll (custody_spares held') t.context .final r.1).keeps
      fun valid => ?_)
    cases valid with
    | true => exact custody_perform taken done.ready (done.covered refusal)
    | false => exact custody_abandon _ _ taken done.ready done.undoable
  · exact custody_abandon _ _ taken done.ready done.undoable

/-- **A call that ends a transaction keeps to the rules of locking, and ends with empty hands.** -/
theorem keeps_custody (ready : t.Ready) {call : PartyCall G}
    {q : Procedure V (Transaction (Party G))} (taken : steps t call = some q) :
    q.Keeps custody (fun t' held' => t'.Ready ∧ t'.id = t.id ∧ held' = ∅) ∅ := by
  refine keeps_steps taken ⟨ready, rfl, rfl⟩ (fun _ => custody_committing ready) (fun _ reason => ?_)
    (stays_validateAll (custody_spares ∅) t.context .early t.members)
  refine custody_abandon [] reason ?_ (fun m member => (ready.members m member).1.ready)
    fun m member => ?_
  · rw [List.take_zero, heldIn_nil]
  · have free := (ready.members m member).2
    rcases state : m.state with (s | s | s | s) | g
    · rw [state] at free
      exact Or.inr ⟨free, rfl⟩
    all_goals trivial

end Parties

end Custody

end Stepwise

end Transact
