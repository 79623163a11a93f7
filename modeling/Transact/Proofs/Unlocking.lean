/-
# Transact.Proofs.Unlocking -- no call leaves a lock behind

While a transaction is locked, every lock it took is one that a participant thinks it holds
(`lockAll_among`): a participant that is refused has given back what it took.  Undo, apply and finish
change nothing about that, and borrow locks at most (`Party.Lenient`).  So when those that were locked
are unlocked, the transaction holds what it held before the call, and nothing else
(`PartyCall.perform_among`); locks of others may be held at any time.
-/
import Transact.Proofs.FileEnding
import Transact.Proofs.Undoing

namespace Transact

set_option autoImplicit false

/-! ## Lock tables -/

namespace LockTable

variable {t t' : LockTable} {who : TxId} {those these : ResourceKey → Prop}

/-- Whatever `who` holds is one of `those`. -/
def Among (t : LockTable) (who : TxId) (those : ResourceKey → Prop) : Prop :=
  ∀ k, t.holderOf k = some who → those k

theorem Among.mono (among : t.Among who those) (within : ∀ k, those k → these k) : t.Among who these :=
  fun k mine => within k (among k mine)

theorem Among.eased (among : t.Among who those) (eased : t.Eased t') : t'.Among who those := by
  intro k mine
  rcases eased k with free | same
  · rw [free] at mine
    cases mine
  · exact among k (same ▸ mine)

/-- Where everybody who could take a lock still can, locks were given back at most. -/
theorem Eased.ofOpen (open_ : ∀ who k, t.Open who k → t'.Open who k) : t.Eased t' := by
  intro k
  cases holder : t.holderOf k with
  | some owner =>
      rcases open_ owner k (Or.inr holder) with free | mine
      · exact Or.inl free
      · exact Or.inr mine
  | none =>
      -- Two owners cannot both hold it.
      rcases open_ ⟨0, ""⟩ k (Or.inl holder) with free | first
      · exact Or.inl free
      rcases open_ ⟨1, ""⟩ k (Or.inl holder) with free | second
      · exact Or.inl free
      · rw [first] at second
        cases second

end LockTable

namespace HeldLocks

variable {t : LockTable} {who : TxId} {those : ResourceKey → Prop}

def keys (h : HeldLocks) : List ResourceKey := h.ids.map ResourceId.key

/-- Giving back the locks `ids` leaves the others. -/
theorem among_releaseEach (ids : List ResourceId)
    (among : t.Among who fun k => those k ∨ k ∈ ids.map ResourceId.key) :
    (releaseEach who ids t).Among who those := by
  intro k mine
  rw [holderOf_releaseEach] at mine
  split at mine
  · cases mine
  · next kept => exact (among k mine).resolve_right fun member => kept ⟨member, mine⟩

/-- What is taken one after another is held; where one cannot be had, nothing is. -/
theorem among_acquireEach (ids : List ResourceId) {h : HeldLocks}
    (among : t.Among who fun k => those k ∨ k ∈ h.keys) :
    (acquireEach who ids h t).2.2.Among who fun k =>
      those k ∨ k ∈ (acquireEach who ids h t).2.1.keys := by
  have answered := acquireEach_answered who ids h t
  generalize acquireEach who ids h t = r at answered ⊢
  cases answered with
  | granted open_ keys distinct holders =>
      intro k mine
      rw [holders] at mine
      split at mine
      · next taken => exact Or.inr ((keys k).2 (Or.inr taken.1))
      · exact (among k mine).imp_right fun own => (keys k).2 (Or.inl own)
  | refused before id after parts open_ new barred holders =>
      intro k mine
      rw [holders] at mine
      split at mine
      · cases mine
      · next kept =>
          exact Or.inl ((among k mine).resolve_right fun own => kept ⟨Or.inl own, mine⟩)

theorem acquireEach_refused (ids : List ResourceId) {h : HeldLocks} {e : Error}
    (refused : (acquireEach who ids h t).1 = .error e) : (acquireEach who ids h t).2.1 = {} := by
  have answered := acquireEach_answered who ids h t
  generalize acquireEach who ids h t = r at answered refused ⊢
  cases answered with
  | granted => cases refused
  | refused => rfl

end HeldLocks

/-! ## Participants one by one -/

namespace Files

theorem removeIfCurrent_locks (access : AccessSet) (id : ResourceId) (path : String) (w : World) :
    (removeIfCurrent access id path w).2.locks = w.locks := by
  unfold removeIfCurrent
  split
  · split <;> rfl
  · rfl

/-- Undoing a record borrows a lock at most. -/
theorem undoRecord_eased (tx : TxId) (s : Files) (r : Record FileEffect) (w : World) :
    w.locks.Eased (undoRecord tx s r w).2.locks := by
  unfold undoRecord
  split
  · split
    · unfold revertCreation
      split
      · rw [removeIfCurrent_locks]
        exact .refl w.locks
      · split
        · next locks refused => exact fun k => Or.inr ((LockTable.acquire_false refused).2 k)
        · next locks taken =>
          simp only
          rw [removeIfCurrent_locks]
          exact .borrowed taken
    · exact .refl w.locks
  · split
    · exact .refl w.locks
    · split <;> exact .refl w.locks
  · exact .refl w.locks

theorem undoEach_eased (tx : TxId) (s : Files) (rs : List (Record FileEffect)) (w : World) :
    w.locks.Eased (DeferredLog.undoEach (undoRecord tx s) rs w).2.locks := by
  rw [DeferredLog.undoEach_foldr]
  induction rs with
  | nil => exact .refl w.locks
  | cons r rest ih => exact ih.trans (undoRecord_eased tx s r _)

theorem undo_eased (ctx : Context) (s : Files) (w : World) :
    w.locks.Eased (s.undo ctx w).2.2.locks := by
  rw [undo_world, ← DeferredLog.undoEach_foldr]
  exact undoEach_eased ctx.tx s s.log.records w

theorem settle_rest (files : List OpenFile) (w : World) :
    ∃ fs, (settle files w).2 = { w with files := fs } := by
  induction files generalizing w with
  | nil => exact ⟨w.files, rfl⟩
  | cons f rest ih =>
      unfold settle
      split
      · split
        · exact ih _
        · exact ⟨w.files, rfl⟩
      · exact ih w

/-- Apply acts on files and versions. -/
theorem apply_rest (s : Files) (w : World) :
    ∃ files versions, (s.apply w).2.2 = { w with files, versions } := by
  simp only [Files.apply, DeferredLog.applyAll]
  rw [applyEach_files]
  rcases DeferredLog.applyEach (applyRecord s.handles) s.log.records { files := w.files } with
    ⟨_ | _, w'⟩
  · exact ⟨_, _, rfl⟩
  · obtain ⟨fs, settled⟩ := settle_rest s.handles.values { w with files := w'.files }
    exact ⟨fs, _, by simp only [settled]; rfl⟩

theorem apply_locks (s : Files) (w : World) : (s.apply w).2.2.locks = w.locks := by
  obtain ⟨files, versions, same⟩ := s.apply_rest w
  rw [same]

end Files

section Parties

variable {G V : Type} [Participant G V] (ctx : Context) {those : ResourceKey → Prop}
  {w : World × V}

/-- The locks a participant thinks it holds; a guest's are its own affair. -/
def Party.held : Party G → HeldLocks
  | .builtin (.files s) => s.held
  | .builtin (.pipes s) => s.held
  | _ => {}

namespace Party

/-- Whoever is locked holds what was taken for it; whoever is refused holds nothing. -/
theorem among_lock (p : Party G) (among : w.1.locks.Among ctx.tx those) :
    (Participant.lock ctx p w).2.2.1.locks.Among ctx.tx fun k =>
      those k ∨ k ∈ (Participant.lock ctx p w).2.1.held.keys := by
  have before (h : HeldLocks) : w.1.locks.Among ctx.tx fun k => those k ∨ k ∈ h.keys :=
    among.mono fun _ => Or.inl
  cases p with
  | guest g => exact before {}
  | builtin b =>
      cases b with
      | files s => exact HeldLocks.among_acquireEach _ (before s.held)
      | pipes s => exact HeldLocks.among_acquireEach _ (before s.held)
      | threads s => exact before {}
      | yields s => exact before {}

theorem lock_refused (p : Party G) {e : Error} (refused : (Participant.lock ctx p w).1 = .error e) :
    (Participant.lock ctx p w).2.1.held = {} := by
  cases p with
  | guest g => rfl
  | builtin b =>
      cases b with
      | files s => exact HeldLocks.acquireEach_refused _ refused
      | pipes s => exact HeldLocks.acquireEach_refused _ refused
      | threads s => rfl
      | yields s => rfl

theorem among_unlock (p : Party G)
    (among : w.1.locks.Among ctx.tx fun k => those k ∨ k ∈ p.held.keys) :
    (Participant.unlock ctx p w).2.1.locks.Among ctx.tx those := by
  have idle (own : ∀ k, k ∉ p.held.keys) : w.1.locks.Among ctx.tx those :=
    among.mono fun k held => held.resolve_right (own k)
  cases p with
  | guest g => exact idle fun _ => List.not_mem_nil
  | builtin b =>
      cases b with
      | files s => exact HeldLocks.among_releaseEach s.held.ids among
      | pipes s => exact HeldLocks.among_releaseEach s.held.ids among
      | threads s => exact idle fun _ => List.not_mem_nil
      | yields s => exact idle fun _ => List.not_mem_nil

/-- A participant thinks that it holds what it thought before, and locks were given back at most. -/
structure Lenient (p : Party G) (w : World × V) (r : Party G × World × V) : Prop where
  held : r.1.held = p.held
  eased : w.1.locks.Eased r.2.1.locks

theorem validate_world (v : Validation) (p : Party G) (w : World × V) :
    (Participant.validate ctx v p w).2.1 = w.1 := by
  cases p with
  | guest g => rfl
  | builtin b => cases b <;> rfl

theorem lenient_finish (p : Party G) (w : World × V) : p.Lenient w (Participant.finish ctx p w) := by
  cases p with
  | guest g => exact ⟨rfl, .refl _⟩
  | builtin b => cases b <;> exact ⟨rfl, .refl _⟩

theorem lenient_undo (p : Party G) (w : World × V) : p.Lenient w (Participant.undo ctx p w).2 := by
  cases p with
  | guest g => exact ⟨rfl, .refl _⟩
  | builtin b =>
      cases b with
      | files s => exact ⟨rfl, s.undo_eased ctx w.1⟩
      | pipes s => exact ⟨rfl, .ofOpen fun who => (s.still_undo who w.1).locks⟩
      | threads s => exact ⟨rfl, .ofOpen fun who => (s.still_undo who w.1).locks⟩
      | yields s => exact ⟨rfl, .refl _⟩

theorem lenient_apply (p : Party G) (w : World × V) : p.Lenient w (Participant.apply ctx p w).2 := by
  cases p with
  | guest g => exact ⟨rfl, .refl _⟩
  | builtin b =>
      cases b with
      | files s => exact ⟨rfl, fun k => Or.inr (congrArg (LockTable.holderOf · k) (s.apply_locks w.1))⟩
      | pipes s => exact ⟨rfl, .ofOpen fun who => (s.publishing_apply who w.1).locks⟩
      | threads s => exact ⟨rfl, .ofOpen fun who => (s.still_apply who w.1).locks⟩
      | yields s => exact ⟨rfl, .refl _⟩

theorem release_eased (p : Party G) (w : World × V) :
    w.1.locks.Eased (Participant.release p w).2.1.locks := by
  cases p with
  | guest g => exact .refl _
  | builtin b => exact .ofOpen fun who => (b.still_release w.1 who).locks

end Party

/-! ## All participants -/

/-- What each participant thinks it holds. -/
def hands (members : List (Member (Party G))) : List HeldLocks := members.map fun m => m.state.held

/-- The keys of what is held. -/
def heldIn (hands : List HeldLocks) (k : ResourceKey) : Prop := ∃ h ∈ hands, k ∈ h.keys

theorem heldIn_cons {h : HeldLocks} {rest : List HeldLocks} {k : ResourceKey} :
    heldIn (h :: rest) k ↔ k ∈ h.keys ∨ heldIn rest k := by
  simp only [heldIn, List.exists_mem_cons_iff]

/-- **Every lock that was taken is held by a participant that was locked.** -/
theorem lockAll_among (members : List (Member (Party G))) (among : w.1.locks.Among ctx.tx those) :
    (lockAll ctx members w).world.1.locks.Among ctx.tx fun k =>
      those k ∨
        heldIn ((hands (lockAll ctx members w).members).take (lockAll ctx members w).locked) k := by
  induction members generalizing w those with
  | nil => exact among.mono fun _ => Or.inl
  | cons m rest ih =>
      have here := m.state.among_lock ctx among
      have refused (e : Error) := m.state.lock_refused ctx (w := w) (e := e)
      simp only [lockAll]
      rcases taken : Participant.lock ctx m.state w with ⟨e | _, p, w'⟩ <;> rw [taken] at here refused
      · refine here.mono fun k own => Or.inl (own.resolve_right ?_)
        rw [refused e rfl]
        exact List.not_mem_nil
      · refine (ih here).mono fun k own => ?_
        simp only [hands, List.map_cons, List.take_succ_cons, heldIn_cons]
        exact or_assoc.1 own

theorem validateAll_world (v : Validation) (members : List (Member (Party G))) (w : World × V) :
    (validateAll ctx v members w).2.1 = w.1 := by
  induction members generalizing w with
  | nil => rfl
  | cons m rest ih =>
      have here := m.state.validate_world ctx v w
      simp only [validateAll]
      rcases checked : Participant.validate ctx v m.state w with ⟨_ | _, w'⟩ <;> rw [checked] at here
      · exact here
      · exact (ih w').trans here

theorem undoAll_lenient (members : List (Member (Party G))) (w : World × V) :
    hands (undoAll ctx members w).2.1 = hands members ∧
      w.1.locks.Eased (undoAll ctx members w).2.2.1.locks := by
  induction members with
  | nil => exact ⟨rfl, .refl _⟩
  | cons m rest ih =>
      obtain ⟨later, eased⟩ := ih
      have here := m.state.lenient_undo ctx (undoAll ctx rest w).2.2
      simp only [undoAll]
      rcases done : Participant.undo ctx m.state (undoAll ctx rest w).2.2 with ⟨_ | _, p, w'⟩ <;>
        rw [done] at here <;>
        exact ⟨congrArg₂ List.cons here.held later, eased.trans here.eased⟩

theorem applyAll_lenient (members : List (Member (Party G))) (w : World × V) :
    hands (applyAll ctx members w).2.1 = hands members ∧
      w.1.locks.Eased (applyAll ctx members w).2.2.1.locks := by
  induction members generalizing w with
  | nil => exact ⟨rfl, .refl _⟩
  | cons m rest ih =>
      have here := m.state.lenient_apply ctx w
      simp only [applyAll]
      rcases done : Participant.apply ctx m.state w with ⟨_ | _, p, w'⟩ <;> rw [done] at here <;>
        exact ⟨congrArg₂ List.cons here.held (ih w').1, here.eased.trans (ih w').2⟩

theorem finishAll_lenient (members : List (Member (Party G))) (w : World × V) :
    hands (finishAll ctx members w).1 = hands members ∧
      w.1.locks.Eased (finishAll ctx members w).2.1.locks := by
  induction members generalizing w with
  | nil => exact ⟨rfl, .refl _⟩
  | cons m rest ih =>
      have here := m.state.lenient_finish ctx w
      have later := ih (Participant.finish ctx m.state w).2
      exact ⟨congrArg₂ List.cons here.held later.1, here.eased.trans later.2⟩

theorem unlockAll_among (members : List (Member (Party G)))
    (among : w.1.locks.Among ctx.tx fun k => those k ∨ heldIn (hands members) k) :
    (unlockAll ctx members w).2.1.locks.Among ctx.tx those := by
  induction members generalizing those with
  | nil =>
      refine among.mono fun k own => own.resolve_right ?_
      rintro ⟨h, member, -⟩
      exact List.not_mem_nil member
  | cons m rest ih =>
      refine m.state.among_unlock ctx (ih (among.mono fun k own => ?_))
      rw [hands, List.map_cons, heldIn_cons] at own
      exact or_assoc.2 own

theorem releaseAll_eased (members : List (Member (Party G))) (w : World × V) :
    w.1.locks.Eased (releaseAll members w).1.locks := by
  induction members generalizing w with
  | nil => exact .refl _
  | cons m rest ih => exact (m.state.release_eased w).trans (ih _)

/-! ## Ending -/

namespace Transaction

variable {t : Transaction (Party G)}

/-- Closing gives back what those that were locked hold. -/
theorem close_among (members : List (Member (Party G))) (locked : Nat)
    (among : w.1.locks.Among ctx.tx fun k => those k ∨ heldIn ((hands members).take locked) k) :
    (close ctx members locked w).1.locks.Among ctx.tx those := by
  obtain ⟨same, eased⟩ := finishAll_lenient ctx members w
  have unlocked := unlockAll_among ctx
    ((finishAll ctx members w).1.take locked) (w := (finishAll ctx members w).2) (by
      rw [hands, List.map_take, ← hands, same]
      exact among.eased eased)
  exact unlocked.eased (releaseAll_eased _ _)

theorem undoAndRelease_among (phase : t.phase.canAdvance .undoing) (locked : Nat)
    (reason : AbortReason)
    (among : w.1.locks.Among t.id fun k => those k ∨ heldIn ((hands t.members).take locked) k) :
    (t.undoAndRelease locked reason w).2.2.1.locks.Among t.id those := by
  obtain ⟨outcome, ended⟩ := undoAndRelease_close phase locked reason w
  obtain ⟨same, eased⟩ := undoAll_lenient t.context t.members w
  rw [ended]
  refine close_among t.context _ locked ?_
  rw [same]
  exact among.eased eased

theorem applyAndRelease_among (phase : t.phase.canAdvance .applying) (locked : Nat)
    (among : w.1.locks.Among t.id fun k => those k ∨ heldIn ((hands t.members).take locked) k) :
    (t.applyAndRelease locked w).2.2.1.locks.Among t.id those := by
  obtain ⟨outcome, ended⟩ := applyAndRelease_close phase locked w
  obtain ⟨same, eased⟩ := applyAll_lenient t.context t.members w
  rw [ended]
  refine close_among t.context _ locked ?_
  rw [same]
  exact among.eased eased

theorem commit_among (active : t.phase = .active) (among : w.1.locks.Among t.id those) :
    (t.commit w).2.2.1.locks.Among t.id those := by
  have taken := lockAll_among t.context t.members among
  simp only [commit, checkActive_active active]
  generalize lockAll t.context t.members w = r at taken
  cases r.refusal with
  | some e =>
      exact undoAndRelease_among (t := { t with members := r.members })
        (show t.phase.canAdvance .undoing = true by rw [active]; rfl) r.locked (lockReason e) taken
  | none =>
      have forward : t.phase.canAdvance .locked = true := by rw [active]; rfl
      have further : Phase.canAdvance .locked .validating = true := rfl
      simp only [validateAndRelease, advance, forward, further, if_true]
      generalize valid : ({ t with
          phase := Phase.validating
          visited := t.visited ++ [Phase.locked] ++ [Phase.validating]
          members := r.members } : Transaction (Party G)) = t'
      have same := validateAll_world t'.context .final r.members r.world
      rcases checked : validateAll t'.context .final r.members r.world with ⟨_ | _, w'⟩ <;>
        rw [checked] at same <;> rw [← same] at taken <;> subst valid
      · exact undoAndRelease_among rfl r.locked .validationFailed taken
      · exact applyAndRelease_among rfl r.locked taken

/-- Giving up without a lock. -/
theorem abandon_among (active : t.phase = .active) (reason : AbortReason)
    (among : w.1.locks.Among t.id those) :
    (t.undoAndRelease 0 reason w).2.2.1.locks.Among t.id those :=
  undoAndRelease_among (by rw [active]; rfl) 0 reason (among.mono fun _ => Or.inl)

theorem validateEarly_among (active : t.phase = .active) (among : w.1.locks.Among t.id those) :
    (t.validateEarly w).2.2.1.locks.Among t.id those := by
  have same := validateAll_world t.context .early t.members w
  simp only [validateEarly, checkActive_active active]
  rcases checked : validateAll t.context .early t.members w with ⟨_ | _, w'⟩ <;>
    rw [checked] at same <;> rw [← same] at among
  · have gone := abandon_among active .validationFailed among
    simp only
    rcases ended : t.undoAndRelease 0 .validationFailed w' with ⟨_ | _, t', w''⟩ <;>
      rw [ended] at gone <;> exact gone
  · exact among

omit [Participant G V] in
/-- Work through a participant does to the world what it says, or nothing. -/
theorem withModule_world {M α : Type} (facet : Facet (Party G) M)
    (f : Context → M → World × V → Except Error α × M × World × V) (t : Transaction (Party G))
    (w : World × V) :
    (withModule facet f t w).2.2 = w ∨
      ∃ s, (withModule facet f t w).2.2 = (f t.context s w).2.2 := by
  unfold withModule
  split
  · exact Or.inl rfl
  · split
    · exact Or.inl rfl
    · next t' ensured =>
      have context : t'.context = t.context := by
        unfold ensure at ensured
        split at ensured
        · cases ensured
          rfl
        · split at ensured <;> cases ensured
          rfl
      split
      · exact Or.inl rfl
      · next s put found =>
        rw [context]
        exact Or.inr ⟨s, rfl⟩

end Transaction

/-! ## Calls -/

omit [Participant G V] in
/-- **What work can do to the world**: it acts on files and asks for threads, or it reads from a pipe or
writes to one. -/
theorem Work.perform_world (chunk : Nat → Nat → Nat) (t : Transaction (Party G)) (w : World × V)
    (work : Work) :
    (∃ files threads, (work.perform chunk t w).2.1 = { w.1 with files, threads }) ∨
      (∃ (s : Pipes) (pipe max : Nat),
        (work.perform chunk t w).2.1 = (s.read (chunk pipe) pipe max w.1).2.2) ∨
      ∃ (s : Pipes) (pipe : Nat) (bytes : Bytes),
        (work.perform chunk t w).2.1 = (s.write pipe bytes w.1).2.2 := by
  have through {M α : Type} (facet : Facet (Party G) M)
      (f : M → World → Except Error α × M × World) :
      (Transaction.withModule facet (onWorld f) t w).2.2.1 = w.1 ∨
        ∃ s, (Transaction.withModule facet (onWorld f) t w).2.2.1 = (f s w.1).2.2 := by
    rcases Transaction.withModule_world facet (onWorld f) t w with same | ⟨s, same⟩
    · exact Or.inl (by rw [same])
    · exact Or.inr ⟨s, by rw [same]; rfl⟩
  cases work with
  | files job =>
      refine Or.inl ?_
      rcases through Party.files (fun s w => job.perform s w) with same | ⟨s, same⟩
      · exact ⟨w.1.files, w.1.threads, same⟩
      · exact ⟨_, w.1.threads, same.trans (job.perform_files s w.1)⟩
  | readPipe pipe max =>
      rcases through Party.pipes (fun s w => s.read (chunk pipe) pipe max w) with same | ⟨s, same⟩
      · exact Or.inl ⟨w.1.files, w.1.threads, same⟩
      · exact Or.inr (Or.inl ⟨s, pipe, max, same⟩)
  | writePipe pipe bytes =>
      rcases through Party.pipes (fun s w => s.write pipe bytes w) with same | ⟨s, same⟩
      · exact Or.inl ⟨w.1.files, w.1.threads, same⟩
      · exact Or.inr (Or.inr ⟨s, pipe, bytes, same⟩)
  | spawn name task =>
      refine Or.inl ?_
      rcases through Party.threads
        (fun s w => let r := s.spawn name task w; (.ok r.1, r.2)) with same | ⟨s, same⟩
      · exact ⟨w.1.files, w.1.threads, same⟩
      · exact ⟨w.1.files, _, same⟩
  | yieldOnce =>
      refine Or.inl ?_
      rcases through Party.yields (fun s w => (.ok (), s.yieldOnce, w)) with same | ⟨s, same⟩ <;>
        exact ⟨w.1.files, w.1.threads, same⟩

omit [Participant G V] in
theorem Work.perform_eased (chunk : Nat → Nat → Nat) (t : Transaction (Party G)) (w : World × V)
    (work : Work) : w.1.locks.Eased (work.perform chunk t w).2.1.locks := by
  rcases work.perform_world chunk t w with
    ⟨files, threads, same⟩ | ⟨s, pipe, max, same⟩ | ⟨s, pipe, bytes, same⟩ <;> rw [same]
  · exact .refl _
  · exact .ofOpen fun who => (Pipes.still_read who (chunk pipe) pipe max s w.1).locks
  · exact .ofOpen fun who => (Pipes.still_write who pipe bytes s w.1).locks

/-- An abort and a drop give up without a lock. -/
theorem PartyCall.perform_abandon (chunk : Nat → Nat → Nat) {t : Transaction (Party G)}
    (active : t.phase = .active) {call : PartyCall G} (gives : call = .abort ∨ call = .drop)
    (w : World × V) : call.perform chunk t w = (t.undoAndRelease 0 .requested w).2 := by
  rcases gives with rfl | rfl
  · rw [perform, Transaction.abort_active active]
  · rw [perform, Transaction.drop_active active]

/-- **No call leaves a lock behind**: whatever a transaction holds after a call it held before. -/
theorem PartyCall.perform_among (chunk : Nat → Nat → Nat) {t : Transaction (Party G)}
    (call : PartyCall G) (among : w.1.locks.Among t.id those) :
    (call.perform chunk t w).2.1.locks.Among t.id those := by
  by_cases active : t.phase = .active
  · cases call with
    | work job => exact among.eased (job.perform_eased chunk t w)
    | register g => exact among
    | validate => exact Transaction.validateEarly_among active among
    | commit => exact Transaction.commit_among active among
    | abort =>
        rw [perform_abandon chunk active (Or.inl rfl)]
        exact Transaction.abandon_among active .requested among
    | drop =>
        rw [perform_abandon chunk active (Or.inr rfl)]
        exact Transaction.abandon_among active .requested among
  · have refused := Transaction.checkActive_inactive active
    cases call with
    | work job => exact among.eased (job.perform_eased chunk t w)
    | register g => exact among
    | validate => simpa only [perform, Transaction.validateEarly, refused] using among
    | commit => simpa only [perform, Transaction.commit, refused] using among
    | abort => simpa only [perform, Transaction.abort, refused] using among
    | drop =>
        have idle : ¬ t.isActive = true := by simpa [Transaction.isActive] using active
        rw [perform, Transaction.drop, if_neg idle]
        exact among

theorem Conduct.opens {call : PartyCall G} {t t' : Transaction (Party G)} {w' : World × V}
    (conduct : Conduct call t w t' w') {k : ResourceKey} (open_ : w.1.locks.Open t.id k) :
    w'.1.locks.Open t.id k := by
  cases conduct with
  | aside same seated seat still => exact still.locks k open_
  | filed job =>
      rw [job.perform_files]
      exact open_
  | closing ended =>
      cases ended with
      | undone s w₁ _ visited outcome mine before after =>
          exact after.locks k ((s.undo_eased t.context w₁.1).opens (before.locks k open_))
      | applied s w₁ w₂ _ visited outcome mine before valid meanwhile after =>
          have lenient := (Party.files.wrap s : Party G).lenient_apply t.context w₂
          exact after.locks k (lenient.eased.opens (meanwhile.locks k (before.locks k open_)))

/-- Where no lock is taken none is taken after a call. -/
theorem PartyCall.perform_free (chunk : Nat → Nat → Nat) {t : Transaction (Party G)}
    (seated : t.Seated) (call : PartyCall G) (free : w.1.locks.Free) :
    (call.perform chunk t w).2.1.locks.Free := by
  have nothingHeld : w.1.locks.Among t.id fun _ => False := fun k mine => by
    rw [free k] at mine
    cases mine
  intro k
  rcases (call.conduct chunk seated w).opens (Or.inl (free k)) with still | mine
  · exact still
  · exact (call.perform_among chunk nothingHeld k mine).elim

end Parties

end Transact
