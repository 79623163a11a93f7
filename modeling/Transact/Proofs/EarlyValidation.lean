/-
# Transact.Proofs.EarlyValidation -- an early validation finds what the commit would find

A commit validates under the locks of all that was touched, and undoes under them where something is not
valid.  An early validation has no lock, and its undo borrows one for each file that was created.  Where
nobody else holds what the transaction touched the two agree: every lock is granted, validity does not
depend on locks, and a record is undone to the same effect under a lock that is held and under one that is
borrowed (`Files.undoRecord_alike`).  So participant by participant both come to the same world but for its
locks (`Transaction.undoAll_alike`, `close_alike`), and when all is over the locks of others are where they
were and the transaction has none.

Main statement: `Manager.validateEarly_final`.
-/
import Transact.Proofs.Alone
import Transact.Proofs.Custody
import Transact.Proofs.Reaching

namespace Transact

set_option autoImplicit false

/-! ## Worlds but for their locks -/

/-- The two worlds differ in their locks at most. -/
def World.Alike (w w' : World) : Prop := ∃ locks, w' = { w with locks }

theorem frame_alike : Frame World.Alike where
  refl w := ⟨w.locks, rfl⟩
  trans := by
    rintro w _ _ ⟨locks, rfl⟩ ⟨locks', rfl⟩
    exact ⟨locks', rfl⟩

theorem World.Alike.symm {w w' : World} (alike : w.Alike w') : w'.Alike w := by
  obtain ⟨locks, rfl⟩ := alike
  exact ⟨w.locks, rfl⟩

/-- Where nobody else holds a lock it is granted. -/
theorem LockTable.acquire_open {t : LockTable} {id : ResourceId} {owner : TxId}
    (open_ : t.Open owner id.key) : (t.acquire id owner).1 = true := by
  rcases taken : t.acquire id owner with ⟨_ | _, t'⟩
  · obtain ⟨⟨other, holder, ne⟩, -⟩ := acquire_false taken
    rw [holder_eq] at holder
    rcases open_ with free | own
    · rw [free] at holder
      cases holder
    · rw [own] at holder
      exact absurd (Option.some.inj holder).symm ne
  · rfl

/-! ## Undoing with and without locks in hand -/

namespace DeferredLog

variable {P S : Type} {R : S → S → Prop} {act act' : Record P → S → Except Error Unit × S}

/-- Where two ways to undo a record answer alike, so do they for all records of a list. -/
theorem undoEach_related {rs : List (Record P)}
    (each : ∀ r ∈ rs, ∀ s s', R s s' →
      (act' r s').1 = (act r s).1 ∧ R (act r s).2 (act' r s').2) {s s' : S} (start : R s s') :
    (undoEach act' rs s').1 = (undoEach act rs s).1 ∧
      R (undoEach act rs s).2 (undoEach act' rs s').2 := by
  induction rs with
  | nil => exact ⟨rfl, start⟩
  | cons r rest ih =>
      obtain ⟨first, others⟩ := List.forall_mem_cons.1 each
      obtain ⟨answers, related⟩ := ih others
      simp only [undoEach]
      generalize undoEach act rest s = q at answers related ⊢
      generalize undoEach act' rest s' = q' at answers related ⊢
      obtain ⟨a, s₁⟩ := q
      obtain ⟨a', s₁'⟩ := q'
      obtain rfl : a' = a := answers
      have here := first _ _ related
      cases a' with
      | ok _ => exact here
      | error e => exact ⟨rfl, here.2⟩

theorem undoAll_related (R : S → S → Prop) (act act' : Record P → S → Except Error Unit × S)
    (log : DeferredLog P)
    (each : ∀ r ∈ log.records, ∀ s s', R s s' →
      (act' r s').1 = (act r s).1 ∧ R (act r s).2 (act' r s').2) {s s' : S} (start : R s s') :
    (log.undoAll act' s').1 = (log.undoAll act s).1 ∧
      (log.undoAll act' s').2.1 = (log.undoAll act s).2.1 ∧
      R (log.undoAll act s).2.2 (log.undoAll act' s').2.2 := by
  obtain ⟨answers, related⟩ := undoEach_related each start
  simp only [undoAll]
  generalize undoEach act log.records s = q at answers related ⊢
  generalize undoEach act' log.records s' = q' at answers related ⊢
  obtain ⟨a, s₁⟩ := q
  obtain ⟨a', s₁'⟩ := q'
  obtain rfl : a' = a := answers
  cases a' with
  | ok _ => exact ⟨rfl, rfl, related⟩
  | error e => exact ⟨rfl, rfl, related⟩

end DeferredLog

namespace Files

variable {w w' : World} {s : Files} {tx : TxId} {held : HeldLocks}

theorem removeIfCurrent_alike (access : AccessSet) (id : ResourceId) (path : String)
    (alike : w.Alike w') :
    (removeIfCurrent access id path w').1 = (removeIfCurrent access id path w).1 ∧
      (removeIfCurrent access id path w).2.Alike (removeIfCurrent access id path w').2 := by
  obtain ⟨locks, rfl⟩ := alike
  simp only [removeIfCurrent]
  split
  · split
    · exact ⟨rfl, locks, rfl⟩
    · exact ⟨rfl, locks, rfl⟩
    · exact ⟨rfl, locks, rfl⟩
  · exact ⟨rfl, locks, rfl⟩

/-- A creation is reverted to the same effect under a lock that is held and under one that is borrowed. -/
theorem revertCreation_alike (access : AccessSet) {id : ResourceId} (path : String)
    (holds : held.holds id = true) (open_ : w.locks.Open tx id.key) (alike : w.Alike w') :
    (revertCreation tx access held id path w').1 = (revertCreation tx access {} id path w).1 ∧
      (revertCreation tx access {} id path w).2.Alike (revertCreation tx access held id path w').2 := by
  have granted := LockTable.acquire_open open_
  have empty : ({} : HeldLocks).holds id = false := rfl
  simp only [revertCreation, holds, empty, if_true, Bool.false_eq_true, if_false]
  rcases taken : w.locks.acquire id tx with ⟨_ | _, locks⟩
  · rw [taken] at granted
    cases granted
  · have borrowed : ({ w with locks } : World).Alike w' :=
      frame_alike.trans (World.Alike.symm ⟨locks, rfl⟩) alike
    obtain ⟨answer, left⟩ := removeIfCurrent_alike access id path borrowed
    exact ⟨answer, frame_alike.trans (World.Alike.symm ⟨_, rfl⟩) left⟩

/-- **A record is undone to the same effect** with its lock in hand and with none. -/
theorem undoRecord_alike (empty : s.held = {}) {r : Record FileEffect}
    (holds : held.holds r.resource = true) (open_ : w.locks.Open tx r.resource.key)
    (alike : w.Alike w') :
    (undoRecord tx { s with held } r w').1 = (undoRecord tx s r w).1 ∧
      (undoRecord tx s r w).2.Alike (undoRecord tx { s with held } r w').2 := by
  have same : w'.files = w.files := by
    obtain ⟨locks, rfl⟩ := alike
    rfl
  have moved (files : Filesystem) : ({ w with files } : World).Alike { w' with files } := by
    obtain ⟨locks, rfl⟩ := alike
    exact ⟨locks, rfl⟩
  unfold undoRecord
  split
  · split
    · next path named =>
      rw [empty]
      exact revertCreation_alike s.access path holds open_ alike
    · exact ⟨rfl, alike⟩
  · next h before _ _ =>
    cases s.handles.get? h.number with
    | none => exact ⟨rfl, alike⟩
    | some f =>
        simp only [same]
        cases w.files.seek f.descriptor before with
        | ok files => exact ⟨rfl, moved files⟩
        | error e => exact ⟨rfl, alike⟩
  · exact ⟨rfl, alike⟩

/-- **Files are undone to the same effect** with all they touched in hand and with nothing. -/
theorem undo_alike (ctx : Context) (ready : s.Ready) (empty : s.held = {})
    (covers : ∀ k ∈ s.access.observed.keys, k ∈ held.keys)
    (open_ : ∀ k ∈ s.access.observed.keys, w.locks.Open ctx.tx k) (alike : w.Alike w') :
    (undo ctx { s with held } w').1 = (s.undo ctx w).1 ∧
      (undo ctx { s with held } w').2.1 = { (s.undo ctx w).2.1 with held } ∧
      (s.undo ctx w).2.2.Alike (undo ctx { s with held } w').2.2 := by
  -- locks that can be had before a record is undone can be had afterwards
  have all := DeferredLog.undoAll_related
    (fun w w' => w.Alike w' ∧ ∀ k ∈ s.access.observed.keys, w.locks.Open ctx.tx k)
    (undoRecord ctx.tx s) (undoRecord ctx.tx { s with held }) s.log
    (fun r member w w' both => by
      have touched := ready.records r member
      obtain ⟨answer, after⟩ := undoRecord_alike empty ((held.holds_iff _).2 (covers _ touched))
        (both.2 _ touched) both.1
      exact ⟨answer, after, fun k asked =>
        (undoRecord_eased ctx.tx s r w).opens (both.2 k asked)⟩)
    ⟨alike, open_⟩
  obtain ⟨answer, log, after, -⟩ := all
  exact ⟨congrArg (Except.map fun _ => ()) answer, by simp only [undo, log], after⟩

end Files

/-! ## Participants -/

section Parties

variable {G V : Type} [Participant G V] [IsEmpty G] (ctx : Context) {w w' : World × V}

/-- The shared worlds differ in their locks at most. -/
abbrev Alike (w w' : World × V) : Prop := Within World.Alike w w'

theorem Threads.discardEach_alike (rs : List (Record SpawnRequest)) {w w' : World}
    (alike : w.Alike w') :
    (rs.foldl (fun w r => Threads.discardRecord r w) w).Alike
      (rs.foldl (fun w r => Threads.discardRecord r w) w') := by
  induction rs generalizing w w' with
  | nil => exact alike
  | cons r rest ih =>
      obtain ⟨locks, rfl⟩ := alike
      exact ih ⟨locks, rfl⟩

theorem Threads.undo_alike (s : Threads) {w w' : World} (alike : w.Alike w') :
    (s.undo w').1 = (s.undo w).1 ∧ (s.undo w').2.1 = (s.undo w).2.1 ∧
      (s.undo w).2.2.Alike (s.undo w').2.2 := by
  obtain ⟨answer, log, after⟩ := DeferredLog.undoAll_related World.Alike
    (fun r w => (.ok (), discardRecord r w)) (fun r w => (.ok (), discardRecord r w)) s.log
    (fun r _ w w' alike => by
      obtain ⟨locks, rfl⟩ := alike
      exact ⟨rfl, locks, rfl⟩) alike
  exact ⟨congrArg (Except.map fun _ => ()) answer, by simp only [undo, log], after⟩

theorem Pipes.undo_alike (s : Pipes) (held : HeldLocks) {w w' : World} (alike : w.Alike w') :
    (undo { s with held } w').1 = (s.undo w).1 ∧
      (undo { s with held } w').2.1 = { (s.undo w).2.1 with held } ∧
      (s.undo w).2.2.Alike (undo { s with held } w').2.2 := by
  obtain ⟨answer, log, after⟩ := DeferredLog.undoAll_related World.Alike
    (fun _ w => (.ok (), w)) (fun _ w => (.ok (), w)) s.log
    (fun _ _ _ _ alike => ⟨rfl, alike⟩) alike
  exact ⟨congrArg (Except.map fun _ => ()) answer, by simp only [undo, log], after⟩

namespace Party

/-- **A participant is undone to the same effect** with the locks in hand that it asks for and with
none. -/
theorem undo_alike {p : Party G} {held : HeldLocks} (ready : p.Ready) (empty : p.held = {})
    (covers : ∀ k ∈ p.asked, k ∈ held.keys) (open_ : ∀ k ∈ p.asked, w.1.locks.Open ctx.tx k)
    (alike : Alike w w') :
    (Participant.undo ctx (p.withHeld held) w').1 = (Participant.undo ctx p w).1 ∧
      (Participant.undo ctx (p.withHeld held) w').2.1 = (Participant.undo ctx p w).2.1.withHeld held ∧
      Alike (Participant.undo ctx p w).2.2 (Participant.undo ctx (p.withHeld held) w').2.2 := by
  have asked : p.asked = p.needs := AccessSet.keys_observed ready.keyed
  rw [asked] at covers open_
  rcases p with (s | s | s | s) | g
  · obtain ⟨answer, left, after⟩ := Files.undo_alike ctx ready empty covers open_ alike
    exact ⟨answer, congrArg (fun s => Party.builtin (.files s)) left, after⟩
  · obtain ⟨answer, left, after⟩ := s.undo_alike held alike
    exact ⟨answer, congrArg (fun s => Party.builtin (.pipes s)) left, after⟩
  · obtain ⟨answer, left, after⟩ := s.undo_alike alike
    exact ⟨answer, congrArg (fun s => Party.builtin (.threads s)) left, after⟩
  · exact ⟨rfl, rfl, alike⟩
  · exact isEmptyElim g

omit [Participant G V] [IsEmpty G] in
theorem withHeld_held (p : Party G) : p.withHeld p.held = p := by
  rcases p with (s | s | s | s) | g <;> rfl

/-- Locks neither matter to whether a participant is valid nor does the time of the validation. -/
theorem validate_withHeld (v v' : Validation) (p : Party G) (held : HeldLocks) (alike : Alike w w') :
    Participant.validate ctx v' (p.withHeld held) w' = ((Participant.validate ctx v p w).1, w') := by
  obtain ⟨locks, same⟩ := alike
  obtain ⟨w', x⟩ := w'
  obtain rfl : w' = { w.1 with locks } := same
  rcases p with (s | s | s | s) | g
  · rfl
  · rfl
  · rfl
  · rfl
  · exact isEmptyElim g

theorem finish_withHeld (p : Party G) (held : HeldLocks) (w w' : World × V) :
    (Participant.finish ctx (p.withHeld held) w').1 = (Participant.finish ctx p w).1.withHeld held := by
  rcases p with (s | s | s | s) | g
  · rfl
  · rfl
  · rfl
  · rfl
  · exact isEmptyElim g

theorem finish_alike (p : Party G) (w : World × V) : Alike w (Participant.finish ctx p w).2 := by
  rcases p with (s | s | s | s) | g
  · exact frame_alike.refl w.1
  · exact frame_alike.refl w.1
  · exact frame_alike.refl w.1
  · exact frame_alike.refl w.1
  · exact isEmptyElim g

theorem unlock_alike (p : Party G) (w : World × V) :
    (Participant.unlock ctx p w).1 = p.withHeld {} ∧ Alike w (Participant.unlock ctx p w).2 := by
  rcases p with (s | s | s | s) | g
  · exact ⟨rfl, _, rfl⟩
  · exact ⟨rfl, _, rfl⟩
  · exact ⟨rfl, frame_alike.refl w.1⟩
  · exact ⟨rfl, frame_alike.refl w.1⟩
  · exact isEmptyElim g

theorem release_alike (p : Party G) (held : HeldLocks) (alike : Alike w w') :
    Alike (Participant.release p w).2 (Participant.release (p.withHeld held) w').2 := by
  rcases p with (s | s | s | s) | g
  · exact alike
  · exact alike
  · exact Threads.discardEach_alike s.log.records alike
  · exact alike
  · exact isEmptyElim g

end Party

/-! ## All participants -/

section Members

variable {members members' : List (Member (Party G))}

omit [Participant G V] [IsEmpty G] in
theorem Rearmed.refl (members : List (Member (Party G))) : Rearmed members members :=
  List.forall₂_same.2 fun m _ => ⟨m.state.held, by rw [m.state.withHeld_held]⟩

/-- **All are valid under their locks exactly if they are without them.** -/
theorem Rearmed.validateAll_alike (rearmed : Rearmed members members') (v v' : Validation)
    (alike : Alike w w') :
    Transact.validateAll ctx v' members' w' = ((Transact.validateAll ctx v members w).1, w') := by
  induction rearmed with
  | nil => rfl
  | @cons m _ rest rest' here _ ih =>
      obtain ⟨held, rfl⟩ := here
      have there := m.state.validate_withHeld ctx v v' held alike
      have same := m.state.validate_withHeld ctx v v m.state.held (frame_alike.refl w.1)
      rw [m.state.withHeld_held] at same
      simp only [Transact.validateAll, there]
      rw [same]
      cases (Participant.validate ctx v m.state w).1 with
      | false => rfl
      | true => exact ih

/-- **All are undone to the same effect** with the locks in hand that they ask for and with none. -/
theorem Armed.undoAll_alike (armed : Armed members members')
    (ready : ∀ m ∈ members, m.state.Ready ∧ m.state.held = {})
    (open_ : ∀ m ∈ members, ∀ k ∈ m.state.asked, w.1.locks.Open ctx.tx k) (alike : Alike w w') :
    (undoAll ctx members' w').1 = (undoAll ctx members w).1 ∧
      Rearmed (undoAll ctx members w).2.1 (undoAll ctx members' w').2.1 ∧
      Alike (undoAll ctx members w).2.2 (undoAll ctx members' w').2.2 := by
  induction armed with
  | nil => exact ⟨rfl, .nil, alike⟩
  | @cons m _ rest rest' here _ ih =>
      obtain ⟨held, rfl, covers⟩ := here
      obtain ⟨readyFirst, readyRest⟩ := List.forall_mem_cons.1 ready
      obtain ⟨openFirst, openRest⟩ := List.forall_mem_cons.1 open_
      obtain ⟨faults, left, after⟩ := ih readyRest openRest
      have still : ∀ k ∈ m.state.asked, (undoAll ctx rest w).2.2.1.locks.Open ctx.tx k :=
        fun k asked => (undoAll_lenient ctx rest w).2.opens (openFirst k asked)
      obtain ⟨answer, back, world⟩ :=
        Party.undo_alike ctx readyFirst.1 readyFirst.2 covers still after
      have back' := congrArg (Member.mk m.domain) back
      simp only [undoAll, faults]
      rcases one : Participant.undo ctx m.state (undoAll ctx rest w).2.2 with ⟨a, p, w₁⟩
      rcases other : Participant.undo ctx (m.state.withHeld held) (undoAll ctx rest' w').2.2 with
        ⟨a', p', w₁'⟩
      rw [one, other] at answer back' world
      obtain rfl : a' = a := answer
      cases a' with
      | ok _ => exact ⟨rfl, .cons ⟨held, back'⟩ left, world⟩
      | error e => exact ⟨rfl, .cons ⟨held, back'⟩ left, world⟩

theorem finishAll_alike (rearmed : Rearmed members members') (w w' : World × V) :
    Rearmed (finishAll ctx members w).1 (finishAll ctx members' w').1 := by
  induction rearmed generalizing w w' with
  | nil => exact .nil
  | @cons m _ rest rest' here _ ih =>
      obtain ⟨held, rfl⟩ := here
      exact .cons ⟨held, congrArg (Member.mk m.domain) (m.state.finish_withHeld ctx held w w')⟩ (ih _ _)

theorem finishAll_world (members : List (Member (Party G))) (w : World × V) :
    Alike w (finishAll ctx members w).2 := by
  rw [finishAll_sweep]
  exact sweep_within (frame_within frame_alike) members (fun m _ w => m.state.finish_alike ctx w) w

theorem unlockAll_alike (members : List (Member (Party G))) (w : World × V) :
    Rearmed members (unlockAll ctx members w).1 ∧ Alike w (unlockAll ctx members w).2 := by
  induction members with
  | nil => exact ⟨.nil, frame_alike.refl w.1⟩
  | cons m rest ih =>
      obtain ⟨later, before⟩ := ih
      obtain ⟨emptied, here⟩ := m.state.unlock_alike ctx (unlockAll ctx rest w).2
      exact ⟨.cons ⟨{}, congrArg (Member.mk m.domain) emptied⟩ later, frame_alike.trans before here⟩

theorem releaseAll_alike (rearmed : Rearmed members members') (alike : Alike w w') :
    Alike (releaseAll members w) (releaseAll members' w') := by
  induction rearmed generalizing w w' with
  | nil => exact alike
  | @cons m _ rest rest' here _ ih =>
      obtain ⟨held, rfl⟩ := here
      exact ih (m.state.release_alike held alike)

/-- To close comes to releasing everybody, but for the locks. -/
theorem close_release (members : List (Member (Party G))) (locked : Nat) (w : World × V) :
    Alike (releaseAll (finishAll ctx members w).1 w) (Transaction.close ctx members locked w) := by
  obtain ⟨unlocked, after⟩ :=
    unlockAll_alike ctx ((finishAll ctx members w).1.take locked) (finishAll ctx members w).2
  have all := List.rel_append unlocked (Rearmed.refl ((finishAll ctx members w).1.drop locked))
  simp only [List.take_append_drop] at all
  exact releaseAll_alike all (frame_alike.trans (finishAll_world ctx members w) after)

/-- **Closing comes to the same**, whatever locks are in hand and however many are given back. -/
theorem close_alike (rearmed : Rearmed members members') (locked locked' : Nat) (alike : Alike w w') :
    Alike (Transaction.close ctx members locked w) (Transaction.close ctx members' locked' w') := by
  have released := releaseAll_alike (finishAll_alike ctx rearmed w w') alike
  exact frame_alike.trans (World.Alike.symm (close_release ctx members locked w))
    (frame_alike.trans released (close_release ctx members' locked' w'))

end Members

/-! ## Both validations -/

namespace Transaction

variable {t : Transaction (Party G)}

/-- **An early validation finds what the commit would find**, if nobody else holds what was touched: both
find all valid, or both give up for the same reason and leave the same but for the locks. -/
theorem early_final (ready : t.Ready) (active : t.phase = .active) (unvisited : t.visited = [])
    (open_ : ∀ m ∈ t.members, ∀ k ∈ m.state.asked, w.1.locks.Open t.id k) :
    t.validateEarly w = (.ok (), t, w) ∧ .applying ∈ (t.commit w).2.1.visited ∨
      ∃ e reason visited visited', (t.validateEarly w).1 = .error e ∧
        (t.validateEarly w).2.1 = t.ended visited (.aborted reason) ∧
        (t.commit w).2.1 = t.ended visited' (.aborted reason) ∧ .applying ∉ visited' ∧
        Alike (t.validateEarly w).2.2 (t.commit w).2.2 := by
  obtain ⟨granted, armed, locks, world⟩ := lockAll_open t.context t.members open_
  have early := (Rearmed.refl t.members).validateAll_alike t.context .early .early
    (frame_alike.refl w.1)
  have sound : ∀ m ∈ t.members, m.state.Ready ∧ m.state.held = {} := fun m member =>
    (ready.members m member).imp_left Member.Ready.ready
  have other : Alike w ({ w.1 with locks }, w.2) := ⟨locks, rfl⟩
  have final := armed.rearmed.validateAll_alike t.context .early .final other
  have undone := armed.undoAll_alike t.context sound open_ other
  have forward : t.phase.canAdvance .locked = true := by rw [active]; rfl
  have further : Phase.canAdvance .locked .validating = true := rfl
  simp only [validateEarly, commit, checkActive_active active]
  rcases taken : lockAll t.context t.members w with ⟨members, locked, refusal, w₁⟩
  rw [taken] at granted armed world final undone
  simp only at granted armed world final undone
  subst granted world
  have context : ({ t with
      phase := Phase.validating
      visited := t.visited ++ [Phase.locked, .validating], members } :
      Transaction (Party G)).context = t.context := rfl
  simp only [validateAndRelease, advance, forward, further, if_true, List.append_assoc,
    List.singleton_append, context, final]
  rw [early]
  cases (validateAll t.context .early t.members w).1 with
  | true =>
      refine Or.inl ⟨rfl, ?_⟩
      simp only
      rw [applyAndRelease_eq rfl]
      simp [ended, unvisited]
  | false =>
      obtain ⟨faults, left, after⟩ := undone
      refine Or.inr ?_
      simp only
      rw [undoAndRelease_eq (show t.phase.canAdvance .undoing = true by rw [active]; rfl),
        undoAndRelease_eq rfl]
      simp only [context, faults]
      exact ⟨_, _, _, [.locked, .validating, .undoing, .finishing, .released], rfl, rfl,
        ended_onward .., by decide, close_alike t.context left _ _ after⟩

end Transaction

/-! ## The locks of others -/

omit [Participant G V] [IsEmpty G] in
/-- Whatever a transaction does step by step, it leaves the locks of others where they are. -/
theorem Procedure.run_heldBy {α : Type} (q : Procedure V α) (tx : TxId) (w : World × V) {other : TxId}
    (ne : other ≠ tx) : (q.run tx w).2.1.locks.heldBy other = w.1.locks.heldBy other := by
  induction q generalizing w with
  | done a => rfl
  | act p next ih =>
      have here := p.perform_heldBy tx w other
      rw [if_neg ne] at here
      exact (ih _ _).trans here

omit [IsEmpty G] in
/-- **No call moves the locks of others.** -/
theorem PartyCall.perform_heldBy (chunk : Nat → Nat → Nat) (call : PartyCall G)
    (t : Transaction (Party G)) (w : World × V) {other : TxId} (ne : other ≠ t.id) :
    (call.perform chunk t w).2.1.locks.heldBy other = w.1.locks.heldBy other := by
  cases taken : Stepwise.steps t call with
  | some q =>
      rw [← Stepwise.steps_run chunk taken w]
      exact q.run_heldBy t.id w ne
  | none =>
      cases call with
      | work job =>
          have same := (job.perform_unshared chunk t w).locks
          exact congrArg (LockTable.heldBy · other) same
      | register g => rfl
      | _ => cases taken

theorem LockTable.holder_congr {l l' : LockTable} {who : TxId}
    (others : ∀ other, other ≠ who → l'.heldBy other = l.heldBy other)
    (unheld : ∀ k, l.holderOf k ≠ some who) (unheld' : ∀ k, l'.holderOf k ≠ some who)
    (id : ResourceId) : l'.holder id = l.holder id := by
  refine Option.ext fun other => ?_
  by_cases mine : other = who
  · subst mine
    exact iff_of_false (unheld' id.key) (unheld id.key)
  · exact Set.ext_iff.1 (others other mine) id.key

/-! ## What is left of a transaction -/

/-- Two managers that nobody can tell apart: the worlds have the same tree and contents, the same
descriptors at the same offsets, the same pipes, threads and versions, and the same holders of locks; what
was counted and announced is the same too. -/
structure Manager.Indistinct {B : Type} (m m' : Manager (World × V) B) : Prop where
  files : m'.world.1.files = m.world.1.files
  pipes : m'.world.1.pipes = m.world.1.pipes
  threads : m'.world.1.threads = m.world.1.threads
  versions : m'.world.1.versions = m.world.1.versions
  holders : ∀ id, m'.world.1.locks.holder id = m.world.1.locks.holder id
  stats : m'.stats = m.stats
  bus : m'.bus = m.bus

omit [Participant G V] [IsEmpty G] in
/-- What is counted and announced does not depend on the world or on the way to the end. -/
theorem Manager.reportEnd_ended {W P B L : Type} [Delivery B L TxEvent] (m : Manager W B)
    (t : Transaction P) (outcome : Outcome) :
    ∃ stats bus, ∀ (world : W) (visited : List Phase),
      ({ m with world } : Manager W B).reportEnd t (t.ended visited outcome) =
        { m with world, stats, bus } := by
  cases reported : t.outcome with
  | some o => exact ⟨m.stats, m.bus, fun _ _ => by simp only [reportEnd, reported]⟩
  | none =>
      cases reports : t.reports with
      | false =>
          exact ⟨m.stats, m.bus, fun _ _ => by
            simp [reportEnd, reported, report, Transaction.ended, reports]⟩
      | true =>
          exact ⟨m.stats.recordOutcome outcome,
            (EventBus.publish { tx := t.id, outcome, roster := t.roster } m.bus).2, fun _ _ => by
              simp [reportEnd, reported, report, Transaction.ended, reports]⟩

/-- **An early validation has the meaning of the final one.**  On a transaction at work over built-in
participants, where nobody else holds a lock on what it touched: an early validation succeeds exactly if a
commit in its place would find all valid.  If it succeeds it changes nothing.  If it fails, it leaves the
outcome and everything else as the commit would have left them. -/
theorem Manager.validateEarly_final {B L : Type} [Delivery B L TxEvent]
    (chunk : Nat → Nat → Nat) {m : Manager (World × V) B} {t : Transaction (Party G)}
    (reached : Reached chunk t m.world) (active : t.phase = .active)
    (unopposed : ∀ p ∈ t.members, ∀ k ∈ p.state.needs, ∀ who,
      m.world.1.locks.holderOf k = some who → who = t.id) :
    let early := m.validateEarly t
    let final := m.commit t
    (early.1 = .ok () ↔ .applying ∈ final.2.1.visited) ∧
      (early.1 = .ok () → early.2 = (t, m)) ∧
      (early.1 ≠ .ok () →
        early.2.1.outcome = final.2.1.outcome ∧ Manager.Indistinct early.2.2 final.2.2) := by
  intro early final
  have ready := reached.ready
  have unvisited := reached.unvisited active
  have open_ : ∀ p ∈ t.members, ∀ k ∈ p.state.asked, m.world.1.locks.Open t.id k := by
    intro p member k asked
    have needed : k ∈ p.state.needs := by
      rw [Party.needs, ← AccessSet.keys_observed (ready.members p member).1.ready.keyed]
      exact asked
    cases holder : m.world.1.locks.holderOf k with
    | none => exact Or.inl holder
    | some who => exact Or.inr (holder.trans (congrArg some (unopposed p member k needed who holder)))
  rcases Transaction.early_final ready active unvisited open_ with ⟨found, applied⟩ |
    ⟨e, reason, visited, visited', failed, left, left', unapplied, alike⟩
  · have unchanged : early = (.ok (), t, m) := by
      show m.through t Transaction.validateEarly = _
      rw [through_eq, found, reportEnd_same rfl]
    rw [unchanged]
    exact ⟨iff_of_true rfl applied, fun _ => rfl, fun failed => absurd rfl failed⟩
  · have refused : early.1 ≠ .ok () := by
      show (t.validateEarly m.world).1 ≠ .ok ()
      rw [failed]
      exact fun same => by cases same
    have gone : .applying ∉ final.2.1.visited := by
      show .applying ∉ (t.commit m.world).2.1.visited
      rw [left']
      simpa [Transaction.ended, unvisited] using unapplied
    refine ⟨iff_of_false refused gone, fun found => absurd found refused, fun _ => ?_⟩
    obtain ⟨stats, bus, reported⟩ := m.reportEnd_ended t (.aborted reason)
    have after : early.2 = (t.ended visited (.aborted reason),
        { m with world := (t.validateEarly m.world).2.2, stats, bus }) := by
      show (m.through t Transaction.validateEarly).2 = _
      rw [through_eq, left, reported]
    have after' : final.2 = (t.ended visited' (.aborted reason),
        { m with world := (t.commit m.world).2.2, stats, bus }) := by
      show (m.through t Transaction.commit).2 = _
      rw [through_eq, left', reported]
    have unheld : m.world.1.locks.Among t.id fun _ => False := reached.unheld
    have holders := LockTable.holder_congr
      (fun other ne => (PartyCall.perform_heldBy chunk .commit t m.world ne).trans
        (PartyCall.perform_heldBy chunk .validate t m.world ne).symm)
      (PartyCall.perform_among chunk .validate unheld) (PartyCall.perform_among chunk .commit unheld)
    rw [after, after']
    obtain ⟨locks, same⟩ := alike
    refine ⟨rfl, ?_, ?_, ?_, ?_, holders, rfl, rfl⟩ <;> rw [same]

end Parties

/-- It creates a file, takes in a descriptor, moves it, and works on the pipe. -/
def visiting : List (PartyCall Empty) :=
  [.work (.files (.plain (.openPath "/new" { write := true, create := true }))),
    .work (.files (.adopt 0 "/old")),
    .work (.files (.plain (.read ⟨1⟩ 1))),
    .work (.writePipe 0 [8])]

/-- Somebody published what was read, and holds a lock of his own: both ways the new file is gone, the
descriptor is back and the stranger keeps his lock. -/
theorem Manager.validateEarly_final_overtaken :
    let r := visiting.foldl (fun s call => call.perform (fun _ _ => 1) s.1 s.2)
      (({ id := ⟨1, "first"⟩, config := {} } : Transaction (Party Empty)),
        ((Assembly.oldAndPipe, ()) : World × Unit))
    let stranger : TxId := ⟨2, "second"⟩
    let overtaken : World :=
      { r.2.1.bump (.path "/old") with
        locks := (r.2.1.locks.acquire (.path "/other") stranger).2 }
    let m : Manager (World × Unit) (Switchboard TxEvent) := { world := (overtaken, ()), bus := {} }
    let early := m.validateEarly r.1
    let final := m.commit r.1
    (overtaken.files.entry? ["new"] = some (.file 1) ∧ overtaken.files.position 0 = 2) ∧
      early.2.1.outcome = some (.aborted .validationFailed) ∧
      final.2.1.outcome = some (.aborted .validationFailed) ∧
      final.2.2.world.1.files = early.2.2.world.1.files ∧
      (early.2.2.world.1.files.entry? ["new"] = none ∧ early.2.2.world.1.files.position 0 = 1) ∧
      final.2.2.world.1.locks.holder (.path "/other") = some stranger := by
  intro r stranger overtaken m early final
  have begun : Reached (fun _ _ => 1) ({ id := ⟨1, "first"⟩, config := {} } : Transaction (Party Empty))
      ((Assembly.oldAndPipe, ()) : World × Unit) := .begun _ _ _ _ fun k held => by cases held
  have reached : Reached (fun _ _ => 1) r.1 m.world := by
    refine (begun.calls visiting).meanwhile m.world fun k held => ?_
    have taken : r.2.1.locks.acquire (.path "/other") stranger = (true, overtaken.locks) := rfl
    rw [(LockTable.acquire_true taken).2 k] at held
    split at held
    · exact absurd (Option.some.inj held) (by decide +kernel)
    · cases held
  have free : ∀ p ∈ r.1.members, ∀ k ∈ p.state.needs, overtaken.locks.holderOf k = none := by
    decide +kernel
  have agree := validateEarly_final (fun _ _ => 1) (m := m) reached rfl fun p member k needed who held => by
    rw [free p member k needed] at held
    cases held
  obtain ⟨outcome, same⟩ := agree.2.2 fun found => by cases found
  have gave : early.2.1.outcome = some (.aborted .validationFailed) := by decide +kernel
  have keeps : early.2.2.world.1.locks.holder (.path "/other") = some stranger := by decide +kernel
  refine ⟨by decide +kernel, gave, outcome.symm.trans gave, same.files, by decide +kernel, ?_⟩
  exact (same.holders _).trans keeps

end Transact
