/-
# Transact.Proofs.Conduct -- what a call does to files and versions

Files and versions change in four ways only: by work on files, by the undo and by the apply of the files
of a transaction, and by other participants' apply, which counts versions up.  `Conduct` lists what a
call on a transaction can do to them, and `perform_conduct` says that nothing else happens, whatever
the guests do.

No call takes a lock from its holder: at a lock that was free or the caller's it is so afterwards
(`Still.locks`).
-/
import Transact.Proofs.Requests
import Transact.Proofs.Seats

namespace Transact

set_option autoImplicit false

/-! ## Locks -/

/-- Nobody but `who` holds the lock with this key. -/
def LockTable.Open (t : LockTable) (who : TxId) (k : ResourceKey) : Prop :=
  t.holderOf k = none ∨ t.holderOf k = some who

instance (t : LockTable) (who : TxId) (k : ResourceKey) : Decidable (t.Open who k) :=
  inferInstanceAs (Decidable (_ ∨ _))

namespace HeldLocks

variable {who : TxId} {k : ResourceKey} {t : LockTable}

theorem open_releaseEach (ids : List ResourceId) (free : t.Open who k) :
    (releaseEach who ids t).Open who k := by
  rw [LockTable.Open, holderOf_releaseEach]
  split
  · exact Or.inl rfl
  · exact free

theorem open_acquireEach (ids : List ResourceId) (h : HeldLocks) (free : t.Open who k) :
    (acquireEach who ids h t).2.2.Open who k := by
  have answered := acquireEach_answered who ids h t
  generalize acquireEach who ids h t = r at answered ⊢
  cases answered with
  | granted open_ keys distinct holders =>
      rw [LockTable.Open, holders]
      split
      · exact Or.inr rfl
      · exact free
  | refused before id after parts open_ new barred holders =>
      rw [LockTable.Open, holders]
      split
      · exact Or.inl rfl
      · exact free

end HeldLocks

theorem AccessSet.current_publish_le (a : AccessSet) (v : VersionTable) (id : ResourceId) :
    v.current id ≤ (a.publish v).current id := by
  have each (ids : List ResourceId) (v : VersionTable) :
      v.current id ≤ (ids.foldl VersionTable.bump v).current id := by
    induction ids generalizing v with
    | nil => exact Nat.le_refl _
    | cons first rest ih =>
        have here := current_bump v first id
        have later := ih (v.bump first)
        rw [List.foldl_cons]
        omega
  exact each a.written.values v

/-! ## Aside from the files -/

/-- Files and versions are as they were, and no lock was taken from its holder. -/
structure Still (who : TxId) (w w' : World) : Prop where
  files : w'.files = w.files
  versions : w'.versions = w.versions
  locks : ∀ k, w.locks.Open who k → w'.locks.Open who k

/-- Files are as they were, and versions were counted up at most. -/
structure Publishing (who : TxId) (w w' : World) : Prop where
  files : w'.files = w.files
  versions : ∀ id, w.versions.current id ≤ w'.versions.current id
  locks : ∀ k, w.locks.Open who k → w'.locks.Open who k

theorem frame_still (who : TxId) : Frame (Still who) where
  refl _ := ⟨rfl, rfl, fun _ free => free⟩
  trans first second :=
    ⟨second.files.trans first.files, second.versions.trans first.versions,
      fun k free => second.locks k (first.locks k free)⟩

theorem frame_publishing (who : TxId) : Frame (Publishing who) where
  refl _ := ⟨rfl, fun _ => Nat.le_refl _, fun _ free => free⟩
  trans first second :=
    ⟨second.files.trans first.files, fun id => Nat.le_trans (first.versions id) (second.versions id),
      fun k free => second.locks k (first.locks k free)⟩

theorem Still.publishing {who : TxId} {w w' : World} (still : Still who w w') :
    Publishing who w w' :=
  ⟨still.files, fun id => by rw [still.versions], still.locks⟩

/-- A change of locks that takes none away. -/
theorem Still.ofLocks {who : TxId} (w : World) {locks : LockTable}
    (free : ∀ k, w.locks.Open who k → locks.Open who k) : Still who w { w with locks } :=
  ⟨rfl, rfl, free⟩

/-- A change of pipes and threads. -/
theorem Still.ofRest (who : TxId) (w : World) (pipes : PipeTable) (threads : ThreadTable) :
    Still who w { w with pipes, threads } :=
  ⟨rfl, rfl, fun _ free => free⟩

/-! ### Participants one by one -/

namespace Threads

theorem still_release (who : TxId) (s : Threads) (w : World) : Still who w (s.release w).2 := by
  simp only [release]
  generalize s.log.records = rs
  induction rs generalizing w with
  | nil => exact (frame_still who).refl w
  | cons r rest ih => exact (frame_still who).trans (.ofRest who w w.pipes _) (ih _)

theorem undo_world (s : Threads) (w : World) : (s.undo w).2.2 = s.log.records.foldr discardRecord w :=
  s.log.undoAll_foldr (fun r w => (.ok (), discardRecord r w)) w

theorem still_undo (who : TxId) (s : Threads) (w : World) : Still who w (s.undo w).2.2 := by
  rw [undo_world]
  generalize s.log.records = rs
  induction rs with
  | nil => exact (frame_still who).refl w
  | cons r rest ih =>
      exact (frame_still who).trans ih (.ofRest who _ (rest.foldr discardRecord w).pipes _)

theorem still_startThread (who : TxId) (w : World) (id : Nat) : Still who w (w.startThread id).2 := by
  have run (w : World) : Still who w (w.runThread id) := by
    unfold World.runThread
    split
    · simp only
      split
      · exact .ofRest who w w.pipes _
      · split
        · exact .ofRest who w w.pipes _
        · split
          · exact .ofRest who w w.pipes _
          · split <;> exact ⟨rfl, rfl, fun _ free => free⟩
    · exact (frame_still who).refl w
  unfold World.startThread
  rcases w.threads.start id with ⟨_ | _, threads⟩
  · exact .ofRest who w w.pipes threads
  · exact (frame_still who).trans (.ofRest who w w.pipes threads) (run _)

theorem still_apply (who : TxId) (s : Threads) (w : World) : Still who w (s.apply w).2.2 := by
  have each (rs : List (Record SpawnRequest)) (w : World) :
      Still who w (DeferredLog.applyEach applyRecord rs w).2 := by
    induction rs generalizing w with
    | nil => exact (frame_still who).refl w
    | cons r rest ih =>
        have here := still_startThread who w r.payload.thread
        simp only [DeferredLog.applyEach, applyRecord]
        rcases started : w.startThread r.payload.thread with ⟨_ | _, w'⟩ <;> rw [started] at here
        · exact here
        · exact (frame_still who).trans here (ih w')
  have all := each s.log.records w
  simp only [apply, DeferredLog.applyAll]
  rcases done : DeferredLog.applyEach applyRecord s.log.records w with ⟨_ | _, w'⟩ <;>
    rw [done] at all <;> exact all

end Threads

namespace Pipes

theorem undo_world (s : Pipes) (w : World) : (s.undo w).2.2 = w := by
  have done := s.log.undoAll_foldr (fun (_ : Record PipeEffect) w => (.ok (), w)) w
  rw [List.foldr_fixed] at done
  exact done

theorem still_undo (who : TxId) (s : Pipes) (w : World) : Still who w (s.undo w).2.2 := by
  rw [undo_world]
  exact (frame_still who).refl w

theorem publishing_apply (who : TxId) (s : Pipes) (w : World) : Publishing who w (s.apply w).2.2 := by
  have record (r : Record PipeEffect) (w : World) : Still who w (s.applyRecord r w).2 := by
    simp only [applyRecord]
    cases s.pipeOf r.resource w with
    | error e => exact (frame_still who).refl w
    | ok p =>
        simp only
        split
        · exact .ofRest who w _ w.threads
        · exact (frame_still who).refl w
  have each (rs : List (Record PipeEffect)) (w : World) :
      Still who w (DeferredLog.applyEach s.applyRecord rs w).2 := by
    induction rs generalizing w with
    | nil => exact (frame_still who).refl w
    | cons r rest ih =>
        have here := record r w
        simp only [DeferredLog.applyEach]
        rcases done : s.applyRecord r w with ⟨_ | _, w'⟩ <;> rw [done] at here
        · exact here
        · exact (frame_still who).trans here (ih w')
  have all := each s.log.records w
  have published (w' : World) :
      Publishing who w' { w' with versions := s.access.publish w'.versions } :=
    ⟨rfl, fun id => s.access.current_publish_le w'.versions id, fun _ free => free⟩
  simp only [apply, DeferredLog.applyAll]
  rcases done : DeferredLog.applyEach s.applyRecord s.log.records w with ⟨_ | _, w'⟩ <;>
    rw [done] at all <;> exact (frame_publishing who).trans all.publishing (published w')

end Pipes

/-! ### All built-in participants -/

namespace Builtin

variable (ctx : Context) (b : Builtin) (w : World)

theorem still_lock : Still ctx.tx w (Participant.lock ctx b w).2.2 := by
  cases b with
  | files s => exact .ofLocks w fun _ => HeldLocks.open_acquireEach _ _
  | pipes s => exact .ofLocks w fun _ => HeldLocks.open_acquireEach _ _
  | threads s => exact (frame_still ctx.tx).refl w
  | yields s => exact (frame_still ctx.tx).refl w

theorem still_unlock : Still ctx.tx w (Participant.unlock ctx b w).2 := by
  cases b with
  | files s => exact .ofLocks w fun _ => HeldLocks.open_releaseEach _
  | pipes s => exact .ofLocks w fun _ => HeldLocks.open_releaseEach _
  | threads s => exact (frame_still ctx.tx).refl w
  | yields s => exact (frame_still ctx.tx).refl w

theorem still_validate (v : Validation) : Still ctx.tx w (Participant.validate ctx v b w).2 := by
  cases b <;> exact (frame_still ctx.tx).refl w

theorem still_finish : Still ctx.tx w (Participant.finish ctx b w).2 := by
  cases b <;> exact (frame_still ctx.tx).refl w

theorem still_release (who : TxId) : Still who w (Participant.release b w).2 := by
  cases b with
  | threads s => exact s.still_release who w
  | files s => exact (frame_still who).refl w
  | pipes s => exact (frame_still who).refl w
  | yields s => exact (frame_still who).refl w

theorem still_undo (other : filesFacet.view b = none) :
    Still ctx.tx w (Participant.undo ctx b w).2.2 := by
  cases b with
  | files s => cases other
  | pipes s => exact s.still_undo ctx.tx w
  | threads s => exact s.still_undo ctx.tx w
  | yields s => exact (frame_still ctx.tx).refl w

theorem publishing_apply (other : filesFacet.view b = none) :
    Publishing ctx.tx w (Participant.apply ctx b w).2.2 := by
  cases b with
  | files s => cases other
  | pipes s => exact s.publishing_apply ctx.tx w
  | threads s => exact (s.still_apply ctx.tx w).publishing
  | yields s => exact (frame_publishing ctx.tx).refl w

end Builtin

/-! ## Parties -/

section Parties

variable {G V : Type} [Participant G V]

/-- A relation of worlds, whatever happens to that of the guests. -/
def Within (F : World → World → Prop) (w w' : World × V) : Prop := F w.1 w'.1

theorem frame_within {F : World → World → Prop} (frame : Frame F) : Frame (Within (V := V) F) where
  refl w := frame.refl w.1
  trans first second := frame.trans first second

/-- Locked files differ in the locks held. -/
def Files.SameButHeld (s s' : Files) : Prop := ∃ held, s' = { s with held }

/-- At the end of a transaction all but the files leave files alone. -/
theorem files_manners (ctx : Context) :
    Manners (Party.files : Facet (Party G) Files) (Within (V := V) (Still ctx.tx))
      (Within (Publishing ctx.tx)) Files.SameButHeld ctx where
  lawful := Party.lawful_files
  quiet := frame_within (frame_still ctx.tx)
  busy := frame_within (frame_publishing ctx.tx)
  weaken still := still.publishing
  lock p w := by
    cases p with
    | builtin b => exact b.still_lock ctx w.1
    | guest g => exact (frame_still ctx.tx).refl w.1
  locked s w := ⟨_, ⟨_, rfl⟩, rfl⟩
  unseen p w unseen := by
    cases p with
    | builtin b => cases b <;> first | rfl | cases unseen
    | guest g => rfl
  same := ⟨_, rfl⟩
  unlock p w := by
    cases p with
    | builtin b => exact b.still_unlock ctx w.1
    | guest g => exact (frame_still ctx.tx).refl w.1
  validate v p w := by
    cases p with
    | builtin b => exact b.still_validate ctx w.1 v
    | guest g => exact (frame_still ctx.tx).refl w.1
  finish p w := by
    cases p with
    | builtin b => exact b.still_finish ctx w.1
    | guest g => exact (frame_still ctx.tx).refl w.1
  release p w := by
    cases p with
    | builtin b => exact b.still_release w.1 ctx.tx
    | guest g => exact (frame_still ctx.tx).refl w.1
  undo p unseen w := by
    cases p with
    | builtin b => exact b.still_undo ctx w.1 unseen
    | guest g => exact (frame_still ctx.tx).refl w.1
  apply p unseen w := by
    cases p with
    | builtin b => exact b.publishing_apply ctx w.1 unseen
    | guest g => exact (frame_publishing ctx.tx).refl w.1
  idleUndo _ := rfl
  idleApply _ := rfl
  idleValid _ _ := rfl

/-- A transaction at work, with at most one participant of each sort. -/
structure Transaction.Seated (t : Transaction (Party G)) : Prop where
  active : t.phase = .active
  unseen : t.visited = []
  files : t.Single Party.files
  pipes : t.Single Party.pipes
  threads : t.Single Party.threads
  yields : t.Single Party.yields

omit [Participant G V] in
theorem Transaction.Seated.fresh {t : Transaction (Party G)} (seated : t.Seated) (phase : Phase) :
    phase ∉ t.visited := by
  rw [seated.unseen]
  exact List.not_mem_nil

/-- What a call on a transaction can do to files and versions. -/
inductive Conduct (call : PartyCall G) (t : Transaction (Party G)) (w : World × V) :
    Transaction (Party G) → World × V → Prop where
  /-- Nothing. -/
  | aside {t' : Transaction (Party G)} {w' : World × V} (same : t'.id = t.id) (seated : t'.Seated)
      (seat : t'.seat Party.files = t.seat Party.files) (still : Still t.id w.1 w'.1) :
      Conduct call t w t' w'
  /-- What work on files does. -/
  | filed {t' : Transaction (Party G)} (job : Filing) (asked : call = .work (.files job))
      (same : t'.id = t.id) (seated : t'.Seated)
      (seat : t'.seat Party.files = (job.perform (t.seat Party.files) w.1).2.1) :
      Conduct call t w t' ((job.perform (t.seat Party.files) w.1).2.2, w.2)
  /-- What an undo or an apply does. -/
  | closing {t' : Transaction (Party G)} {w' : World × V}
      (ended : Ended Party.files (Within (Still t.id)) (Within (Publishing t.id)) Files.SameButHeld
        t w t' w') :
      Conduct call t w t' w'

theorem Conduct.id {call : PartyCall G} {t t' : Transaction (Party G)} {w w' : World × V}
    (conduct : Conduct call t w t' w') : t'.id = t.id := by
  cases conduct with
  | aside same => exact same
  | filed job asked same => exact same
  | closing ended => cases ended <;> rfl

/-- Whose call gets to apply had valid files, and applies them. -/
theorem Conduct.applied {call : PartyCall G} {t t' : Transaction (Party G)} {w w' : World × V}
    (conduct : Conduct call t w t' w') (open_ : .applying ∉ t.visited)
    (applying : .applying ∈ t'.visited) :
    ∃ held w₁ w₂, Still t.id w.1 w₁ ∧ Publishing t.id w₁ w₂ ∧
      Files.validate { t.seat Party.files with held } w₁ = true ∧
      Publishing t.id (Files.apply { t.seat Party.files with held } w₂).2.2 w'.1 := by
  cases conduct with
  | aside same seated => exact absurd applying (seated.fresh _)
  | filed job asked same seated => exact absurd applying (seated.fresh _)
  | closing ended =>
      cases ended with
      | undone s w₁ _ visited outcome mine before after undoing unapplied =>
          exact absurd applying (List.mem_append.not.2 (not_or.2 ⟨open_, unapplied⟩))
      | applied s w₁ w₂ _ visited outcome mine before valid meanwhile after =>
          obtain ⟨held, rfl⟩ := mine
          exact ⟨held, w₁.1, w₂.1, before, meanwhile, valid, after⟩

/-- Whose call gets to undo gives its files up, under the locks it has by then. -/
theorem Conduct.undone {call : PartyCall G} {t t' : Transaction (Party G)} {w w' : World × V}
    (conduct : Conduct call t w t' w') (open_ : .undoing ∉ t.visited)
    (undoing : .undoing ∈ t'.visited) :
    ∃ held w₁, Still t.id w.1 w₁ ∧
      Still t.id (Files.undo t.context { t.seat Party.files with held } w₁).2.2 w'.1 := by
  cases conduct with
  | aside same seated => exact absurd undoing (seated.fresh _)
  | filed job asked same seated => exact absurd undoing (seated.fresh _)
  | closing ended =>
      cases ended with
      | undone s w₁ _ visited outcome mine before after =>
          rcases mine with rfl | ⟨held, rfl⟩
          · exact ⟨(t.seat Party.files).held, w₁.1, before, after⟩
          · exact ⟨held, w₁.1, before, after⟩
      | applied s w₁ w₂ _ visited outcome mine before valid meanwhile after applying kept =>
          exact absurd undoing (List.mem_append.not.2 (not_or.2 ⟨open_, kept⟩))

omit [Participant G V] in
theorem Transaction.Single.of_seats {M : Type} {facet : Facet (Party G) M}
    {t t' : Transaction (Party G)} (single : t.Single facet)
    (seats : seatsOf facet.view t'.members = seatsOf facet.view t.members) : t'.Single facet := by
  rw [Transaction.Single, seats]
  exact single

omit [Participant G V] in
theorem Transaction.Single.of_seat {M : Type} {facet : Facet (Party G) M}
    {t : Transaction (Party G)} {s : M} (seats : seatsOf facet.view t.members = [s]) :
    t.Single facet := by
  rw [Transaction.Single, seats, List.length_singleton]

omit [Participant G V] in
theorem Transaction.seat_of_seats {M : Type} {facet : Facet (Party G) M}
    {t t' : Transaction (Party G)}
    (seats : seatsOf facet.view t'.members = seatsOf facet.view t.members) :
    t'.seat facet = t.seat facet := by
  rw [Transaction.seat, seats, ← Transaction.seat]

/-! ### Work -/

omit [Participant G V] in
theorem Pipes.still_read (who : TxId) (chunk : Nat → Nat) (pipe max : Nat) (s : Pipes) (w : World) :
    Still who w (Pipes.read chunk pipe max s w).2.2 := by
  unfold Pipes.read
  cases w.pipes.get? pipe with
  | none => exact (frame_still who).refl w
  | some p =>
      simp only
      split
      · exact .ofRest who w _ w.threads
      · exact .ofRest who w _ w.threads
      · split <;> exact .ofRest who w _ w.threads

omit [Participant G V] in
theorem Pipes.still_write (who : TxId) (pipe : Nat) (bytes : Bytes) (s : Pipes) (w : World) :
    Still who w (Pipes.write pipe bytes s w).2.2 := by
  unfold Pipes.write
  cases w.pipes.get? pipe with
  | none => exact (frame_still who).refl w
  | some p =>
      simp only
      split <;> exact (frame_still who).refl w

/-- **Work does to files what its job says, and else nothing.** -/
theorem Work.conduct (chunk : Nat → Nat → Nat) {t : Transaction (Party G)} (seated : t.Seated)
    (work : Work) (w : World × V) :
    Conduct (.work work) t w (work.perform chunk t w).1 (work.perform chunk t w).2 := by
  have idle : Conduct (.work work) t w t w := .aside rfl seated rfl ((frame_still t.id).refl _)
  cases work with
  | files job =>
      rcases Transaction.withModule_seat Party.lawful_files seated.files
        (onWorld fun s w => job.perform s w) w with ⟨e, same⟩ | ⟨-, members, roster, done, own, others⟩
      · rw [Work.perform, same]
        exact idle
      · rw [Work.perform, done]
        refine .filed job rfl rfl ⟨seated.active, seated.unseen, .of_seat own, ?_, ?_, ?_⟩ ?_
        · exact seated.pipes.of_seats (others Party.pipes fun _ => rfl)
        · exact seated.threads.of_seats (others Party.threads fun _ => rfl)
        · exact seated.yields.of_seats (others Party.yields fun _ => rfl)
        · rw [Transaction.seat, own]
          rfl
  | readPipe pipe max =>
      rcases Transaction.withModule_seat Party.lawful_pipes seated.pipes
        (onWorld (Pipes.read (chunk pipe) pipe max)) w with ⟨e, same⟩ |
        ⟨-, members, roster, done, own, others⟩
      · rw [Work.perform, same]
        exact idle
      · rw [Work.perform, done]
        refine .aside rfl ⟨seated.active, seated.unseen, ?_, .of_seat own, ?_, ?_⟩ ?_
          (Pipes.still_read ..)
        · exact seated.files.of_seats (others Party.files fun _ => rfl)
        · exact seated.threads.of_seats (others Party.threads fun _ => rfl)
        · exact seated.yields.of_seats (others Party.yields fun _ => rfl)
        · exact Transaction.seat_of_seats (others Party.files fun _ => rfl)
  | writePipe pipe bytes =>
      rcases Transaction.withModule_seat Party.lawful_pipes seated.pipes
        (onWorld (Pipes.write pipe bytes)) w with ⟨e, same⟩ | ⟨-, members, roster, done, own, others⟩
      · rw [Work.perform, same]
        exact idle
      · rw [Work.perform, done]
        refine .aside rfl ⟨seated.active, seated.unseen, ?_, .of_seat own, ?_, ?_⟩ ?_
          (Pipes.still_write ..)
        · exact seated.files.of_seats (others Party.files fun _ => rfl)
        · exact seated.threads.of_seats (others Party.threads fun _ => rfl)
        · exact seated.yields.of_seats (others Party.yields fun _ => rfl)
        · exact Transaction.seat_of_seats (others Party.files fun _ => rfl)
  | spawn name task =>
      rcases Transaction.withModule_seat Party.lawful_threads seated.threads
        (onWorld fun s w => let r := s.spawn name task w; (.ok r.1, r.2)) w with ⟨e, same⟩ |
        ⟨-, members, roster, done, own, others⟩
      · rw [Work.perform, same]
        exact idle
      · rw [Work.perform, done]
        refine .aside rfl ⟨seated.active, seated.unseen, ?_, ?_, .of_seat own, ?_⟩ ?_
          (.ofRest t.id w.1 w.1.pipes _)
        · exact seated.files.of_seats (others Party.files fun _ => rfl)
        · exact seated.pipes.of_seats (others Party.pipes fun _ => rfl)
        · exact seated.yields.of_seats (others Party.yields fun _ => rfl)
        · exact Transaction.seat_of_seats (others Party.files fun _ => rfl)
  | yieldOnce =>
      rcases Transaction.withModule_seat Party.lawful_yields seated.yields
        (onWorld fun s w => (.ok (), s.yieldOnce, w)) w with ⟨e, same⟩ |
        ⟨-, members, roster, done, own, others⟩
      · rw [Work.perform, same]
        exact idle
      · rw [Work.perform, done]
        refine .aside rfl ⟨seated.active, seated.unseen, ?_, ?_, ?_, .of_seat own⟩ ?_
          ((frame_still t.id).refl _)
        · exact seated.files.of_seats (others Party.files fun _ => rfl)
        · exact seated.pipes.of_seats (others Party.pipes fun _ => rfl)
        · exact seated.threads.of_seats (others Party.threads fun _ => rfl)
        · exact Transaction.seat_of_seats (others Party.files fun _ => rfl)

/-- **A call does nothing else to files and versions.** -/
theorem PartyCall.conduct (chunk : Nat → Nat → Nat) {t : Transaction (Party G)} (seated : t.Seated)
    (call : PartyCall G) (w : World × V) :
    Conduct call t w (call.perform chunk t w).1 (call.perform chunk t w).2 := by
  have manners := files_manners (G := G) (V := V) t.context
  cases call with
  | work job => exact job.conduct chunk seated w
  | register g =>
      rcases Transaction.register_seats (p := Party.guest g) (t := t) with same |
        ⟨members, roster, done, seats⟩
      · rw [PartyCall.perform, same]
        exact .aside rfl seated rfl ((frame_still t.id).refl _)
      · rw [PartyCall.perform, done]
        refine .aside rfl ⟨seated.active, seated.unseen, ?_, ?_, ?_, ?_⟩ ?_
          ((frame_still t.id).refl _)
        · exact seated.files.of_seats (seats Party.files rfl)
        · exact seated.pipes.of_seats (seats Party.pipes rfl)
        · exact seated.threads.of_seats (seats Party.threads rfl)
        · exact seated.yields.of_seats (seats Party.yields rfl)
        · exact Transaction.seat_of_seats (seats Party.files rfl)
  | validate =>
      rcases manners.validateEarly_ended seated.files seated.active w with ⟨same, still⟩ | ended
      · refine .aside (congrArg Transaction.id same) ?_ ?_ still
        · rw [PartyCall.perform, same]
          exact seated
        · rw [PartyCall.perform, same]
      · exact .closing ended
  | commit => exact .closing (manners.commit_ended seated.files seated.active w)
  | abort => exact .closing (manners.abort_ended seated.files seated.active w)
  | drop => exact .closing (manners.drop_ended seated.files seated.active w)

/-- A released transaction refuses every call. -/
theorem PartyCall.perform_released (chunk : Nat → Nat → Nat) {t : Transaction (Party G)}
    (released : t.phase = .released) (call : PartyCall G) (w : World × V) :
    call.perform chunk t w = (t, w) := by
  cases call with
  | work job =>
      cases job <;> simp only [perform, Work.perform, Transaction.withModule_released released]
  | _ =>
      simp only [perform, Transaction.register_released released,
        Transaction.validateEarly_released released, Transaction.commit_released released,
        Transaction.abort_released released, Transaction.drop_released released]

end Parties

end Transact
