/-
# Transact.Proofs.Sparing -- what calls ask for besides

Most of what the calls of a transaction ask for is quiet: they look up versions and fronts, move
descriptors, and call threads and guests.  Rules that spare what is quiet need to be looked into only
where locks are asked for, records are performed, versions are counted up and files are removed.
-/
import Transact.Proofs.Proceedings
import Transact.Proofs.Readiness

namespace Transact.Stepwise

set_option autoImplicit false

open Procedure

variable {V σ : Type} {rules : Rules V σ} {s : σ}

/-! ## One after another -/

theorem stays_releaseEach (gives : ∀ id, (ask (.release id)).Stays rules s) (ids : List ResourceId) :
    (releaseEach ids).Stays rules s := by
  induction ids with
  | nil => exact stays_pure _
  | cons id rest ih => exact (gives id).bind fun _ => ih

theorem stays_acquireEach (takes : ∀ id, (ask (.acquire id)).Stays rules s)
    (gives : ∀ id, (ask (.release id)).Stays rules s) (ids : List ResourceId) (h : HeldLocks) :
    (acquireEach ids h).Stays rules s := by
  induction ids generalizing h with
  | nil => exact stays_pure _
  | cons id rest ih =>
      rw [acquireEach]
      split
      · exact ih h
      · refine (takes id).bind fun granted => ?_
        cases granted with
        | true => exact ih _
        | false => exact (stays_releaseEach gives h.ids).bind fun _ => stays_pure _

theorem stays_performEach {P : Type} {perform : Record P → Primitive V (Except Error Unit)}
    {rs : List (Record P)} (each : ∀ r ∈ rs, (ask (perform r)).Stays rules s) :
    (performEach perform rs).Stays rules s := by
  induction rs with
  | nil => exact stays_pure _
  | cons r rest ih =>
      refine (each r List.mem_cons_self).bind fun answer => ?_
      cases answer with
      | error e => exact stays_pure _
      | ok _ => exact ih fun r member => each r (List.mem_cons_of_mem _ member)

theorem stays_undoEach {P : Type} {revert : Record P → Procedure V (Except Error Unit)}
    {rs : List (Record P)} (each : ∀ r ∈ rs, (revert r).Stays rules s) :
    (undoEach revert rs).Stays rules s := by
  induction rs with
  | nil => exact stays_pure _
  | cons r rest ih =>
      refine (ih fun r member => each r (List.mem_cons_of_mem _ member)).bind fun later => ?_
      exact (each r List.mem_cons_self).bind fun here => stays_pure _

theorem stays_bumpEach {ids : List ResourceId} (each : ∀ id ∈ ids, (ask (.bump id)).Stays rules s) :
    (bumpEach ids).Stays rules s := by
  induction ids with
  | nil => exact stays_pure _
  | cons id rest ih =>
      exact (each id List.mem_cons_self).bind fun _ =>
        ih fun id member => each id (List.mem_cons_of_mem _ member)

/-! ## Quiet steps -/

section Quiet

variable (spares : rules.Spares s)

include spares

theorem stays_checkEach (entries : List (ResourceId × Nat)) :
    (checkEach entries).Stays rules s := by
  induction entries with
  | nil => exact stays_pure _
  | cons entry rest ih =>
      refine (stays_ask spares rfl).bind fun version => ?_
      cases version == entry.2 with
      | true => exact ih
      | false => exact stays_pure _

theorem stays_frontsEach (tracked : List Nat) (entries : List (Nat × ReadCursor)) :
    (frontsEach tracked entries).Stays rules s := by
  induction entries with
  | nil => exact stays_pure _
  | cons entry rest ih =>
      rw [frontsEach]
      cases tracked.contains entry.1 with
      | false => exact stays_pure _
      | true =>
          refine (stays_ask spares rfl).bind fun front => ?_
          cases front with
          | none => exact stays_pure _
          | some front =>
              simp only
              cases front == entry.2.start with
              | true => exact ih
              | false => exact stays_pure _

theorem stays_settleEach (files : List OpenFile) : (settleEach files).Stays rules s := by
  induction files with
  | nil => exact stays_pure _
  | cons f rest ih =>
      rw [settleEach]
      split
      · refine (stays_ask spares rfl).bind fun answer => ?_
        cases answer with
        | error e => exact stays_pure _
        | ok _ => exact ih
      · exact ih

theorem stays_performFiles {files : Files}
    (each : ∀ r ∈ files.log.records, (ask (.performFile files.handles r)).Stays rules s) :
    (performFiles files).Stays rules s := by
  refine (stays_performEach each).bind fun applied => ?_
  cases applied with
  | error e => exact stays_pure _
  | ok _ => exact stays_settleEach spares _

theorem stays_discardRecord (r : Record SpawnRequest) : (discardRecord r).Stays rules s :=
  (stays_ask spares rfl).bind fun _ => stays_pure _

theorem stays_discardEach (rs : List (Record SpawnRequest)) : (discardEach rs).Stays rules s := by
  induction rs with
  | nil => exact stays_pure _
  | cons r rest ih => exact (stays_ask spares rfl).bind fun _ => ih

/-- To undo a record that is not about a creation is quiet. -/
theorem stays_undoRecord {files : Files} {r : Record FileEffect}
    (creation : ∀ path, r.resource = .path path →
      (revertCreation files.access files.held r.resource path).Stays rules s) :
    (undoRecord files r).Stays rules s := by
  unfold undoRecord
  split
  · split
    · next path resource => exact creation path resource
    · exact stays_pure _
  · split
    · exact stays_pure _
    · refine (stays_ask spares rfl).bind fun answer => ?_
      cases answer <;> exact stays_pure _
  · exact stays_pure _

/-! ## Parties -/

section Parties

variable {G : Type} [Participant G V] (ctx : Context)

theorem stays_validate (mode : Validation) (p : Party G) : (validate ctx mode p).Stays rules s := by
  cases p with
  | guest g => exact stays_ask spares rfl
  | builtin b =>
      cases b with
      | files f => exact stays_checkEach spares _
      | pipes q =>
          refine (stays_checkEach spares _).bind fun current => ?_
          cases current with
          | true => exact stays_frontsEach spares _ _
          | false => exact stays_pure _
      | threads f => exact stays_pure _
      | yields f => exact stays_pure _

theorem keeps_finish (p : Party G) :
    (finish ctx p).Keeps rules (fun p' s' => p'.held = p.held ∧ s' = s) s := by
  cases p with
  | guest g => exact Keeps.bind ((stays_ask spares rfl).keeps fun _ => ⟨rfl, rfl⟩)
  | builtin b => cases b <;> exact ⟨rfl, rfl⟩

theorem stays_release (p : Party G) : (release p : Procedure V Unit).Stays rules s := by
  cases p with
  | guest g => exact stays_ask spares rfl
  | builtin b =>
      cases b with
      | threads t => exact stays_discardEach spares _
      | files f => exact stays_pure _
      | pipes q => exact stays_pure _
      | yields f => exact stays_pure _

theorem stays_unlock (gives : ∀ id, (ask (.release id)).Stays rules s) (p : Party G) :
    (unlock ctx p).Stays rules s := by
  cases p with
  | guest g => exact (stays_ask spares rfl).bind fun _ => stays_pure _
  | builtin b =>
      cases b with
      | files f => exact (stays_releaseEach gives _).bind fun _ => stays_pure _
      | pipes q => exact (stays_releaseEach gives _).bind fun _ => stays_pure _
      | threads t => exact stays_pure _
      | yields y => exact stays_pure _

/-- An apply performs the log and then counts up what was marked. -/
theorem keeps_apply {p : Party G} {post : σ → Prop}
    (files : ∀ f : Files, p = .builtin (.files f) →
      ∀ r ∈ f.log.records, (ask (.performFile f.handles r)).Stays rules s)
    (pipes : ∀ q : Pipes, p = .builtin (.pipes q) →
      ∀ r ∈ q.log.records, (ask (.performPipe q r)).Stays rules s)
    (publishes : (bumpEach p.access.writtenIds).Keeps rules (fun _ => post) s) :
    (apply ctx p).Keeps rules (fun r s' => r.2.held = p.held ∧ post s') s := by
  cases p with
  | guest g => exact Keeps.bind ((stays_ask spares rfl).keeps fun _ => ⟨rfl, publishes⟩)
  | builtin b =>
      cases b with
      | files f =>
          refine Keeps.bind ((stays_performFiles spares (files f rfl)).keeps fun result => ?_)
          exact Keeps.bind (publishes.mono fun _ s' done => ⟨rfl, done⟩)
      | pipes q =>
          refine Keeps.bind ((stays_performEach (pipes q rfl)).keeps fun result => ?_)
          exact Keeps.bind (publishes.mono fun _ s' done => ⟨rfl, done⟩)
      | threads t =>
          have starts : (performEach .startThread t.log.records).Stays rules s :=
            stays_performEach fun r _ => stays_ask spares rfl
          exact Keeps.bind (starts.keeps fun _ => ⟨rfl, publishes⟩)
      | yields y => exact ⟨rfl, publishes⟩

/-- An undo reverts creations, and is quiet besides. -/
theorem keeps_undo {p : Party G}
    (creations : ∀ f : Files, p = .builtin (.files f) → ∀ r ∈ f.log.records, ∀ path,
      r.resource = .path path → (revertCreation f.access f.held r.resource path).Stays rules s) :
    (undo ctx p).Keeps rules (fun r s' => r.2.held = p.held ∧ s' = s) s := by
  cases p with
  | guest g => exact Keeps.bind ((stays_ask spares rfl).keeps fun _ => ⟨rfl, rfl⟩)
  | builtin b =>
      cases b with
      | files f =>
          have reverts : (undoEach (undoRecord f) f.log.records).Stays rules s :=
            stays_undoEach fun r member => stays_undoRecord spares (creations f rfl r member)
          exact Keeps.bind (reverts.keeps fun _ => ⟨rfl, rfl⟩)
      | pipes q => exact ⟨rfl, rfl⟩
      | threads t =>
          have discards : (undoEach discardRecord t.log.records).Stays rules s :=
            stays_undoEach fun r _ => stays_discardRecord spares r
          exact Keeps.bind (discards.keeps fun _ => ⟨rfl, rfl⟩)
      | yields y => exact ⟨rfl, rfl⟩

/-! ## All participants -/

theorem stays_validateAll (mode : Validation) (members : List (Member (Party G))) :
    (validateAll ctx mode members).Stays rules s := by
  induction members with
  | nil => exact stays_pure _
  | cons m rest ih =>
      refine (stays_validate spares ctx mode m.state).bind fun valid => ?_
      cases valid with
      | true => exact ih
      | false => exact stays_pure _

theorem keeps_finishAll (members : List (Member (Party G))) :
    (finishAll ctx members).Keeps rules (fun ms s' => hands ms = hands members ∧ s' = s) s := by
  induction members with
  | nil => exact ⟨rfl, rfl⟩
  | cons m rest ih =>
      refine Keeps.bind ((keeps_finish spares ctx m.state).mono fun p s' done => ?_)
      obtain ⟨same, rfl⟩ := done
      refine Keeps.bind (ih.mono fun ms s' later => ?_)
      exact ⟨congrArg₂ List.cons same later.1, later.2⟩

theorem stays_releaseAll (members : List (Member (Party G))) :
    (releaseAll members : Procedure V Unit).Stays rules s := by
  induction members with
  | nil => exact stays_pure _
  | cons m rest ih => exact (stays_release spares m.state).bind fun _ => ih

theorem stays_unlockAll (gives : ∀ id, (ask (.release id)).Stays rules s)
    (members : List (Member (Party G))) : (unlockAll ctx members).Stays rules s := by
  induction members with
  | nil => exact stays_pure _
  | cons m rest ih =>
      exact ih.bind fun _ => (stays_unlock spares ctx gives m.state).bind fun _ => stays_pure _

/-- Who may give locks back gets through the end of a transaction. -/
theorem stays_close (gives : ∀ id, (ask (.release id)).Stays rules s)
    (members : List (Member (Party G))) (locked : Nat) : (close ctx members locked).Stays rules s := by
  refine Keeps.bind ((keeps_finishAll spares ctx members).mono fun ms s' done => ?_)
  obtain ⟨-, rfl⟩ := done
  exact (stays_unlockAll spares ctx gives _).bind fun unlocked => stays_releaseAll spares _

omit spares in
/-- Undoing all, where undoing each one ends where it began. -/
theorem keeps_undoAll {members : List (Member (Party G))}
    (each : ∀ m ∈ members, (undo ctx m.state).Keeps rules
      (fun r s' => r.2.held = m.state.held ∧ s' = s) s) :
    (undoAll ctx members).Keeps rules (fun r s' => hands r.2 = hands members ∧ s' = s) s := by
  induction members with
  | nil => exact ⟨rfl, rfl⟩
  | cons m rest ih =>
      refine Keeps.bind ((ih fun m there => each m (List.mem_cons_of_mem _ there)).mono
        fun q s' later => ?_)
      obtain ⟨others, rfl⟩ := later
      refine Keeps.bind ((each m List.mem_cons_self).mono fun r s' here => ?_)
      exact ⟨congrArg₂ List.cons here.1 others, here.2⟩

end Parties

end Quiet

end Transact.Stepwise
