/-
# Transact.Proofs.Absence -- what a commit knows of a file that was not there

A lookup that fails tells the transaction that something is absent, but leaves no note of it: the files
of the transaction are as they were before (`LooksUp.refused`).  The commit validates notes, and nothing
else.  So whether it notices that somebody created the file meanwhile depends on whether the
transaction had touched the resource of the path before, for another reason.

`run_validates_absence` says so for any number of transactions and any order of their calls: where the
resource was noted by the time the creator committed, the commit does not pass; and where it is never
noted, its version plays no part in the validation.
-/
import Transact.Proofs.Creations
import Transact.Proofs.FileEnding
import Transact.Proofs.Granting

namespace Transact

set_option autoImplicit false

/-! ## Lookups -/

/-- The job looks up a path, to open or to remove what is there. -/
inductive LooksUp (path : String) : Filing → Prop where
  | openPath (flags : OpenFlags) : LooksUp path (.plain (.openPath path flags))
  | remove : LooksUp path (.remove path)

/-- **A lookup that fails leaves nothing behind.** -/
theorem LooksUp.refused {path : String} {job : Filing} (looksUp : LooksUp path job) {s : Files}
    {w : World} {e : Error} (failed : (job.perform s w).1 = .error e) :
    (job.perform s w).2 = (s, w) := by
  cases looksUp with
  | openPath flags =>
      simp only [Filing.perform, FileWork.perform, Files.openPath] at failed ⊢
      rcases checked : s.checkNotRemoved (Files.resource w.files path) with e | _
      · rfl
      · rcases made : Files.openOrCreate w.files path flags with e | ⟨fd, created, files⟩
        · rfl
        · simp only [checked, made] at failed
          cases failed
  | remove =>
      simp only [Filing.perform, Files.remove] at failed ⊢
      rcases checked : s.checkNotRemoved (Files.resource w.files path) with e | _
      · rfl
      · cases named : w.files.names path with
        | false => rfl
        | true =>
            simp only [checked, named, if_true] at failed
            cases failed

/-! ## Versions and notes -/

/-- Notes of other resources are all that a validation looks at. -/
theorem AccessSet.validate_unnoted {a : AccessSet} (keyed : a.Keyed) {id : ResourceId}
    (unnoted : a.snapshot id = none) {v v' : VersionTable}
    (others : ∀ other, other.key ≠ id.key → v'.current other = v.current other) :
    a.validate v' = a.validate v := by
  have noted {other : ResourceId} {seen : Nat} (note : a.snapshot other = some seen) :
      v'.current other = v.current other := by
    refine others other fun same => ?_
    rw [snapshot, same, ← snapshot, unnoted] at note
    cases note
  rw [Bool.eq_iff_iff, validate_iff keyed, validate_iff keyed]
  constructor
  · intro valid other seen note
    rw [← noted note]
    exact valid other seen note
  · intro valid other seen note
    rw [noted note]
    exact valid other seen note

section Calls

variable {G V : Type} [Participant G V] {call : PartyCall G} {t t' : Transaction (Party G)}
  {w w' : World × V}

/-- A note stays until the transaction ends. -/
theorem Conduct.note (conduct : Conduct call t w t' w') (sound : w.1.files.Sound)
    (roomy : w.1.files.Roomy) {id : ResourceId} {seen : Nat}
    (noted : (t.seat Party.files).access.snapshot id = some seen) (busy : t'.phase ≠ .released) :
    (t'.seat Party.files).access.snapshot id = some seen := by
  cases conduct with
  | aside same seated seat =>
      rw [seat]
      exact noted
  | filed job asked same seated seat =>
      rw [seat]
      exact (job.perform_filed (s := t.seat Party.files) sound roomy).grown.kept id seen noted
  | closing ended => cases ended <;> exact absurd rfl busy

/-- Whoever gets to apply publishes what it created. -/
theorem Conduct.publishes_creation (conduct : Conduct call t w t' w')
    (anchored : Files.Anchored w.1 (t.seat Party.files)) (atWork : .applying ∉ t.visited)
    (applying : .applying ∈ t'.visited) {at_ : Location}
    (created : Files.creationOf at_ ∈ (t.seat Party.files).log.records) :
    w.1.versions.current (.path (Path.ofNames at_)) <
      w'.1.versions.current (.path (Path.ofNames at_)) := by
  obtain ⟨held, w₁, w₂, still, meanwhile, -, after⟩ := conduct.applied atWork applying
  obtain ⟨-, -, -, written, -⟩ := anchored.records _ created (Or.inl rfl)
  have first := meanwhile.versions (.path (Path.ofNames at_))
  have last := after.versions (.path (Path.ofNames at_))
  have counted := AccessSet.current_publish anchored.keyed w₂.versions (.path (Path.ofNames at_))
  rw [show (t.seat Party.files).access.isWritten (.path (Path.ofNames at_)) = true from written,
    if_pos rfl] at counted
  rw [Files.apply_versions, counted] at last
  rw [still.versions] at first
  omega

/-- Whoever gets to apply holds notes that are current. -/
theorem Conduct.notes_current (conduct : Conduct call t w t' w')
    (anchored : Files.Anchored w.1 (t.seat Party.files)) (atWork : .applying ∉ t.visited)
    (applying : .applying ∈ t'.visited) {id : ResourceId} {seen : Nat}
    (noted : (t.seat Party.files).access.snapshot id = some seen) :
    w.1.versions.current id = seen := by
  obtain ⟨held, w₁, w₂, still, -, valid, -⟩ := conduct.applied atWork applying
  rw [← still.versions]
  exact (AccessSet.validate_iff anchored.keyed w₁.versions).1 valid id seen noted

end Calls

/-! ## Any number of transactions -/

namespace Assembly

variable {G V : Type} [Participant G V] (chunk : Nat → Nat → Nat) {s : Assembly G V} {who : TxId}

/-- With this call a transaction that created the file `id` gets to apply. -/
def Establishes (s : Assembly G V) (entry : TxId × PartyCall G) (id : ResourceId) : Prop :=
  (∃ at_, id = .path (Path.ofNames at_) ∧
    Files.creationOf at_ ∈ ((s.transactions entry.1).seat Party.files).log.records) ∧
    .applying ∉ (s.transactions entry.1).visited ∧
    .applying ∈ ((s.step chunk entry).transactions entry.1).visited

/-- Who gets to apply with a call was at work before. -/
theorem Upright.at_work (upright : s.Upright) {entry : TxId × PartyCall G}
    (atWork : .applying ∉ (s.transactions entry.1).visited)
    (applying : .applying ∈ ((s.step chunk entry).transactions entry.1).visited) :
    Conduct entry.2 (s.transactions entry.1) s.world ((s.step chunk entry).transactions entry.1)
        (s.step chunk entry).world ∧
      Files.Anchored s.world.1 ((s.transactions entry.1).seat Party.files) := by
  rcases upright.each entry.1 with ⟨seated, anchored⟩ | released
  · exact ⟨conduct_step chunk entry seated, anchored⟩
  · rw [step_released chunk released] at applying
    exact absurd applying atWork

theorem Upright.note_run (upright : s.Upright) {id : ResourceId} {seen : Nat}
    (noted : ((s.transactions who).seat Party.files).access.snapshot id = some seen)
    (schedule : List (TxId × PartyCall G))
    (busy : ((s.run chunk schedule).transactions who).phase ≠ .released) :
    (((s.run chunk schedule).transactions who).seat Party.files).access.snapshot id = some seen := by
  induction schedule generalizing s with
  | nil => exact noted
  | cons entry rest ih =>
      have next : ((s.step chunk entry).transactions who).phase ≠ .released :=
        fun released => busy (released_run chunk released rest)
      refine ih (upright.step chunk entry).2 ?_ busy
      by_cases own : who = entry.1
      · subst own
        rcases upright.each entry.1 with ⟨seated, -⟩ | released
        · exact (conduct_step chunk entry seated).note upright.sound upright.roomy noted next
        · rw [step_released chunk released]
          exact noted
      · rw [step_other chunk s own]
        exact noted

/-- A lookup that fails changes neither the files of its transaction nor the world. -/
theorem Upright.lookup_failed (upright : s.Upright) {path : String} {job : Filing}
    (looksUp : LooksUp path job) {e : Error}
    (failed : job.answer (s.transactions who) s.world = .error e) :
    let s' := s.step chunk (who, .work (.files job))
    (s'.transactions who).seat Party.files = (s.transactions who).seat Party.files ∧
      s'.world = s.world := by
  intro s'
  rcases upright.each who with ⟨seated, -⟩ | released
  · have done : (s'.transactions who, s'.world) =
        (Transaction.withModule Party.files (onWorld fun s w => job.perform s w)
          (s.transactions who) s.world).2 := by
      rw [show s'.transactions who = _ from step_self ..]
      rfl
    rcases Transaction.withModule_answer Party.lawful_files seated.files
      (onWorld fun s w => job.perform s w) s.world with ⟨e, refused⟩ | ⟨-, answer, seat, world⟩
    · rw [refused] at done
      exact ⟨congrArg (fun r => r.1.seat Party.files) done, congrArg Prod.snd done⟩
    · rw [Filing.answer, answer] at failed
      have idle : (onWorld (fun s w => job.perform s w) (s.transactions who).context
          ((s.transactions who).seat Party.files) s.world).2 =
            ((s.transactions who).seat Party.files, s.world) := by
        rw [onWorld, looksUp.refused failed]
      refine ⟨?_, ?_⟩
      · exact (congrArg (fun r => r.1.seat Party.files) done).trans
          (seat.trans (congrArg Prod.fst idle))
      · exact (congrArg Prod.snd done).trans (world.trans (congrArg Prod.snd idle))
  · have same : s' = s := step_released chunk released
    rw [same]
    exact ⟨rfl, rfl⟩

/-- **An absence is validated where the path was touched before, and only there.**  `who` looks up a
path, which fails; any calls of any number of transactions follow, and in the end `who` commits.  The
lookup leaves no note.  If a transaction that created the file committed in between and `who` passes
validation all the same, then `who` had no note of the path's resource by then, and one that it took
since is of a later version.  Without any note the version of the resource plays no part in the
validation. -/
theorem run_validates_absence (config : TxId → Config) {w : World × V}
    (sound : w.1.files.Sound) (roomy : w.1.files.Roomy)
    (past later : List (TxId × PartyCall G)) (who : TxId) {lookup : Filing} {path : String}
    (looksUp : LooksUp path lookup) {e : Error} :
    let s₀ : Assembly G V := (start config w).run chunk past
    let s₁ := s₀.step chunk (who, .work (.files lookup))
    let s₂ := s₁.run chunk later
    let s₃ := s₂.step chunk (who, .commit)
    let id := Files.resource s₀.world.1.files path
    let notes (s : Assembly G V) := ((s.transactions who).seat Party.files).access
    lookup.answer (s₀.transactions who) s₀.world = .error e →
      (notes s₁ = notes s₀ ∧ s₁.world = s₀.world) ∧
      (.applying ∉ (s₂.transactions who).visited → .applying ∈ (s₃.transactions who).visited →
        ∀ before entry after, later = before ++ entry :: after →
          let here := s₁.run chunk before
          here.Establishes chunk entry id →
          (notes here).snapshot id = none ∧
            ∀ seen, (notes s₂).snapshot id = some seen → here.world.1.versions.current id < seen) ∧
      ((s₂.transactions who).phase ≠ .released → (notes s₂).snapshot id = none →
        ∀ versions : VersionTable,
          (∀ other, other.key ≠ id.key →
            versions.current other = s₂.world.1.versions.current other) →
          (notes s₂).validate versions = (notes s₂).validate s₂.world.1.versions) := by
  intro s₀ s₁ s₂ s₃ id notes failed
  have upright₀ : s₀.Upright := ((upright_start config sound roomy).run chunk past).2
  have upright₁ : s₁.Upright := (upright₀.step chunk _).2
  have upright₂ : s₂.Upright := (upright₁.run chunk later).2
  obtain ⟨seat, world⟩ := upright₀.lookup_failed chunk looksUp failed
  refine ⟨⟨congrArg Files.access seat, world⟩, ?_, ?_⟩
  · intro atWork applying before entry after split here establishes
    obtain ⟨⟨at_, named, created⟩, creating, published⟩ := establishes
    have uprightHere : here.Upright := (upright₁.run chunk before).2
    have last : s₂ = (here.step chunk entry).run chunk after := by
      show s₁.run chunk later = _
      rw [split, run_append]
      rfl
    -- The creator's commit counts the version up, and nothing counts it down.
    have up : here.world.1.versions.current id < s₂.world.1.versions.current id := by
      obtain ⟨conduct, anchored⟩ := uprightHere.at_work chunk creating published
      have counted := conduct.publishes_creation anchored creating published created
      have since := ((uprightHere.step chunk entry).2.run chunk after).1.versions id
      rw [named] at since ⊢
      rw [last]
      omega
    have current {seen : Nat} (noted : (notes s₂).snapshot id = some seen) :
        s₂.world.1.versions.current id = seen := by
      obtain ⟨conduct, anchored⟩ := upright₂.at_work chunk atWork applying
      exact conduct.notes_current anchored atWork applying noted
    refine ⟨?_, fun seen noted => current noted ▸ up⟩
    cases noted : (notes here).snapshot id with
    | none => rfl
    | some seen =>
        -- A note from before would still be there, and out of date.
        have busy : (s₂.transactions who).phase ≠ .released := by
          intro released
          have same : s₃ = s₂ := step_released chunk released
          exact atWork (same ▸ applying)
        have kept : (notes s₂).snapshot id = some seen := by
          have remains := uprightHere.note_run chunk noted (entry :: after)
          rw [show here.run chunk (entry :: after) = s₂ from last.symm] at remains
          exact remains busy
        have old : seen ≤ here.world.1.versions.current id := by
          rcases uprightHere.each who with ⟨-, anchored⟩ | released
          · exact anchored.notes id seen noted
          · refine absurd (released_run chunk released (entry :: after)) ?_
            rw [show here.run chunk (entry :: after) = s₂ from last.symm]
            exact busy
        have now := current kept
        omega
  · intro busy unnoted versions others
    obtain ⟨-, anchored⟩ := (upright₂.each who).resolve_right busy
    exact AccessSet.validate_unnoted anchored.keyed unnoted others

/-- The second creates `/new` and commits. -/
def secondCreates : List (TxId × PartyCall Yields) :=
  [(⟨2, "second"⟩, .work (.files (.plain (.openPath "/new" { write := true, create := true })))),
    (⟨2, "second"⟩, .commit)]

/-- The first finds no `/new`, the second creates it and commits, and so does the first: it had no note
of `/new`. -/
theorem run_validates_absence_unnoticed :
    let first : TxId := ⟨1, "first"⟩
    let lookup : Filing := .plain (.openPath "/new" { read := true })
    let s₁ : Assembly Yields World :=
      (start (fun _ => {}) (oneOld, {})).step (fun _ _ => 1) (first, .work (.files lookup))
    let s₂ := s₁.run (fun _ _ => 1) secondCreates
    ((s₂.transactions first).commit s₂.world).1 = .ok .committed ∧
      ((((s₁.run (fun _ _ => 1) (secondCreates.take 1)).transactions first).seat
        Party.files).access.snapshot (.path "/new") = none) := by
  intro first lookup s₁ s₂
  obtain ⟨-, passed, -⟩ := run_validates_absence (fun _ _ => 1) (fun _ => {}) sound_oneOld roomy_oneOld
    (w := (oneOld, ({} : World))) (e := (IoFault.os .noEntry).toError) [] secondCreates first
    (.openPath { read := true } : LooksUp "/new" _) (by rfl)
  have established : (s₁.run (fun _ _ => 1) (secondCreates.take 1)).Establishes (fun _ _ => 1)
      (⟨2, "second"⟩, .commit) (.path "/new") :=
    ⟨⟨["new"], by rfl, by decide⟩, by decide, by decide⟩
  refine ⟨by decide, (passed (by decide) (by decide) (secondCreates.take 1) _ [] rfl ?_).1⟩
  exact established

end Assembly

end Transact
