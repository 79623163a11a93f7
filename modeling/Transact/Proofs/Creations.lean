/-
# Transact.Proofs.Creations -- a created file goes when its transaction gives up

A transaction that creates a file writes the creation down and notes the version of its path, and keeps
both until it ends (`Pending`).  When it gives up, the note decides: if nobody counted the version up
since, the file is removed and its version counted up; if somebody did, the file is left alone.

As long as nobody else publishes the path, its version stays as it is, since nobody else has a creation
to undo there (`Guarded`): a creation that is still current is the creation of what stands, and nothing
is created where something stands.

`run_reverts_creation` says so for any number of transactions and any order of their calls.  The note is
that of the first access to the path, which may be older than the creation; the file is removed where
it is not.
-/
import Transact.Proofs.FilesInPlace

namespace Transact

set_option autoImplicit false

/-! ## Calls -/

section Calls

variable {G V : Type} [Participant G V] {call : PartyCall G} {t t' : Transaction (Party G)}
  {w w' : World × V} {at_ : Location}

/-- The creation of a file is written down, and so is the version noted. -/
structure Pending (at_ : Location) (seen : Nat) (t : Transaction (Party G)) : Prop where
  written : Files.creationOf at_ ∈ (t.seat Party.files).log.records
  noted : (t.seat Party.files).access.snapshot (.path (Path.ofNames at_)) = some seen

/-- It stays so until the transaction ends. -/
theorem Conduct.pending (conduct : Conduct call t w t' w') (sound : w.1.files.Sound)
    (roomy : w.1.files.Roomy) {seen : Nat} (pending : Pending at_ seen t)
    (busy : t'.phase ≠ .released) : Pending at_ seen t' := by
  cases conduct with
  | aside same seated seat =>
      refine ⟨?_, ?_⟩ <;> rw [seat]
      · exact pending.written
      · exact pending.noted
  | filed job asked same seated seat =>
      have filed := job.perform_filed (s := t.seat Party.files) sound roomy
      refine ⟨?_, ?_⟩ <;> rw [seat]
      · exact filed.records pending.written
      · exact filed.grown.kept _ _ pending.noted
  | closing ended => cases ended <;> exact absurd rfl busy

/-- Where a file appears its creation is written down, and no version changed. -/
theorem Conduct.creates (conduct : Conduct call t w t' w') (sound : w.1.files.Sound)
    (roomy : w.1.files.Roomy) (free : w.1.files.entry? at_ = none)
    (stands : w'.1.files.entry? at_ ≠ none) (busy : t'.phase ≠ .released) :
    Files.creationOf at_ ∈ (t'.seat Party.files).log.records ∧ w'.1.versions = w.1.versions := by
  cases conduct with
  | aside same seated seat still =>
      rw [still.files] at stands
      exact absurd free stands
  | filed job asked same seated seat =>
      have filed := job.perform_filed (s := t.seat Party.files) sound roomy
      rw [seat]
      exact ⟨filed.appears free stands, filed.versions⟩
  | closing ended => cases ended <;> exact absurd rfl busy

section Undone

variable (conduct : Conduct call t w t' w') (atWork : .undoing ∉ t.visited)
  (gaveUp : .undoing ∈ t'.visited) (anchored : Files.Anchored w.1 (t.seat Party.files))
  (sound : w.1.files.Sound) (roomy : w.1.files.Roomy)

include conduct atWork gaveUp anchored sound roomy

/-- Giving up writes to no file. -/
theorem Conduct.undone_contents : w'.1.files.contents = w.1.files.contents := by
  obtain ⟨held, w₁, before, after⟩ := conduct.undone atWork gaveUp
  have here := (anchored.drift (.ofStill before)).held held
  rw [after.files, here.undo_contents (before.files ▸ sound) (before.files ▸ roomy), before.files]

/-- Giving up leaves what was not created and what somebody published since. -/
theorem Conduct.undone_leaves (spot : w.1.files.Spot at_)
    (stale : Files.creationOf at_ ∈ (t.seat Party.files).log.records →
      (t.seat Party.files).access.isCurrent w.1.versions (.path (Path.ofNames at_)) = false) :
    w'.1.files.entry? at_ = w.1.files.entry? at_ ∧
      w'.1.versions.current (.path (Path.ofNames at_)) =
        w.1.versions.current (.path (Path.ofNames at_)) := by
  obtain ⟨held, w₁, before, after⟩ := conduct.undone atWork gaveUp
  have here := (anchored.drift (.ofStill before)).held held
  have left := here.undo_leaves (before.files ▸ sound) (before.files ▸ roomy) t.context
    (before.files ▸ spot) (before.versions ▸ stale)
  rw [after.files, after.versions, left.1, left.2, before.files, before.versions]
  exact ⟨rfl, rfl⟩

/-- Giving up removes what was created and nobody published since. -/
theorem Conduct.undone_removes
    (created : Files.creationOf at_ ∈ (t.seat Party.files).log.records)
    (current : (t.seat Party.files).access.isCurrent w.1.versions (.path (Path.ofNames at_)) = true)
    (free : w.1.locks.Open t.id (ResourceId.path (Path.ofNames at_)).key) {inode : Inode}
    (stands : w.1.files.entry? at_ = some (.file inode)) :
    w'.1.files.entry? at_ = none ∧
      w'.1.versions.current (.path (Path.ofNames at_)) =
        w.1.versions.current (.path (Path.ofNames at_)) + 1 := by
  obtain ⟨held, w₁, before, after⟩ := conduct.undone atWork gaveUp
  have here := (anchored.drift (.ofStill before)).held held
  have gone := here.undo_removes (before.files ▸ sound) (before.files ▸ roomy) t.context created
    (before.versions ▸ current) (before.locks _ free) (before.files ▸ stands)
  rw [after.files, after.versions, gone.1, gone.2, before.versions]
  exact ⟨rfl, rfl⟩

end Undone

/-! ### Of others -/

/-- A call leaves the version of a path as it is, unless it publishes the path or undoes a current
creation there. -/
theorem Conduct.version_kept (conduct : Conduct call t w t' w') (seated : t.Seated)
    (anchored : Files.Anchored w.1 (t.seat Party.files)) (sound : w.1.files.Sound)
    (roomy : w.1.files.Roomy) (spot : w.1.files.Spot at_)
    (ending : t'.phase = .released →
      (Files.creationOf at_ ∈ (t.seat Party.files).log.records →
        (t.seat Party.files).access.isCurrent w.1.versions (.path (Path.ofNames at_)) = false) ∧
      (.applying ∈ t'.visited → ¬ w.1.versions.current (.path (Path.ofNames at_)) <
        w'.1.versions.current (.path (Path.ofNames at_)))) :
    w'.1.versions.current (.path (Path.ofNames at_)) =
      w.1.versions.current (.path (Path.ofNames at_)) := by
  have up := (conduct.drift sound roomy anchored).1.versions (.path (Path.ofNames at_))
  cases conduct with
  | aside same seated seat still => rw [still.versions]
  | filed job => rw [(job.perform_filed (s := t.seat Party.files) sound roomy).versions]
  | closing ended =>
      cases ended with
      | undone s w₁ _ visited outcome mine before after undoing unapplied =>
          have conduct : Conduct call t w (t.ended visited outcome) w' :=
            .closing (.undone s w₁ w' visited outcome mine before after undoing unapplied)
          exact (conduct.undone_leaves (seated.fresh _) (List.mem_append_right _ undoing) anchored
            sound roomy spot (ending rfl).1).2
      | applied s w₁ w₂ _ visited outcome mine before valid meanwhile after applying =>
          have still := (ending rfl).2 (List.mem_append_right _ applying)
          omega

/-- Where something stands nobody comes by a creation that is noted under the version `seen`. -/
theorem Conduct.creations_stale (conduct : Conduct call t w t' w')
    (anchored : Files.Anchored w.1 (t.seat Party.files)) (sound : w.1.files.Sound)
    (roomy : w.1.files.Roomy) {e : Entry} (stands : w.1.files.entry? at_ = some e)
    (busy : t'.phase ≠ .released) {seen : Nat}
    (stale : Files.creationOf at_ ∈ (t.seat Party.files).log.records →
      (t.seat Party.files).access.snapshot (.path (Path.ofNames at_)) ≠ some seen)
    (written : Files.creationOf at_ ∈ (t'.seat Party.files).log.records) :
    (t'.seat Party.files).access.snapshot (.path (Path.ofNames at_)) ≠ some seen := by
  cases conduct with
  | aside same seated seat =>
      rw [seat] at written ⊢
      exact stale written
  | filed job asked same seated seat =>
      have filed := job.perform_filed (s := t.seat Party.files) sound roomy
      rw [seat] at written ⊢
      rcases filed.creations sound (sound.placed at_ e stands) written with before | ⟨free, -⟩
      · obtain ⟨other, noted, named, snapshot, -⟩ := anchored.creations _ before rfl
        have path : Path.ofNames at_ = Path.ofNames other :=
          ResourceId.path.inj (congrArg Record.resource named)
        rw [← path] at snapshot
        have ne := stale before
        rw [snapshot] at ne
        rw [filed.grown.kept _ _ snapshot]
        exact ne
      · rw [stands] at free
        cases free
  | closing ended => cases ended <;> exact absurd rfl busy

end Calls

/-! ## Assemblies -/

namespace Assembly

variable {G V : Type} [Participant G V] (chunk : Nat → Nat → Nat) {s : Assembly G V} {who : TxId}
  {at_ : Location}

/-- With this call a transaction gets to apply and counts the version of `id` up. -/
def Publishes (s : Assembly G V) (entry : TxId × PartyCall G)
    (id : ResourceId) : Prop :=
  .applying ∉ (s.transactions entry.1).visited ∧
    .applying ∈ ((s.step chunk entry).transactions entry.1).visited ∧
    s.world.1.versions.current id < (s.step chunk entry).world.1.versions.current id

/-- In the course of `schedule` somebody else than `who` publishes `id`. -/
def Published (s : Assembly G V) (schedule : List (TxId × PartyCall G))
    (who : TxId) (id : ResourceId) : Prop :=
  ∃ before entry after, schedule = before ++ entry :: after ∧ entry.1 ≠ who ∧
    Publishes chunk (s.run chunk before) entry id

/-! ### Of the transaction itself -/

theorem Upright.pending_run (upright : s.Upright) {seen : Nat}
    (pending : Pending at_ seen (s.transactions who)) (schedule : List (TxId × PartyCall G))
    (busy : ((s.run chunk schedule).transactions who).phase ≠ .released) :
    Pending at_ seen ((s.run chunk schedule).transactions who) := by
  induction schedule generalizing s with
  | nil => exact pending
  | cons entry rest ih =>
      have next : ((s.step chunk entry).transactions who).phase ≠ .released :=
        fun released => busy (released_run chunk released rest)
      refine ih (upright.step chunk entry).2 ?_ busy
      by_cases own : who = entry.1
      · subst own
        rcases upright.each entry.1 with ⟨seated, anchored⟩ | released
        · exact (conduct_step chunk entry seated).pending upright.sound upright.roomy pending next
        · rw [step_released chunk released]
          exact pending
      · rw [step_other chunk s own]
        exact pending

/-! ### Of the others -/

/-- The file at `at_` stands under the version `seen`, and nobody but `who` has a creation there to
undo that is current. -/
structure Guarded (who : TxId) (at_ : Location) (inode : Inode) (seen : Nat) (s : Assembly G V) :
    Prop where
  stands : s.world.1.files.entry? at_ = some (.file inode)
  version : s.world.1.versions.current (.path (Path.ofNames at_)) = seen
  others : ∀ other, other ≠ who → (s.transactions other).phase ≠ .released →
    Files.creationOf at_ ∈ ((s.transactions other).seat Party.files).log.records →
    ((s.transactions other).seat Party.files).access.snapshot (.path (Path.ofNames at_)) ≠ some seen

/-- **It stays so with every call that does not publish the path.** -/
theorem Upright.guarded_step (upright : s.Upright) {inode : Inode} {seen : Nat}
    (guarded : Guarded who at_ inode seen s) {entry : TxId × PartyCall G}
    (unpublished : entry.1 ≠ who → ¬ Publishes chunk s entry (.path (Path.ofNames at_)))
    (busy : ((s.step chunk entry).transactions who).phase ≠ .released) :
    Guarded who at_ inode seen (s.step chunk entry) := by
  rcases upright.each entry.1 with ⟨seated, anchored⟩ | released
  swap
  · rw [step_released chunk released]
    exact guarded
  obtain ⟨sound, roomy⟩ := And.intro upright.sound upright.roomy
  have conduct := conduct_step chunk entry seated
  have version := conduct.version_kept seated anchored sound roomy
    (sound.placed at_ _ guarded.stands) fun released => by
      -- A transaction that ends is another one, since `who` does not.
      have other : entry.1 ≠ who := fun own => busy (own ▸ released)
      refine ⟨fun written => ?_,
        fun applying up => unpublished other ⟨seated.fresh _, applying, up⟩⟩
      have ne := guarded.others entry.1 other (by rw [seated.active]; simp) written
      rw [AccessSet.isCurrent, guarded.version]
      simpa using ne
  refine ⟨?_, version.trans guarded.version, fun other ne active => ?_⟩
  · rcases (upright.step chunk entry).1.names.stands at_ _ guarded.stands with still | lost
    · exact still
    · omega
  · by_cases mine : other = entry.1
    · subst mine
      exact conduct.creations_stale anchored sound roomy guarded.stands active
        (guarded.others entry.1 ne (by rw [seated.active]; simp))
    · rw [step_other chunk s mine] at active ⊢
      exact guarded.others other ne active

theorem Upright.guarded_run (upright : s.Upright) {inode : Inode} {seen : Nat}
    (guarded : Guarded who at_ inode seen s) (schedule : List (TxId × PartyCall G))
    (unpublished : ¬ Published chunk s schedule who (.path (Path.ofNames at_)))
    (busy : ((s.run chunk schedule).transactions who).phase ≠ .released) :
    Guarded who at_ inode seen (s.run chunk schedule) := by
  induction schedule generalizing s with
  | nil => exact guarded
  | cons entry rest ih =>
      have next : ((s.step chunk entry).transactions who).phase ≠ .released :=
        fun released => busy (released_run chunk released rest)
      refine ih (upright.step chunk entry).2
        (upright.guarded_step chunk guarded (fun other publishes => ?_) next) (fun later => ?_) busy
      · exact unpublished ⟨[], entry, rest, rfl, other, publishes⟩
      · obtain ⟨before, last, after, split, other, publishes⟩ := later
        exact unpublished ⟨entry :: before, last, after, by rw [split]; rfl, other, publishes⟩

/-- Where somebody published a path its version is higher afterwards. -/
theorem Upright.published_run (upright : s.Upright) {schedule : List (TxId × PartyCall G)}
    {id : ResourceId} (published : Published chunk s schedule who id) :
    s.world.1.versions.current id < (s.run chunk schedule).world.1.versions.current id := by
  obtain ⟨before, entry, after, rfl, -, -, -, up⟩ := published
  obtain ⟨first, here⟩ := upright.run chunk before
  obtain ⟨-, next⟩ := here.step chunk entry
  have last := (next.run chunk after).1.versions id
  have start := first.versions id
  rw [run_append]
  exact Nat.lt_of_le_of_lt start (Nat.lt_of_lt_of_le up last)

/-! ### The creation -/

/-- A call after which a file stands where nothing stood wrote its creation down, and nobody else has a
current creation there. -/
theorem Upright.creates (upright : s.Upright) {call : PartyCall G} {inode : Inode}
    (free : s.world.1.files.entry? at_ = none)
    (stands : Filesystem.entry? (s.step chunk (who, call)).world.1.files at_ = some (.file inode))
    (busy : ((s.step chunk (who, call)).transactions who).phase ≠ .released) :
    (∃ seen, Pending at_ seen ((s.step chunk (who, call)).transactions who)) ∧
      Guarded who at_ inode
        ((s.step chunk (who, call)).world.1.versions.current (.path (Path.ofNames at_)))
        (s.step chunk (who, call)) := by
  obtain ⟨drift, next⟩ := upright.step chunk (who, call)
  obtain ⟨written, versions⟩ : Files.creationOf at_ ∈
      (((s.step chunk (who, call)).transactions who).seat Party.files).log.records ∧
        (s.step chunk (who, call)).world.1.versions = s.world.1.versions := by
    rcases upright.each who with ⟨seated, -⟩ | released
    · exact (conduct_step chunk (who, call) seated).creates upright.sound upright.roomy free
        (by rw [stands]; simp) busy
    · rw [step_released chunk released] at stands
      rw [free] at stands
      cases stands
  refine ⟨?_, stands, rfl, fun other ne active noted snapshot => ?_⟩
  · obtain ⟨-, anchored⟩ := (next.each who).resolve_right busy
    obtain ⟨there, seen, same, noted, -⟩ := anchored.creations _ written rfl
    have path : Path.ofNames at_ = Path.ofNames there :=
      ResourceId.path.inj (congrArg Record.resource same)
    exact ⟨seen, written, path ▸ noted⟩
  · -- A current creation would have something standing there before.
    rw [step_other chunk s ne] at active noted snapshot
    obtain ⟨-, anchored⟩ := (upright.each other).resolve_right active
    obtain ⟨there, seen, same, recorded, stood⟩ := anchored.creations _ noted rfl
    have path : Path.ofNames at_ = Path.ofNames there :=
      ResourceId.path.inj (congrArg Record.resource same)
    rw [← path] at recorded stood
    rw [recorded, versions] at snapshot
    obtain ⟨e, found⟩ := Option.ne_none_iff_exists'.1 (stood (Option.some.inj snapshot).symm)
    cases Files.creationOf_inj upright.sound
      (drift.names.spot.1 (next.sound.placed at_ _ stands)) (upright.sound.placed there e found) same
    rw [free] at found
    cases found

/-- **A file that a transaction created goes when the transaction gives up, unless somebody published
it.**  A call of `who` creates the file at `at_`; later, after any calls of any number of transactions,
`who` gives up, and nobody else holds the lock of the file.  If another transaction published its path
in between, what stands there is left alone.  If nobody did, the file is removed and its version counted
up, provided that `who` noted the version that was in force when it created the file, and not an older
one. -/
theorem run_reverts_creation (config : TxId → Config) {w : World × V}
    (sound : w.1.files.Sound) (roomy : w.1.files.Roomy)
    (past later : List (TxId × PartyCall G)) (who : TxId) (call last : PartyCall G) :
    let s₀ : Assembly G V := (start config w).run chunk past
    let s₁ := s₀.step chunk (who, call)
    let s₂ := s₁.run chunk later
    let s₃ := s₂.step chunk (who, last)
    ∀ (at_ : Location) (inode : Inode),
      let id : ResourceId := .path (Path.ofNames at_)
      s₀.world.1.files.entry? at_ = none →
      s₁.world.1.files.entry? at_ = some (.file inode) →
      .undoing ∉ (s₂.transactions who).visited →
      .undoing ∈ (s₃.transactions who).visited →
      s₂.world.1.locks.Open who id.key →
      (Published chunk s₁ later who id →
        s₃.world.1.files.entry? at_ = s₂.world.1.files.entry? at_ ∧
          s₃.world.1.files.contents = s₂.world.1.files.contents ∧
          s₃.world.1.versions.current id = s₂.world.1.versions.current id) ∧
      (¬ Published chunk s₁ later who id →
        ((s₁.transactions who).seat Party.files).access.snapshot id =
          some (s₁.world.1.versions.current id) →
        s₂.world.1.files.entry? at_ = some (.file inode) ∧
          s₃.world.1.files.entry? at_ = none ∧
          s₃.world.1.versions.current id = s₂.world.1.versions.current id + 1) := by
  intro s₀ s₁ s₂ s₃ at_ inode id free stands atWork gaveUp unlocked
  have upright₀ : s₀.Upright := ((upright_start config sound roomy).run chunk past).2
  have upright₁ : s₁.Upright := (upright₀.step chunk (who, call)).2
  obtain ⟨drift, upright₂⟩ : Drift s₁.world.1 s₂.world.1 ∧ s₂.Upright := upright₁.run chunk later
  -- The transaction is at work until its last call.
  have active : (s₂.transactions who).phase ≠ .released := fun released => by
    have same : s₃ = s₂ := step_released chunk released
    exact atWork (same ▸ gaveUp)
  have busy : (s₁.transactions who).phase ≠ .released :=
    fun released => active (released_run chunk released later)
  obtain ⟨⟨seen, pending₁⟩, guarded₁⟩ := upright₀.creates chunk free stands busy
  have pending := upright₁.pending_run chunk pending₁ later active
  obtain ⟨seated, anchored⟩ := (upright₂.each who).resolve_right active
  have conduct : Conduct last (s₂.transactions who) s₂.world (s₃.transactions who) s₃.world :=
    conduct_step chunk (who, last) seated
  refine ⟨fun published => ?_, fun unpublished fresh => ?_⟩
  · have noted := ((upright₁.each who).resolve_right busy).2.notes id seen pending₁.noted
    have up : s₁.world.1.versions.current id < s₂.world.1.versions.current id :=
      upright₁.published_run chunk published
    have spot := drift.names.spot.2 (upright₁.sound.placed at_ _ stands)
    have left := conduct.undone_leaves atWork gaveUp anchored upright₂.sound upright₂.roomy spot
      fun _ => by
        rw [AccessSet.isCurrent, pending.noted, beq_eq_false_iff_ne]
        intro same
        have same : seen = s₂.world.1.versions.current id := Option.some.inj same
        omega
    exact ⟨left.1, conduct.undone_contents atWork gaveUp anchored upright₂.sound upright₂.roomy, left.2⟩
  · have guarded := upright₁.guarded_run chunk guarded₁ later unpublished active
    have note : seen = s₁.world.1.versions.current id :=
      Option.some.inj (pending₁.noted.symm.trans fresh)
    refine ⟨guarded.stands, conduct.undone_removes atWork gaveUp anchored upright₂.sound
      upright₂.roomy pending.written ?_ ?_ guarded.stands⟩
    · rw [AccessSet.isCurrent, pending.noted, note, beq_iff_eq]
      exact congrArg some guarded.version.symm
    · rw [upright₂.named]
      exact unlocked

/-- The second opens `/new`, writes to it if told to, and commits. -/
def visitNew (writes : Bool) : List (TxId × PartyCall Yields) :=
  let second : TxId := ⟨2, "second"⟩
  [(second, .work (.files (.plain (.openPath "/new" { read := true, write := true }))))] ++
    (if writes then [(second, .work (.files (.plain (.write ⟨0⟩ [8]))))] else []) ++
    [(second, .commit)]

/-- The first creates `/new`. -/
def createNew : TxId × PartyCall Yields :=
  (⟨1, "first"⟩, .work (.files (.plain (.openPath "/new" { write := true, create := true }))))

/-- When the first gives up, the file goes if the second only looked at it, and stays if it wrote. -/
theorem run_reverts_creation_visited :
    let s₁ : Assembly Yields World :=
      (start (fun _ => {}) (oneOld, {})).step (fun _ _ => 1) createNew
    let looked := (s₁.run (fun _ _ => 1) (visitNew false)).step (fun _ _ => 1) (⟨1, "first"⟩, .abort)
    let wrote := (s₁.run (fun _ _ => 1) (visitNew true)).step (fun _ _ => 1) (⟨1, "first"⟩, .abort)
    looked.world.1.files.entry? ["new"] = none ∧
      wrote.world.1.files.entry? ["new"] = some (.file 1) := by
  have reverts (later : List (TxId × PartyCall Yields)) :=
    run_reverts_creation (fun _ _ => 1) (fun _ => {}) (w := (oneOld, ({} : World))) sound_oneOld
      roomy_oneOld [] later ⟨1, "first"⟩ createNew.2 .abort ["new"] 1 (by decide) (by decide)
  have upright := ((upright_start (G := Yields) (fun _ => {}) (w := (oneOld, ({} : World)))
    sound_oneOld roomy_oneOld).step (fun _ _ => 1) createNew).2
  have unpublished : ¬ Published (fun _ _ => 1)
      ((start (fun _ => {}) (oneOld, ({} : World))).step (fun _ _ => 1) createNew) (visitNew false)
      ⟨1, "first"⟩ (.path (Path.ofNames ["new"])) :=
    fun published => absurd (upright.published_run _ published) (by decide)
  have published : Published (fun _ _ => 1)
      ((start (fun _ => {}) (oneOld, ({} : World))).step (fun _ _ => 1) createNew) (visitNew true)
      ⟨1, "first"⟩ (.path (Path.ofNames ["new"])) :=
    ⟨(visitNew true).take 2, (⟨2, "second"⟩, .commit), [], rfl, by decide, by decide, by decide,
      by decide⟩
  have looked := (reverts (visitNew false) (by decide) (by decide) (by decide)).2 unpublished
    (by decide)
  have wrote := (reverts (visitNew true) (by decide) (by decide) (by decide)).1 published
  exact ⟨looked.2.1, wrote.1.trans (by decide)⟩

end Assembly

end Transact
