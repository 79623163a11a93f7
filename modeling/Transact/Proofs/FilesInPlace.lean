/-
# Transact.Proofs.FilesInPlace -- a commit finds its files where it opened them

Like undo, the apply of the files of a transaction counts up the version of every name it removes
(`Files.Anchored.apply`), so no call on any transaction loses a name without that (`Conduct.drift`).
Whoever still holds every version noted therefore still finds its files under the paths it opened them
at.

`run_attached` says so of every commit that passes validation, after any calls of any number of
transactions.
-/
import Transact.Proofs.Undoing

namespace Transact

set_option autoImplicit false

/-! ## Apply -/

namespace Filesystem

theorem onward_put (fs : Filesystem) (fd : Nat) (inode : Inode) (offset : Nat) (bytes : Bytes) :
    Onward fs (fs.put fd inode offset bytes) :=
  (onward_setContent ..).trans (onward_setPosition ..)

/-- Where a write through a descriptor lands. -/
def landing (fs : Filesystem) (d : Descriptor) (inode : Inode) (offset : Nat) : Nat :=
  if d.appends then (fs.content inode).length else offset

/-- A write puts what fits at its place, or does nothing. -/
theorem write_cases (fs : Filesystem) (fd : Nat) (bytes : Bytes) :
    (fs.write fd bytes).2 = fs ∨ ∃ d inode part, fs.descriptors.get? fd = some d ∧
      d.inode = some inode ∧ part.length ≤ bytes.length ∧
      (fs.write fd bytes).2 = fs.put fd inode (fs.landing d inode d.position) part := by
  unfold write landing
  by_cases none : bytes = []
  · exact Or.inl (by rw [if_pos none])
  rw [if_neg none]
  cases known : fs.descriptors.get? fd with
  | none => exact Or.inl rfl
  | some d =>
      simp only
      cases d.writable with
      | false => exact Or.inl rfl
      | true =>
          cases file : d.inode with
          | none => exact Or.inl rfl
          | some inode =>
              simp only [Bool.not_true, Bool.false_eq_true, if_false]
              -- Where the bytes go does not matter.
              generalize place : (if d.appends then (fs.content inode).length else d.position) = n
              by_cases fits : bytes.length ≤ maxLength - n
              · rw [if_pos fits]
                exact Or.inr ⟨d, inode, bytes, rfl, file, Nat.le_refl _, by rw [place]⟩
              · rw [if_neg fits]
                by_cases room : maxLength - n = 0
                · exact Or.inl (by rw [if_pos room])
                · rw [if_neg room]
                  exact Or.inr ⟨d, inode, bytes.take (maxLength - n), rfl, file,
                    List.length_take_le' _ _, by rw [place]⟩

theorem onward_write (fs : Filesystem) (fd : Nat) (bytes : Bytes) :
    Onward fs (fs.write fd bytes).2 := by
  rcases fs.write_cases fd bytes with same | ⟨d, inode, part, -, -, -, done⟩
  · rw [same]
    exact .refl fs
  · rw [done]
    exact onward_put ..

theorem onward_writeAt (fs : Filesystem) (fd offset : Nat) (bytes : Bytes) :
    Onward fs (fs.writeAt fd offset bytes).2 := by
  unfold writeAt
  cases sought : fs.seek fd offset with
  | error e => exact .refl fs
  | ok fs' => exact (moved_seek sought).toOnward.trans (onward_write fs' fd bytes)

end Filesystem

namespace Files

variable {w w' : World} {s : Files}

theorem Anchored.held (anchored : Anchored w s) (held : HeldLocks) :
    Anchored w { s with held } :=
  ⟨anchored.keyed, anchored.notes, anchored.handles, anchored.records, anchored.creations⟩

/-- Locations whose removal is written down, and is to be published. -/
def Losing (s : Files) (at_ : Location) : Prop :=
  s.access.isWritten (.path (Path.ofNames at_)) = true ∧
    (ResourceId.path (Path.ofNames at_)).key ∈ s.removed

/-- Applying so far: no version was counted up, and only removed names are lost. -/
structure Applying (s : Files) (w w' : World) : Prop where
  versions : w'.versions = w.versions
  names : Filesystem.Keeps s.Losing w.files w'.files

theorem Applying.trans {w'' : World} (first : Applying s w w') (second : Applying s w' w'') :
    Applying s w w'' :=
  ⟨second.versions.trans first.versions, first.names.trans second.names⟩

theorem Applying.refl (s : Files) (w : World) : Applying s w w := ⟨rfl, .refl _ _⟩

theorem applyRecord_applying (sound : w.files.Sound) (roomy : w.files.Roomy)
    {r : Record FileEffect} (booked : Booked w s r) :
    Applying s w (applyRecord s.handles r w).2 := by
  unfold applyRecord
  cases work : r.payload with
  | create => exact .refl s w
  | adopt h => exact .refl s w
  | write h offset bytes =>
      simp only
      cases s.handles.get? h.number with
      | none => exact .refl s w
      | some f =>
          have onward := Filesystem.onward_writeAt w.files f.descriptor offset bytes
          simp only
          rcases made : w.files.writeAt f.descriptor offset bytes with ⟨_ | _, files⟩ <;>
            rw [made] at onward
          · exact ⟨rfl, onward.keeps⟩
          · exact ⟨rfl, onward.keeps⟩
  | remove =>
      obtain ⟨at_, named, spot, written, listed⟩ := booked (Or.inr work)
      simp only [named, unlinkResource, Filesystem.unlink_spot sound roomy spot]
      have removed (file : w.files.entry? at_ ≠ some .directory) :
          Applying s w { w with files := w.files.eraseEntry at_ } := by
        have below : at_ ≠ [] := by
          rintro rfl
          exact file (Filesystem.entry?_root _)
        refine ⟨rfl, Filesystem.keeps_eraseEntry below file ?_⟩
        rw [named] at written listed
        exact ⟨written, listed work⟩
      rcases stands : w.files.entry? at_ with _ | ⟨_ | inode | target⟩
      · exact .refl s w
      · exact .refl s w
      · exact removed (by rw [stands]; simp)
      · exact removed (by rw [stands]; simp)

theorem settle_applying (files : List OpenFile) (w : World) : Applying s w (settle files w).2 := by
  induction files generalizing w with
  | nil => exact .refl s w
  | cons f rest ih =>
      unfold settle
      split
      · cases sought : w.files.seek f.descriptor f.offset with
        | error e => exact .refl s w
        | ok fs =>
            have moved : Applying s w { w with files := fs } :=
              ⟨rfl, (Filesystem.moved_seek sought).toOnward.keeps⟩
            exact moved.trans (ih { w with files := fs })
      · exact ih w

theorem Booked.applying {r : Record FileEffect} (booked : Booked w s r)
    (applying : Applying s w w') : Booked w' s r := by
  intro tree
  obtain ⟨at_, named, spot, rest⟩ := booked tree
  exact ⟨at_, named, applying.names.spot.2 spot, rest⟩

/-- **Apply loses the names whose removal was written down**, and publishes them. -/
theorem Anchored.apply (anchored : Anchored w s) (sound : w.files.Sound) (roomy : w.files.Roomy) :
    Drift w (s.apply w).2.2 ∧ Filesystem.Keeps s.Losing w.files (s.apply w).2.2.files := by
  have each (rs : List (Record FileEffect)) {w' : World} (within : ∀ r ∈ rs, Booked w' s r)
      (before : Applying s w w') :
      Applying s w (DeferredLog.applyEach (applyRecord s.handles) rs w').2 := by
    induction rs generalizing w' with
    | nil => exact before
    | cons r rest ih =>
        obtain ⟨here, later⟩ := List.forall_mem_cons.1 within
        have act := applyRecord_applying (before.names.sound sound) (before.names.roomy roomy) here
        simp only [DeferredLog.applyEach]
        rcases done : applyRecord s.handles r w' with ⟨_ | _, w''⟩ <;> rw [done] at act
        · exact before.trans act
        · exact ih (fun r member => (later r member).applying act) (before.trans act)
  -- What was applied is published, also where something failed on the way.
  have published {w' : World} (applying : Applying s w w') :
      Drift w { w' with versions := s.access.publish w'.versions } ∧
        Filesystem.Keeps s.Losing w.files w'.files := by
    refine ⟨⟨fun id => ?_, applying.names.mono fun at_ losing => ?_⟩, applying.names⟩
    · have up := s.access.current_publish_le w'.versions id
      rw [applying.versions] at up
      rw [applying.versions]
      exact up
    · have up := AccessSet.current_publish anchored.keyed w'.versions (.path (Path.ofNames at_))
      rw [losing.1, if_pos rfl] at up
      rw [applying.versions] at up
      simp only [applying.versions]
      omega
  have all := each s.log.records anchored.records (.refl s w)
  simp only [Files.apply, DeferredLog.applyAll]
  rcases done : DeferredLog.applyEach (applyRecord s.handles) s.log.records w with ⟨_ | _, w'⟩ <;>
    rw [done] at all
  · exact published all
  · exact published (all.trans (settle_applying s.handles.values w'))

end Files

/-! ## Calls -/

section Calls

variable {G V : Type} [Participant G V] {call : PartyCall G} {t t' : Transaction (Party G)}
  {w w' : World × V}

/-- A transaction at work whose files are at anchor, or one that is released. -/
def Minded (w : World) (t : Transaction (Party G)) : Prop :=
  t.Seated ∧ Files.Anchored w (t.seat Party.files) ∨ t.phase = .released

omit [Participant G V] in
theorem Minded.drift {w w' : World} (minded : Minded w t) (drift : Drift w w') : Minded w' t :=
  minded.imp_left fun ⟨seated, anchored⟩ => ⟨seated, anchored.drift drift⟩

omit [Participant G V] in
theorem Files.Anchored.sameButHeld {w : World} {s s' : Files} (anchored : Files.Anchored w s)
    (same : Files.SameButHeld s s') : Files.Anchored w s' := by
  obtain ⟨held, rfl⟩ := same
  exact anchored.held held

/-- **No call loses a name without counting its version up.** -/
theorem Conduct.drift (conduct : Conduct call t w t' w') (sound : w.1.files.Sound)
    (roomy : w.1.files.Roomy) (anchored : Files.Anchored w.1 (t.seat Party.files)) :
    Drift w.1 w'.1 ∧ Minded w'.1 t' := by
  cases conduct with
  | aside same seated seat still =>
      have drift := Drift.ofStill still
      exact ⟨drift, Or.inl ⟨seated, seat ▸ anchored.drift drift⟩⟩
  | filed job asked same seated seat =>
      have filed := job.perform_filed (s := t.seat Party.files) sound roomy
      exact ⟨filed.drift, Or.inl ⟨seated, seat ▸ anchored.filed sound filed⟩⟩
  | closing ended =>
      cases ended with
      | undone s w₁ _ visited outcome mine before after =>
          have first := Drift.ofStill before
          have here : Files.Anchored w.1 s := by
            rcases mine with rfl | same
            · exact anchored
            · exact anchored.sameButHeld same
          have undone := (here.drift first).undo (first.names.sound sound)
            (first.names.roomy roomy) t.context
          exact ⟨(first.trans undone).trans (.ofStill after), Or.inr rfl⟩
      | applied s w₁ w₂ _ visited outcome mine before valid meanwhile after =>
          have first := (Drift.ofStill before).trans (.ofPublishing meanwhile)
          have here := (anchored.sameButHeld mine).drift first
          have applied := (here.apply (first.names.sound sound) (first.names.roomy roomy)).1
          exact ⟨(first.trans applied).trans (.ofPublishing after), Or.inr rfl⟩

end Calls

/-! ## Assemblies -/

namespace Assembly

variable {G V : Type} [Participant G V] (chunk : Nat → Nat → Nat) {s : Assembly G V}

/-- Every transaction minds the names of its files. -/
structure Upright (s : Assembly G V) : Prop where
  sound : s.world.1.files.Sound
  roomy : s.world.1.files.Roomy
  each : ∀ who, Minded s.world.1 (s.transactions who)
  named : ∀ who, (s.transactions who).id = who

omit [Participant G V] in
theorem upright_start (config : TxId → Config) {w : World × V} (sound : w.1.files.Sound)
    (roomy : w.1.files.Roomy) : (start config w : Assembly G V).Upright where
  sound := sound
  roomy := roomy
  each _ := Or.inl
    ⟨⟨rfl, rfl, Nat.zero_le _, Nat.zero_le _, Nat.zero_le _, Nat.zero_le _⟩, .fresh w.1⟩
  named _ := rfl

/-- A call on a released transaction changes nothing. -/
theorem step_released {entry : TxId × PartyCall G}
    (released : (s.transactions entry.1).phase = .released) : s.step chunk entry = s := by
  simp only [step, entry.2.perform_released chunk released]
  congr 1
  funext other
  split
  · next same => rw [same]
  · rfl

/-- A released transaction stays so. -/
theorem released_run {who : TxId} (released : (s.transactions who).phase = .released)
    (schedule : List (TxId × PartyCall G)) :
    ((s.run chunk schedule).transactions who).phase = .released := by
  induction schedule generalizing s with
  | nil => exact released
  | cons entry rest ih =>
      refine ih ?_
      by_cases own : who = entry.1
      · rw [step_released chunk (own ▸ released)]
        exact released
      · rw [step_other chunk s own]
        exact released

/-- A step of an assembly is what the call does. -/
theorem conduct_step (entry : TxId × PartyCall G) (seated : (s.transactions entry.1).Seated) :
    Conduct entry.2 (s.transactions entry.1) s.world ((s.step chunk entry).transactions entry.1)
      (s.step chunk entry).world := by
  rw [step_self]
  exact entry.2.conduct chunk seated s.world

theorem Upright.step (upright : s.Upright) (entry : TxId × PartyCall G) :
    Drift s.world.1 (s.step chunk entry).world.1 ∧ (s.step chunk entry).Upright := by
  rcases upright.each entry.1 with ⟨seated, anchored⟩ | released
  · have conduct := entry.2.conduct chunk seated s.world
    obtain ⟨drift, minded⟩ := conduct.drift upright.sound upright.roomy anchored
    refine ⟨drift, drift.names.sound upright.sound, drift.names.roomy upright.roomy,
      fun other => ?_, fun other => ?_⟩
    · simp only [Assembly.step]
      split
      · exact minded
      · exact (upright.each other).drift drift
    · simp only [Assembly.step]
      split
      · next same => exact conduct.id.trans ((upright.named entry.1).trans same.symm)
      · exact upright.named other
  · rw [step_released chunk released]
    exact ⟨.refl _, upright⟩

theorem Upright.run (upright : s.Upright) (schedule : List (TxId × PartyCall G)) :
    Drift s.world.1 (s.run chunk schedule).world.1 ∧ (s.run chunk schedule).Upright := by
  induction schedule generalizing s with
  | nil => exact ⟨.refl _, upright⟩
  | cons entry rest ih =>
      obtain ⟨here, next⟩ := upright.step chunk entry
      obtain ⟨later, last⟩ := ih next
      exact ⟨here.trans later, last⟩

/-- **Whoever passes validation still finds its files under the paths it opened or created them at**,
after any calls of any number of transactions; and its commit leaves them there, but for the files it
removed itself. -/
theorem run_attached (config : TxId → Config) {w : World × V}
    (sound : w.1.files.Sound) (roomy : w.1.files.Roomy) (past : List (TxId × PartyCall G))
    (who : TxId)
    (atWork : .applying ∉
      (((start config w : Assembly G V).run chunk past).transactions who).visited)
    (passed : .applying ∈
      (((start config w).run chunk (past ++ [(who, .commit)])).transactions who).visited) :
    let before := (start config w).run chunk past
    let after := (start config w).run chunk (past ++ [(who, .commit)])
    let files := (before.transactions who).seat Party.files
    ∀ n f inode, files.handles.get? n = some f → f.adopted = false →
      before.world.1.files.inode? f.descriptor = some inode →
      ∃ path, f.id = .path path ∧ before.world.1.files.fileAt? path = some inode ∧
        (f.id.key ∉ files.removed → after.world.1.files.fileAt? path = some inode) := by
  intro before after files n f inode found own behind
  have done : after = before.step chunk (who, .commit) := run_snoc ..
  have upright : before.Upright := ((upright_start config sound roomy).run chunk past).2
  have next : after.Upright := done ▸ (upright.step chunk (who, .commit)).2
  rw [run_snoc] at passed
  rcases upright.each who with ⟨seated, anchored⟩ | released
  · obtain ⟨held, w₁, w₂, still, meanwhile, valid, publishing⟩ :=
      (conduct_step chunk (who, .commit) seated).applied atWork passed
    have holding := anchored.handles n f found own
    obtain ⟨at_, seen, named, noted, there⟩ := holding.names
    -- The version noted is in force, so the file stands where it was found.
    have current : before.world.1.versions.current f.id = seen := by
      rw [← still.versions]
      exact (AccessSet.validate_iff anchored.keyed _).1 valid _ _ noted
    have stands := there current inode behind
    have names : w₂.files = before.world.1.files := meanwhile.files.trans still.files
    have applied := (((anchored.drift (.ofStill still)).drift (.ofPublishing meanwhile)).held
      held).apply (names ▸ upright.sound) (names ▸ upright.roomy)
    refine ⟨_, named, Filesystem.fileAt?_spot upright.sound upright.roomy stands, fun kept => ?_⟩
    refine Filesystem.fileAt?_spot next.sound next.roomy ?_
    rw [done, publishing.files]
    rcases applied.2.stands at_ _ (names ▸ stands) with still | lost
    · exact still
    · exact absurd (named ▸ lost.2) kept
  · rw [step_released chunk released] at passed
    exact absurd passed atWork

/-- A world whose only file is `/old`. -/
def oneOld : World :=
  { files := { entries := ⟨[(["old"], .file 0)]⟩, contents := ⟨[(0, .ofBytes [1, 2])]⟩, nextInode := 1 } }

theorem entry?_oneOld {at_ : Location} {e : Entry} (stands : oneOld.files.entry? at_ = some e) :
    at_ = [] ∧ e = .directory ∨ at_ = ["old"] ∧ e = .file 0 := by
  unfold Filesystem.entry? at stands
  by_cases root : at_ = []
  · rw [if_pos root] at stands
    exact Or.inl ⟨root, (Option.some.inj stands).symm⟩
  · rw [if_neg root] at stands
    have member := Table.mem_of_get? stands
    simp only [oneOld, List.mem_singleton, Prod.mk.injEq] at member
    exact Or.inr member

theorem sound_oneOld : oneOld.files.Sound where
  home := rfl
  placed at_ e stands := by
    rcases entry?_oneOld stands with ⟨rfl, -⟩ | ⟨rfl, -⟩
    · exact Or.inl rfl
    · exact Or.inr ⟨[], "old", rfl, rfl,
        ⟨⟨by decide, by decide⟩, ⟨by decide, by decide, by decide⟩, by decide⟩⟩

theorem roomy_oneOld : oneOld.files.Roomy := by
  refine Filesystem.roomy_of_shallow fun directory stands => ?_
  rcases entry?_oneOld stands with ⟨rfl, -⟩ | ⟨-, same⟩
  · decide
  · cases same

/-- The first creates `/new`, which the second writes to in vain, while a third removes `/old`. -/
def newAndOld : List (TxId × PartyCall Yields) :=
  let first : TxId := ⟨1, "first"⟩
  let second : TxId := ⟨2, "second"⟩
  let third : TxId := ⟨3, "third"⟩
  [(first, .work (.files (.plain (.openPath "/new" { write := true, create := true })))),
    (first, .work (.files (.plain (.write ⟨0⟩ [7])))),
    (third, .work (.files (.remove "/old"))),
    (second, .work (.files (.plain (.openPath "/new" { write := true })))),
    (second, .work (.files (.plain (.write ⟨0⟩ [8])))),
    (third, .commit)]

/-- The first commits; its file is where it created it. -/
theorem run_attached_newAndOld :
    let s : Assembly Yields World := start (fun _ => {}) (oneOld, {})
    let before := s.run (fun _ _ => 1) newAndOld
    let after := s.run (fun _ _ => 1) (newAndOld ++ [(⟨1, "first"⟩, .commit)])
    before.world.1.files.fileAt? "/old" = none ∧
      before.world.1.files.fileAt? "/new" = some 1 ∧ after.world.1.files.fileAt? "/new" = some 1 := by
  obtain ⟨path, named, there, still⟩ :=
    run_attached (fun _ _ => 1) (fun _ => {}) sound_oneOld roomy_oneOld newAndOld ⟨1, "first"⟩
      (w := (oneOld, ({} : World))) (by decide) (by decide) 0
      { id := .path "/new", descriptor := 0, offset := 1, flags := { write := true, create := true } }
      1 (by decide) rfl (by decide)
  cases named
  refine ⟨by decide, there, still (by decide)⟩

end Assembly

end Transact
