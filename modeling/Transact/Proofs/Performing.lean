/-
# Transact.Proofs.Performing -- which logs of files can be performed

Apply goes through the log of the files and puts adopted descriptors where their handles are.  Whether
all of that succeeds can be told from the file system before it begins: `Performable` says what every
record and every handle has to be like.  For along the way no directory comes or goes, and descriptors
change in their positions only; what is left to do stays due (`Due.next`).

`apply_ok_iff` needs to know that every removal names what stands there, each a different one, and that
the disk has room (`Room`).
-/
import Transact.Proofs.FilesInPlace
import Transact.Proofs.Restoring

namespace Transact

set_option autoImplicit false

/-! ## Writes -/

theorem Content.length_splice (c : Content) (offset : Nat) (new : Bytes) :
    (c.splice offset new).length = Content.extend c.length (offset, new) := by
  simp only [splice, length, List.foldl_append, List.foldl_cons, List.foldl_nil]

namespace Filesystem

/-- The system writes `bytes` through `fd` at `offset`. -/
def Accepts (fs : Filesystem) (fd offset : Nat) (bytes : Bytes) : Prop :=
  offset ≤ fs.positionLimit fd ∧ (bytes = [] ∨ ∃ d inode, fs.descriptors.get? fd = some d ∧
    d.writable = true ∧ d.inode = some inode ∧
      fs.landing d inode offset + bytes.length ≤ maxLength)

variable {fs fs' : Filesystem} {fd offset : Nat} {bytes : Bytes}

theorem write_ok_iff : (fs.write fd bytes).1 = .ok () ↔
    bytes = [] ∨ ∃ d inode, fs.descriptors.get? fd = some d ∧ d.writable = true ∧
      d.inode = some inode ∧ fs.landing d inode d.position + bytes.length ≤ maxLength := by
  unfold write landing
  by_cases empty : bytes = []
  · simp only [empty, if_true, true_or]
  have filled := List.length_pos_of_ne_nil empty
  simp only [empty, if_false, false_or]
  cases known : fs.descriptors.get? fd with
  | none => simp
  | some d =>
      cases writable : d.writable with
      | false => simp [writable]
      | true =>
          cases file : d.inode with
          | none => simp [writable, file]
          | some inode =>
              simp only [writable, file, Bool.not_true, Bool.false_eq_true, if_false,
                exists_and_left, Option.some.injEq, exists_eq_left', true_and]
              generalize (if d.appends then (fs.content inode).length else d.position) = place
              split
              · simp only [true_iff]
                omega
              · split <;>
                · simp only [reduceCtorEq, false_iff]
                  omega

/-- **A write succeeds exactly where the system accepts it.** -/
theorem writeAt_ok_iff : (fs.writeAt fd offset bytes).1 = .ok () ↔ fs.Accepts fd offset bytes := by
  unfold writeAt Accepts seek
  by_cases far : fs.positionLimit fd < offset
  · simp only [far, if_true, Nat.not_le.2 far, false_and, reduceCtorEq]
  · have there := get?_setPosition_of fs fd fd offset
    rw [if_pos rfl] at there
    simp only [far, if_false, Nat.not_lt.1 far, true_and, write_ok_iff, there]
    cases fs.descriptors.get? fd with
    | none => simp
    | some d => simp [landing, content, setPosition]

/-- What a write leaves as it was: names, and descriptors but for their positions. -/
structure Written (fs fs' : Filesystem) : Prop where
  tree : SameTree fs fs'
  still : ∀ n, (fs'.descriptors.get? n).map Descriptor.still =
    (fs.descriptors.get? n).map Descriptor.still

namespace Written

theorem refl (fs : Filesystem) : Written fs fs := ⟨.refl fs, fun _ => rfl⟩

theorem setPosition (fs : Filesystem) (fd position : Nat) :
    Written fs (fs.setPosition fd position) where
  tree := ⟨rfl, rfl⟩
  still n := by
    rw [get?_setPosition_of]
    split
    · next same =>
      rw [same, Option.map_map]
      rfl
    · rfl

theorem put (fs : Filesystem) (fd : Nat) (inode : Inode) (offset : Nat) (bytes : Bytes) :
    Written fs (fs.put fd inode offset bytes) :=
  have moved := Written.setPosition (fs.setContent inode ((fs.content inode).splice offset bytes)) fd
    (offset + bytes.length)
  ⟨⟨rfl, rfl⟩, moved.still⟩

theorem trans {fs'' : Filesystem} (first : Written fs fs') (second : Written fs' fs'') :
    Written fs fs'' :=
  ⟨first.tree.trans second.tree, fun n => (second.still n).trans (first.still n)⟩

end Written

/-- A file grows to where the write ends at most. -/
theorem length_put (fs : Filesystem) (d : Descriptor) (fd : Nat) (inode : Inode) (offset : Nat)
    (part : Bytes) (other : Inode) :
    ((fs.put fd inode (fs.landing d inode offset) part).content other).length ≤
      max (fs.content other).length offset + part.length := by
  have same : (fs.put fd inode (fs.landing d inode offset) part).content other =
      if other = inode then (fs.content inode).splice (fs.landing d inode offset) part
      else fs.content other := content_setContent ..
  rw [same]
  split
  · next here =>
    rw [here, Content.length_splice]
    simp only [Content.extend, landing]
    split
    · omega
    · split <;> omega
  · omega

/-- **What a write may do**, whether it succeeds or not. -/
theorem writeAt_written (fs : Filesystem) (fd offset : Nat) (bytes : Bytes) :
    Written fs (fs.writeAt fd offset bytes).2 ∧ ∀ inode,
      ((fs.writeAt fd offset bytes).2.content inode).length ≤
        max (fs.content inode).length offset + bytes.length := by
  unfold writeAt seek
  by_cases far : fs.positionLimit fd < offset
  · simp only [far, if_true]
    exact ⟨.refl fs, fun inode => by omega⟩
  simp only [far, if_false]
  have moved := Written.setPosition fs fd offset
  rcases (fs.setPosition fd offset).write_cases fd bytes with
    same | ⟨d, inode, part, known, -, short, done⟩
  · rw [same]
    exact ⟨moved, fun inode => Nat.le_add_right_of_le (Nat.le_max_left ..)⟩
  · have place : d.position = offset := by
      rw [get?_setPosition_of, if_pos rfl] at known
      obtain ⟨d', -, rfl⟩ := Option.map_eq_some_iff.1 known
      rfl
    rw [done, place]
    refine ⟨moved.trans (.put ..), fun other => ?_⟩
    have length := (fs.setPosition fd offset).length_put d fd inode offset part other
    have same : (fs.setPosition fd offset).content other = fs.content other := rfl
    rw [same] at length
    omega

end Filesystem

/-! ## Records -/

namespace Files

variable {handles : Table Nat OpenFile} {fs fs' : Filesystem} {w w' : World}
  {r : Record FileEffect} {rs : List (Record FileEffect)}

/-- How long a file can have become by a record, wherever its bytes go. -/
def stretch (length : Nat) (r : Record FileEffect) : Nat :=
  match r.payload with
  | .write _ offset bytes => max length offset + bytes.length
  | _ => length

/-- How long a file can have become when all is written. -/
def reach (length : Nat) (rs : List (Record FileEffect)) : Nat := rs.foldl stretch length

theorem le_stretch (n : Nat) (r : Record FileEffect) : n ≤ stretch n r := by
  unfold stretch
  split <;> omega

theorem stretch_mono {n m : Nat} (le : n ≤ m) (r : Record FileEffect) : stretch n r ≤ stretch m r := by
  unfold stretch
  split <;> omega

theorem reach_mono {n m : Nat} (le : n ≤ m) (rs : List (Record FileEffect)) :
    reach n rs ≤ reach m rs := by
  induction rs generalizing n m with
  | nil => exact le
  | cons r rest ih => exact ih (stretch_mono le r)

theorem le_reach (n : Nat) (rs : List (Record FileEffect)) : n ≤ reach n rs := by
  induction rs generalizing n with
  | nil => exact Nat.le_refl n
  | cons r rest ih => exact Nat.le_trans (le_stretch n r) (ih _)

/-- Each of the writes fits behind the file. -/
theorem stretch_le_reach (n : Nat) {r : Record FileEffect} {rs : List (Record FileEffect)}
    (member : r ∈ rs) : stretch n r ≤ reach n rs := by
  induction rs generalizing n with
  | nil => cases member
  | cons first rest ih =>
      rcases List.mem_cons.1 member with rfl | later
      · exact le_reach _ rest
      · exact Nat.le_trans (stretch_mono (le_stretch n first) r) (ih _ later)

/-- The disk has room for writes that go to the end of their file, however long it becomes until then. -/
def Room (handles : Table Nat OpenFile) (rs : List (Record FileEffect)) (fs : Filesystem) : Prop :=
  ∀ n f d inode, handles.get? n = some f → fs.descriptors.get? f.descriptor = some d →
    d.appends = true → d.inode = some inode →
      reach (fs.content inode).length rs ≤ Filesystem.maxLength

/-- Where no descriptor appends there is room. -/
theorem room_of_plain (plain : ∀ e ∈ fs.descriptors.entries, e.2.appends = false) :
    Room handles rs fs := by
  intro n f d inode _ known appends
  rw [plain _ (Table.mem_of_get? known)] at appends
  cases appends

/-- A record can be performed: a write is accepted, and what is to be removed is no directory. -/
def Performs (handles : Table Nat OpenFile) (fs : Filesystem) (r : Record FileEffect) : Prop :=
  match r.payload with
  | .create | .adopt _ => True
  | .write h offset bytes =>
      ∃ f, handles.get? h.number = some f ∧ fs.Accepts f.descriptor offset bytes
  | .remove => ∀ at_, r.resource = .path (Path.ofNames at_) → fs.entry? at_ ≠ some .directory

/-- The resources to be removed. -/
def removals (rs : List (Record FileEffect)) : List ResourceKey :=
  rs.filterMap fun r => if r.payload = .remove then some r.resource.key else none

/-- A record that removes something names what stands there. -/
def Standing (fs : Filesystem) (r : Record FileEffect) : Prop :=
  r.payload = .remove →
    ∃ at_ e, r.resource = .path (Path.ofNames at_) ∧ fs.entry? at_ = some e

/-- What is yet to be performed finds a sound tree, what it removes, and room on the disk. -/
structure Due (handles : Table Nat OpenFile) (rs : List (Record FileEffect)) (fs : Filesystem) :
    Prop where
  sound : fs.Sound
  roomy : fs.Roomy
  standing : ∀ r ∈ rs, Standing fs r
  once : (removals rs).Nodup
  room : Room handles rs fs

/-- **A record is performed exactly where it can be.** -/
theorem applyRecord_ok_iff (handles : Table Nat OpenFile) (sound : w.files.Sound) (roomy : w.files.Roomy)
    (standing : Standing w.files r) :
    (applyRecord handles r w).1 = .ok () ↔ Performs handles w.files r := by
  unfold applyRecord Performs
  cases work : r.payload with
  | create => exact iff_of_true rfl trivial
  | adopt h => exact iff_of_true rfl trivial
  | write h offset bytes =>
      cases found : handles.get? h.number with
      | none => simp [found]
      | some f =>
          simp only [found, Option.some.injEq, exists_eq_left', ← Filesystem.writeAt_ok_iff]
          rcases w.files.writeAt f.descriptor offset bytes with ⟨_ | _, files⟩ <;> simp
  | remove =>
      obtain ⟨at_, e, named, stands⟩ := standing work
      have spot := sound.placed at_ e stands
      have unlinked := Filesystem.unlink_spot sound roomy spot
      -- No other location has this path.
      have only : (∀ at_', r.resource = .path (Path.ofNames at_') →
          w.files.entry? at_' ≠ some .directory) ↔ e ≠ .directory := by
        refine ⟨fun all same => all at_ named (same ▸ stands), fun file at_' named' directory => ?_⟩
        have here : at_ = at_' := Filesystem.Spot.eq_of_key sound spot
          (sound.placed at_' _ directory) (by rw [← named, ← named'])
        rw [← here, stands] at directory
        exact file (Option.some.inj directory)
      refine Iff.trans ?_ only.symm
      simp only [named, unlinkResource, unlinked, stands]
      cases e <;> simp

/-- Whether a write is accepted depends on descriptors, and on the room for writes to the end. -/
theorem accepts_congr (still : ∀ n, (fs'.descriptors.get? n).map Descriptor.still =
      (fs.descriptors.get? n).map Descriptor.still)
    (room : Room handles rs fs') (member : r ∈ rs) {h : FileHandle} {f : OpenFile} {offset : Nat}
    {bytes : Bytes} (work : r.payload = .write h offset bytes)
    (found : handles.get? h.number = some f) (accepted : fs.Accepts f.descriptor offset bytes) :
    fs'.Accepts f.descriptor offset bytes := by
  obtain ⟨within, possible⟩ := accepted
  refine ⟨Filesystem.positionLimit_of_still (still f.descriptor) ▸ within, possible.imp_right ?_⟩
  rintro ⟨d, inode, known, writable, file, fits⟩
  have same := still f.descriptor
  rw [known] at same
  obtain ⟨d', known', alike⟩ := Option.map_eq_some_iff.1 same
  simp only [Descriptor.still, Descriptor.mk.injEq, true_and] at alike
  obtain ⟨file', -, writable', appends'⟩ := alike
  refine ⟨d', inode, known', writable'.trans writable, file'.trans file, ?_⟩
  unfold Filesystem.landing at fits ⊢
  rw [appends']
  cases appends : d.appends with
  | false => simpa [appends] using fits
  | true =>
      have bound := room h.number f d' inode found known' (appends'.trans appends)
        (file'.trans file)
      have far := stretch_le_reach (fs'.content inode).length member
      simp only [stretch, work] at far
      simp only [if_true]
      omega

/-- Whether a record can be performed depends on directories and descriptors, and on the room for
writes to the end. -/
theorem performs_congr (still : ∀ n, (fs'.descriptors.get? n).map Descriptor.still =
      (fs.descriptors.get? n).map Descriptor.still)
    (directories : ∀ at_, fs'.entry? at_ = some .directory ↔ fs.entry? at_ = some .directory)
    (room : Room handles rs fs) (room' : Room handles rs fs') (member : r ∈ rs) :
    Performs handles fs' r ↔ Performs handles fs r := by
  unfold Performs
  cases work : r.payload with
  | create => exact Iff.rfl
  | adopt h => exact Iff.rfl
  | remove => simp only [ne_eq, directories]
  | write h offset bytes =>
      refine exists_congr fun f => and_congr_right fun found => ?_
      exact ⟨accepts_congr (fun n => (still n).symm) room member work found,
        accepts_congr still room' member work found⟩

/-- A longer file leaves less room, but no less than for what was written to it. -/
theorem Room.next (room : Room handles (r :: rs) fs)
    (still : ∀ n, (fs'.descriptors.get? n).map Descriptor.still =
      (fs.descriptors.get? n).map Descriptor.still)
    (grown : ∀ inode, (fs'.content inode).length ≤ stretch (fs.content inode).length r) :
    Room handles rs fs' := by
  intro n f d' inode found known' appends' file'
  have same := still f.descriptor
  rw [known'] at same
  obtain ⟨d, known, alike⟩ := Option.map_eq_some_iff.1 same.symm
  simp only [Descriptor.still, Descriptor.mk.injEq, true_and] at alike
  obtain ⟨file, -, -, appends⟩ := alike
  exact Nat.le_trans (reach_mono (grown inode) rs)
    (room n f d inode found known (appends.trans appends') (file.trans file'))

/-- In `fs'` the records `rs` are due, and performable where they were in `fs`. -/
structure Due.Left (handles : Table Nat OpenFile) (rs : List (Record FileEffect))
    (fs fs' : Filesystem) : Prop where
  due : Due handles rs fs'
  alike : ∀ r ∈ rs, Performs handles fs' r ↔ Performs handles fs r
  still : ∀ n, (fs'.descriptors.get? n).map Descriptor.still =
    (fs.descriptors.get? n).map Descriptor.still

/-- The room there is for all of them is there for the rest. -/
theorem Room.rest (room : Room handles (r :: rs) fs) : Room handles rs fs :=
  room.next (fun _ => rfl) fun _ => le_stretch _ r

theorem Due.once_rest (due : Due handles (r :: rs) fs) : (removals rs).Nodup := by
  have all := due.once
  simp only [removals, List.filterMap_cons] at all
  split at all
  · exact all
  · exact (List.nodup_cons.1 all).2

/-- Where no name changes it is enough that the room suffices. -/
theorem Due.onward (due : Due handles (r :: rs) fs) (written : Filesystem.Written fs fs')
    (grown : ∀ inode, (fs'.content inode).length ≤ stretch (fs.content inode).length r) :
    Due.Left handles rs fs fs' := by
  have room := due.room.next written.still grown
  have entries := written.tree.entry?
  refine ⟨⟨⟨?_, ?_⟩, ?_, ?_, due.once_rest, room⟩, fun r' member => ?_, written.still⟩
  · rw [written.tree.home, entries]
    exact due.sound.home
  · intro at_ e stands
    rw [entries] at stands
    simpa only [Filesystem.Spot, entries] using due.sound.placed at_ e stands
  · intro directory name stands
    rw [entries] at stands
    exact due.roomy directory name stands
  · intro r' member remove
    obtain ⟨at_, e, named, stands⟩ := due.standing r' (List.mem_cons_of_mem _ member) remove
    exact ⟨at_, e, named, (entries at_).trans stands⟩
  · exact performs_congr written.still (fun at_ => by rw [entries]) due.room.rest room member

/-- Where a name goes that is no directory's the others stay, since nothing is removed twice. -/
theorem Due.unlinked (due : Due handles (r :: rs) fs) (work : r.payload = .remove)
    {at_ : List String} (named : r.resource = .path (Path.ofNames at_))
    (file : fs.entry? at_ ≠ some .directory) :
    Due.Left handles rs fs (fs.eraseEntry at_) := by
  have below : at_ ≠ [] := by
    rintro rfl
    exact file (Filesystem.entry?_root _)
  have keeps : Filesystem.Keeps (· = at_) fs (fs.eraseEntry at_) :=
    Filesystem.keeps_eraseEntry below file rfl
  have room : Room handles rs (fs.eraseEntry at_) :=
    due.room.next (fun _ => rfl) fun inode => le_stretch _ r
  refine ⟨⟨keeps.sound due.sound, keeps.roomy due.roomy, ?_, due.once_rest, room⟩,
    fun r' member => ?_, fun _ => rfl⟩
  · intro r' member remove
    obtain ⟨there, e', named', stands'⟩ := due.standing r' (List.mem_cons_of_mem _ member) remove
    refine ⟨there, e', named', (keeps.stands there e' stands').resolve_right ?_⟩
    rintro rfl
    have all := due.once
    simp only [removals, List.filterMap_cons, work, if_true] at all
    refine (List.nodup_cons.1 all).1 (List.mem_filterMap.2 ⟨r', member, ?_⟩)
    rw [if_pos remove, named, named']
  · exact performs_congr (fun _ => rfl) keeps.directories due.room.rest room member

/-- **A record that is performed leaves the others due**, and performable where they were. -/
theorem Due.next (due : Due handles (r :: rs) w.files)
    (performed : applyRecord handles r w = (.ok (), w')) :
    Due.Left handles rs w.files w'.files := by
  unfold applyRecord at performed
  cases work : r.payload with
  | create =>
      simp only [work, Prod.mk.injEq, true_and] at performed
      subst performed
      exact due.onward (.refl _) fun inode => le_stretch _ r
  | adopt h =>
      simp only [work, Prod.mk.injEq, true_and] at performed
      subst performed
      exact due.onward (.refl _) fun inode => le_stretch _ r
  | write h offset bytes =>
      cases found : handles.get? h.number with
      | none => simp [work, found] at performed
      | some f =>
          obtain ⟨written, grown⟩ := w.files.writeAt_written f.descriptor offset bytes
          simp only [work, found] at performed
          rcases done : w.files.writeAt f.descriptor offset bytes with ⟨_ | _, files⟩ <;>
            rw [done] at performed written grown <;> cases performed
          refine due.onward written fun inode => ?_
          rw [stretch, work]
          exact grown inode
  | remove =>
      obtain ⟨at_, e, named, stands⟩ := due.standing r List.mem_cons_self work
      have unlinked := Filesystem.unlink_spot due.sound due.roomy (due.sound.placed at_ e stands)
      simp only [work, named, unlinkResource, unlinked, stands] at performed
      have file : w.files.entry? at_ ≠ some .directory := by
        rw [stands]
        rintro same
        cases same
        cases performed
      cases e with
      | directory => exact absurd stands file
      | file inode =>
          cases performed
          exact due.unlinked work named file
      | link target =>
          cases performed
          exact due.unlinked work named file

/-- **The log is performed exactly where each of its records can be.** -/
theorem Due.applyEach (due : Due handles rs w.files) :
    ((DeferredLog.applyEach (applyRecord handles) rs w).1 = .ok () ↔
        ∀ r ∈ rs, Performs handles w.files r) ∧
      ((DeferredLog.applyEach (applyRecord handles) rs w).1 = .ok () → ∀ fd,
        (DeferredLog.applyEach (applyRecord handles) rs w).2.files.positionLimit fd =
          w.files.positionLimit fd) := by
  induction rs generalizing w with
  | nil => exact ⟨iff_of_true rfl fun _ member => absurd member List.not_mem_nil, fun _ _ => rfl⟩
  | cons r rest ih =>
      have here := applyRecord_ok_iff handles due.sound due.roomy
        (due.standing r List.mem_cons_self)
      simp only [DeferredLog.applyEach, List.forall_mem_cons, ← here]
      rcases done : applyRecord handles r w with ⟨_ | _, w'⟩
      · simp
      · have left := due.next done
        obtain ⟨performed, limits⟩ := ih left.due
        simp only [true_and]
        refine ⟨performed.trans (forall₂_congr left.alike), fun ended fd => ?_⟩
        exact (limits ended fd).trans (Filesystem.positionLimit_of_still (left.still fd))

/-! ## Adopted descriptors -/

/-- Descriptors are put where their handles are exactly where the system knows such positions. -/
theorem settle_ok_iff (files : List OpenFile) (w : World) :
    (settle files w).1 = .ok () ↔
      ∀ f ∈ files, f.adopted = true → f.offset ≤ w.files.positionLimit f.descriptor := by
  induction files generalizing w with
  | nil => exact iff_of_true rfl fun _ member => absurd member List.not_mem_nil
  | cons f rest ih =>
      rw [List.forall_mem_cons, settle]
      cases adopted : f.adopted with
      | false => simp [ih]
      | true =>
          by_cases far : w.files.positionLimit f.descriptor < f.offset
          · simp [Filesystem.seek, far]
          · have moved := Filesystem.Written.setPosition w.files f.descriptor f.offset
            have limits (fd : Nat) : (w.files.setPosition f.descriptor f.offset).positionLimit fd =
                w.files.positionLimit fd := Filesystem.positionLimit_of_still (moved.still fd)
            simp [Filesystem.seek, far, ih, limits, Nat.not_lt.1 far]

/-! ## Apply -/

/-- What is written down can be performed: every record can, and the system knows all the positions
that adopted descriptors are left at. -/
structure Performable (s : Files) (fs : Filesystem) : Prop where
  records : ∀ r ∈ s.log.records, Performs s.handles fs r
  positions : ∀ f ∈ s.handles.values, f.adopted = true → f.offset ≤ fs.positionLimit f.descriptor

/-- **Files are applied exactly where what is written down can be performed.** -/
theorem apply_ok_iff {s : Files} (due : Due s.handles s.log.records w.files) :
    (s.apply w).1 = .ok () ↔ s.Performable w.files := by
  obtain ⟨performed, limits⟩ := due.applyEach
  have settled (w' : World) := settle_ok_iff s.handles.values w'
  have split : s.Performable w.files ↔ (∀ r ∈ s.log.records, Performs s.handles w.files r) ∧
      ∀ f ∈ s.handles.values, f.adopted = true →
        f.offset ≤ w.files.positionLimit f.descriptor :=
    ⟨fun all => ⟨all.records, all.positions⟩, fun both => ⟨both.1, both.2⟩⟩
  rw [split, ← performed]
  simp only [apply, DeferredLog.applyAll]
  rcases done : DeferredLog.applyEach (applyRecord s.handles) s.log.records w with ⟨_ | _, w'⟩ <;>
    rw [done] at limits
  · simp
  · simp only [true_and, settled, limits rfl]

end Files

end Transact
