/-
# Transact.Proofs.OwnWrites -- what a transaction reads of its own writes

A read lays the writes that are put off over what the file holds.  Seen through its window this is the
file that those writes leave which begin before the end of the window (`Bytes.foldl_overlay_slice`).
A write that begins past the window is left out, and with it the hole that it makes: where the file
ends within the window without it, the read ends there, too, and not at the end of the hole
(`Bytes.slice_before_eq_iff`).

`Files.Fronting` is what the files of a transaction are that opens files and works through handles while
nobody else writes: under one resource go exactly the handles on one file, where every file has one name
(`Filesystem.OneName`).  What is put off is what the writes were accepted with (`Filing.deposits`).
`run_reads_own_writes` says of every read, after any opens, reads, writes, seeks and closes, what it
answers, and when that is what the file would hold.
-/
import Transact.Proofs.Deposits
import Transact.Proofs.FilesInPlace

namespace Transact

set_option autoImplicit false

/-! ## Windows -/

namespace Bytes

open Content (perform)

theorem length_slice (content : Bytes) (offset len : Nat) :
    (slice content offset len).length = min len (content.length - offset) := by
  rw [slice, List.length_take, List.length_drop]

/-- Byte strings of one length are equal if their bytes are. -/
theorem ext_getD {a b : Bytes} (length : a.length = b.length)
    (same : ∀ i, i < a.length → a.getD i 0 = b.getD i 0) : a = b := by
  refine List.ext_getElem length fun i here there => ?_
  simpa only [List.getD_eq_getElem?_getD, List.getElem?_eq_getElem here,
    List.getElem?_eq_getElem there, Option.getD_some] using same i here

theorem length_perform (old : Bytes) (write : Nat × Bytes) :
    (perform old write).length =
      if write.2 = [] then old.length else max old.length (write.1 + write.2.length) := by
  rw [perform]
  split
  · next nothing => rw [nothing, splice_nil]
  · next something => rw [length_splice old write.1 something]

theorem length_le_perform (old : Bytes) (write : Nat × Bytes) :
    old.length ≤ (perform old write).length := by
  rw [length_perform]
  split
  · exact Nat.le_refl _
  · exact Nat.le_max_left ..

theorem length_le_foldl_perform (writes : List (Nat × Bytes)) (old : Bytes) :
    old.length ≤ (writes.foldl perform old).length := by
  induction writes generalizing old with
  | nil => exact Nat.le_refl _
  | cons write rest ih => exact Nat.le_trans (length_le_perform old write) (ih _)

/-- A file reaches as far as each write that was made. -/
theorem reach_le_foldl_perform {writes : List (Nat × Bytes)} {write : Nat × Bytes}
    (member : write ∈ writes) (something : write.2 ≠ []) (old : Bytes) :
    write.1 + write.2.length ≤ (writes.foldl perform old).length := by
  induction writes generalizing old with
  | nil => cases member
  | cons first rest ih =>
      rw [List.foldl_cons]
      rcases List.mem_cons.1 member with rfl | later
      · have reached := length_le_foldl_perform rest (perform old write)
        rw [length_perform, if_neg something] at reached
        omega
      · exact ih later _

/-- The writes that begin before `n`. -/
def before (n : Nat) (writes : List (Nat × Bytes)) : List (Nat × Bytes) :=
  writes.filter fun write => write.1 < n

theorem before_cons_near {n : Nat} {write : Nat × Bytes} (near : write.1 < n)
    (rest : List (Nat × Bytes)) : before n (write :: rest) = write :: before n rest :=
  List.filter_cons_of_pos (decide_eq_true near)

theorem before_cons_far {n : Nat} {write : Nat × Bytes} (far : ¬ write.1 < n)
    (rest : List (Nat × Bytes)) : before n (write :: rest) = before n rest :=
  List.filter_cons_of_neg (by rw [decide_eq_true_iff]; exact far)

/-- A write past the window does not show. -/
theorem overlay_far {offset len : Nat} (window : Bytes) {write : Nat × Bytes}
    (far : offset + len ≤ write.1) : overlay offset len window write = window := by
  simp only [overlay]
  rw [if_pos (by omega)]

/-- A write laid over a slice gives the slice of the file after the write. -/
theorem overlay_slice {offset len : Nat} (old : Bytes) {write : Nat × Bytes}
    (near : write.1 < offset + len) :
    overlay offset len (old.slice offset len) write = (perform old write).slice offset len := by
  have piece : (write.2.slice (max write.1 offset - write.1)
      (min (write.1 + write.2.length) (offset + len) - max write.1 offset)).length =
        min (write.1 + write.2.length) (offset + len) - max write.1 offset := by
    rw [length_slice]
    omega
  have length : (overlay offset len (old.slice offset len) write).length =
      ((perform old write).slice offset len).length := by
    rw [length_slice, length_perform]
    simp only [overlay]
    by_cases nothing : write.2 = []
    · rw [if_pos nothing, if_pos (by rw [nothing, List.length_nil]; omega), length_slice]
    · have filled := List.length_pos_of_ne_nil nothing
      rw [if_neg nothing]
      split
      · rw [length_slice]
        omega
      · rw [length_splice _ _ (List.ne_nil_of_length_pos (by omega)), piece, length_slice]
        omega
  refine ext_getD length fun i within => ?_
  have inside : i < len := by
    rw [length, length_slice] at within
    omega
  rw [getD_overlay _ write inside, getD_slice, getD_slice, if_pos inside, if_pos inside, perform,
    getD_splice]

/-- **Writes laid over a slice** give the slice of the file after those that begin before the end of
the window. -/
theorem foldl_overlay_slice (offset len : Nat) (writes : List (Nat × Bytes)) (old : Bytes) :
    writes.foldl (overlay offset len) (old.slice offset len) =
      ((before (offset + len) writes).foldl perform old).slice offset len := by
  induction writes generalizing old with
  | nil => rfl
  | cons write rest ih =>
      rw [List.foldl_cons]
      by_cases near : write.1 < offset + len
      · rw [before_cons_near near, List.foldl_cons, overlay_slice old near, ih]
      · rw [before_cons_far near, overlay_far _ (Nat.not_lt.1 near), ih]

/-- Of the writes to `a` some past `n` may be missing that were made to `b`. -/
theorem foldl_before_agrees (n : Nat) (writes : List (Nat × Bytes)) {a b : Bytes}
    (length : a.length ≤ b.length) (same : ∀ i, i < n → a.getD i 0 = b.getD i 0) :
    ((before n writes).foldl perform a).length ≤ (writes.foldl perform b).length ∧
      ∀ i, i < n → ((before n writes).foldl perform a).getD i 0 =
        (writes.foldl perform b).getD i 0 := by
  induction writes generalizing a b with
  | nil => exact ⟨length, same⟩
  | cons write rest ih =>
      by_cases near : write.1 < n
      · rw [before_cons_near near]
        refine ih ?_ fun i before => ?_
        · rw [length_perform, length_perform]
          split <;> omega
        · rw [perform, perform, getD_splice, getD_splice, same i before]
      · rw [before_cons_far near]
        refine ih (Nat.le_trans length (length_le_perform b write)) fun i before => ?_
        rw [perform, getD_splice, if_neg (by omega), same i before]

/-- Writes of no bytes do not count. -/
theorem foldl_before_of_empty {n : Nat} {writes : List (Nat × Bytes)}
    (empty : ∀ write ∈ writes, n ≤ write.1 → write.2 = []) (old : Bytes) :
    (before n writes).foldl perform old = writes.foldl perform old := by
  induction writes generalizing old with
  | nil => rfl
  | cons write rest ih =>
      obtain ⟨here, later⟩ := List.forall_mem_cons.1 empty
      by_cases near : write.1 < n
      · rw [before_cons_near near]
        exact ih later _
      · rw [before_cons_far near, List.foldl_cons, perform,
          here (Nat.not_lt.1 near), splice_nil]
        exact ih later _

/-- **When the writes past a window can be left out**: where there are none, or where the file reaches
to the end of the window without them. -/
theorem slice_before_eq_iff (offset len : Nat) (writes : List (Nat × Bytes)) (old : Bytes) :
    ((before (offset + len) writes).foldl perform old).slice offset len =
        (writes.foldl perform old).slice offset len ↔
      len = 0 ∨ offset + len ≤ ((before (offset + len) writes).foldl perform old).length ∨
        ∀ write ∈ writes, offset + len ≤ write.1 → write.2 = [] := by
  obtain ⟨shorter, same⟩ :=
    foldl_before_agrees (offset + len) writes (Nat.le_refl old.length) fun _ _ => rfl
  constructor
  · intro equal
    refine Classical.byContradiction fun hidden => ?_
    simp only [not_or, not_forall] at hidden
    obtain ⟨asked, short, write, member, far, something⟩ := hidden
    -- The far write makes the file reach past the window.
    have reached := reach_le_foldl_perform member something old
    have filled := List.length_pos_of_ne_nil something
    have lengths := congrArg List.length equal
    rw [length_slice, length_slice] at lengths
    omega
  · rintro (rfl | full | empty)
    · simp only [slice, List.take_zero]
    · refine ext_getD ?_ fun i within => ?_
      · rw [length_slice, length_slice]
        omega
      · rw [length_slice] at within
        rw [getD_slice, getD_slice, if_pos (by omega), if_pos (by omega), same _ (by omega)]
    · rw [foldl_before_of_empty empty]

end Bytes

/-! ## Files and their names -/

namespace Filesystem

/-- Every file has one name and a number that was handed out. -/
structure Orderly (fs : Filesystem) : Prop where
  sound : fs.Sound
  roomy : fs.Roomy
  oneName : fs.OneName
  numbered : ∀ at_ inode, fs.entry? at_ = some (.file inode) → inode < fs.nextInode

/-- No number of a file stands at two names, or is still to be handed out. -/
structure Distinct (fs : Filesystem) : Prop where
  oneName : fs.OneName
  numbered : ∀ at_ inode, fs.entry? at_ = some (.file inode) → inode < fs.nextInode

theorem Orderly.distinct {fs : Filesystem} (orderly : fs.Orderly) : fs.Distinct :=
  ⟨orderly.oneName, orderly.numbered⟩

theorem Distinct.of_sameTree {fs fs' : Filesystem} (distinct : fs.Distinct) (tree : SameTree fs fs')
    (count : fs.nextInode ≤ fs'.nextInode) : fs'.Distinct where
  oneName at_ other inode here there := by
    rw [tree.entry?] at here there
    exact distinct.oneName at_ other inode here there
  numbered at_ inode here := by
    rw [tree.entry?] at here
    exact Nat.lt_of_lt_of_le (distinct.numbered at_ inode here) count

theorem Distinct.addFile {fs : Filesystem} (distinct : fs.Distinct) {new : Location}
    (below : new ≠ []) : (fs.addFile new).2.Distinct where
  oneName at_ other inode here there := by
    rw [entry?_addFile fs below] at here there
    -- The number of the new file is that of no other.
    split at here <;> split at there
    · next first second => rw [first, second]
    · cases here
      exact absurd (distinct.numbered other _ there) (Nat.lt_irrefl _)
    · cases there
      exact absurd (distinct.numbered at_ _ here) (Nat.lt_irrefl _)
    · exact distinct.oneName at_ other inode here there
  numbered at_ inode here := by
    rw [entry?_addFile fs below] at here
    split at here
    · cases here
      exact Nat.lt_succ_self _
    · exact Nat.lt_succ_of_lt (distinct.numbered at_ inode here)

end Filesystem

namespace Files

/-- A job gives no file a second name. -/
theorem Filed.orderly {w w' : World} {s s' : Files} (filed : Filed w s w' s')
    (orderly : w.files.Orderly) : w'.files.Orderly := by
  have keeps : Filesystem.Keeps (fun _ => False) w.files w'.files := filed.keeps
  suffices distinct : w'.files.Distinct from
    ⟨keeps.sound orderly.sound, keeps.roomy orderly.roomy, distinct.oneName, distinct.numbered⟩
  cases filed with
  | found at_ e d =>
      exact orderly.distinct.of_sameTree (Filesystem.onward_addDescriptor w.files d).tree (Nat.le_refl _)
  | adopted fd id => exact orderly.distinct
  | quiet moved touched =>
      rcases moved with rfl | ⟨n, f, found, shifted⟩
      · exact orderly.distinct
      · exact orderly.distinct.of_sameTree shifted.tree (Nat.le_of_eq shifted.inodes.symm)
  | created new d flags spot free =>
      have below : new ≠ [] := by
        rintro rfl
        simp at free
      exact (orderly.distinct.addFile below).of_sameTree
        (Filesystem.onward_addDescriptor _ d).tree (Nat.le_refl _)

/-! ## Handles and files -/

/-- `f` goes by the resource of what stands somewhere, and if that is a file `f` is on it. -/
def Faces (fs : Filesystem) (f : OpenFile) : Prop :=
  ∃ at_ e, f.id = .path (Path.ofNames at_) ∧ fs.entry? at_ = some e ∧
    ∀ inode, fs.inode? f.descriptor = some inode ↔ e = .file inode

/-- **Handles go by one resource exactly if they are on one file.** -/
theorem Faces.same_iff {fs : Filesystem} (orderly : fs.Orderly) {f g : OpenFile} {inode : Inode}
    (faces : Faces fs f) (behind : fs.inode? f.descriptor = some inode) (faces' : Faces fs g) :
    g.id.same f.id = true ↔ fs.inode? g.descriptor = some inode := by
  obtain ⟨at_, e, named, stands, file⟩ := faces
  obtain ⟨there, e', named', stands', file'⟩ := faces'
  rw [(file inode).1 behind] at stands
  rw [named, named', ResourceId.same, beq_iff_eq]
  constructor
  · intro same
    have one : there = at_ := Filesystem.Spot.eq_of_key orderly.sound
      (orderly.sound.placed there e' stands') (orderly.sound.placed at_ _ stands) same
    rw [one, stands] at stands'
    exact (file' inode).2 (Option.some.inj stands').symm
  · intro there
    rw [(file' inode).1 there] at stands'
    rw [orderly.oneName _ _ inode stands' stands]

/-- `f` goes by the resource of what stands somewhere, and its descriptor is on that if it is a file. -/
structure Fronts (fs : Filesystem) (f : OpenFile) : Prop where
  known : f.descriptor < fs.nextDescriptor
  behind : ∃ at_ e d, f.id = .path (Path.ofNames at_) ∧ fs.entry? at_ = some e ∧
    fs.descriptors.get? f.descriptor = some d ∧ d.readable = f.flags.read ∧
    ∀ inode, d.inode = some inode ↔ e = .file inode

/-- The files of a transaction that opened files and worked through handles, while nobody else wrote. -/
structure Fronting (fs : Filesystem) (s : Files) : Prop where
  removed : s.removed = []
  numbered : ∀ n f, s.handles.get? n = some f → n < s.nextHandle
  handles : ∀ n f, s.handles.get? n = some f → Fronts fs f
  writes : ∀ r ∈ s.log.records, ∀ h offset bytes, r.payload = .write h offset bytes →
    ∃ f, s.handles.get? h.number = some f ∧ f.id = r.resource

/-- The writes put off to one file, through whatever handle: offset and bytes, oldest first. -/
def writesTo (s : Files) (fs : Filesystem) (inode : Inode) : List (Nat × Bytes) :=
  s.log.records.filterMap fun r =>
    match r.payload with
    | .write h offset bytes =>
        if ((s.handles.get? h.number).bind fun f => fs.inode? f.descriptor) = some inode then
          some (offset, bytes)
        else none
    | _ => none

/-- The writes put off to a file are what is written down to be deposited there. -/
theorem writesTo_eq (s : Files) (fs : Filesystem) (inode : Inode) :
    s.writesTo fs inode = Deposit.writes (s.pending fs) inode := by
  rw [pending, Deposit.writes_filterMap]
  refine List.filterMap_congr fun r _ => ?_
  unfold depositOf
  cases r.payload with
  | write h offset bytes =>
      cases known : s.handles.get? h.number with
      | none => simp only [known, Option.bind_none, reduceCtorEq, if_false]
      | some f => simp only [known, Option.bind_some, Filesystem.deposit?_writes]
  | create => rfl
  | adopt h => rfl
  | remove => rfl

section Fronting

variable {fs fs' : Filesystem} {s : Files} {f : OpenFile} {inode : Inode}

theorem Fronting.fresh (fs : Filesystem) : Fronting fs {} where
  removed := rfl
  numbered _ _ found := by cases found
  handles _ _ found := by cases found
  writes _ member := absurd member List.not_mem_nil

/-- A handle stays in front of its file while names are only added and descriptors only moved. -/
theorem Fronts.kept (fronts : Fronts fs f)
    (entries : ∀ at_ e, fs.entry? at_ = some e → fs'.entry? at_ = some e)
    (next : fs.nextDescriptor ≤ fs'.nextDescriptor)
    (still : ∀ n, n < fs.nextDescriptor →
      (fs'.descriptors.get? n).map Descriptor.still = (fs.descriptors.get? n).map Descriptor.still) :
    Fronts fs' f where
  known := Nat.lt_of_lt_of_le fronts.known next
  behind := by
    obtain ⟨at_, e, d, named, stands, found, readable, file⟩ := fronts.behind
    have same := still f.descriptor fronts.known
    rw [found] at same
    obtain ⟨d', found', alike⟩ := Option.map_eq_some_iff.1 same
    have behind : d'.still.inode = d.still.inode := by rw [alike]
    have reads : d'.still.readable = d.still.readable := by rw [alike]
    refine ⟨at_, e, d', named, entries at_ e stands, found', reads.trans readable, fun inode => ?_⟩
    show d'.still.inode = some inode ↔ _
    rw [behind]
    exact file inode

theorem Fronts.onward (fronts : Fronts fs f) (onward : fs.Onward fs') : Fronts fs' f :=
  fronts.kept (fun at_ _ stands => (onward.tree.entry? at_).trans stands) onward.next onward.still

theorem Fronting.onward (fronting : Fronting fs s) (onward : fs.Onward fs') : Fronting fs' s :=
  { fronting with handles := fun n f found => (fronting.handles n f found).onward onward }

theorem Fronting.touch (fronting : Fronting fs s) (access : AccessSet) :
    Fronting fs { s with access } :=
  ⟨fronting.removed, fronting.numbered, fronting.handles, fronting.writes⟩

theorem Fronts.faces (fronts : Fronts fs f) : Faces fs f := by
  obtain ⟨at_, e, d, named, stands, found, -, file⟩ := fronts.behind
  refine ⟨at_, e, named, stands, fun inode => ?_⟩
  simpa only [Filesystem.inode?, found, Option.bind_some] using file inode

/-- The writes under the resource of a handle are those to its file. -/
theorem Fronting.pendingOn (fronting : Fronting fs s) (orderly : fs.Orderly) {n : Nat}
    (found : s.handles.get? n = some f) (behind : fs.inode? f.descriptor = some inode) :
    s.pendingOn f.id = s.writesTo fs inode := by
  refine List.filterMap_congr fun r member => ?_
  cases work : r.payload with
  | write h offset bytes =>
      obtain ⟨g, there, named⟩ := fronting.writes r member h offset bytes work
      have same := (fronting.handles n f found).faces.same_iff orderly behind
        (fronting.handles _ g there).faces
      simp only [there, Option.bind_some, ← named, same]
  | create => rfl
  | adopt h => rfl
  | remove => rfl

/-! ### Jobs one by one -/

/-- Moving an offset or closing a handle leaves it in front of its file. -/
theorem Fronting.modify (fronting : Fronting fs s) (n : Nat) {change : OpenFile → OpenFile}
    (lasting : ∀ f, (change f).id = f.id ∧ (change f).descriptor = f.descriptor ∧
      (change f).flags = f.flags) :
    Fronting fs { s with handles := s.handles.modify n change } := by
  have before {m : Nat} {f' : OpenFile} (found : (s.handles.modify n change).get? m = some f') :
      ∃ f, s.handles.get? m = some f ∧ (f' = f ∨ f' = change f) := by
    rw [Table.get?_modify] at found
    split at found
    · next here =>
      obtain ⟨f, known, rfl⟩ := Option.map_eq_some_iff.1 found
      exact ⟨f, here ▸ known, Or.inr rfl⟩
    · exact ⟨f', found, Or.inl rfl⟩
  have after {m : Nat} {f : OpenFile} (found : s.handles.get? m = some f) :
      ∃ f', (s.handles.modify n change).get? m = some f' ∧ f'.id = f.id := by
    rw [Table.get?_modify]
    split
    · next here => exact ⟨change f, by rw [← here, found]; rfl, (lasting f).1⟩
    · exact ⟨f, found, rfl⟩
  refine ⟨fronting.removed, fun m f' found => ?_, fun m f' found => ?_,
    fun r member h offset bytes work => ?_⟩
  · obtain ⟨f, known, -⟩ := before found
    exact fronting.numbered m f known
  · obtain ⟨f, known, rfl | rfl⟩ := before found
    · exact fronting.handles m f' known
    · obtain ⟨id, descriptor, flags⟩ := lasting f
      have fronts := fronting.handles m f known
      obtain ⟨at_, e, d, named, rest⟩ := fronts.behind
      refine ⟨descriptor ▸ fronts.known, at_, e, d, id.trans named, ?_⟩
      rw [descriptor, flags]
      exact rest
  · obtain ⟨f, known, named⟩ := fronting.writes r member h offset bytes work
    obtain ⟨f', found, same⟩ := after known
    exact ⟨f', found, same.trans named⟩

/-- A new handle does not touch those there are. -/
theorem Fronting.add (fronting : Fronting fs s) (fronts : Fronts fs f) {log : DeferredLog FileEffect}
    {access : AccessSet} (records : ∀ r ∈ log.records, r ∈ s.log.records ∨ r.payload = .create) :
    Fronting fs { s with nextHandle := s.nextHandle + 1, handles := s.handles.set s.nextHandle f,
                         log, access } := by
  have kept {n : Nat} {g : OpenFile} (found : s.handles.get? n = some g) :
      (s.handles.set s.nextHandle f).get? n = some g := by
    have known := fronting.numbered n g found
    rw [Table.get?_set_of_ne _ _ (Nat.ne_of_lt known)]
    exact found
  have split {n : Nat} {g : OpenFile} (found : (s.handles.set s.nextHandle f).get? n = some g) :
      n = s.nextHandle ∧ g = f ∨ s.handles.get? n = some g := by
    by_cases new : n = s.nextHandle
    · rw [new, Table.get?_set_self] at found
      exact Or.inl ⟨new, (Option.some.inj found).symm⟩
    · rw [Table.get?_set_of_ne _ _ new] at found
      exact Or.inr found
  refine ⟨fronting.removed, fun n g found => ?_, fun n g found => ?_,
    fun r member h offset bytes work => ?_⟩
  · show n < s.nextHandle + 1
    rcases split found with ⟨rfl, -⟩ | old
    · exact Nat.lt_succ_self _
    · exact Nat.lt_succ_of_lt (fronting.numbered n g old)
  · rcases split found with ⟨-, rfl⟩ | old
    · exact fronts
    · exact fronting.handles n g old
  · rcases records r member with before | creation
    · obtain ⟨g, found, named⟩ := fronting.writes r before h offset bytes work
      exact ⟨g, kept found, named⟩
    · rw [creation] at work
      cases work

end Fronting

variable {w : World} {s : Files}

theorem Fronting.openPath (fronting : Fronting w.files s) (orderly : w.files.Orderly)
    (path : String) (flags : OpenFlags) :
    Fronting (s.openPath path flags w).2.2.files (s.openPath path flags w).2.1 := by
  rcases s.openPath_cases w path flags with same | ⟨fd, created, files, made, done⟩
  · rw [same]
    exact fronting
  rw [done]
  have opening := Filesystem.openOrCreate_opening orderly.sound orderly.roomy made
  -- The new descriptor is handed out with the next number.
  have handed (fs : Filesystem) (d : Descriptor) :
      (fs.addDescriptor d).2.descriptors.get? fs.nextDescriptor = some d := by
    simp only [Filesystem.addDescriptor, Table.get?_set_self]
  cases opening with
  | found at_ e d named stands file readable number =>
      have onward := Filesystem.onward_addDescriptor w.files d
      have fronts : Fronts (w.files.addDescriptor d).2
          { id := resource w.files path, descriptor := fd, offset := 0, flags } :=
        ⟨number ▸ Nat.lt_succ_self _, at_, e, d, named, (onward.tree.entry? at_).trans stands,
          number ▸ handed w.files d, readable, file⟩
      exact (fronting.onward onward).add fronts fun r member => Or.inl member
  | created at_ d named spot free file readable number =>
      have below : at_ ≠ [] := by
        rintro rfl
        simp at free
      have entries := Filesystem.entry?_addFile w.files below
      have onward := Filesystem.onward_addDescriptor (w.files.addFile at_).2 d
      have stands : Filesystem.entry? ((w.files.addFile at_).2.addDescriptor d).2 at_ =
          some (.file w.files.nextInode) :=
        (onward.tree.entry? at_).trans ((entries at_).trans (if_pos rfl))
      have fronts : Fronts ((w.files.addFile at_).2.addDescriptor d).2
          { id := resource w.files path, descriptor := fd, offset := 0, flags } := by
        refine ⟨number ▸ Nat.lt_succ_self _, at_, _, d, named, stands,
          number ▸ handed (w.files.addFile at_).2 d, readable, fun inode => ?_⟩
        rw [file, Option.some.injEq, Entry.file.injEq]
      have before : Fronting (w.files.addFile at_).2 s :=
        { fronting with
          handles := fun n f found => (fronting.handles n f found).kept
            (fun there e stood => by
              rw [entries, if_neg, stood]
              rintro rfl
              rw [free] at stood
              cases stood)
            (Nat.le_refl _) fun _ _ => rfl }
      refine (before.onward onward).add fronts fun r member => ?_
      rcases List.mem_append.1 member with old | new
      · exact Or.inl old
      · exact Or.inr (by rw [List.mem_singleton.1 new]; rfl)

theorem Fronting.read (fronting : Fronting w.files s) (h : FileHandle) (len : Nat) :
    Fronting (s.read h len w).2.2.files (s.read h len w).2.1 := by
  unfold Files.read
  rcases s.checkReadable h with e | f
  · exact fronting
  · have moved := Filesystem.moved_readAt w.files f.descriptor f.offset len
    simp only
    rcases read : w.files.readAt f.descriptor f.offset len with ⟨e | window, files⟩ <;>
      rw [read] at moved
    · exact (fronting.onward moved.toOnward).touch _
    · exact ((fronting.onward moved.toOnward).touch _).modify h.number fun _ => ⟨rfl, rfl, rfl⟩

theorem Fronting.write (fronting : Fronting w.files s) (h : FileHandle) (bytes : Bytes) :
    Fronting (s.write h bytes w).2.2.files (s.write h bytes w).2.1 := by
  unfold Files.write
  rcases allowed : s.checkWritable h with e | f
  · exact fronting
  · simp only
    generalize (if f.flags.append then s.logicalLength f w.files else f.offset) = offset
    have found := handle_of_open (open_of_writable allowed)
    have recorded : Fronting w.files
        { s with
          access := s.access.write w.versions f.id
          log := s.log.append (.deferred f.id (.write h offset bytes)) } := by
      refine ⟨fronting.removed, fronting.numbered, fronting.handles,
        fun r member h' offset' bytes' work => ?_⟩
      rcases List.mem_append.1 member with before | new
      · exact fronting.writes r before h' offset' bytes' work
      · rw [List.mem_singleton.1 new] at work ⊢
        cases work
        exact ⟨f, found, rfl⟩
    exact recorded.modify h.number fun _ => ⟨rfl, rfl, rfl⟩

theorem Fronting.seek (fronting : Fronting w.files s) (h : FileHandle) (pos : SeekFrom) :
    Fronting (s.seek h pos w).2.2.files (s.seek h pos w).2.1 := by
  unfold Files.seek
  rcases s.openFile h with e | f
  · exact fronting
  · simp only
    rcases s.seekTarget f w.files pos with _ | offset
    · exact fronting
    · exact fronting.modify h.number fun _ => ⟨rfl, rfl, rfl⟩

theorem Fronting.close (fronting : Fronting w.files s) (h : FileHandle) :
    Fronting (s.close h w).2.2.files (s.close h w).2.1 := by
  unfold Files.close
  rcases s.openFile h with e | f
  · exact fronting
  · exact fronting.modify h.number fun _ => ⟨rfl, rfl, rfl⟩

/-! ### Reading -/

/-- What a file holds when the writes are made that begin before `n`. -/
def heldBefore (s : Files) (fs : Filesystem) (inode : Inode) (n : Nat) : Bytes :=
  (Bytes.before n (s.writesTo fs inode)).foldl Content.perform (fs.content inode).toBytes

/-- What a file holds when all writes are made. -/
def heldAfter (s : Files) (fs : Filesystem) (inode : Inode) : Bytes :=
  (s.writesTo fs inode).foldl Content.perform (fs.content inode).toBytes

variable {h : FileHandle} {f : OpenFile} {inode : Inode}

theorem openFile_setOffset (opened : s.openFile h = .ok f) (offset : Nat) :
    (s.setOffset h offset).openFile h = .ok { f with offset } := by
  have found := handle_of_open opened
  have unclosed : f.closed = false := by
    rw [openFile, found] at opened
    cases shut : f.closed with
    | false => rfl
    | true => simp [shut] at opened
  simp only [openFile, setOffset, Table.get?_modify, if_true, found, Option.map_some, unclosed,
    Bool.false_eq_true, if_false]

/-- **A read answers what the file would hold** if the writes were made that begin before the end of
what is read, and moves on past it.  Where the offset lies past the greatest length of a file it is
refused. -/
theorem Fronting.read_answer (fronting : Fronting w.files s) (orderly : w.files.Orderly)
    (opened : s.openFile h = .ok f) (readable : f.flags.read = true)
    (behind : w.files.inode? f.descriptor = some inode) (len : Nat) :
    let bytes := (s.heldBefore w.files inode (f.offset + len)).slice f.offset len
    (Filesystem.maxLength < f.offset →
      (s.read h len w).1 = .error (IoFault.os .invalidArgument).toError ∧
        (s.read h len w).2.1.openFile h = .ok f) ∧
      (f.offset ≤ Filesystem.maxLength →
        (s.read h len w).1 = .ok bytes ∧
          (s.read h len w).2.1.openFile h = .ok { f with offset := f.offset + bytes.length }) := by
  intro bytes
  have found := handle_of_open opened
  have allowed : s.checkReadable h = .ok f := by
    simp [checkReadable, opened, readable, checkNotRemoved, fronting.removed, Except.map]
  obtain ⟨at_, e, d, -, -, known, reads, -⟩ := (fronting.handles _ f found).behind
  have file : d.inode = some inode := by
    simpa only [Filesystem.inode?, known, Option.bind_some] using behind
  have answer := Filesystem.readAt_answer known file f.offset len
  -- What the read lays over the window is what is put off to the file.
  have laid : overlay f.offset len ((w.files.content inode).slice f.offset len)
      (s.pendingOn f.id) = bytes := by
    rw [fronting.pendingOn orderly found behind, Content.slice_eq]
    exact Bytes.foldl_overlay_slice ..
  have window : f.offset ≤ Filesystem.maxLength →
      d.reading (w.files.content inode) f.offset len =
        .ok ((w.files.content inode).slice f.offset len) := by
    intro within
    rw [Descriptor.reading, if_neg (Nat.not_lt.2 within)]
    by_cases nothing : len = 0
    · rw [if_pos nothing, nothing, Content.slice_eq, Bytes.slice, List.take_zero]
    · rw [if_neg nothing, reads, readable]
      rfl
  unfold Files.read
  rw [allowed]
  refine ⟨fun far => ?_, fun within => ?_⟩
  · rw [Descriptor.reading, if_pos far] at answer
    rcases read : w.files.readAt f.descriptor f.offset len with ⟨e | bytes, files⟩ <;>
      rw [read] at answer <;> cases answer
    simp only [read]
    exact ⟨trivial, opened⟩
  · rw [window within] at answer
    rcases read : w.files.readAt f.descriptor f.offset len with ⟨e | bytes, files⟩ <;>
      rw [read] at answer <;> cases answer
    simp only [read]
    refine ⟨congrArg Except.ok laid, ?_⟩
    rw [← laid]
    exact openFile_setOffset (s := { s with access := s.access.observe w.versions f.id }) opened _

end Files

/-- A job leaves the handles in front of their files. -/
theorem FileWork.perform_fronting {w : World} {s : Files} (fronting : Files.Fronting w.files s)
    (orderly : w.files.Orderly) (job : FileWork) :
    Files.Fronting (job.perform s w).2.2.files (job.perform s w).2.1 := by
  cases job with
  | openPath path flags => exact fronting.openPath orderly path flags
  | read h len => exact fronting.read h len
  | write h bytes => exact fronting.write h bytes
  | seek h pos => exact fronting.seek h pos
  | tell h => exact fronting
  | close h => exact fronting.close h

/-! ## Any jobs -/

theorem Assembly.orderly_oneOld : oneOld.files.Orderly where
  sound := sound_oneOld
  roomy := roomy_oneOld
  oneName at_ other inode here there := by
    rcases entry?_oneOld here with ⟨-, directory⟩ | ⟨rfl, -⟩
    · cases directory
    · rcases entry?_oneOld there with ⟨-, directory⟩ | ⟨rfl, -⟩
      · cases directory
      · rfl
  numbered at_ inode here := by
    rcases entry?_oneOld here with ⟨-, directory⟩ | ⟨-, file⟩
    · cases directory
    · cases file
      decide

/-- Do jobs one after another. -/
def FileWork.performAll (jobs : List FileWork) (s : Files) (w : World) : Files × World :=
  jobs.foldl (fun r job => (job.perform r.1 r.2).2) (s, w)

theorem FileWork.performAll_plain (jobs : List FileWork) (s : Files) (w : World) :
    performAll jobs s w = Filing.performAll (jobs.map .plain) s w := by
  rw [performAll, Filing.performAll, List.foldl_map]
  rfl

/-- The writes put off to a file are those that the jobs were accepted with. -/
theorem FileWork.performAll_writesTo (jobs : List FileWork) (w : World) (inode : Inode) :
    (performAll jobs {} w).1.writesTo (performAll jobs {} w).2.files inode =
      Deposit.writes (Filing.deposits (jobs.map .plain) {} w) inode := by
  have adopts (fd : Nat) (path : String) (member : Filing.adopt fd path ∈ jobs.map .plain) :
      w.files.Open fd := by
    obtain ⟨job, -, same⟩ := List.mem_map.1 member
    cases same
  obtain ⟨-, -, pending⟩ :=
    Filing.performAll_pending (jobs.map .plain) (Files.Bound.fresh w.files) adopts
  rw [performAll_plain, Files.writesTo_eq, pending]
  rfl

/-- Work of one transaction leaves its handles in front of their files, and writes to no file. -/
theorem FileWork.performAll_fronting (jobs : List FileWork) {s : Files} {w : World}
    (fronting : Files.Fronting w.files s) (orderly : w.files.Orderly) :
    Files.Fronting (performAll jobs s w).2.files (performAll jobs s w).1 ∧
      (performAll jobs s w).2.files.Orderly ∧
      w.files.nextInode ≤ (performAll jobs s w).2.files.nextInode ∧
      ∀ inode, inode < w.files.nextInode →
        (performAll jobs s w).2.files.content inode = w.files.content inode := by
  induction jobs generalizing s w with
  | nil => exact ⟨fronting, orderly, Nat.le_refl _, fun _ _ => rfl⟩
  | cons job rest ih =>
      have filed : Files.Filed w s (job.perform s w).2.2 (job.perform s w).2.1 :=
        (Filing.plain job).perform_filed orderly.sound orderly.roomy
      obtain ⟨count, contents⟩ := filed.contents
      obtain ⟨fronting', orderly', count', contents'⟩ :=
        ih (job.perform_fronting fronting orderly) (filed.orderly orderly)
      refine ⟨fronting', orderly', Nat.le_trans count count', fun inode known => ?_⟩
      exact (contents' inode (Nat.lt_of_lt_of_le known count)).trans (contents inode known)

/-- **What a transaction reads of its own writes.**  A transaction opens files, reads, writes, seeks and
closes, through any number of handles, and nobody else writes.  What is put off to a file is what its
writes were accepted with, in their order.  A read of `len` bytes answers the bytes from the offset on that
the file would hold if those writes were made that begin before the end of what is read, and moves the
offset past them; past the greatest length of a file it is refused.  Its answer is what the file would hold
after all writes exactly if nothing was asked for, if the file reaches that far without the writes beyond,
or if there are none.

Every file has one name: a file under two names is written under two resources, and a read under one of
them does not show what was written under the other. -/
theorem FileWork.run_reads_own_writes (jobs : List FileWork) {w : World} (orderly : w.files.Orderly)
    {h : FileHandle} {f : OpenFile} {inode : Inode} (len : Nat) :
    let s := (performAll jobs {} w).1
    let now := (performAll jobs {} w).2
    let bytes := (s.heldBefore now.files inode (f.offset + len)).slice f.offset len
    let r := s.read h len now
    s.openFile h = .ok f → f.flags.read = true → now.files.inode? f.descriptor = some inode →
      (inode < w.files.nextInode → now.files.content inode = w.files.content inode) ∧
      s.writesTo now.files inode = Deposit.writes (Filing.deposits (jobs.map .plain) {} w) inode ∧
      (Filesystem.maxLength < f.offset →
        r.1 = .error (IoFault.os .invalidArgument).toError ∧ r.2.1.openFile h = .ok f) ∧
      (f.offset ≤ Filesystem.maxLength →
        r.1 = .ok bytes ∧ r.2.1.openFile h = .ok { f with offset := f.offset + bytes.length }) ∧
      (bytes = (s.heldAfter now.files inode).slice f.offset len ↔
        len = 0 ∨ f.offset + len ≤ (s.heldBefore now.files inode (f.offset + len)).length ∨
          ∀ write ∈ s.writesTo now.files inode, f.offset + len ≤ write.1 → write.2 = []) := by
  intro s now bytes r opened readable behind
  obtain ⟨fronting, orderly', -, contents⟩ :=
    performAll_fronting jobs (Files.Fronting.fresh w.files) orderly
  obtain ⟨far, within⟩ := fronting.read_answer orderly' opened readable behind len
  exact ⟨contents inode, performAll_writesTo jobs w inode, far, within, Bytes.slice_before_eq_iff ..⟩

/-- A transaction writes behind the end of `/old` and goes back to its beginning. -/
def behindTheEnd : List FileWork :=
  [.openPath "/old" { read := true, write := true }, .seek ⟨0⟩ (.start 5), .write ⟨0⟩ [7],
    .seek ⟨0⟩ (.start 0)]

/-- What it reads ends where `/old` ends on disk, unless it reads as far as its write. -/
theorem FileWork.run_reads_own_writes_hole :
    let r := performAll behindTheEnd {} Assembly.oneOld
    (r.1.read ⟨0⟩ 4 r.2).1 = .ok [1, 2] ∧ (r.1.read ⟨0⟩ 6 r.2).1 = .ok [1, 2, 0, 0, 0, 7] ∧
      (r.1.heldAfter r.2.files 0).slice 0 4 = [1, 2, 0, 0] := by
  intro r
  have reads (len : Nat) := @FileWork.run_reads_own_writes behindTheEnd Assembly.oneOld
    Assembly.orderly_oneOld ⟨0⟩
    { id := .path "/old", descriptor := 0, offset := 0, flags := { read := true, write := true } } 0
    len (by rfl) rfl (by decide)
  obtain ⟨-, -, -, short, -⟩ := reads 4
  obtain ⟨-, -, -, long, -⟩ := reads 6
  refine ⟨(short (Nat.zero_le _)).1.trans (congrArg Except.ok (by decide)),
    (long (Nat.zero_le _)).1.trans (congrArg Except.ok (by decide)), by decide⟩

end Transact
