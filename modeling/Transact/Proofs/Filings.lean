/-
# Transact.Proofs.Filings -- what a job on files does

`Filed` says once what work on files can do to the files of a transaction and to the world: open what
is there, create a file where nothing stands, take a descriptor in, or, with no new handle, touch
resources, put records off and move a descriptor it has.  `Filing.perform_filed` says that every job does
one of these or is refused; whatever is kept by these four is kept by all work.
-/
import Transact.Proofs.Descriptors
import Transact.Proofs.Parties
import Transact.Proofs.Places

namespace Transact

set_option autoImplicit false

/-! ## Opening -/

namespace Filesystem

variable {fs fs' fs'' : Filesystem} {at_ : Location}

theorem inode?_addDescriptor (fs : Filesystem) (d : Descriptor) :
    (fs.addDescriptor d).2.inode? fs.nextDescriptor = d.inode := by
  simp only [inode?, addDescriptor, Table.get?_set_self, Option.bind_some]

theorem openExisting_ok {path : String} {access : Access} {fd : Nat}
    (opened : fs.openExisting path access = .ok (fd, fs')) :
    hasNul path = false ∧ ∃ at_ e d, fs.find .follow path = .ok (at_, e) ∧
      (fd, fs') = fs.addDescriptor d ∧ d.readable = access.read ∧
      ∀ inode, d.inode = some inode ↔ e = .file inode := by
  unfold openExisting at opened
  cases nul : hasNul path with
  | true => simp [nul] at opened
  | false =>
      simp only [nul, Bool.false_eq_true, if_false] at opened
      split at opened
      · cases opened
      · rcases found : fs.find .follow path with e | ⟨at_, _ | inode | target⟩ <;>
          simp only [found, reduceCtorEq] at opened
        · split at opened
          · cases opened
          · cases opened
            refine ⟨rfl, at_, _, _, rfl, rfl, rfl, fun inode => ?_⟩
            constructor <;> intro same <;> cases same
        · cases opened
          refine ⟨rfl, at_, _, _, rfl, rfl, rfl, fun other => ?_⟩
          show some inode = some other ↔ _
          rw [Option.some.injEq, Entry.file.injEq]

theorem createNew_ok {path : String} {read : Bool} {fd : Nat}
    (created : fs.createNew path read = .ok (fd, fs')) :
    hasNul path = false ∧ ∃ directory name,
      fs.resolve .name path = .ok (.entry directory name none false) ∧ tooLong name = false ∧
      (fd, fs') = (fs.addFile (directory ++ [name])).2.addDescriptor
        (descriptorOn (some fs.nextInode) { read, write := true }) := by
  unfold createNew at created
  cases nul : hasNul path with
  | true => simp [nul] at created
  | false =>
      simp only [nul, Bool.false_eq_true, if_false] at created
      rcases place : fs.resolve .name path with e | ⟨directory⟩ | ⟨directory, name, found, slash⟩ <;>
        simp only [place, reduceCtorEq] at created
      cases slash with
      | true => cases created
      | false =>
        rw [if_neg Bool.false_ne_true] at created
        split at created
        · cases created
        · next short =>
          split at created
          · cases created
          · next free =>
            cases found with
            | some e => simp at free
            | none =>
                cases created
                exact ⟨rfl, directory, name, rfl, by simpa using short, rfl⟩

/-- **Opening finds what is there, or creates a file** where the path has room for one. -/
theorem openOrCreate_ok {path : String} {flags : OpenFlags} {fd : Nat} {created : Bool}
    (made : Files.openOrCreate fs path flags = .ok (fd, created, fs')) :
    hasNul path = false ∧
      ((created = false ∧ ∃ at_ e d, fs.find .follow path = .ok (at_, e) ∧
          (fd, fs') = fs.addDescriptor d ∧ d.readable = flags.read ∧
          ∀ inode, d.inode = some inode ↔ e = .file inode) ∨
        (created = true ∧ ∃ directory name,
          fs.resolve .name path = .ok (.entry directory name none false) ∧ tooLong name = false ∧
          (fd, fs') = (fs.addFile (directory ++ [name])).2.addDescriptor
            (descriptorOn (some fs.nextInode) { read := flags.read, write := true }))) := by
  have existing (found : (fs.openExisting path { read := flags.read, write := flags.writes }).map
      (fun r => (r.1, false, r.2)) = .ok (fd, created, fs')) :
      hasNul path = false ∧ created = false ∧ ∃ at_ e d, fs.find .follow path = .ok (at_, e) ∧
        (fd, fs') = fs.addDescriptor d ∧ d.readable = flags.read ∧
        ∀ inode, d.inode = some inode ↔ e = .file inode := by
    rcases here : fs.openExisting path { read := flags.read, write := flags.writes } with
      e | ⟨number, files⟩ <;> rw [here] at found <;> cases found
    obtain ⟨nul, opened⟩ := openExisting_ok here
    exact ⟨nul, rfl, opened⟩
  unfold Files.openOrCreate at made
  simp only at made
  split at made
  · rcases new : fs.createNew path flags.read with e | ⟨number, files⟩ <;> simp only [new] at made
    · split at made
      · next taken => cases taken
      · exact (existing made).imp_right Or.inl
      · cases made
    · cases made
      obtain ⟨nul, created⟩ := createNew_ok new
      exact ⟨nul, Or.inr ⟨rfl, created⟩⟩
  · exact (existing made).imp_right Or.inl

/-- **What opening does**: it creates a file where nothing stands, or finds what is there. -/
inductive Opening (fs : Filesystem) (id : ResourceId) (read : Bool) (fd : Nat) :
    Bool → Filesystem → Prop where
  | created (at_ : Location) (d : Descriptor) (named : id = .path (Path.ofNames at_))
      (spot : fs.Spot at_) (free : fs.entry? at_ = none) (file : d.inode = some fs.nextInode)
      (readable : d.readable = read) (number : fd = fs.nextDescriptor) :
      Opening fs id read fd true ((fs.addFile at_).2.addDescriptor d).2
  | found (at_ : Location) (e : Entry) (d : Descriptor) (named : id = .path (Path.ofNames at_))
      (stands : fs.entry? at_ = some e) (file : ∀ inode, d.inode = some inode ↔ e = .file inode)
      (readable : d.readable = read) (number : fd = fs.nextDescriptor) :
      Opening fs id read fd false (fs.addDescriptor d).2

theorem openOrCreate_opening (sound : fs.Sound) (roomy : fs.Roomy) {path : String}
    {flags : OpenFlags} {fd : Nat} {created : Bool}
    (opened : Files.openOrCreate fs path flags = .ok (fd, created, fs')) :
    Opening fs (Files.resource fs path) flags.read fd created fs' := by
  obtain ⟨nul, ⟨rfl, at_, e, d, led, same, readable, file⟩ |
    ⟨rfl, directory, name, resolved, short, same⟩⟩ := openOrCreate_ok opened
  · cases same
    exact .found at_ e d (resource_of_find sound roomy nul led)
      (stands_of_find sound (Or.inl rfl) led) file readable rfl
  · obtain ⟨free, spot⟩ := spot_of_vacancy sound nul short resolved
    have named := (roomy.charted sound nul).resource_of_vacancy sound short resolved
    cases same
    exact .created (directory ++ [name]) _ named spot free rfl rfl rfl

/-! ### Moving -/

/-- Nothing changed but the position of `fd`. -/
structure Shifted (fd : Nat) (fs fs' : Filesystem) : Prop extends Moved fs fs' where
  inodes : fs'.nextInode = fs.nextInode
  count : fs'.nextDescriptor = fs.nextDescriptor
  here : (fs'.descriptors.get? fd).map Descriptor.still = (fs.descriptors.get? fd).map Descriptor.still
  others : ∀ n, n ≠ fd → fs'.descriptors.get? n = fs.descriptors.get? n

namespace Shifted

variable {fd : Nat}

theorem refl (fd : Nat) (fs : Filesystem) : Shifted fd fs fs :=
  ⟨.refl fs, rfl, rfl, rfl, fun _ _ => rfl⟩

theorem trans (first : Shifted fd fs fs') (second : Shifted fd fs' fs'') : Shifted fd fs fs'' where
  toMoved := first.toMoved.trans second.toMoved
  inodes := second.inodes.trans first.inodes
  count := second.count.trans first.count
  here := second.here.trans first.here
  others n other := (second.others n other).trans (first.others n other)

end Shifted

theorem shifted_setPosition (fs : Filesystem) (fd position : Nat) :
    Shifted fd fs (fs.setPosition fd position) where
  toMoved := moved_setPosition fs fd position
  inodes := rfl
  count := rfl
  here := by
    simp only [setPosition, Table.get?_modify, if_true, Option.map_map]
    rfl
  others n other := by simp only [setPosition, Table.get?_modify, if_neg other]

theorem shifted_seek {fd position : Nat} (sought : fs.seek fd position = .ok fs') :
    Shifted fd fs fs' := by
  unfold seek at sought
  split at sought
  · cases sought
  · cases sought
    exact shifted_setPosition fs fd position

theorem shifted_read {fd len ask : Nat} {bytes : Bytes}
    (done : fs.read fd len ask = .ok (bytes, fs')) : Shifted fd fs fs' := by
  unfold read at done
  split at done
  · cases done
    exact .refl fd fs
  · split at done
    · cases done
    · split at done
      · cases done
      · split at done
        · split at done <;> cases done
        · cases done
          exact shifted_setPosition ..

theorem shifted_readAt (fs : Filesystem) (fd offset len : Nat) :
    Shifted fd fs (fs.readAt fd offset len).2 := by
  unfold readAt
  cases sought : fs.seek fd offset with
  | error e => exact .refl fd fs
  | ok fs' =>
      have shifted := shifted_seek sought
      cases done : fs'.read fd len transferLimit with
      | error e =>
          simp only [done]
          exact shifted
      | ok result =>
          simp only [done]
          exact shifted.trans (shifted_read done)

end Filesystem

/-! ## What was noted -/

namespace AccessSet

/-- From `a` to `a'` resources were touched when `v` was in force. -/
structure Grown (v : VersionTable) (a a' : AccessSet) : Prop where
  keyed : a.Keyed → a'.Keyed
  kept : ∀ id seen, a.snapshot id = some seen → a'.snapshot id = some seen
  new : ∀ id seen, a'.snapshot id = some seen → a.snapshot id = some seen ∨ v.current id = seen
  written : ∀ id, a.isWritten id = true → a'.isWritten id = true

variable {v : VersionTable} {a : AccessSet} {id : ResourceId}

theorem Grown.refl (v : VersionTable) (a : AccessSet) : Grown v a a :=
  ⟨fun keyed => keyed, fun _ _ noted => noted, fun _ _ => Or.inl, fun _ written => written⟩

theorem grown_observe (v : VersionTable) (a : AccessSet) (id : ResourceId) :
    Grown v a (a.observe v id) where
  keyed keyed := keyed.observe v id
  kept _ _ noted := snapshot_observe_kept noted v id
  new _ _ noted := snapshot_of_observe noted
  written other written := by rw [isWritten, written_observe]; exact written

theorem snapshot_write (v : VersionTable) (a : AccessSet) (id other : ResourceId) :
    (a.write v id).snapshot other = (a.observe v id).snapshot other := by
  rw [snapshot, observed_write, ← snapshot]

theorem isWritten_write (v : VersionTable) (a : AccessSet) (id : ResourceId) :
    (a.write v id).isWritten id = true := by
  rw [isWritten, Table.contains_iff, mem_keys_write]
  exact Or.inr rfl

theorem grown_write (v : VersionTable) (a : AccessSet) (id : ResourceId) :
    Grown v a (a.write v id) where
  keyed keyed := keyed.write v id
  kept other seen noted := by rw [snapshot_write]; exact (grown_observe v a id).kept other seen noted
  new other seen noted := by
    rw [snapshot_write] at noted
    exact (grown_observe v a id).new other seen noted
  written other written := by
    rw [isWritten, Table.contains_iff] at written ⊢
    exact (mem_keys_write ..).2 (Or.inl written)

/-- What was touched is noted. -/
theorem snapshot_observe (v : VersionTable) (a : AccessSet) (id : ResourceId) :
    ∃ seen, (a.observe v id).snapshot id = some seen :=
  exists_snapshot ((mem_keys_observe ..).2 (Or.inr rfl))

end AccessSet

/-! ## Files -/

/-- An open file without its offset, open or closed. -/
def OpenFile.lasting (f : OpenFile) : OpenFile := { f with offset := 0, closed := false }

theorem OpenFile.same_of_lasting {f f' : OpenFile} (same : f'.lasting = f.lasting) :
    f'.adopted = f.adopted ∧ f'.id = f.id ∧ f'.descriptor = f.descriptor := by
  simp only [lasting, OpenFile.mk.injEq] at same
  exact ⟨same.2.2.2.2.1, same.1, same.2.1⟩

namespace Files

/-- The files after one was opened, or created, under `id`. -/
def opened (s : Files) (v : VersionTable) (id : ResourceId) (fd : Nat) (flags : OpenFlags)
    (created : Bool) : Files :=
  { s with
    nextHandle := s.nextHandle + 1
    handles := s.handles.set s.nextHandle { id, descriptor := fd, offset := 0, flags }
    log := if created then s.log.append (.eager id .absent .create) else s.log
    access := if created then s.access.write v id else s.access.observe v id }

theorem openPath_cases (s : Files) (w : World) (path : String) (flags : OpenFlags) :
    (s.openPath path flags w).2 = (s, w) ∨ ∃ fd created files,
      openOrCreate w.files path flags = .ok (fd, created, files) ∧
        (s.openPath path flags w).2 =
          (s.opened w.versions (resource w.files path) fd flags created, { w with files }) := by
  unfold openPath
  simp only
  rcases s.checkNotRemoved (resource w.files path) with e | _
  · exact Or.inl rfl
  · rcases made : openOrCreate w.files path flags with e | ⟨fd, created, files⟩
    · exact Or.inl rfl
    · refine Or.inr ⟨fd, created, files, rfl, ?_⟩
      cases created <;> rfl

/-- The files after a descriptor from outside was taken in under `id`. -/
def adopting (s : Files) (v : VersionTable) (id : ResourceId) (fd before : Nat) : Files :=
  { s with
    nextHandle := s.nextHandle + 1
    handles := s.handles.set s.nextHandle
      { id, descriptor := fd, offset := before, flags := { read := true, write := true },
        adopted := true }
    log := s.log.append (.eager id (.offset before) (.adopt ⟨s.nextHandle⟩))
    access := s.access.observe v id }

/-- The record of the creation of a file. -/
def creationOf (at_ : Location) : Record FileEffect :=
  .eager (.path (Path.ofNames at_)) .absent .create

/-- A record of a write, or of the removal of what stands in the world. -/
def PutOff (w : World) (s : Files) (r : Record FileEffect) : Prop :=
  (∃ h offset bytes, r.payload = .write h offset bytes) ∨
    r.payload = .remove ∧ ∃ at_ e, r.resource = .path (Path.ofNames at_) ∧
      w.files.entry? at_ = some e ∧ s.access.isWritten r.resource = true ∧
      r.resource.key ∈ s.removed

/-- From `s` to `s'` resources were touched and records put off, with no new handle. -/
structure Touched (w : World) (s s' : Files) : Prop where
  held : s'.held = s.held
  count : s'.nextHandle = s.nextHandle
  grown : s.access.Grown w.versions s'.access
  handles : ∀ n, (s'.handles.get? n).map OpenFile.lasting = (s.handles.get? n).map OpenFile.lasting
  records : ∃ new, s'.log.records = s.log.records ++ new ∧ ∀ r ∈ new, PutOff w s' r
  removed : ∀ k ∈ s.removed, k ∈ s'.removed

/-- **What a job on files does.** -/
inductive Filed (w : World) (s : Files) : World → Files → Prop where
  /-- It opens what is there. -/
  | found (at_ : Location) (e : Entry) (d : Descriptor) (flags : OpenFlags)
      (stands : w.files.entry? at_ = some e) (file : ∀ inode, d.inode = some inode → e = .file inode) :
      Filed w s { w with files := (w.files.addDescriptor d).2 }
        (s.opened w.versions (.path (Path.ofNames at_)) w.files.nextDescriptor flags false)
  /-- It creates a file where nothing stands, and opens it. -/
  | created (at_ : Location) (d : Descriptor) (flags : OpenFlags) (spot : w.files.Spot at_)
      (free : w.files.entry? at_ = none) (file : d.inode = some w.files.nextInode) :
      Filed w s { w with files := ((w.files.addFile at_).2.addDescriptor d).2 }
        (s.opened w.versions (.path (Path.ofNames at_)) w.files.nextDescriptor flags true)
  /-- It takes in a descriptor from outside. -/
  | adopted (fd : Nat) (id : ResourceId) :
      Filed w s w (s.adopting w.versions id fd (w.files.position fd))
  /-- It moves a descriptor it has, touches resources and puts records off, or nothing of it. -/
  | quiet {files : Filesystem} {s' : Files} (moved : files = w.files ∨ ∃ n f,
        s.handles.get? n = some f ∧ Filesystem.Shifted f.descriptor w.files files)
      (touched : Touched w s s') :
      Filed w s { w with files } s'

variable {w : World} {s : Files}

theorem Touched.access {access : AccessSet} (grown : s.access.Grown w.versions access) :
    Touched w s { s with access } where
  held := rfl
  count := rfl
  grown := grown
  handles _ := rfl
  records := ⟨[], (List.append_nil _).symm, fun _ member => absurd member List.not_mem_nil⟩
  removed _ member := member

theorem Touched.refl (w : World) (s : Files) : Touched w s s := .access (.refl w.versions s.access)

/-- A refused job does nothing. -/
theorem Filed.refl (w : World) (s : Files) : Filed w s w s := .quiet (Or.inl rfl) (.refl w s)

section Filed

variable {w' : World} {s' : Files}

theorem Filed.files (filed : Filed w s w' s') : w' = { w with files := w'.files } := by
  cases filed <;> rfl

theorem Filed.versions (filed : Filed w s w' s') : w'.versions = w.versions := by
  rw [filed.files]

theorem Filed.grown (filed : Filed w s w' s') : s.access.Grown w.versions s'.access := by
  cases filed with
  | found at_ => exact AccessSet.grown_observe ..
  | created at_ => exact AccessSet.grown_write ..
  | adopted fd id => exact AccessSet.grown_observe ..
  | quiet moved touched => exact touched.grown

/-- What is written down stays so. -/
theorem Filed.records (filed : Filed w s w' s') {r : Record FileEffect} (member : r ∈ s.log.records) :
    r ∈ s'.log.records := by
  cases filed with
  | found at_ => exact member
  | created at_ => exact List.mem_append_left _ member
  | adopted fd id => exact List.mem_append_left _ member
  | quiet moved touched =>
      obtain ⟨new, appended, -⟩ := touched.records
      rw [appended]
      exact List.mem_append_left _ member

end Filed

/-! ### Jobs one by one -/

/-- Moving an offset or closing a handle leaves everything else of it. -/
theorem Touched.modify {s' : Files} (touched : Touched w s s') (n : Nat)
    {change : OpenFile → OpenFile} (lasting : ∀ f, (change f).lasting = f.lasting) :
    Touched w s { s' with handles := s'.handles.modify n change } where
  held := touched.held
  count := touched.count
  grown := touched.grown
  handles m := by
    rw [← touched.handles m, Table.get?_modify]
    split
    · next here =>
      rw [here, Option.map_map]
      exact congrFun (congrArg Option.map (funext lasting)) _
    · rfl
  records := touched.records
  removed := touched.removed

theorem Touched.setOffset {s' : Files} (touched : Touched w s s') (h : FileHandle) (offset : Nat) :
    Touched w s (s'.setOffset h offset) :=
  touched.modify h.number fun _ => rfl

theorem openPath_filed (sound : w.files.Sound) (roomy : w.files.Roomy) (path : String)
    (flags : OpenFlags) :
    Filed w s (s.openPath path flags w).2.2 (s.openPath path flags w).2.1 := by
  rcases s.openPath_cases w path flags with same | ⟨fd, created, files, made, done⟩
  · rw [same]
    exact .refl w s
  rw [done]
  cases Filesystem.openOrCreate_opening sound roomy made with
  | created at_ d named spot free file readable number =>
      rw [named, number]
      exact .created at_ d flags spot free file
  | found at_ e d named stands file readable number =>
      rw [named, number]
      exact .found at_ e d flags stands fun inode => (file inode).1

theorem adopt_filed (descriptor : Nat) (path : String) :
    Filed w s (s.adopt descriptor path w).2.2 (s.adopt descriptor path w).2.1 := by
  unfold Files.adopt
  simp only
  rcases s.checkNotRemoved (resource w.files path) with e | _
  · exact .refl w s
  · exact .adopted descriptor _

theorem remove_filed (sound : w.files.Sound) (roomy : w.files.Roomy) (path : String) :
    Filed w s (s.remove path w).2.2 (s.remove path w).2.1 := by
  unfold Files.remove
  simp only
  rcases s.checkNotRemoved (resource w.files path) with e | _
  · exact .refl w s
  · cases named : w.files.names path with
    | false => exact .refl w s
    | true =>
        obtain ⟨at_, e, stands, same⟩ := Filesystem.resource_of_names sound roomy named
        refine .quiet (Or.inl rfl) ⟨rfl, rfl, AccessSet.grown_write .., fun _ => rfl, ⟨[_], rfl, ?_⟩,
          fun k member => List.mem_append_left _ member⟩
        intro r member
        rw [List.mem_singleton.1 member]
        exact Or.inr ⟨rfl, at_, e, same, stands, AccessSet.isWritten_write ..,
          List.mem_append_right _ List.mem_cons_self⟩

theorem read_filed (h : FileHandle) (len : Nat) :
    Filed w s (s.read h len w).2.2 (s.read h len w).2.1 := by
  unfold Files.read
  cases allowed : s.checkReadable h with
  | error e => exact .refl w s
  | ok f =>
      have found := handle_of_open (open_of_readable allowed)
      have shifted := Filesystem.shifted_readAt w.files f.descriptor f.offset len
      have touched := Touched.access (AccessSet.grown_observe w.versions s.access f.id)
      simp only
      rcases read : w.files.readAt f.descriptor f.offset len with ⟨e | window, files⟩ <;>
        rw [read] at shifted
      · exact .quiet (Or.inr ⟨h.number, f, found, shifted⟩) touched
      · exact .quiet (Or.inr ⟨h.number, f, found, shifted⟩) (touched.setOffset h _)

theorem write_filed (h : FileHandle) (bytes : Bytes) :
    Filed w s (s.write h bytes w).2.2 (s.write h bytes w).2.1 := by
  unfold Files.write
  rcases s.checkWritable h with e | f
  · exact .refl w s
  · simp only
    generalize (if f.flags.append then s.logicalLength f w.files else f.offset) = offset
    let s' : Files :=
      { s with
        access := s.access.write w.versions f.id
        log := s.log.append (.deferred f.id (.write h offset bytes)) }
    have touched : Touched w s s' := by
      refine ⟨rfl, rfl, AccessSet.grown_write .., fun _ => rfl, ⟨[_], rfl, ?_⟩,
        fun _ member => member⟩
      intro r member
      rw [List.mem_singleton.1 member]
      exact Or.inl ⟨h, offset, bytes, rfl⟩
    exact .quiet (Or.inl rfl) (touched.setOffset h _)

theorem seek_filed (h : FileHandle) (pos : SeekFrom) :
    Filed w s (s.seek h pos w).2.2 (s.seek h pos w).2.1 := by
  unfold Files.seek
  rcases s.openFile h with e | f
  · exact .refl w s
  · simp only
    rcases s.seekTarget f w.files pos with _ | offset
    · exact .refl w s
    · exact .quiet (Or.inl rfl) ((Touched.refl w s).setOffset h offset)

theorem close_filed (h : FileHandle) :
    Filed w s (s.close h w).2.2 (s.close h w).2.1 := by
  unfold Files.close
  rcases s.openFile h with e | f
  · exact .refl w s
  · exact .quiet (Or.inl rfl) ((Touched.refl w s).modify h.number fun _ => rfl)

end Files

/-- **Every job on files does one of these.** -/
theorem Filing.perform_filed {w : World} {s : Files} (sound : w.files.Sound)
    (roomy : w.files.Roomy) (job : Filing) :
    Files.Filed w s (job.perform s w).2.2 (job.perform s w).2.1 := by
  cases job with
  | adopt descriptor path => exact Files.adopt_filed descriptor path
  | remove path => exact Files.remove_filed sound roomy path
  | plain job =>
      cases job with
      | openPath path flags => exact Files.openPath_filed sound roomy path flags
      | read h len => exact Files.read_filed h len
      | write h bytes => exact Files.write_filed h bytes
      | seek h pos => exact Files.seek_filed h pos
      | tell h => exact .refl w s
      | close h => exact Files.close_filed h

/-- A job acts on the file system alone, whatever the names are like. -/
theorem Filing.perform_files (s : Files) (w : World) (job : Filing) :
    (job.perform s w).2.2 = { w with files := (job.perform s w).2.2.files } := by
  cases job with
  | adopt descriptor path => exact (Files.adopt_filed descriptor path).files
  | remove path =>
      simp only [perform, Files.remove]
      rcases s.checkNotRemoved (Files.resource w.files path) with e | _
      · rfl
      · cases w.files.names path <;> rfl
  | plain job =>
      cases job with
      | openPath path flags =>
          simp only [perform, FileWork.perform]
          rcases s.openPath_cases w path flags with same | ⟨fd, created, files, -, done⟩
          · rw [same]
          · rw [done]
      | read h len => exact (Files.read_filed h len).files
      | write h bytes => exact (Files.write_filed h bytes).files
      | seek h pos => exact (Files.seek_filed h pos).files
      | tell h => rfl
      | close h => exact (Files.close_filed h).files

end Transact
