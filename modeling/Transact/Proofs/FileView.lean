/-
# Transact.Proofs.FileView -- what a transaction sees of its files

The `face` of a transaction's files leaves out the numbers of descriptors and the versions noted, which
differ from one world to another.  Work on two worlds with one tree, from one face, gives the same
answer and leaves one face, when the worlds agree on the contents of the files that are open
(`perform_alike`): this is what lets one world stand in for another.

`Tidy` is what the files of a transaction are that only opened files and worked through handles, and
`Progress` what one piece of work changes: it opens files, notes versions in force, and leaves
contents, versions and locks alone (`perform_progress`).
-/
import Transact.Proofs.Descriptors
import Transact.Proofs.FileCalls

namespace Transact

set_option autoImplicit false

namespace Files

/-! ## The face -/

/-- An open file without the number of its descriptor, and that descriptor without its position. -/
def sealed (fs : Filesystem) (f : OpenFile) : OpenFile × Option Descriptor :=
  ({ f with descriptor := 0 }, (fs.descriptors.get? f.descriptor).map Descriptor.still)

/-- The files of a transaction without numbers of descriptors and without versions. -/
structure Face where
  nextHandle : Nat
  handles : Table Nat (OpenFile × Option Descriptor)
  removed : List ResourceKey
  log : DeferredLog FileEffect
  observed : Table ResourceKey ResourceId
  written : Table ResourceKey ResourceId

def face (s : Files) (fs : Filesystem) : Face where
  nextHandle := s.nextHandle
  handles := s.handles.map (sealed fs)
  removed := s.removed
  log := s.log
  observed := s.access.observed.map Prod.fst
  written := s.access.written

/-- A handle is open on a file. -/
def Holds (s : Files) (fs : Filesystem) (inode : Inode) : Prop :=
  ∃ n f, s.handles.get? n = some f ∧ fs.inode? f.descriptor = some inode

/-! ## Tidiness -/

/-- `f` is open, for itself, on the file that one of the paths leads to, under the resource of that
path. -/
structure OpenOn (opened : String → Prop) (fs : Filesystem) (f : OpenFile) (inode : Inode) :
    Prop where
  named : ∃ path, opened path ∧ fs.fileAt? path = some inode ∧ f.id = resource fs path
  own : f.adopted = false
  handed : f.descriptor < fs.nextDescriptor
  behind : ∃ d, fs.descriptors.get? f.descriptor = some d ∧ d.inode = some inode ∧
    d.appends = false

/-- The files of a transaction that did nothing but open files and work through their handles. -/
structure Tidy (opened : String → Prop) (fs : Filesystem) (s : Files) : Prop where
  removed : s.removed = []
  held : s.held = {}
  access : s.access.Keyed
  numbered : ∀ e ∈ s.handles.entries, e.1 < s.nextHandle
  handles : ∀ e ∈ s.handles.entries, ∃ inode, OpenOn opened fs e.2 inode
  noted : ∀ e ∈ s.handles.entries, e.2.id.key ∈ s.access.observed.keys
  log : ∀ r ∈ s.log.records, ∃ h offset bytes f, r = .deferred f.id (.write h offset bytes) ∧
    s.handles.get? h.number = some f ∧ f.id.key ∈ s.access.written.keys

variable {opened : String → Prop} {fs fs' : Filesystem} {s s' s'' : Files} {w w' w'' : World}

theorem OpenOn.onward {f : OpenFile} {inode : Inode} (on : OpenOn opened fs f inode)
    (onward : fs.Onward fs') : OpenOn opened fs' f inode where
  named := by
    obtain ⟨path, asked, leads, id⟩ := on.named
    exact ⟨path, asked, (onward.tree.fileAt? path).trans leads,
      id.trans (onward.tree.resource path).symm⟩
  own := on.own
  handed := Nat.lt_of_lt_of_le on.handed onward.next
  behind := by
    obtain ⟨d, known, file, plain⟩ := on.behind
    have still := onward.still f.descriptor on.handed
    rw [known] at still
    obtain ⟨d', known', same⟩ := Option.map_eq_some_iff.1 still
    refine ⟨d', known', ?_, ?_⟩
    · exact (congrArg Descriptor.inode same).trans file
    · exact (congrArg Descriptor.appends same).trans plain

theorem OpenOn.inode? {f : OpenFile} {inode : Inode} (on : OpenOn opened fs f inode) :
    fs.inode? f.descriptor = some inode := by
  obtain ⟨d, known, file, -⟩ := on.behind
  simp only [Filesystem.inode?, known, Option.bind_some, file]

theorem Tidy.fresh (opened : String → Prop) (fs : Filesystem) : Tidy opened fs {} where
  removed := rfl
  held := rfl
  access := .empty
  numbered _ member := absurd member List.not_mem_nil
  handles _ member := absurd member List.not_mem_nil
  noted _ member := absurd member List.not_mem_nil
  log _ member := absurd member List.not_mem_nil

theorem Tidy.onward (tidy : Tidy opened fs s) (onward : fs.Onward fs') : Tidy opened fs' s :=
  { tidy with
    handles := fun e member => (tidy.handles e member).imp fun _ on => on.onward onward }

/-- The face of tidy files stays the same while others work. -/
theorem Tidy.face_onward (tidy : Tidy opened fs s) (onward : fs.Onward fs') :
    s.face fs' = s.face fs := by
  have handles : s.handles.map (sealed fs') = s.handles.map (sealed fs) := by
    simp only [Table.map, Table.mk.injEq]
    refine List.map_congr_left ?_
    intro e member
    obtain ⟨inode, on⟩ := tidy.handles e member
    simp only [sealed, onward.still _ on.handed]
  simp only [face, handles]

theorem Tidy.openOn (tidy : Tidy opened fs s) {n : Nat} {f : OpenFile}
    (found : s.handles.get? n = some f) : ∃ inode, OpenOn opened fs f inode :=
  tidy.handles _ (Table.mem_of_get? found)

theorem Tidy.holds_onward (tidy : Tidy opened fs s) (onward : fs.Onward fs') {inode : Inode}
    (holds : s.Holds fs inode) : s.Holds fs' inode := by
  obtain ⟨n, f, found, behind⟩ := holds
  obtain ⟨_, on⟩ := tidy.openOn found
  exact ⟨n, f, found, (onward.inode? on.handed).trans behind⟩

/-! ## Progress -/

/-- What a piece of work changes. -/
structure Progress (opened : String → Prop) (s : Files) (w : World) (s' : Files) (w' : World) :
    Prop where
  versions : w'.versions = w.versions
  locks : w'.locks = w.locks
  files : w.files.Moved w'.files
  tidy : Tidy opened w'.files s'
  kept : ∀ id seen, s.access.snapshot id = some seen → s'.access.snapshot id = some seen
  noted : ∀ id seen, s'.access.snapshot id = some seen →
    s.access.snapshot id = some seen ∨ w.versions.current id = seen
  holds : ∀ inode, s.Holds w.files inode → s'.Holds w'.files inode

namespace Progress

theorem refl (tidy : Tidy opened w.files s) : Progress opened s w s w where
  versions := rfl
  locks := rfl
  files := .refl _
  tidy := tidy
  kept _ _ noted := noted
  noted _ _ noted := Or.inl noted
  holds _ holds := holds

theorem trans (first : Progress opened s w s' w') (second : Progress opened s' w' s'' w'') :
    Progress opened s w s'' w'' where
  versions := second.versions.trans first.versions
  locks := second.locks.trans first.locks
  files := first.files.trans second.files
  tidy := second.tidy
  kept id seen noted := second.kept id seen (first.kept id seen noted)
  noted id seen noted := by
    rcases second.noted id seen noted with before | now
    · exact first.noted id seen before
    · exact Or.inr (first.versions ▸ now)
  holds inode holds := second.holds inode (first.holds inode holds)

/-- Only positions and new descriptors differ. -/
theorem moved (tidy : Tidy opened w.files s) {files : Filesystem} (moved : w.files.Moved files) :
    Progress opened s w s { w with files } where
  versions := rfl
  locks := rfl
  files := moved
  tidy := tidy.onward moved.toOnward
  kept _ _ noted := noted
  noted _ _ noted := Or.inl noted
  holds _ holds := tidy.holds_onward moved.toOnward holds

/-- A version is noted. -/
theorem observed (tidy : Tidy opened w.files s) (id : ResourceId) :
    Progress opened s w { s with access := s.access.observe w.versions id } w where
  versions := rfl
  locks := rfl
  files := .refl _
  tidy :=
    { tidy with
      access := tidy.access.observe w.versions id
      noted := fun e member => (AccessSet.mem_keys_observe ..).2 (Or.inl (tidy.noted e member))
      log := by
        intro r member
        simp only [AccessSet.written_observe]
        exact tidy.log r member }
  kept _ _ noted := AccessSet.snapshot_observe_kept noted _ _
  noted _ _ noted := AccessSet.snapshot_of_observe noted
  holds _ holds := holds

/-- A write is written down. -/
theorem recorded (tidy : Tidy opened w.files s) {h : FileHandle} {f : OpenFile}
    (found : s.handles.get? h.number = some f) (offset : Nat) (bytes : Bytes) :
    Progress opened s w
      { s with
        access := s.access.write w.versions f.id
        log := s.log.append (.deferred f.id (.write h offset bytes)) } w where
  versions := rfl
  locks := rfl
  files := .refl _
  tidy :=
    { tidy with
      access := tidy.access.write w.versions f.id
      noted := by
        intro e member
        rw [AccessSet.observed_write]
        exact (AccessSet.mem_keys_observe ..).2 (Or.inl (tidy.noted e member))
      log := by
        intro r member
        rcases List.mem_append.1 member with before | now
        · obtain ⟨h', offset', bytes', f', same, open_, written⟩ := tidy.log r before
          exact ⟨h', offset', bytes', f', same, open_,
            (AccessSet.mem_keys_write ..).2 (Or.inl written)⟩
        · exact ⟨h, offset, bytes, f, List.mem_singleton.1 now, found,
            (AccessSet.mem_keys_write ..).2 (Or.inr rfl)⟩ }
  kept id seen noted := by
    rw [AccessSet.snapshot, AccessSet.observed_write]
    exact AccessSet.snapshot_observe_kept noted _ _
  noted id seen noted := by
    rw [AccessSet.snapshot, AccessSet.observed_write] at noted
    exact AccessSet.snapshot_of_observe noted
  holds _ holds := holds

/-- A handle changes in its offset, or is closed. -/
theorem changed (tidy : Tidy opened w.files s) (n : Nat) {change : OpenFile → OpenFile}
    (same : ∀ f, (change f).id = f.id ∧ (change f).descriptor = f.descriptor ∧
      (change f).adopted = f.adopted) :
    Progress opened s w { s with handles := s.handles.modify n change } w where
  versions := rfl
  locks := rfl
  files := .refl _
  tidy :=
    { tidy with
      numbered := by
        intro e member
        rcases Table.mem_entries_modify member with before | ⟨f, before, rfl⟩
        · exact tidy.numbered e before
        · exact tidy.numbered (n, f) before
      handles := by
        intro e member
        rcases Table.mem_entries_modify member with before | ⟨f, before, rfl⟩
        · exact tidy.handles e before
        · obtain ⟨id, descriptor, adopted⟩ := same f
          obtain ⟨inode, on⟩ := tidy.handles _ before
          exact ⟨inode, id ▸ on.named, adopted ▸ on.own, descriptor ▸ on.handed,
            descriptor ▸ on.behind⟩
      noted := by
        intro e member
        rcases Table.mem_entries_modify member with before | ⟨f, before, rfl⟩
        · exact tidy.noted e before
        · exact (same f).1 ▸ tidy.noted _ before
      log := by
        intro r member
        obtain ⟨h, offset, bytes, f, rfl, found, written⟩ := tidy.log r member
        by_cases here : h.number = n
        · refine ⟨h, offset, bytes, change f, by rw [(same f).1], ?_, (same f).1 ▸ written⟩
          rw [Table.get?_modify, if_pos here, ← here, found, Option.map_some]
        · exact ⟨h, offset, bytes, f, rfl, by rw [Table.get?_modify, if_neg here]; exact found,
            written⟩ }
  kept _ _ noted := noted
  noted _ _ noted := Or.inl noted
  holds inode holds := by
    obtain ⟨m, f, found, behind⟩ := holds
    by_cases here : m = n
    · refine ⟨m, change f, ?_, (same f).2.1 ▸ behind⟩
      rw [Table.get?_modify, if_pos here, ← here, found, Option.map_some]
    · exact ⟨m, f, by rw [Table.get?_modify, if_neg here]; exact found, behind⟩

/-- A file is opened. -/
theorem added (tidy : Tidy opened w.files s) {f : OpenFile} {inode : Inode}
    (on : OpenOn opened w.files f inode) (noted : f.id.key ∈ s.access.observed.keys) :
    Progress opened s w (s.addHandle f).2 w := by
  have other {n : Nat} {g : OpenFile} (found : s.handles.get? n = some g) :
      (s.addHandle f).2.handles.get? n = some g := by
    have before := tidy.numbered _ (Table.mem_of_get? found)
    exact (Table.get?_set_of_ne _ _ (Nat.ne_of_lt before)).trans found
  exact
    { versions := rfl
      locks := rfl
      files := .refl _
      tidy :=
        { tidy with
          numbered := by
            intro e member
            rcases Table.mem_entries_set member with before | rfl
            · exact Nat.lt_succ_of_lt (tidy.numbered e before)
            · exact Nat.lt_succ_self _
          handles := by
            intro e member
            rcases Table.mem_entries_set member with before | rfl
            · exact tidy.handles e before
            · exact ⟨inode, on⟩
          noted := by
            intro e member
            rcases Table.mem_entries_set member with before | rfl
            · exact tidy.noted e before
            · exact noted
          log := by
            intro r member
            obtain ⟨h, offset, bytes, g, same, found, written⟩ := tidy.log r member
            exact ⟨h, offset, bytes, g, same, other found, written⟩ }
      kept := fun _ _ noted => noted
      noted := fun _ _ noted => Or.inl noted
      holds := fun _ ⟨n, g, found, behind⟩ => ⟨n, g, other found, behind⟩ }

end Progress

/-! ## Work makes progress -/

theorem Tidy.checkNotRemoved (tidy : Tidy opened fs s) (id : ResourceId) :
    s.checkNotRemoved id = .ok () := by
  simp [Files.checkNotRemoved, tidy.removed]

theorem Tidy.checkReadable (tidy : Tidy opened fs s) (h : FileHandle) :
    s.checkReadable h =
      match s.openFile h with
      | .error e => .error e
      | .ok f => if f.flags.read then .ok f else .error (notReadable h) := by
  unfold Files.checkReadable
  cases s.openFile h with
  | error e => rfl
  | ok f =>
      cases readable : f.flags.read with
      | true => simp [readable, tidy.checkNotRemoved, Except.map]
      | false => simp [readable]

theorem Tidy.checkWritable (tidy : Tidy opened fs s) (h : FileHandle) :
    s.checkWritable h =
      match s.openFile h with
      | .error e => .error e
      | .ok f => if f.flags.writes then .ok f else .error (notWritable h) := by
  unfold Files.checkWritable
  cases s.openFile h with
  | error e => rfl
  | ok f =>
      cases writable : f.flags.writes with
      | true => simp [writable, tidy.checkNotRemoved, Except.map]
      | false => simp [writable]

/-- The new handle of a file that was there. -/
theorem openPath_eq (tidy : Tidy opened w.files s) {path : String} {inode : Inode}
    (leads : w.files.fileAt? path = some inode) (flags : OpenFlags) :
    s.openPath path flags w =
      if flags.read || flags.writes then
        let id := resource w.files path
        let seen := { s with access := s.access.observe w.versions id }
        let r := seen.addHandle { id, descriptor := w.files.nextDescriptor, offset := 0, flags }
        (.ok r.1, r.2,
          { w with
            files := (w.files.addDescriptor (Filesystem.descriptorOn (some inode)
              { read := flags.read, write := flags.writes })).2 })
      else (.error IoFault.noAccess.toError, s, w) := by
  unfold openPath
  simp only [tidy.checkNotRemoved, Filesystem.openOrCreate_of_file leads]
  cases flags.read || flags.writes <;> rfl

theorem openPath_progress (tidy : Tidy opened w.files s) {path : String} (asked : opened path)
    {inode : Inode} (leads : w.files.fileAt? path = some inode) (flags : OpenFlags) :
    Progress opened s w (s.openPath path flags w).2.1 (s.openPath path flags w).2.2 := by
  rw [openPath_eq tidy leads]
  split
  · let d := Filesystem.descriptorOn (some inode) { read := flags.read, write := flags.writes }
    have moved : w.files.Moved (w.files.addDescriptor d).2 :=
      ⟨Filesystem.onward_addDescriptor .., rfl⟩
    have seen := Progress.observed tidy (resource w.files path)
    have handed := Progress.moved seen.tidy moved
    refine (seen.trans handed).trans (Progress.added handed.tidy (?_ : OpenOn opened _ _ inode) ?_)
    · refine ⟨⟨path, asked, ?_, ?_⟩, rfl, Nat.lt_succ_self _, d, ?_, rfl, rfl⟩
      · exact (moved.tree.fileAt? path).trans leads
      · exact (moved.tree.resource path).symm
      · exact Table.get?_set_self ..
    · exact (AccessSet.mem_keys_observe ..).2 (Or.inr rfl)
  · exact .refl tidy

theorem read_progress (tidy : Tidy opened w.files s) (h : FileHandle) (len : Nat) :
    Progress opened s w (s.read h len w).2.1 (s.read h len w).2.2 := by
  unfold Files.read
  split
  · exact .refl tidy
  · rename_i f found
    have seen := Progress.observed tidy f.id
    have moved := Progress.moved seen.tidy
      (Filesystem.moved_readAt w.files f.descriptor f.offset len)
    rcases transfer : w.files.readAt f.descriptor f.offset len with ⟨answer, files⟩
    rw [transfer] at moved
    cases answer with
    | error e => exact seen.trans moved
    | ok window =>
        exact (seen.trans moved).trans
          (Progress.changed moved.tidy h.number fun _ => ⟨rfl, rfl, rfl⟩)

theorem write_progress (tidy : Tidy opened w.files s) (h : FileHandle) (bytes : Bytes) :
    Progress opened s w (s.write h bytes w).2.1 (s.write h bytes w).2.2 := by
  unfold Files.write
  rw [tidy.checkWritable]
  cases found : s.openFile h with
  | error e => exact .refl tidy
  | ok f =>
      cases writable : f.flags.writes with
      | false =>
          simp only [writable, Bool.false_eq_true, if_false]
          exact .refl tidy
      | true =>
          simp only [writable, if_true]
          have recorded := Progress.recorded tidy (handle_of_open found)
            (if f.flags.append then s.logicalLength f w.files else f.offset) bytes
          exact recorded.trans (Progress.changed recorded.tidy h.number fun _ => ⟨rfl, rfl, rfl⟩)

theorem seek_progress (tidy : Tidy opened w.files s) (h : FileHandle) (pos : SeekFrom) :
    Progress opened s w (s.seek h pos w).2.1 (s.seek h pos w).2.2 := by
  unfold Files.seek
  split
  · exact .refl tidy
  · split
    · exact .refl tidy
    · exact .changed tidy h.number fun _ => ⟨rfl, rfl, rfl⟩

theorem close_progress (tidy : Tidy opened w.files s) (h : FileHandle) :
    Progress opened s w (s.close h w).2.1 (s.close h w).2.2 := by
  unfold close
  split
  · exact .refl tidy
  · exact .changed tidy h.number fun _ => ⟨rfl, rfl, rfl⟩

/-- **Work makes progress.** -/
theorem perform_progress (tidy : Tidy opened w.files s) {work : FileWork}
    (asked : ∀ path flags, work = .openPath path flags → opened path)
    (existing : ∀ path, opened path → (w.files.fileAt? path).isSome) :
    Progress opened s w (work.perform s w).2.1 (work.perform s w).2.2 := by
  cases work with
  | openPath path flags =>
      have named := asked path flags rfl
      obtain ⟨inode, leads⟩ := Option.isSome_iff_exists.1 (existing path named)
      exact openPath_progress tidy named leads flags
  | read h len => exact read_progress tidy h len
  | write h bytes => exact write_progress tidy h bytes
  | seek h pos => exact seek_progress tidy h pos
  | tell h => exact .refl tidy
  | close h => exact close_progress tidy h

/-! ## One face, one answer -/

section Alike

theorem face_eq {s s' : Files} {fs fs' : Filesystem} :
    s.face fs = s'.face fs' ↔
      s.nextHandle = s'.nextHandle ∧ s.handles.map (sealed fs) = s'.handles.map (sealed fs') ∧
        s.removed = s'.removed ∧ s.log = s'.log ∧
        s.access.observed.map Prod.fst = s'.access.observed.map Prod.fst ∧
        s.access.written = s'.access.written := by
  simp only [face, Face.mk.injEq]

theorem map_observe (a : AccessSet) (v : VersionTable) (id : ResourceId) :
    (a.observe v id).observed.map Prod.fst =
      if (a.observed.map Prod.fst).contains id.key then a.observed.map Prod.fst
      else (a.observed.map Prod.fst).set id.key id := by
  have known : (a.observed.map Prod.fst).contains id.key = a.observed.contains id.key := by
    simp only [Table.contains, Table.get?_map, Option.isSome_map]
  rw [known]
  unfold AccessSet.observe
  split
  · rfl
  · exact Table.map_set ..

theorem face_observed (same : s.face fs = s'.face fs') (v v' : VersionTable) (id : ResourceId) :
    ({ s with access := s.access.observe v id } : Files).face fs =
      ({ s' with access := s'.access.observe v' id } : Files).face fs' := by
  obtain ⟨next, handles, removed, log, observed, written⟩ := face_eq.1 same
  refine face_eq.2 ⟨next, handles, removed, log, ?_, ?_⟩
  · simp only [map_observe, observed]
  · simp only [AccessSet.written_observe, written]

theorem face_recorded (same : s.face fs = s'.face fs') (v v' : VersionTable) (id : ResourceId)
    (r : Record FileEffect) :
    ({ s with access := s.access.write v id, log := s.log.append r } : Files).face fs =
      ({ s' with access := s'.access.write v' id, log := s'.log.append r } : Files).face fs' := by
  obtain ⟨next, handles, removed, log, observed, written⟩ := face_eq.1 same
  refine face_eq.2 ⟨next, handles, removed, by simp only [log], ?_, ?_⟩
  · simp only [AccessSet.observed_write, map_observe, observed]
  · simp only [AccessSet.write, AccessSet.written_observe, written]
    split
    · simp only [AccessSet.written_observe, written]
    · rfl

theorem face_changed (same : s.face fs = s'.face fs') (n : Nat) (change : OpenFile → OpenFile)
    (kept : ∀ f, (change f).descriptor = f.descriptor)
    (blind : ∀ f descriptor, { change f with descriptor } = change { f with descriptor }) :
    ({ s with handles := s.handles.modify n change } : Files).face fs =
      ({ s' with handles := s'.handles.modify n change } : Files).face fs' := by
  obtain ⟨next, handles, removed, log, observed, written⟩ := face_eq.1 same
  refine face_eq.2 ⟨next, ?_, removed, log, observed, written⟩
  have commute (fs : Filesystem) (f : OpenFile) :
      sealed fs (change f) = ((change (sealed fs f).1, (sealed fs f).2) : OpenFile × _) := by
    simp only [sealed, kept, blind]
  rw [Table.map_modify (fun e => (change e.1, e.2)) (commute fs),
    Table.map_modify (fun e => (change e.1, e.2)) (commute fs'), handles]

theorem face_setOffset (same : s.face fs = s'.face fs') (h : FileHandle) (offset : Nat) :
    (s.setOffset h offset).face fs = (s'.setOffset h offset).face fs' :=
  face_changed same h.number (fun f => { f with offset }) (fun _ => rfl) fun _ _ => rfl

theorem face_closed (same : s.face fs = s'.face fs') (n : Nat) :
    ({ s with handles := s.handles.modify n fun f => { f with closed := true } } : Files).face fs =
      ({ s' with handles := s'.handles.modify n fun f => { f with closed := true } } :
        Files).face fs' :=
  face_changed same n (fun f => { f with closed := true }) (fun _ => rfl) fun _ _ => rfl

theorem face_added (same : s.face fs = s'.face fs') {f f' : OpenFile}
    (alike : sealed fs f = sealed fs' f') :
    (s.addHandle f).1 = (s'.addHandle f').1 ∧
      (s.addHandle f).2.face fs = (s'.addHandle f').2.face fs' := by
  obtain ⟨next, handles, removed, log, observed, written⟩ := face_eq.1 same
  refine ⟨by simp only [addHandle, next], face_eq.2 ⟨?_, ?_, removed, log, observed, written⟩⟩
  · simp only [addHandle, next]
  · simp only [addHandle, Table.map_set, next, handles, alike]

/-- A handle is open in both or in neither, and on the same. -/
theorem openFile_alike (same : s.face fs = s'.face fs') (h : FileHandle) :
    (∃ e, s.openFile h = .error e ∧ s'.openFile h = .error e) ∨
      ∃ f f', s.openFile h = .ok f ∧ s'.openFile h = .ok f' ∧ sealed fs f = sealed fs' f' := by
  have found := congrArg (fun t : Table Nat _ => t.get? h.number) (face_eq.1 same).2.1
  simp only [Table.get?_map] at found
  unfold openFile
  cases here : s.handles.get? h.number with
  | none =>
      rw [here] at found
      rw [Option.map_eq_none_iff.1 found.symm]
      exact Or.inl ⟨_, rfl, rfl⟩
  | some f =>
      rw [here] at found
      obtain ⟨f', there, alike⟩ := Option.map_eq_some_iff.1 found.symm
      rw [there]
      have closed : f'.closed = f.closed := congrArg (fun e => e.1.closed) alike
      cases shut : f.closed with
      | true =>
          simp only [shut, closed, if_true]
          exact Or.inl ⟨_, rfl, rfl⟩
      | false =>
          simp only [shut, closed, Bool.false_eq_true, if_false]
          exact Or.inr ⟨f, f', rfl, rfl, alike.symm⟩

theorem sealed_fields {f f' : OpenFile} (same : sealed fs f = sealed fs' f') :
    f'.id = f.id ∧ f'.offset = f.offset ∧ f'.flags = f.flags := by
  have fields := congrArg Prod.fst same
  simp only [sealed, OpenFile.mk.injEq] at fields
  refine ⟨?_, ?_, ?_⟩ <;> simp only [fields]

/-- One descriptor stands behind both, but for its position. -/
theorem OpenOn.alike {f f' : OpenFile} {inode : Inode} (on : OpenOn opened fs f inode)
    (same : sealed fs f = sealed fs' f') :
    ∃ d d', fs.descriptors.get? f.descriptor = some d ∧
      fs'.descriptors.get? f'.descriptor = some d' ∧ d.still = d'.still ∧ d.inode = some inode ∧
      d.appends = false := by
  obtain ⟨d, known, file, plain⟩ := on.behind
  have behind := congrArg Prod.snd same
  simp only [sealed, known, Option.map_some] at behind
  obtain ⟨d', known', still⟩ := Option.map_eq_some_iff.1 behind.symm
  exact ⟨d, d', known, known', still.symm, file, plain⟩

/-- Two transactions that look alike, each in its world, where the worlds agree on the files that are
open. -/
structure Alike (opened : String → Prop) (s : Files) (w : World) (s' : Files) (w' : World) :
    Prop where
  tidy : Tidy opened w.files s
  tidy' : Tidy opened w'.files s'
  tree : w.files.SameTree w'.files
  face : s.face w.files = s'.face w'.files
  agree : ∀ inode, s.Holds w.files inode → w'.files.content inode = w.files.content inode

/-- Behind an open file is the same file in both, with the same contents. -/
theorem Alike.behind (alike : Alike opened s w s' w') {n : Nat} {f f' : OpenFile}
    (found : s.handles.get? n = some f) (same : sealed w.files f = sealed w'.files f') :
    ∃ inode d d', w.files.descriptors.get? f.descriptor = some d ∧
      w'.files.descriptors.get? f'.descriptor = some d' ∧ d.still = d'.still ∧
      d.inode = some inode ∧ d'.inode = some inode ∧
      w'.files.content inode = w.files.content inode := by
  obtain ⟨inode, on⟩ := alike.tidy.openOn found
  obtain ⟨d, d', known, known', still, file, -⟩ := on.alike same
  have file' : d'.inode = some inode := (congrArg Descriptor.inode still).symm.trans file
  have content : w'.files.content inode = w.files.content inode :=
    alike.agree inode ⟨n, f, found, on.inode?⟩
  exact ⟨inode, d, d', known, known', still, file, file', content⟩

/-- Two calls came to the same. -/
def SameReply {α : Type} (r r' : Except Error α × Files × World) : Prop :=
  r.1 = r'.1 ∧ r.2.1.face r.2.2.files = r'.2.1.face r'.2.2.files

theorem openPath_alike (alike : Alike opened s w s' w') {path : String} {inode : Inode}
    (leads : w.files.fileAt? path = some inode) (flags : OpenFlags) :
    SameReply (s.openPath path flags w) (s'.openPath path flags w') := by
  rw [openPath_eq alike.tidy leads, openPath_eq alike.tidy' ((alike.tree.fileAt? path).trans leads)]
  cases flags.read || flags.writes with
  | false => exact ⟨rfl, alike.face⟩
  | true =>
      simp only [if_true]
      let d := Filesystem.descriptorOn (some inode) { read := flags.read, write := flags.writes }
      have before := alike.tidy.face_onward (w.files.onward_addDescriptor d)
      have before' := alike.tidy'.face_onward (w'.files.onward_addDescriptor d)
      have face : s.face (w.files.addDescriptor d).2 = s'.face (w'.files.addDescriptor d).2 := by
        rw [before, before', alike.face]
      have seen := face_observed face w.versions w'.versions (resource w.files path)
      rw [alike.tree.resource path]
      have behind (fs : Filesystem) :
          (fs.addDescriptor d).2.descriptors.get? fs.nextDescriptor = some d :=
        Table.get?_set_self ..
      have alike : sealed (w.files.addDescriptor d).2
            { id := resource w.files path, descriptor := w.files.nextDescriptor, offset := 0, flags } =
          sealed (w'.files.addDescriptor d).2
            { id := resource w.files path, descriptor := w'.files.nextDescriptor, offset := 0,
              flags } := by
        simp only [sealed, behind]
      obtain ⟨handle, added⟩ := face_added seen alike
      exact ⟨congrArg Except.ok handle, added⟩

/-- Both read the same from their descriptors. -/
theorem readAt_alike (alike : Alike opened s w s' w') {n : Nat} {f f' : OpenFile}
    (found : s.handles.get? n = some f) (same : sealed w.files f = sealed w'.files f')
    (offset len : Nat) :
    (w.files.readAt f.descriptor offset len).1 = (w'.files.readAt f'.descriptor offset len).1 := by
  obtain ⟨inode, d, d', known, known', still, file, file', content⟩ := alike.behind found same
  rw [Filesystem.readAt_answer known file, Filesystem.readAt_answer known' file', content]
  exact congrArg (fun e => e.reading (w.files.content inode) offset len) still

theorem read_alike (alike : Alike opened s w s' w') (h : FileHandle) (len : Nat) :
    SameReply (s.read h len w) (s'.read h len w') := by
  unfold Files.read
  rw [alike.tidy.checkReadable, alike.tidy'.checkReadable]
  rcases openFile_alike alike.face h with ⟨e, here, there⟩ | ⟨f, f', here, there, same⟩
  · rw [here, there]
    exact ⟨rfl, alike.face⟩
  · obtain ⟨id, offset, flags⟩ := sealed_fields same
    rw [here, there]
    simp only [flags]
    cases readable : f.flags.read with
    | false => exact ⟨rfl, alike.face⟩
    | true =>
        have answer := readAt_alike alike (handle_of_open here) same f.offset len
        have onward := (w.files.moved_readAt f.descriptor f.offset len).toOnward
        have onward' := (w'.files.moved_readAt f'.descriptor f.offset len).toOnward
        simp only [if_true, id, offset]
        rcases transfer : w.files.readAt f.descriptor f.offset len with ⟨result, files⟩
        rcases transfer' : w'.files.readAt f'.descriptor f.offset len with ⟨result', files'⟩
        rw [transfer] at answer onward
        rw [transfer'] at answer onward'
        have answered : result = result' := answer
        subst answered
        have face : s.face files = s'.face files' := by
          rw [alike.tidy.face_onward onward, alike.tidy'.face_onward onward', alike.face]
        have seen := face_observed face w.versions w'.versions f.id
        cases result with
        | error e => exact ⟨rfl, seen⟩
        | ok window =>
            have bytes : overlay f.offset len window (s'.pendingOn f.id) =
                overlay f.offset len window (s.pendingOn f.id) := by
              simp only [pendingOn, (face_eq.1 face).2.2.2.1]
            have moved := face_setOffset seen h
              (f.offset + (overlay f.offset len window (s.pendingOn f.id)).length)
            refine ⟨congrArg Except.ok bytes.symm, moved.trans ?_⟩
            rw [← bytes]
            rfl

/-- The end of a file is where both see it. -/
theorem logicalLength_alike (alike : Alike opened s w s' w') {n : Nat} {f f' : OpenFile}
    (found : s.handles.get? n = some f) (same : sealed w.files f = sealed w'.files f') :
    s'.logicalLength f' w'.files = s.logicalLength f w.files := by
  obtain ⟨inode, d, d', known, known', still, file, file', content⟩ := alike.behind found same
  have length : w'.files.length f'.descriptor = w.files.length f.descriptor := by
    simp only [Filesystem.length, Filesystem.inode?, known, known', Option.bind_some, file, file',
      content]
  obtain ⟨id, -, -⟩ := sealed_fields same
  simp only [logicalLength, pendingOn, (face_eq.1 alike.face).2.2.2.1, length, id]

theorem write_alike (alike : Alike opened s w s' w') (h : FileHandle) (bytes : Bytes) :
    SameReply (s.write h bytes w) (s'.write h bytes w') := by
  unfold Files.write
  rw [alike.tidy.checkWritable, alike.tidy'.checkWritable]
  rcases openFile_alike alike.face h with ⟨e, here, there⟩ | ⟨f, f', here, there, same⟩
  · rw [here, there]
    exact ⟨rfl, alike.face⟩
  · obtain ⟨id, offset, flags⟩ := sealed_fields same
    have length := logicalLength_alike alike (handle_of_open here) same
    rw [here, there]
    simp only [flags]
    cases writable : f.flags.writes with
    | false => exact ⟨rfl, alike.face⟩
    | true =>
        simp only [if_true, id, offset, flags, length]
        have recorded := face_recorded alike.face w.versions w'.versions f.id
          (.deferred f.id (.write h
            (if f.flags.append then s.logicalLength f w.files else f.offset) bytes))
        have moved := face_setOffset recorded h
          ((if f.flags.append then s.logicalLength f w.files else f.offset) + bytes.length)
        exact ⟨rfl, moved⟩

theorem seek_alike (alike : Alike opened s w s' w') (h : FileHandle) (pos : SeekFrom) :
    SameReply (s.seek h pos w) (s'.seek h pos w') := by
  unfold Files.seek
  rcases openFile_alike alike.face h with ⟨e, here, there⟩ | ⟨f, f', here, there, same⟩
  · rw [here, there]
    exact ⟨rfl, alike.face⟩
  · obtain ⟨-, offset, -⟩ := sealed_fields same
    have length := logicalLength_alike alike (handle_of_open here) same
    have target : s'.seekTarget f' w'.files pos = s.seekTarget f w.files pos := by
      cases pos <;> simp only [seekTarget, offset, length]
    rw [here, there]
    simp only [target]
    cases s.seekTarget f w.files pos with
    | none => exact ⟨rfl, alike.face⟩
    | some n => exact ⟨rfl, face_setOffset alike.face h n⟩

theorem tell_alike (alike : Alike opened s w s' w') (h : FileHandle) :
    SameReply (s.tell h w) (s'.tell h w') := by
  refine ⟨?_, alike.face⟩
  simp only [tell]
  rcases openFile_alike alike.face h with ⟨e, here, there⟩ | ⟨f, f', here, there, same⟩
  · rw [here, there]
  · rw [here, there]
    exact congrArg Except.ok (congrArg (fun e => e.1.offset) same)

theorem close_alike (alike : Alike opened s w s' w') (h : FileHandle) :
    SameReply (s.close h w) (s'.close h w') := by
  unfold close
  rcases openFile_alike alike.face h with ⟨e, here, there⟩ | ⟨f, f', here, there, same⟩
  · rw [here, there]
    exact ⟨rfl, alike.face⟩
  · rw [here, there]
    exact ⟨rfl, face_closed alike.face h.number⟩

/-- **Work depends on the face and on what the open files hold.** -/
theorem perform_alike (alike : Alike opened s w s' w') {work : FileWork}
    (asked : ∀ path flags, work = .openPath path flags → opened path)
    (existing : ∀ path, opened path → (w.files.fileAt? path).isSome) :
    SameReply (work.perform s w) (work.perform s' w') := by
  cases work with
  | openPath path flags =>
      obtain ⟨inode, leads⟩ := Option.isSome_iff_exists.1 (existing path (asked path flags rfl))
      exact (openPath_alike alike leads flags).imp_left (congrArg (Except.map FileValue.handle))
  | read h len => exact (read_alike alike h len).imp_left (congrArg (Except.map FileValue.bytes))
  | write h bytes =>
      exact (write_alike alike h bytes).imp_left (congrArg (Except.map FileValue.number))
  | seek h pos => exact (seek_alike alike h pos).imp_left (congrArg (Except.map FileValue.number))
  | tell h => exact (tell_alike alike h).imp_left (congrArg (Except.map FileValue.number))
  | close h => exact (close_alike alike h).imp_left (congrArg (Except.map fun _ => FileValue.done))

end Alike

end Files

end Transact
