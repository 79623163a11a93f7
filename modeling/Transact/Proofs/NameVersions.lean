/-
# Transact.Proofs.NameVersions -- names stay unless their version goes up

Transactions create files where nothing stands and remove files and links, and nothing else happens to
names: directories stay, and descriptors stay on their files (`Filesystem.Keeps`).  Whoever removes a
name counts the version of its location up, in the same call.  So from world to world what stands
somewhere stands there still, or that version went up (`Drift`).

`Files.Anchored` is what the files of a transaction know in between: as long as the version of a
handle's resource is the one noted, the file of the handle stands there, and so does what it created.
Work keeps it (`Files.Anchored.filed`), and so does everything others do (`Files.Anchored.drift`).
-/
import Transact.Proofs.Conduct
import Transact.Proofs.Filings

namespace Transact

set_option autoImplicit false

/-! ## Names -/

namespace Filesystem

variable {lost lost' : Location → Prop} {fs fs' fs'' : Filesystem} {at_ : Location}

/-- From `fs` to `fs'` directories stayed, descriptors stayed on their files, new names are names in
directories, and what stood somewhere stands there still, unless it is `lost`. -/
structure Keeps (lost : Location → Prop) (fs fs' : Filesystem) : Prop where
  home : fs'.home = fs.home
  directories : ∀ at_, fs'.entry? at_ = some .directory ↔ fs.entry? at_ = some .directory
  stands : ∀ at_ e, fs.entry? at_ = some e → fs'.entry? at_ = some e ∨ lost at_
  placed : ∀ at_ e, fs'.entry? at_ = some e → fs.entry? at_ = some e ∨ fs.Spot at_
  next : fs.nextDescriptor ≤ fs'.nextDescriptor
  behind : ∀ n, n < fs.nextDescriptor → fs'.inode? n = fs.inode? n

namespace Keeps

theorem refl (lost : Location → Prop) (fs : Filesystem) : Keeps lost fs fs :=
  ⟨rfl, fun _ => Iff.rfl, fun _ _ => Or.inl, fun _ _ => Or.inl, Nat.le_refl _, fun _ _ => rfl⟩

theorem spot (keeps : Keeps lost fs fs') : fs'.Spot at_ ↔ fs.Spot at_ := by
  simp only [Spot, keeps.directories]

theorem trans (first : Keeps lost fs fs') (second : Keeps lost fs' fs'') : Keeps lost fs fs'' where
  home := second.home.trans first.home
  directories at_ := (second.directories at_).trans (first.directories at_)
  stands at_ e stood := by
    rcases first.stands at_ e stood with still | gone
    · exact second.stands at_ e still
    · exact Or.inr gone
  placed at_ e there := by
    rcases second.placed at_ e there with before | new
    · exact first.placed at_ e before
    · exact Or.inr (first.spot.1 new)
  next := Nat.le_trans first.next second.next
  behind n known :=
    (second.behind n (Nat.lt_of_lt_of_le known first.next)).trans (first.behind n known)

theorem mono (keeps : Keeps lost fs fs') (weaken : ∀ at_, lost at_ → lost' at_) :
    Keeps lost' fs fs' :=
  { keeps with stands := fun at_ e stood => (keeps.stands at_ e stood).imp_right (weaken at_) }

theorem sound (keeps : Keeps lost fs fs') (sound : fs.Sound) : fs'.Sound where
  home := by rw [keeps.home, keeps.directories]; exact sound.home
  placed at_ e there :=
    keeps.spot.2 ((keeps.placed at_ e there).elim (sound.placed at_ e) id)

theorem roomy (keeps : Keeps lost fs fs') (roomy : fs.Roomy) : fs'.Roomy :=
  fun directory name stands short => roomy directory name ((keeps.directories _).1 stands) short

end Keeps

/-- Where no name changes every name is kept. -/
theorem Onward.keeps (onward : Onward fs fs') : Keeps lost fs fs' where
  home := onward.tree.home
  directories at_ := by rw [onward.tree.entry?]
  stands at_ e stood := Or.inl ((onward.tree.entry? at_).trans stood)
  placed at_ e there := Or.inl ((onward.tree.entry? at_).symm.trans there)
  next := onward.next
  behind _ known := onward.inode? known

theorem entry?_addFile (fs : Filesystem) {at_ : Location} (below : at_ ≠ []) (there : Location) :
    Filesystem.entry? (fs.addFile at_).2 there =
      if there = at_ then some (.file fs.nextInode) else fs.entry? there := by
  simp only [Filesystem.entry?, addFile]
  by_cases root : there = []
  · rw [if_pos root, if_pos root, if_neg fun same => below (same.symm.trans root)]
  · rw [if_neg root, if_neg root]
    by_cases here : there = at_
    · rw [if_pos here, here, Table.get?_set_self]
    · rw [if_neg here, Table.get?_set_of_ne _ _ here]

theorem entry?_eraseEntry (fs : Filesystem) {at_ : Location} (below : at_ ≠ []) (there : Location) :
    Filesystem.entry? (fs.eraseEntry at_) there = if there = at_ then none else fs.entry? there := by
  simp only [Filesystem.entry?, eraseEntry]
  by_cases root : there = []
  · rw [if_pos root, if_pos root, if_neg fun same => below (same.symm.trans root)]
  · rw [if_neg root, if_neg root]
    by_cases here : there = at_
    · rw [if_pos here, here, Table.get?_erase_self]
    · rw [if_neg here, Table.get?_erase_of_ne _ here]

/-- A new file stands where nothing stood. -/
theorem keeps_addFile (free : fs.entry? at_ = none) (spot : fs.Spot at_) :
    Keeps lost fs (fs.addFile at_).2 := by
  have below : at_ ≠ [] := by
    rintro rfl
    rw [entry?_root] at free
    cases free
  refine ⟨rfl, fun there => ?_, fun there e stood => Or.inl ?_, fun there e stands => ?_,
    Nat.le_refl _, fun _ _ => rfl⟩
  · rw [entry?_addFile fs below]
    by_cases here : there = at_
    · rw [if_pos here, here, free]
      exact ⟨fun same => (by cases same), fun same => (by cases same)⟩
    · rw [if_neg here]
  · rw [entry?_addFile fs below, if_neg, stood]
    rintro rfl
    rw [free] at stood
    cases stood
  · rw [entry?_addFile fs below] at stands
    by_cases here : there = at_
    · exact Or.inr (here ▸ spot)
    · rw [if_neg here] at stands
      exact Or.inl stands

/-- A name that is removed is lost, and no directory is. -/
theorem keeps_eraseEntry (below : at_ ≠ []) (file : fs.entry? at_ ≠ some .directory)
    (gone : lost at_) : Keeps lost fs (fs.eraseEntry at_) := by
  refine ⟨rfl, fun there => ?_, fun there e stood => ?_, fun there e stands => Or.inl ?_,
    Nat.le_refl _, fun _ _ => rfl⟩
  · rw [entry?_eraseEntry fs below]
    by_cases here : there = at_
    · rw [if_pos here, here]
      exact ⟨fun same => (by cases same), fun same => absurd same file⟩
    · rw [if_neg here]
  · rw [entry?_eraseEntry fs below]
    by_cases here : there = at_
    · exact Or.inr (here ▸ gone)
    · rw [if_neg here]
      exact Or.inl stood
  · rw [entry?_eraseEntry fs below] at stands
    by_cases here : there = at_
    · rw [if_pos here] at stands
      cases stands
    · rwa [if_neg here] at stands

end Filesystem

/-! ## Names and versions -/

/-- From `w` to `w'` versions went up at most, and a name is lost only where its version went up. -/
structure Drift (w w' : World) : Prop where
  versions : ∀ id, w.versions.current id ≤ w'.versions.current id
  names : Filesystem.Keeps
    (fun at_ => w.versions.current (.path (Path.ofNames at_)) <
      w'.versions.current (.path (Path.ofNames at_))) w.files w'.files

namespace Drift

variable {who : TxId} {w w' w'' : World}

theorem trans (first : Drift w w') (second : Drift w' w'') : Drift w w'' where
  versions id := Nat.le_trans (first.versions id) (second.versions id)
  names := (first.names.mono fun _ up => Nat.lt_of_lt_of_le up (second.versions _)).trans
    (second.names.mono fun _ up => Nat.lt_of_le_of_lt (first.versions _) up)

theorem ofPublishing (publishing : Publishing who w w') : Drift w w' where
  versions := publishing.versions
  names := by rw [publishing.files]; exact .refl _ _

theorem ofStill (still : Still who w w') : Drift w w' := .ofPublishing still.publishing

theorem refl (w : World) : Drift w w := .ofStill ((frame_still ⟨0, ""⟩).refl w)

/-- A change of files that loses no name. -/
theorem ofFiles {files : Filesystem} (keeps : Filesystem.Keeps (fun _ => False) w.files files) :
    Drift w { w with files } where
  versions _ := Nat.le_refl _
  names := keeps.mono fun _ never => never.elim

theorem ofSame (files : w'.files = w.files) (versions : w'.versions = w.versions) : Drift w w' where
  versions id := by rw [versions]
  names := by rw [files]; exact .refl _ _

end Drift

/-! ## What a job does to names -/

namespace Files

variable {w w' : World} {s s' : Files} {at_ : Location}

theorem creationOf_inj (sound : w.files.Sound) {other : Location} (spot : w.files.Spot at_)
    (spot' : w.files.Spot other) (same : creationOf at_ = creationOf other) : at_ = other :=
  Filesystem.Spot.eq_of_key sound spot spot' (congrArg (fun r => r.resource.key) same)

/-- A job loses no name. -/
theorem Filed.keeps {lost : Location → Prop} (filed : Filed w s w' s') :
    Filesystem.Keeps lost w.files w'.files := by
  cases filed with
  | found at_ e d => exact (Filesystem.onward_addDescriptor w.files d).keeps
  | created at_ d flags spot free =>
      exact (Filesystem.keeps_addFile free spot).trans (Filesystem.onward_addDescriptor _ d).keeps
  | adopted fd id => exact .refl _ _
  | quiet moved touched =>
      rcases moved with rfl | ⟨n, f, found, shifted⟩
      · exact .refl _ _
      · exact shifted.toOnward.keeps

theorem Filed.drift (filed : Filed w s w' s') : Drift w w' where
  versions _ := by rw [filed.versions]
  names := filed.keeps

/-- A file that is created stands where nothing stood. -/
theorem Filed.creations (filed : Filed w s w' s') (sound : w.files.Sound)
    (spot : w.files.Spot at_) (written : creationOf at_ ∈ s'.log.records) :
    creationOf at_ ∈ s.log.records ∨ w.files.entry? at_ = none ∧
      w'.files.entry? at_ = some (.file w.files.nextInode) := by
  cases filed with
  | found other => exact Or.inl written
  | created other d flags spot' free =>
      rcases List.mem_append.1 written with before | last
      · exact Or.inl before
      · cases creationOf_inj sound spot spot' (List.mem_singleton.1 last)
        have below : at_ ≠ [] := by
          rintro rfl
          simp at free
        exact Or.inr ⟨free, (Filesystem.entry?_addFile w.files below at_).trans (if_pos rfl)⟩
  | adopted fd id =>
      rcases List.mem_append.1 written with before | last
      · exact Or.inl before
      · cases List.mem_singleton.1 last
  | quiet moved touched =>
      obtain ⟨new, appended, off⟩ := touched.records
      rw [appended] at written
      rcases List.mem_append.1 written with before | last
      · exact Or.inl before
      · rcases off _ last with ⟨h, offset, bytes, work⟩ | ⟨work, -⟩ <;> cases work

/-- Where a file appears its creation is written down. -/
theorem Filed.appears (filed : Filed w s w' s') (free : w.files.entry? at_ = none)
    (stands : w'.files.entry? at_ ≠ none) : creationOf at_ ∈ s'.log.records := by
  have same {files : Filesystem} (tree : Filesystem.SameTree w.files files)
      (stands : files.entry? at_ ≠ none) : creationOf at_ ∈ s'.log.records := by
    rw [tree.entry?, free] at stands
    exact absurd rfl stands
  cases filed with
  | found other e d => exact same (Filesystem.onward_addDescriptor w.files d).tree stands
  | adopted fd id => exact same (.refl w.files) stands
  | quiet moved touched =>
      rcases moved with rfl | ⟨n, f, -, shifted⟩
      · exact same (.refl w.files) stands
      · exact same shifted.tree stands
  | created other d flags spot free' =>
      have below : other ≠ [] := by
        rintro rfl
        simp at free'
      by_cases here : at_ = other
      · rw [here]
        exact List.mem_append_right _ List.mem_cons_self
      · have there := Filesystem.entry?_addFile w.files below at_
        rw [if_neg here, free] at there
        exact absurd there stands

/-- A job writes to no file that was there. -/
theorem Filed.contents (filed : Filed w s w' s') : w.files.nextInode ≤ w'.files.nextInode ∧
    ∀ inode, inode < w.files.nextInode → w'.files.content inode = w.files.content inode := by
  cases filed with
  | found at_ e d => exact ⟨Nat.le_refl _, fun _ _ => rfl⟩
  | adopted fd id => exact ⟨Nat.le_refl _, fun _ _ => rfl⟩
  | created at_ d =>
      refine ⟨Nat.le_succ _, fun inode known => ?_⟩
      have other := Filesystem.content_setContent w.files w.files.nextInode inode {}
      rw [if_neg (Nat.ne_of_lt known)] at other
      exact other
  | quiet moved touched =>
      rcases moved with rfl | ⟨n, f, found, shifted⟩
      · exact ⟨Nat.le_refl _, fun _ _ => rfl⟩
      · exact ⟨Nat.le_of_eq shifted.inodes.symm, fun inode _ => shifted.toMoved.content inode⟩

end Files

/-! ## Files at anchor -/

namespace Files

/-- A file opened under the path of a location: while the version noted is in force, its file stands
there. -/
structure Holding (w : World) (a : AccessSet) (f : OpenFile) : Prop where
  known : f.descriptor < w.files.nextDescriptor
  names : ∃ at_ seen, f.id = .path (Path.ofNames at_) ∧ a.snapshot f.id = some seen ∧
    (w.versions.current f.id = seen → ∀ inode, w.files.inode? f.descriptor = some inode →
      w.files.entry? at_ = some (.file inode))

/-- A creation or a removal is written down for the path of a location, which is to be published. -/
def Booked (w : World) (s : Files) (r : Record FileEffect) : Prop :=
  r.payload = .create ∨ r.payload = .remove →
    ∃ at_, r.resource = .path (Path.ofNames at_) ∧ w.files.Spot at_ ∧
      s.access.isWritten r.resource = true ∧ (r.payload = .remove → r.resource.key ∈ s.removed)

/-- A creation is written down for a location: while the version noted is in force, something stands
there. -/
def Founded (w : World) (a : AccessSet) (r : Record FileEffect) : Prop :=
  r.payload = .create → ∃ at_ seen, r = creationOf at_ ∧
    a.snapshot (.path (Path.ofNames at_)) = some seen ∧
    (w.versions.current (.path (Path.ofNames at_)) = seen → w.files.entry? at_ ≠ none)

/-- What the files of a transaction know of the world. -/
structure Anchored (w : World) (s : Files) : Prop where
  keyed : s.access.Keyed
  notes : ∀ id seen, s.access.snapshot id = some seen → seen ≤ w.versions.current id
  handles : ∀ n f, s.handles.get? n = some f → f.adopted = false → Holding w s.access f
  records : ∀ r ∈ s.log.records, Booked w s r
  creations : ∀ r ∈ s.log.records, Founded w s.access r

variable {w w' : World} {s s' : Files}

theorem Anchored.fresh (w : World) : Anchored w {} where
  keyed := .empty
  notes _ _ noted := by cases noted
  handles _ _ found := by cases found
  records _ member := absurd member List.not_mem_nil
  creations _ member := absurd member List.not_mem_nil

/-! ### What others do -/

section Others

variable {a : AccessSet} (notes : ∀ id seen, a.snapshot id = some seen → seen ≤ w.versions.current id)
  (since : Drift w w')

include notes since

/-- Where the version noted is still in force nothing was lost. -/
theorem stands_of_current {at_ : Location} {seen : Nat} {e : Entry}
    (noted : a.snapshot (.path (Path.ofNames at_)) = some seen)
    (current : w'.versions.current (.path (Path.ofNames at_)) = seen)
    (stood : w.files.entry? at_ = some e) : w'.files.entry? at_ = some e := by
  have before := notes _ _ noted
  rcases since.names.stands at_ e stood with still | lost
  · exact still
  · omega

theorem current_of_current {id : ResourceId} {seen : Nat} (noted : a.snapshot id = some seen)
    (current : w'.versions.current id = seen) : w.versions.current id = seen := by
  have before := notes _ _ noted
  have up := since.versions id
  omega

theorem Holding.drift {f : OpenFile} (holding : Holding w a f) : Holding w' a f where
  known := Nat.lt_of_lt_of_le holding.known since.names.next
  names := by
    obtain ⟨at_, seen, named, noted, there⟩ := holding.names
    refine ⟨at_, seen, named, noted, fun current inode behind => ?_⟩
    rw [since.names.behind _ holding.known] at behind
    have stood := there (current_of_current notes since noted current) inode behind
    rw [named] at noted current
    exact stands_of_current notes since noted current stood

theorem Founded.drift {r : Record FileEffect} (founded : Founded w a r) : Founded w' a r := by
  intro create
  obtain ⟨at_, seen, named, noted, there⟩ := founded create
  refine ⟨at_, seen, named, noted, fun current => ?_⟩
  obtain ⟨e, stood⟩ := Option.ne_none_iff_exists'.1
    (there (current_of_current notes since noted current))
  rw [stands_of_current notes since noted current stood]
  exact Option.some_ne_none e

end Others

theorem Booked.drift {r : Record FileEffect} (booked : Booked w s r) (drift : Drift w w') :
    Booked w' s r := by
  intro tree
  obtain ⟨at_, named, spot, rest⟩ := booked tree
  exact ⟨at_, named, drift.names.spot.2 spot, rest⟩

/-- What others do leaves the anchor where it is. -/
theorem Anchored.drift (anchored : Anchored w s) (drift : Drift w w') : Anchored w' s where
  keyed := anchored.keyed
  notes id seen noted := Nat.le_trans (anchored.notes id seen noted) (drift.versions id)
  handles n f found own := (anchored.handles n f found own).drift anchored.notes drift
  records r member := (anchored.records r member).drift drift
  creations r member := (anchored.creations r member).drift anchored.notes drift

/-! ### Work -/

/-- A step of work: what was there is kept, and what is new is in order. -/
theorem Anchored.next (anchored : Anchored w s) (drift : Drift w w')
    (same : w'.versions = w.versions) (grown : s.access.Grown w.versions s'.access)
    (handles : ∀ n f', s'.handles.get? n = some f' → f'.adopted = false →
      (∃ f, s.handles.get? n = some f ∧ f'.lasting = f.lasting) ∨ Holding w' s'.access f')
    (records : ∀ r ∈ s'.log.records, r ∈ s.log.records ∨ Booked w' s' r ∧ Founded w' s'.access r)
    (removed : ∀ k ∈ s.removed, k ∈ s'.removed) : Anchored w' s' where
  keyed := grown.keyed anchored.keyed
  notes id seen noted := by
    rw [same]
    rcases grown.new id seen noted with before | now
    · exact anchored.notes id seen before
    · exact Nat.le_of_eq now.symm
  handles n f' found own := by
    rcases handles n f' found own with ⟨f, before, lasting⟩ | holding
    · obtain ⟨adopted, id, descriptor⟩ := OpenFile.same_of_lasting lasting
      have holding := (anchored.handles n f before (adopted.symm.trans own)).drift anchored.notes drift
      obtain ⟨at_, seen, named, noted, there⟩ := holding.names
      refine ⟨descriptor ▸ holding.known, at_, seen, id.trans named, ?_, ?_⟩
      · rw [id]
        exact grown.kept _ _ noted
      · rw [id, descriptor]
        exact there
    · exact holding
  records r member := by
    rcases records r member with before | ⟨booked, -⟩
    · intro tree
      obtain ⟨at_, named, spot, written, listed⟩ := (anchored.records r before).drift drift tree
      exact ⟨at_, named, spot, grown.written _ written, fun remove => removed _ (listed remove)⟩
    · exact booked
  creations r member := by
    rcases records r member with before | ⟨-, founded⟩
    · intro create
      obtain ⟨at_, seen, named, noted, there⟩ :=
        (anchored.creations r before).drift anchored.notes drift create
      exact ⟨at_, seen, named, grown.kept _ _ noted, there⟩
    · exact founded

theorem Anchored.found (anchored : Anchored w s) {at_ : Location} {e : Entry} {d : Descriptor}
    (stands : w.files.entry? at_ = some e)
    (file : ∀ inode, d.inode = some inode → e = .file inode) (flags : OpenFlags) :
    Anchored { w with files := (w.files.addDescriptor d).2 }
      (s.opened w.versions (.path (Path.ofNames at_)) w.files.nextDescriptor flags false) := by
  have grown := AccessSet.grown_observe w.versions s.access (.path (Path.ofNames at_))
  obtain ⟨seen, noted⟩ := AccessSet.snapshot_observe w.versions s.access (.path (Path.ofNames at_))
  refine anchored.next (.ofFiles (Filesystem.onward_addDescriptor ..).keeps) rfl grown
    (fun n f' found own => ?_) (fun r => Or.inl) fun k member => member
  simp only [opened] at found
  by_cases new : n = s.nextHandle
  · rw [new, Table.get?_set_self] at found
    cases found
    refine Or.inr ⟨Nat.lt_succ_self _, at_, seen, rfl, noted, fun _ inode behind => ?_⟩
    have same := Filesystem.inode?_addDescriptor w.files d
    rw [← file inode (same.symm.trans behind)]
    exact stands
  · rw [Table.get?_set_of_ne _ _ new] at found
    exact Or.inl ⟨f', found, rfl⟩

theorem Anchored.created (anchored : Anchored w s) {at_ : Location} {d : Descriptor}
    (spot : w.files.Spot at_) (free : w.files.entry? at_ = none)
    (file : d.inode = some w.files.nextInode) (flags : OpenFlags) :
    Anchored { w with files := ((w.files.addFile at_).2.addDescriptor d).2 }
      (s.opened w.versions (.path (Path.ofNames at_)) w.files.nextDescriptor flags true) := by
  have grown := AccessSet.grown_write w.versions s.access (.path (Path.ofNames at_))
  obtain ⟨seen, noted⟩ := AccessSet.snapshot_observe w.versions s.access (.path (Path.ofNames at_))
  rw [← AccessSet.snapshot_write] at noted
  have drift := (Filed.created (s := s) at_ d flags spot free file).drift
  have below : at_ ≠ [] := by
    rintro rfl
    simp at free
  have stands : Filesystem.entry? (w.files.addFile at_).2 at_ = some (.file w.files.nextInode) :=
    (Filesystem.entry?_addFile w.files below at_).trans (if_pos rfl)
  refine anchored.next drift rfl grown (fun n f' found own => ?_) (fun r member => ?_)
    fun k member => member
  · simp only [opened] at found
    by_cases new : n = s.nextHandle
    · rw [new, Table.get?_set_self] at found
      cases found
      refine Or.inr ⟨Nat.lt_succ_self _, at_, seen, rfl, noted, fun _ inode behind => ?_⟩
      have same := Filesystem.inode?_addDescriptor (w.files.addFile at_).2 d
      have new := file.symm.trans (same.symm.trans behind)
      cases new
      exact stands
    · rw [Table.get?_set_of_ne _ _ new] at found
      exact Or.inl ⟨f', found, rfl⟩
  · rcases List.mem_append.1 member with before | last
    · exact Or.inl before
    · rw [List.mem_singleton.1 last]
      refine Or.inr ⟨fun _ => ⟨at_, rfl, drift.names.spot.2 spot, AccessSet.isWritten_write ..,
        fun remove => by cases remove⟩, fun _ => ⟨at_, seen, rfl, noted, fun _ => ?_⟩⟩
      exact Option.ne_none_iff_exists'.2 ⟨_, stands⟩

/-- **Work stays at anchor.** -/
theorem Anchored.filed (anchored : Anchored w s) (sound : w.files.Sound) (filed : Filed w s w' s') :
    Anchored w' s' := by
  have drift := filed.drift
  cases filed with
  | found at_ e d flags stands file => exact anchored.found stands file flags
  | created at_ d flags spot free file => exact anchored.created spot free file flags
  | adopted fd id =>
      refine anchored.next drift rfl (AccessSet.grown_observe ..)
        (fun n f' found own => ?_) (fun r member => ?_) fun k member => member
      · simp only [adopting] at found
        by_cases new : n = s.nextHandle
        · rw [new, Table.get?_set_self] at found
          cases found
          cases own
        · rw [Table.get?_set_of_ne _ _ new] at found
          exact Or.inl ⟨f', found, rfl⟩
      · rcases List.mem_append.1 member with before | last
        · exact Or.inl before
        · rw [List.mem_singleton.1 last]
          exact Or.inr ⟨fun tree => tree.elim (fun same => (by cases same)) fun same => (by cases same),
            fun create => (by cases create)⟩
  | quiet moved touched =>
      refine anchored.next drift rfl touched.grown
        (fun n f' found own => Or.inl ?_) (fun r member => ?_) touched.removed
      · have same := touched.handles n
        rw [found, Option.map_some] at same
        obtain ⟨f, before, lasting⟩ := Option.map_eq_some_iff.1 same.symm
        exact ⟨f, before, lasting.symm⟩
      · obtain ⟨new, appended, off⟩ := touched.records
        rw [appended] at member
        rcases List.mem_append.1 member with before | last
        · exact Or.inl before
        · refine Or.inr ?_
          rcases off r last with ⟨h, offset, bytes, write⟩ | ⟨remove, at_, e, named, stands, rest⟩
          · rw [Booked, Founded, write]
            exact ⟨fun tree => tree.elim (fun same => (by cases same)) fun same => (by cases same),
              fun create => (by cases create)⟩
          · refine ⟨fun _ => ⟨at_, named, ?_, rest.1, fun _ => rest.2⟩,
              fun create => by rw [remove] at create; cases create⟩
            exact drift.names.spot.2 (sound.placed at_ e stands)

end Files

end Transact
