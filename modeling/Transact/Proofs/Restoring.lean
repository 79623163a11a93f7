/-
# Transact.Proofs.Restoring -- undo takes back what work did to files

The files of one transaction at work, while nobody else does anything, are compared with the world in
which they began.  Only what was created is new in the tree, under the versions noted (`Built`); of the
descriptors from outside only adopted ones have moved, and the oldest record of an adoption knows where
from (`Displaced`).

So undo restores names, contents and descriptors, and counts up the versions of what was created alone
(`Built.undo`, `Displaced.undo`).
-/
import Transact.Proofs.Undoing

namespace Transact

set_option autoImplicit false

/-! ## Descriptors -/

namespace Filesystem

variable {fs fs' : Filesystem} {fd : Nat}

/-- Descriptors that differ in their positions are alike at one position. -/
theorem positioned_of_still {d d' : Option Descriptor}
    (still : d'.map Descriptor.still = d.map Descriptor.still) (position : Nat) :
    d'.map (fun d => { d with position }) = d.map (fun d => { d with position }) := by
  have moved := congrArg (Option.map fun d : Descriptor => { d with position }) still
  rwa [Option.map_map, Option.map_map] at moved

theorem positionLimit_of_still
    (still : (fs'.descriptors.get? fd).map Descriptor.still =
      (fs.descriptors.get? fd).map Descriptor.still) :
    fs'.positionLimit fd = fs.positionLimit fd := by
  have inodes := congrArg (Option.map Descriptor.inode) still
  rw [Option.map_map, Option.map_map] at inodes
  have inode : fs'.inode? fd = fs.inode? fd := by
    simp only [inode?]
    cases here : fs.descriptors.get? fd <;> cases there : fs'.descriptors.get? fd <;>
      rw [here, there] at inodes <;> simp_all [Descriptor.still]
  rw [positionLimit, inode, ← positionLimit]

theorem get?_setPosition_of (fs : Filesystem) (fd other position : Nat) :
    (fs.setPosition fd position).descriptors.get? other =
      if other = fd then (fs.descriptors.get? fd).map (fun d => { d with position })
      else fs.descriptors.get? other := by
  simp only [setPosition, Table.get?_modify]

end Filesystem

namespace Files

variable {w₀ w w' : World} {s s' : Files} {tx : TxId} {at_ : Location} {r : Record FileEffect}

/-- Where a record puts `fd` back to. -/
def backTo (handles : Table Nat OpenFile) (fd : Nat) (r : Record FileEffect) : Option Nat :=
  match r.payload, r.preState with
  | .adopt h, some (.offset before) =>
      match handles.get? h.number with
      | some f => if f.descriptor = fd then some before else none
      | none => none
  | _, _ => none

/-- Where the oldest of the records puts `fd` back to. -/
def firstBack (handles : Table Nat OpenFile) (fd : Nat) (rs : List (Record FileEffect)) :
    Option Nat :=
  rs.findSome? (backTo handles fd)

theorem backTo_some {handles : Table Nat OpenFile} {fd before : Nat} :
    backTo handles fd r = some before ↔ ∃ h f, r.payload = .adopt h ∧
      r.preState = some (.offset before) ∧ handles.get? h.number = some f ∧ f.descriptor = fd := by
  unfold backTo
  constructor
  · intro back
    split at back
    · next h b adoption offset =>
      split at back
      · next f found =>
        split at back
        · next here =>
          cases back
          exact ⟨h, f, adoption, offset, found, here⟩
        · cases back
      · cases back
    · cases back
  · rintro ⟨h, f, adoption, offset, found, here⟩
    simp only [adoption, offset, found, if_pos here]

/-- What undoing a record does to a descriptor. -/
theorem Undoing.descriptor (undoing : Undoing tx s w r w') (fd : Nat) :
    (w'.files.descriptors.get? fd).map Descriptor.still =
        (w.files.descriptors.get? fd).map Descriptor.still ∧
      (backTo s.handles fd r = none →
        w'.files.descriptors.get? fd = w.files.descriptors.get? fd) ∧
      ∀ before, backTo s.handles fd r = some before → before ≤ w.files.positionLimit fd →
        w'.files.descriptors.get? fd =
          (w.files.descriptors.get? fd).map fun d => { d with position := before } := by
  cases undoing with
  | left locks eased standing astray =>
      refine ⟨rfl, fun _ => rfl, fun before back reached => ?_⟩
      obtain ⟨h, f, adoption, offset, found, rfl⟩ := backTo_some.1 back
      exact absurd reached (Nat.not_le.2 (astray h before f adoption offset found))
  | removed other e locks eased creation =>
      refine ⟨rfl, fun _ => rfl, fun before back _ => ?_⟩
      obtain ⟨h, f, adoption, -⟩ := backTo_some.1 back
      rw [creation] at adoption
      cases adoption
  | sought h before f adoption offset found reached =>
      have moved := Filesystem.get?_setPosition_of w.files f.descriptor fd before
      refine ⟨?_, fun nothing => ?_, fun other back _ => ?_⟩
      · rw [moved]
        split
        · next here =>
          rw [here, Option.map_map]
          rfl
        · rfl
      · have elsewhere : fd ≠ f.descriptor := by
          rintro rfl
          rw [backTo_some.2 ⟨h, f, adoption, offset, found, rfl⟩] at nothing
          cases nothing
        rw [moved, if_neg elsewhere]
      · obtain ⟨h', f', adoption', offset', found', rfl⟩ := backTo_some.1 back
        rw [adoption] at adoption'
        cases adoption'
        rw [found] at found'
        cases found'
        rw [offset] at offset'
        cases offset'
        rw [moved, if_pos rfl]

/-! ## The whole undo -/

section Undo

variable (anchored : Anchored w s) (sound : w.files.Sound) (roomy : w.files.Roomy) (ctx : Context)

include anchored sound roomy

/-- Undo puts nothing into the tree. -/
theorem Anchored.undo_fewer {e : Entry}
    (stands : Filesystem.entry? (s.undo ctx w).2.2.files at_ = some e) :
    w.files.entry? at_ = some e := by
  refine anchored.undo_induction sound roomy ctx (motive := fun _ w' =>
    w'.files.entry? at_ = some e → w.files.entry? at_ = some e) id ?_ stands
  intro r rest w₁ w₂ _ _ before undoing there
  refine before ?_
  cases undoing with
  | left locks => exact there
  | sought h b f => rwa [Filesystem.SameTree.entry? (Filesystem.onward_setPosition ..).tree] at there
  | removed other e' locks eased creation current stands' file =>
      have below := Filesystem.below_of_stands stands' file
      have erased := Filesystem.entry?_eraseEntry w₁.files below at_
      by_cases here : at_ = other
      · rw [if_pos here] at erased
        exact absurd (erased.symm.trans there) (by simp)
      · rw [if_neg here] at erased
        exact erased.symm.trans there

/-- Undo counts up the versions of what was created alone. -/
theorem Anchored.undo_versions {id : ResourceId}
    (up : (s.undo ctx w).2.2.versions.current id ≠ w.versions.current id) :
    ∃ at_, creationOf at_ ∈ s.log.records ∧ id.key = (ResourceId.path (Path.ofNames at_)).key := by
  refine anchored.undo_induction sound roomy ctx (motive := fun _ w' =>
    w'.versions.current id ≠ w.versions.current id →
      ∃ at_, creationOf at_ ∈ s.log.records ∧ id.key = (ResourceId.path (Path.ofNames at_)).key)
    (fun same => absurd rfl same) ?_ up
  intro r rest w₁ w₂ within _ before undoing up
  cases undoing with
  | left locks => exact before up
  | sought h b f => exact before up
  | removed other e locks eased creation =>
      have bumped := AccessSet.current_bump w₁.versions (.path (Path.ofNames other)) id
      by_cases here : id.key = (ResourceId.path (Path.ofNames other)).key
      · exact ⟨other, creation ▸ within.subset List.mem_cons_self, here⟩
      · rw [if_neg here] at bumped
        exact before fun same => up (bumped.trans same)

/-- Undo puts every adopted descriptor where its first adoption found it, and moves no other. -/
theorem Anchored.undo_descriptor (fd : Nat) :
    (firstBack s.handles fd s.log.records = none →
        (s.undo ctx w).2.2.files.descriptors.get? fd = w.files.descriptors.get? fd) ∧
      ∀ before, firstBack s.handles fd s.log.records = some before →
        before ≤ w.files.positionLimit fd →
        (s.undo ctx w).2.2.files.descriptors.get? fd =
          (w.files.descriptors.get? fd).map fun d => { d with position := before } := by
  have all := anchored.undo_induction sound roomy ctx (motive := fun rs w' =>
    (w'.files.descriptors.get? fd).map Descriptor.still =
        (w.files.descriptors.get? fd).map Descriptor.still ∧
      (firstBack s.handles fd rs = none →
        w'.files.descriptors.get? fd = w.files.descriptors.get? fd) ∧
      ∀ before, firstBack s.handles fd rs = some before → before ≤ w.files.positionLimit fd →
        w'.files.descriptors.get? fd =
          (w.files.descriptors.get? fd).map fun d => { d with position := before })
    ⟨rfl, fun _ => rfl, fun _ nothing => by cases nothing⟩ ?_
  · exact all.2
  rintro r rest w₁ w₂ - - ⟨still, unmoved, first⟩ undoing
  obtain ⟨still', none', back⟩ := undoing.descriptor fd
  refine ⟨still'.trans still, ?_⟩
  cases own : backTo s.handles fd r with
  | none =>
      have later : firstBack s.handles fd (r :: rest) = firstBack s.handles fd rest := by
        rw [firstBack, List.findSome?_cons, own, ← firstBack]
      rw [later, none' own]
      exact ⟨unmoved, first⟩
  | some before =>
      have here : firstBack s.handles fd (r :: rest) = some before := by
        rw [firstBack, List.findSome?_cons, own]
      rw [here]
      refine ⟨fun same => (by cases same), fun other same reached => ?_⟩
      cases same
      rw [back before own (Filesystem.positionLimit_of_still still ▸ reached)]
      exact Filesystem.positioned_of_still still before

end Undo

/-! ## Work compared with its beginning -/

/-- What is new since `w₀` is what was created, and what was touched is noted under its version then. -/
structure Built (w₀ w : World) (s : Files) : Prop where
  versions : w.versions = w₀.versions
  notes : ∀ id seen, s.access.snapshot id = some seen → w₀.versions.current id = seen
  keeps : Filesystem.Keeps (fun _ => False) w₀.files w.files
  appeared : ∀ at_, w₀.files.entry? at_ = none → w.files.entry? at_ ≠ none →
    creationOf at_ ∈ s.log.records
  created : ∀ at_, w.files.Spot at_ → creationOf at_ ∈ s.log.records →
    w₀.files.entry? at_ = none ∧ ∃ inode, w.files.entry? at_ = some (.file inode)
  inodes : w₀.files.nextInode ≤ w.files.nextInode
  contents : ∀ inode, inode < w₀.files.nextInode → w.files.content inode = w₀.files.content inode

theorem Built.fresh (w : World) : Built w w {} where
  versions := rfl
  notes _ _ noted := by cases noted
  keeps := .refl _ _
  appeared at_ free stands := absurd free stands
  created _ _ written := absurd written List.not_mem_nil
  inodes := Nat.le_refl _
  contents _ _ := rfl

/-- It depends on files and versions, and not on the locks held. -/
theorem Built.alike (built : Built w₀ w s) (files : w'.files = w.files)
    (versions : w'.versions = w.versions) (held : HeldLocks) : Built w₀ w' { s with held } where
  versions := versions.trans built.versions
  notes := built.notes
  keeps := files ▸ built.keeps
  appeared := files ▸ built.appeared
  created := files ▸ built.created
  inodes := files ▸ built.inodes
  contents := files ▸ built.contents

theorem Built.stands (built : Built w₀ w s) {e : Entry} (stood : w₀.files.entry? at_ = some e) :
    w.files.entry? at_ = some e :=
  (built.keeps.stands at_ e stood).resolve_right id

theorem Built.filed (built : Built w₀ w s) (sound : w.files.Sound) (filed : Filed w s w' s') :
    Built w₀ w' s' where
  versions := filed.versions.trans built.versions
  notes id seen noted := by
    rcases filed.grown.new id seen noted with before | now
    · exact built.notes id seen before
    · rw [← built.versions]
      exact now
  keeps := built.keeps.trans filed.keeps
  appeared at_ free stands := by
    by_cases before : w.files.entry? at_ = none
    · exact filed.appears before stands
    · exact filed.records (built.appeared at_ free before)
  created at_ spot written := by
    have keeps : Filesystem.Keeps (fun _ => False) w.files w'.files := filed.keeps
    rcases filed.creations sound (keeps.spot.1 spot) written with before | ⟨free, stands⟩
    · obtain ⟨nothing, inode, stood⟩ := built.created at_ (keeps.spot.1 spot) before
      exact ⟨nothing, inode, (keeps.stands at_ _ stood).resolve_right id⟩
    · refine ⟨?_, _, stands⟩
      cases stood : w₀.files.entry? at_ with
      | none => rfl
      | some e =>
          rw [built.stands stood] at free
          cases free
  inodes := Nat.le_trans built.inodes filed.contents.1
  contents inode known :=
    (filed.contents.2 inode (Nat.lt_of_lt_of_le known built.inodes)).trans
      (built.contents inode known)

/-- **Undo takes back what was built**: the tree is as it was, and only versions of what was created
went up. -/
theorem Built.undo (built : Built w₀ w s) (anchored : Anchored w s) (sound : w.files.Sound)
    (roomy : w.files.Roomy) (ctx : Context) (free : ∀ k, w.locks.Open ctx.tx k) :
    (∀ at_, Filesystem.entry? (s.undo ctx w).2.2.files at_ = w₀.files.entry? at_) ∧
      (∀ inode, inode < w₀.files.nextInode →
        (s.undo ctx w).2.2.files.content inode = w₀.files.content inode) ∧
      ∀ id : ResourceId, (s.undo ctx w).2.2.versions.current id ≠ w₀.versions.current id →
        ∃ at_ inode, id.key = (ResourceId.path (Path.ofNames at_)).key ∧
          w₀.files.entry? at_ = none ∧ w.files.entry? at_ = some (.file inode) := by
  refine ⟨fun at_ => ?_, fun inode known => ?_, fun id up => ?_⟩
  · cases stood : w₀.files.entry? at_ with
    | some e =>
        have stands := built.stands stood
        have spot := sound.placed at_ e stands
        have uncreated : creationOf at_ ∉ s.log.records := by
          intro written
          rw [(built.created at_ spot written).1] at stood
          cases stood
        rw [(anchored.undo_leaves sound roomy ctx spot fun written => absurd written uncreated).1]
        exact stands
    | none =>
        cases there : w.files.entry? at_ with
        | none =>
            cases after : Filesystem.entry? (s.undo ctx w).2.2.files at_ with
            | none => rfl
            | some e =>
                rw [anchored.undo_fewer sound roomy ctx after] at there
                cases there
        | some e =>
            have spot := sound.placed at_ e there
            have written := built.appeared at_ stood (by rw [there]; simp)
            obtain ⟨inode, stands⟩ := (built.created at_ spot written).2
            obtain ⟨other, seen, same, noted, -⟩ := anchored.creations _ written rfl
            have path : Path.ofNames at_ = Path.ofNames other :=
              ResourceId.path.inj (congrArg Record.resource same)
            rw [← path] at noted
            refine (anchored.undo_removes sound roomy ctx written ?_ (free _) stands).1
            rw [AccessSet.isCurrent, noted, beq_iff_eq, built.versions, built.notes _ seen noted]
  · rw [Filesystem.content, anchored.undo_contents sound roomy ctx, ← Filesystem.content]
    exact built.contents inode known
  · rw [← built.versions] at up
    obtain ⟨at_, written, same⟩ := anchored.undo_versions sound roomy ctx up
    obtain ⟨other, named, spot, -⟩ := anchored.records _ written (Or.inl rfl)
    have path : Path.ofNames at_ = Path.ofNames other := ResourceId.path.inj named
    have again : creationOf at_ = creationOf other := by rw [creationOf, creationOf, path]
    obtain ⟨nothing, inode, stands⟩ := built.created other spot (again ▸ written)
    exact ⟨other, inode, path ▸ same, nothing, stands⟩

/-! ### Descriptors -/

/-- Every handle is below the count, and every descriptor from outside is where it was at first, or was
adopted and its first adoption knows where it was. -/
structure Displaced (w₀ w : World) (s : Files) : Prop where
  counted : ∀ n f, s.handles.get? n = some f → n < s.nextHandle
  adoptions : ∀ r ∈ s.log.records, ∀ h, r.payload = .adopt h → h.number < s.nextHandle
  next : w₀.files.nextDescriptor ≤ w.files.nextDescriptor
  ours : ∀ n f, s.handles.get? n = some f → f.descriptor < w₀.files.nextDescriptor →
    (firstBack s.handles f.descriptor s.log.records).isSome = true
  still : ∀ fd, fd < w₀.files.nextDescriptor →
    (w.files.descriptors.get? fd).map Descriptor.still =
      (w₀.files.descriptors.get? fd).map Descriptor.still
  unmoved : ∀ fd, fd < w₀.files.nextDescriptor → firstBack s.handles fd s.log.records = none →
    w.files.descriptors.get? fd = w₀.files.descriptors.get? fd
  moved : ∀ fd, fd < w₀.files.nextDescriptor → ∀ before,
    firstBack s.handles fd s.log.records = some before → before = w₀.files.position fd

theorem Displaced.fresh (w : World) : Displaced w w {} where
  counted _ _ found := by cases found
  adoptions _ member := absurd member List.not_mem_nil
  next := Nat.le_refl _
  ours _ _ found := by cases found
  still _ _ := rfl
  unmoved _ _ _ := rfl
  moved _ _ _ same := by cases same

theorem Displaced.alike (displaced : Displaced w₀ w s) (files : w'.files = w.files)
    (held : HeldLocks) : Displaced w₀ w' { s with held } where
  counted := displaced.counted
  adoptions := displaced.adoptions
  next := files ▸ displaced.next
  ours := displaced.ours
  still := files ▸ displaced.still
  unmoved := files ▸ displaced.unmoved
  moved := displaced.moved

theorem firstBack_append (handles : Table Nat OpenFile) (fd : Nat)
    (first second : List (Record FileEffect)) :
    firstBack handles fd (first ++ second) =
      (firstBack handles fd first).or (firstBack handles fd second) :=
  List.findSome?_append

/-- Records of other effects put nothing back. -/
theorem firstBack_none {handles : Table Nat OpenFile} {fd : Nat} {rs : List (Record FileEffect)}
    (others : ∀ r ∈ rs, ∀ h, r.payload ≠ .adopt h) : firstBack handles fd rs = none := by
  refine List.findSome?_eq_none_iff.2 fun r member => ?_
  cases back : backTo handles fd r with
  | none => rfl
  | some before =>
      obtain ⟨h, f, adoption, -⟩ := backTo_some.1 back
      exact absurd adoption (others r member h)

/-- A record is about the descriptor behind its handle. -/
theorem firstBack_congr {handles handles' : Table Nat OpenFile} {rs : List (Record FileEffect)}
    (same : ∀ r ∈ rs, ∀ h, r.payload = .adopt h →
      (handles'.get? h.number).map OpenFile.descriptor =
        (handles.get? h.number).map OpenFile.descriptor) (fd : Nat) :
    firstBack handles' fd rs = firstBack handles fd rs := by
  have one (r : Record FileEffect) {handles handles' : Table Nat OpenFile}
      (same : ∀ h, r.payload = .adopt h → (handles'.get? h.number).map OpenFile.descriptor =
        (handles.get? h.number).map OpenFile.descriptor) {before : Nat}
      (back : backTo handles' fd r = some before) : backTo handles fd r = some before := by
    obtain ⟨h, f', adoption, offset, found, here⟩ := backTo_some.1 back
    have alike := same h adoption
    rw [found, Option.map_some] at alike
    obtain ⟨f, found', descriptor⟩ := Option.map_eq_some_iff.1 alike.symm
    exact backTo_some.2 ⟨h, f, adoption, offset, found', descriptor.trans here⟩
  induction rs with
  | nil => rfl
  | cons r rest ih =>
      obtain ⟨first, others⟩ := List.forall_mem_cons.1 same
      have alike : backTo handles' fd r = backTo handles fd r := by
        refine Option.ext fun before => ⟨one r first, one r fun h adoption => ?_⟩
        exact (first h adoption).symm
      rw [firstBack, firstBack, List.findSome?_cons, List.findSome?_cons, alike, ← firstBack,
        ← firstBack, ih others]

/-- A new handle leaves what is written down about the others. -/
theorem Displaced.firstBack_set (displaced : Displaced w₀ w s) (f : OpenFile) (fd : Nat) :
    firstBack (s.handles.set s.nextHandle f) fd s.log.records =
      firstBack s.handles fd s.log.records := by
  refine firstBack_congr (fun r member h adoption => ?_) fd
  rw [Table.get?_set_of_ne _ _ (Nat.ne_of_lt (displaced.adoptions r member h adoption))]

theorem Displaced.counted_set (displaced : Displaced w₀ w s) {f f' : OpenFile} {n : Nat}
    (found : (s.handles.set s.nextHandle f).get? n = some f') :
    n < s.nextHandle + 1 ∧ (n = s.nextHandle ∧ f' = f ∨ s.handles.get? n = some f') := by
  by_cases new : n = s.nextHandle
  · rw [new, Table.get?_set_self] at found
    exact ⟨new ▸ Nat.lt_succ_self _, Or.inl ⟨new, (Option.some.inj found).symm⟩⟩
  · rw [Table.get?_set_of_ne _ _ new] at found
    exact ⟨Nat.lt_succ_of_lt (displaced.counted n f' found), Or.inr found⟩

theorem Displaced.opened (displaced : Displaced w₀ w s) {files : Filesystem} {d : Descriptor}
    (new : files.descriptors = w.files.descriptors.set w.files.nextDescriptor d)
    (next : files.nextDescriptor = w.files.nextDescriptor + 1) (id : ResourceId)
    (flags : OpenFlags) (created : Bool) :
    Displaced w₀ { w with files }
      (s.opened w.versions id w.files.nextDescriptor flags created) := by
  have log : (s.opened w.versions id w.files.nextDescriptor flags created).log.records =
      s.log.records ++ (if created then [.eager id .absent .create] else []) := by
    cases created
    · exact (List.append_nil _).symm
    · rfl
  have others : ∀ r ∈ (if created then [Record.eager id .absent .create] else []), ∀ h,
      r.payload ≠ FileEffect.adopt h := by
    intro r member h
    cases created
    · exact absurd member List.not_mem_nil
    · rw [List.mem_singleton.1 member]
      exact fun same => by cases same
  have first (fd : Nat) := displaced.firstBack_set
    { id, descriptor := w.files.nextDescriptor, offset := 0, flags } fd
  have back (fd : Nat) : firstBack (s.opened w.versions id w.files.nextDescriptor flags created).handles
      fd (s.opened w.versions id w.files.nextDescriptor flags created).log.records =
        firstBack s.handles fd s.log.records := by
    rw [log, firstBack_append, firstBack_none others, Option.or_none]
    exact first fd
  have old (fd : Nat) (outside : fd < w₀.files.nextDescriptor) :
      files.descriptors.get? fd = w.files.descriptors.get? fd := by
    rw [new, Table.get?_set_of_ne _ _ (Nat.ne_of_lt (Nat.lt_of_lt_of_le outside displaced.next))]
  refine ⟨fun n f found => (displaced.counted_set found).1, fun r member h adoption => ?_,
    Nat.le_trans displaced.next (by rw [next]; exact Nat.le_succ _), fun n f found outside => ?_,
    fun fd outside => ?_, fun fd outside nothing => ?_, fun fd outside before goesBack => ?_⟩
  · rw [log] at member
    rcases List.mem_append.1 member with there | last
    · exact Nat.lt_succ_of_lt (displaced.adoptions r there h adoption)
    · exact absurd adoption (others r last h)
  · rw [back]
    rcases (displaced.counted_set found).2 with ⟨-, rfl⟩ | there
    · exact absurd outside (Nat.not_lt.2 displaced.next)
    · exact displaced.ours n f there outside
  · rw [old fd outside]
    exact displaced.still fd outside
  · rw [back] at nothing
    rw [old fd outside]
    exact displaced.unmoved fd outside nothing
  · rw [back] at goesBack
    exact displaced.moved fd outside before goesBack

theorem Displaced.adopted (displaced : Displaced w₀ w s) (fd : Nat) (id : ResourceId) :
    Displaced w₀ w (s.adopting w.versions id fd (w.files.position fd)) := by
  let f : OpenFile :=
    { id, descriptor := fd, offset := w.files.position fd, flags := { read := true, write := true },
      adopted := true }
  let r : Record FileEffect :=
    .eager id (.offset (w.files.position fd)) (.adopt ⟨s.nextHandle⟩)
  have mine (other : Nat) : firstBack (s.handles.set s.nextHandle f) other [r] =
      if fd = other then some (w.files.position fd) else none := by
    simp only [firstBack, List.findSome?_cons, List.findSome?_nil, backTo, r, Record.eager,
      Table.get?_set_self, f]
    by_cases here : fd = other
    · rw [if_pos here]
    · rw [if_neg here]
  have back (other : Nat) :
      firstBack (s.adopting w.versions id fd (w.files.position fd)).handles other
        (s.adopting w.versions id fd (w.files.position fd)).log.records =
      (firstBack s.handles other s.log.records).or
        (if fd = other then some (w.files.position fd) else none) := by
    rw [← mine, ← displaced.firstBack_set f]
    exact firstBack_append ..
  refine ⟨fun n f' found => (displaced.counted_set found).1, fun r' member h adoption => ?_,
    displaced.next, fun n f' found outside => ?_, displaced.still, fun other outside nothing => ?_,
    fun other outside before goesBack => ?_⟩
  · rcases List.mem_append.1 member with there | last
    · exact Nat.lt_succ_of_lt (displaced.adoptions r' there h adoption)
    · rw [List.mem_singleton.1 last] at adoption
      cases adoption
      exact Nat.lt_succ_self _
  · rw [back, Option.isSome_or, Bool.or_eq_true]
    rcases (displaced.counted_set found).2 with ⟨-, rfl⟩ | there
    · exact Or.inr (by rw [if_pos rfl]; rfl)
    · exact Or.inl (displaced.ours n f' there outside)
  · rw [back, Option.or_eq_none_iff] at nothing
    exact displaced.unmoved other outside nothing.1
  · rw [back] at goesBack
    cases first : firstBack s.handles other s.log.records with
    | some b =>
        rw [first, Option.some_or] at goesBack
        cases goesBack
        exact displaced.moved other outside before first
    | none =>
        rw [first, Option.none_or] at goesBack
        split at goesBack
        · next here =>
          cases goesBack
          rw [here, Filesystem.position, displaced.unmoved other outside first,
            ← Filesystem.position]
        · cases goesBack

/-! #### With the handles at hand -/

theorem PutOff.no_adoption (off : PutOff w s r) (h : FileHandle) : r.payload ≠ .adopt h := by
  intro adoption
  rcases off with ⟨_, _, _, work⟩ | ⟨work, -⟩ <;>
    · rw [work] at adoption
      cases adoption

section Touched

variable (touched : Touched w s s')

include touched

theorem Touched.descriptor (n : Nat) : (s'.handles.get? n).map OpenFile.descriptor =
    (s.handles.get? n).map OpenFile.descriptor := by
  have same := congrArg (Option.map OpenFile.descriptor) (touched.handles n)
  rwa [Option.map_map, Option.map_map] at same

/-- Every handle was there before, on the same descriptor. -/
theorem Touched.handle {n : Nat} {f' : OpenFile} (found : s'.handles.get? n = some f') :
    ∃ f, s.handles.get? n = some f ∧ f.descriptor = f'.descriptor := by
  have same := touched.descriptor n
  rw [found, Option.map_some] at same
  exact Option.map_eq_some_iff.1 same.symm

/-- Nothing is adopted. -/
theorem Touched.adoption {r : Record FileEffect} (member : r ∈ s'.log.records) {h : FileHandle}
    (adoption : r.payload = .adopt h) : r ∈ s.log.records := by
  obtain ⟨new, appended, off⟩ := touched.records
  rw [appended] at member
  exact (List.mem_append.1 member).resolve_right fun last => (off r last).no_adoption h adoption

theorem Touched.firstBack (fd : Nat) : firstBack s'.handles fd s'.log.records =
    firstBack s.handles fd s.log.records := by
  obtain ⟨new, appended, off⟩ := touched.records
  have others : ∀ r ∈ new, ∀ h, r.payload ≠ .adopt h := fun r member => (off r member).no_adoption
  rw [appended, firstBack_append, firstBack_none others, Option.or_none]
  exact firstBack_congr (fun r _ h _ => touched.descriptor h.number) fd

end Touched

/-- Work with the handles at hand moves adopted descriptors alone. -/
theorem Displaced.quiet (displaced : Displaced w₀ w s) {files : Filesystem}
    (moves : files = w.files ∨ ∃ n f, s.handles.get? n = some f ∧
      Filesystem.Shifted f.descriptor w.files files) (touched : Touched w s s') :
    Displaced w₀ { w with files } s' := by
  have back := touched.firstBack
  -- A descriptor from outside that nobody adopted has no handle.
  have kept (fd : Nat) (outside : fd < w₀.files.nextDescriptor)
      (nothing : firstBack s.handles fd s.log.records = none) :
      files.descriptors.get? fd = w.files.descriptors.get? fd := by
    rcases moves with rfl | ⟨n, f, found, shifted⟩
    · rfl
    · refine shifted.others fd ?_
      rintro rfl
      have adopted := displaced.ours n f found outside
      rw [nothing] at adopted
      cases adopted
  refine ⟨fun n f' found => ?_, fun r member h adoption => ?_, ?_, fun n f' found outside => ?_,
    fun fd outside => ?_, fun fd outside nothing => ?_, fun fd outside b goesBack => ?_⟩
  · obtain ⟨f, found', -⟩ := touched.handle found
    rw [touched.count]
    exact displaced.counted n f found'
  · rw [touched.count]
    exact displaced.adoptions r (touched.adoption member adoption) h adoption
  · refine Nat.le_trans displaced.next ?_
    rcases moves with rfl | ⟨n, f, found, shifted⟩
    · exact Nat.le_refl _
    · exact shifted.next
  · obtain ⟨f, found', same⟩ := touched.handle found
    rw [back, ← same]
    exact displaced.ours n f found' (same ▸ outside)
  · refine Eq.trans ?_ (displaced.still fd outside)
    rcases moves with rfl | ⟨n, f, found, shifted⟩
    · rfl
    · by_cases here : fd = f.descriptor
      · rw [here]
        exact shifted.here
      · rw [shifted.others fd here]
  · rw [back] at nothing
    exact (kept fd outside nothing).trans (displaced.unmoved fd outside nothing)
  · rw [back] at goesBack
    exact displaced.moved fd outside b goesBack

theorem Displaced.filed (displaced : Displaced w₀ w s) (filed : Filed w s w' s') :
    Displaced w₀ w' s' := by
  cases filed with
  | found at_ e d flags => exact displaced.opened rfl rfl _ flags false
  | created at_ d flags => exact displaced.opened rfl rfl _ flags true
  | adopted fd id => exact displaced.adopted fd id
  | quiet moved touched => exact displaced.quiet moved touched

/-- **Undo puts the descriptors from outside back.** -/
theorem Displaced.undo (displaced : Displaced w₀ w s) (anchored : Anchored w s)
    (sound : w.files.Sound) (roomy : w.files.Roomy) (ctx : Context) {fd : Nat}
    (outside : fd < w₀.files.nextDescriptor)
    (within : w₀.files.position fd ≤ w₀.files.positionLimit fd) :
    (s.undo ctx w).2.2.files.descriptors.get? fd = w₀.files.descriptors.get? fd := by
  obtain ⟨kept, back⟩ := anchored.undo_descriptor sound roomy ctx fd
  have still := displaced.still fd outside
  cases first : firstBack s.handles fd s.log.records with
  | none => rw [kept first, displaced.unmoved fd outside first]
  | some before =>
      have here := displaced.moved fd outside before first
      rw [back before first (by rw [Filesystem.positionLimit_of_still still, here]; exact within),
        Filesystem.positioned_of_still still, here]
      cases found : w₀.files.descriptors.get? fd with
      | none => rfl
      | some d => simp only [Option.map_some, Filesystem.position, found]

end Files

end Transact
