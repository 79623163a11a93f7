/-
# Transact.Proofs.Identity -- one file, one resource

Two transactions, or one, open a file each.  What a path leads to is the same before and after an opening
that found it, and an opening that created a file leaves it where the path leads
(`Filesystem.openOrCreate_leads`).  So the resource that was found for the path before the file was there
is the location of the file; and two of them are equal exactly if the two openings reached one file
(`Files.openPath_same_iff`), where the canonical search finds either path (`Filesystem.Charted`).
-/
import Transact.Proofs.LogicalEnd

namespace Transact

set_option autoImplicit false

namespace Filesystem

variable {fs fs' : Filesystem} {path : String} {directory : Location} {name : String}

/-- A descent is one still when files were created. -/
theorem Descent.gains {links : Nat} {bottom : Location} {names : List String}
    (gains : fs.Gains fs') (descent : fs.Descent links directory names bottom) :
    fs'.Descent links directory names bottom := by
  induction descent with
  | here => exact .here _ _
  | dot _ ih => exact .dot ih
  | dots _ ih => exact .dots ih
  | down plain stands _ ih => exact .down plain (gains.stands _ _ stands) ih
  | link plain stands _ ih => exact .link plain (gains.stands _ _ stands) ih

theorem Sound.addFile (sound : fs.Sound) {at_ : Location} (free : fs.entry? at_ = none)
    (spot : fs.Spot at_) : (fs.addFile at_).2.Sound :=
  have keeps : Keeps (fun _ => False) fs (fs.addFile at_).2 := keeps_addFile free spot
  keeps.sound sound

theorem Onward.sound (onward : fs.Onward fs') (sound : fs.Sound) : fs'.Sound :=
  have keeps : Keeps (fun _ => False) fs fs' := onward.keeps
  keeps.sound sound

/-- **A path leads to the file that was created for it.** -/
theorem find_addFile (sound : fs.Sound) (nul : hasNul path = false) (short : tooLong name = false)
    (resolved : fs.resolve .name path = .ok (.entry directory name none false)) :
    (fs.addFile (directory ++ [name])).2.find .follow path =
      .ok (directory ++ [name], .file fs.nextInode) := by
  obtain ⟨led, ways⟩ := resolve_eq_restOf (by decide) resolved
  obtain ⟨⟨names, split, descent, dot, dots⟩, -, bare⟩ := stopsAt_of_follow (by rfl) led
  obtain ⟨free, spot⟩ := spot_of_vacancy sound nul short resolved
  let files := (fs.addFile (directory ++ [name])).2
  have gains : fs.Gains files := gains_addFile (by simp) free
  have file : files.entry? (directory ++ [name]) = some (.file fs.nextInode) :=
    (entry?_addFile fs (by simp) _).trans (if_pos rfl)
  have last (onLink : Rest → Except Errno Place) :
      files.followWith .follow onLink false directory [name] =
        .ok (.entry directory name (some (.file fs.nextInode)) false) := by
    rw [followWith_last ⟨dot, dots, short⟩ (fun creating => by cases creating)
      (fun canonical => by cases canonical), file]
  have lands := (descent.gains gains).lands (sound.addFile free spot)
    (fun canonical => by cases canonical) (gains.stands _ _ (sound.restOf path)) last
  have rest : fs.restOf path =
      { directory := (fs.restOf path).directory, names := names ++ [name], slash := false } := by
    rw [← split, bare]
  rw [find, gains.resolve (by decide) resolved, rest, lands]
  rfl

/-- **What an opening reached is where its path leads afterwards**, and the resource of a charted path
before it is the location. -/
theorem openOrCreate_leads (sound : fs.Sound) (distinct : fs.Distinct) {flags : OpenFlags} {fd : Nat}
    {created : Bool} (made : Files.openOrCreate fs path flags = .ok (fd, created, fs')) :
    fs'.Sound ∧ fs'.Distinct ∧ ∃ at_ e, fs'.find .follow path = .ok (at_, e) ∧
      (∀ inode, fs'.inode? fd = some inode ↔ e = .file inode) ∧
      (fs.Charted path → Files.resource fs path = .path (Path.ofNames at_)) := by
  obtain ⟨nul, ⟨-, at_, e, d, led, same, -, file⟩ | ⟨-, directory, name, resolved, short, same⟩⟩ :=
    openOrCreate_ok made
  · have onward := onward_addDescriptor fs d
    obtain ⟨rfl, rfl⟩ : fd = fs.nextDescriptor ∧ fs' = (fs.addDescriptor d).2 := Prod.mk.inj same
    refine ⟨onward.sound sound, distinct.of_sameTree onward.tree (Nat.le_refl _), at_, e,
      (onward.tree.find .follow path).trans led, fun inode => ?_,
      fun charted => charted.resource_of_find sound led⟩
    rw [inode?_addDescriptor]
    exact file inode
  · obtain ⟨free, spot⟩ := spot_of_vacancy sound nul short resolved
    let d := descriptorOn (some fs.nextInode) { read := flags.read, write := true }
    have onward := onward_addDescriptor (fs.addFile (directory ++ [name])).2 d
    obtain ⟨rfl, rfl⟩ : fd = (fs.addFile (directory ++ [name])).2.nextDescriptor ∧
        fs' = ((fs.addFile (directory ++ [name])).2.addDescriptor d).2 := Prod.mk.inj same
    refine ⟨onward.sound (sound.addFile free spot),
      (distinct.addFile (by simp)).of_sameTree onward.tree (Nat.le_refl _),
      directory ++ [name], .file fs.nextInode,
      (onward.tree.find .follow path).trans (find_addFile sound nul short resolved), fun inode => ?_,
      fun charted => charted.resource_of_vacancy sound short resolved⟩
    rw [inode?_addDescriptor, Entry.file.injEq]
    exact Option.some_inj

end Filesystem

namespace Files

variable {s s' t t' : Files} {w w₁ w₂ : World} {path other : String} {flags flags' : OpenFlags}
  {h k : FileHandle}

/-- A path that was opened has a handle with its resource. -/
theorem openPath_ok (opened : s.openPath path flags w = (.ok h, s', w₁)) :
    ∃ fd created, openOrCreate w.files path flags = .ok (fd, created, w₁.files) ∧
      s'.openFile h = .ok { id := resource w.files path, descriptor := fd, offset := 0, flags } := by
  simp only [openPath] at opened
  cases allowed : s.checkNotRemoved (resource w.files path) with
  | error e => simp [allowed] at opened
  | ok _ =>
      rcases made : openOrCreate w.files path flags with e | ⟨fd, created, files⟩
      · simp [allowed, made] at opened
      · simp only [allowed, made] at opened
        refine ⟨fd, created, ?_⟩
        cases created <;> cases opened <;>
          exact ⟨rfl, by simp only [openFile, addHandle, Table.get?_set_self]; rfl⟩

/-- **One file, one resource.**  A path is opened, which may create the file, and then another one.  Each
path leads afterwards to what it was opened on, and their resources are equal exactly if they lead to one
place; so, if that of the first is a file, exactly if the second is the same file. -/
theorem openPath_same_iff (sound : w.files.Sound) (distinct : w.files.Distinct)
    (charted : w.files.Charted path) (charted' : w₁.files.Charted other)
    (opened : s.openPath path flags w = (.ok h, s', w₁))
    (opened' : t.openPath other flags' w₁ = (.ok k, t', w₂)) :
    ∃ f g at_ there e e', s'.openFile h = .ok f ∧ t'.openFile k = .ok g ∧
      (w₂.files.find .follow path = .ok (at_, e) ∧
        ∀ inode, w₂.files.inode? f.descriptor = some inode ↔ e = .file inode) ∧
      (w₂.files.find .follow other = .ok (there, e') ∧
        ∀ inode, w₂.files.inode? g.descriptor = some inode ↔ e' = .file inode) ∧
      (f.id.same g.id = true ↔ at_ = there) ∧
      ∀ inode, w₂.files.inode? f.descriptor = some inode →
        (f.id.same g.id = true ↔ w₂.files.inode? g.descriptor = some inode) := by
  obtain ⟨fd, created, made, found⟩ := openPath_ok opened
  obtain ⟨fd', created', made', found'⟩ := openPath_ok opened'
  obtain ⟨sound₁, distinct₁, at_, e, led, file, named⟩ :=
    Filesystem.openOrCreate_leads sound distinct made
  obtain ⟨sound₂, distinct₂, there, e', led', file', named'⟩ :=
    Filesystem.openOrCreate_leads sound₁ distinct₁ made'
  obtain ⟨gains, -, -⟩ := Filesystem.openOrCreate_gains made'
  obtain ⟨-, -, isOpen⟩ := Filesystem.openOrCreate_gains made
  have led := gains.find led
  have stands := Filesystem.stands_of_find sound₂ (Or.inl rfl) led
  have stands' := Filesystem.stands_of_find sound₂ (Or.inl rfl) led'
  have same : (resource w.files path).same (resource w₁.files other) = true ↔ at_ = there := by
    rw [named charted, named' charted', ResourceId.same, beq_iff_eq]
    constructor
    · exact Filesystem.Spot.eq_of_key sound₂ (sound₂.placed at_ e stands)
        (sound₂.placed there e' stands')
    · rintro rfl
      rfl
  rw [← gains.inode? isOpen.handed] at file
  refine ⟨_, _, at_, there, e, e', found, found', ⟨led, file⟩, ⟨led', file'⟩, same, fun inode behind => ?_⟩
  rw [same, file' inode]
  rw [(file inode).1 behind] at stands
  constructor
  · rintro rfl
    exact Option.some.inj (stands'.symm.trans stands)
  · rintro rfl
    exact distinct₂.oneName _ _ inode stands stands'

/-- The first opening creates `/new`, and the second one spells the path in another way. -/
theorem openPath_same_iff_created :
    let first := ({} : Files).openPath "/new" { write := true, create := true } Assembly.oneOld
    let second := ({} : Files).openPath "..//./new" { read := true } first.2.2
    ∃ f g, first.2.1.openFile ⟨0⟩ = .ok f ∧ second.2.1.openFile ⟨0⟩ = .ok g ∧
      second.2.2.files.inode? g.descriptor = some 1 ∧ f.id.same g.id = true := by
  intro first second
  have charted : first.2.2.files.Charted "..//./new" := by
    refine ⟨fun _ _ _ => Or.inl (by decide +kernel), fun bottom name slash resolved => ?_⟩
    have there : first.2.2.files.resolve .name "..//./new" =
        .ok (.entry [] "new" (some (.file 1)) false) := by rfl
    cases there.symm.trans resolved
  obtain ⟨f, g, at_, there, e, e', found, found', ⟨led, file⟩, ⟨led', file'⟩, same, -⟩ :=
    openPath_same_iff Assembly.sound_oneOld Assembly.orderly_oneOld.distinct
      (Assembly.roomy_oneOld.charted Assembly.sound_oneOld (by decide)) charted
      (show first = (.ok ⟨0⟩, first.2.1, first.2.2) by rfl)
      (show second = (.ok ⟨0⟩, second.2.1, second.2.2) by rfl)
  have here : second.2.2.files.find .follow "/new" = .ok (["new"], .file 1) := by rfl
  have here' : second.2.2.files.find .follow "..//./new" = .ok (["new"], .file 1) := by rfl
  cases here.symm.trans led
  cases here'.symm.trans led'
  exact ⟨f, g, found, found', (file' 1).2 rfl, same.2 rfl⟩

/-- Beside it, `/old` is another file under another resource. -/
example :
    let first := ({} : Files).openPath "/new" { write := true, create := true } Assembly.oneOld
    (resource Assembly.oneOld.files "/new").same (resource first.2.2.files "old") = false := by
  decide +kernel

end Files

end Transact
