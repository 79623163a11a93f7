/-
# Transact.Proofs.Positions -- whom it concerns where a descriptor stands

Two worlds that differ in the position of one descriptor and in nothing else (`World.Repositioned`) are
told apart by adoption alone, and only by the adoption of that descriptor.  Every other call answers the
same in both and leaves two worlds that again differ in that position at most
(`PartyCall.perform_repositioned`): it sets a position before it uses one.

For the calls that end a transaction it is enough to look at one primitive at a time
(`Primitive.perform_repositioned`), since each of them is a procedure.
-/
import Transact.Proofs.Lent
import Transact.Proofs.Proceedings

namespace Transact

set_option autoImplicit false

/-! ## Tables -/

namespace Table

variable {κ α : Type} [DecidableEq κ]

/-- A value that is known is changed in its place, so it does not matter what is put first. -/
theorem put_comm {l : List (κ × α)} {key other : κ} {value : α} (known : find l key = some value)
    (ne : key ≠ other) (a b : α) : put (put l key a) other b = put (put l other b) key a := by
  induction l with
  | nil => cases known
  | cons e rest ih =>
      obtain ⟨k, c⟩ := e
      by_cases here : k = key
      · have there : k ≠ other := fun same => ne (here.symm.trans same)
        simp [put, here, ne]
      · simp only [find, here, if_false] at known
        by_cases there : k = other
        · simp [put, there, ne.symm]
        · simp [put, here, there, ih known]

theorem modify_set_comm (t : Table κ α) {key other : κ} (ne : key ≠ other) (f : α → α) (b : α) :
    (t.modify key f).set other b = (t.set other b).modify key f := by
  unfold modify
  rw [get?_set_of_ne _ _ ne]
  cases known : t.get? key with
  | none => rfl
  | some value => exact congrArg Table.mk (put_comm known ne (f value) b)

theorem modify_comm (t : Table κ α) {key other : κ} (ne : key ≠ other) (f g : α → α) :
    (t.modify key f).modify other g = (t.modify other g).modify key f := by
  have there : (t.modify key f).get? other = t.get? other := by
    rw [get?_modify, if_neg ne.symm]
  cases known : t.get? other with
  | none =>
      have idle (t : Table κ α) (absent : t.get? other = none) : t.modify other g = t := by
        unfold modify
        rw [absent]
      rw [idle _ (there.trans known), idle t known]
  | some value =>
      have changes (t : Table κ α) (found : t.get? other = some value) :
          t.modify other g = t.set other (g value) := by
        unfold modify
        rw [found]
      rw [changes _ (there.trans known), changes t known, modify_set_comm t ne]

/-- What is put under a key does not depend on what was there. -/
theorem modify_set_self (t : Table κ α) (key : κ) (f : α → α) (b : α) :
    (t.modify key f).set key b = t.set key b := by
  unfold modify
  cases t.get? key with
  | none => rfl
  | some value => exact congrArg Table.mk (put_put t.entries key (f value) b)

end Table

/-! ## System calls -/

/-- Two answers are alike: the same refusal, or results that are related. -/
inductive Matched {ε α : Type} (R : α → α → Prop) : Except ε α → Except ε α → Prop where
  | refused (e : ε) : Matched R (.error e) (.error e)
  | granted {a a' : α} (related : R a a') : Matched R (.ok a) (.ok a')

/-- Two answers are the same but for what they leave behind, which is related. -/
structure Agreed {α W : Type} (R : W → W → Prop) (r r' : α × W) : Prop where
  answer : r'.1 = r.1
  left : R r.2 r'.2

namespace Filesystem

variable {fs fs' : Filesystem} {fd : Nat}

/-- Other descriptors stand where they stood. -/
theorem Aside.get?_of_ne (aside : Aside fd fs fs') {other : Nat} (ne : other ≠ fd) :
    fs'.descriptors.get? other = fs.descriptors.get? other := by
  obtain ⟨at_, rfl⟩ := aside
  rw [Filesystem.setPosition, Table.get?_modify, if_neg ne]

theorem setPosition_comm (fs : Filesystem) {fd other : Nat} (ne : fd ≠ other) (first second : Nat) :
    (fs.setPosition fd first).setPosition other second =
      (fs.setPosition other second).setPosition fd first := by
  simp only [setPosition, Table.modify_comm _ ne]

theorem Aside.setPosition (aside : Aside fd fs fs') (other position : Nat) :
    Aside fd (fs.setPosition other position) (fs'.setPosition other position) := by
  obtain ⟨at_, rfl⟩ := aside
  by_cases same : fd = other
  · subst same
    rw [setPosition_setPosition]
    exact .refl fd _
  · exact ⟨at_, setPosition_comm fs same at_ position⟩

theorem Aside.setContent (aside : Aside fd fs fs') (inode : Inode) (content : Content) :
    Aside fd (fs.setContent inode content) (fs'.setContent inode content) := by
  obtain ⟨at_, rfl⟩ := aside
  exact ⟨at_, rfl⟩

theorem Aside.content (aside : Aside fd fs fs') : fs'.content = fs.content := by
  funext inode
  simp only [Filesystem.content, aside.contents]

theorem Aside.seek (aside : Aside fd fs fs') (other position : Nat) :
    Matched (Aside fd) (fs.seek other position) (fs'.seek other position) := by
  have limit : fs'.positionLimit other = fs.positionLimit other :=
    positionLimit_of_still (aside.written.still other)
  unfold Filesystem.seek
  rw [limit]
  split
  · exact .refused _
  · exact .granted (aside.setPosition other position)

/-- Whatever stands elsewhere is read alike. -/
theorem Aside.read (aside : Aside fd fs fs') {other : Nat} (ne : other ≠ fd) (len ask : Nat) :
    Matched (Agreed (Aside fd)) (fs.read other len ask) (fs'.read other len ask) := by
  unfold Filesystem.read
  rw [aside.get?_of_ne ne, aside.content]
  split
  · exact .granted ⟨rfl, aside⟩
  · cases fs.descriptors.get? other with
    | none => exact .refused _
    | some d =>
        simp only
        split
        · exact .refused _
        · cases d.inode with
          | none =>
              simp only
              split <;> exact .refused _
          | some inode => exact .granted ⟨rfl, aside.setPosition other _⟩

/-- It makes no difference to a read at an offset where `fd` stands. -/
theorem Aside.readAt (aside : Aside fd fs fs') (other offset len : Nat) :
    Agreed (Aside fd) (fs.readAt other offset len) (fs'.readAt other offset len) := by
  by_cases same : other = fd
  · subst same
    refine ⟨readAt_alike aside offset len, ?_⟩
    exact (aside_readAt fs other offset len).symm.trans (aside.trans (aside_readAt fs' other offset len))
  · have sought := aside.seek other offset
    unfold Filesystem.readAt
    generalize fs.seek other offset = r, fs'.seek other offset = r' at sought
    cases sought with
    | refused e => exact ⟨rfl, aside⟩
    | @granted here there related =>
        have read := related.read same len transferLimit
        simp only
        generalize here.read other len transferLimit = r, there.read other len transferLimit = r' at read
        cases read with
        | refused e => exact ⟨rfl, related⟩
        | granted agreed => exact ⟨congrArg Except.ok agreed.answer, agreed.left⟩

theorem Aside.put (aside : Aside fd fs fs') (other : Nat) (inode : Inode) (offset : Nat)
    (bytes : Bytes) : Aside fd (fs.put other inode offset bytes) (fs'.put other inode offset bytes) := by
  simp only [Filesystem.put, aside.content]
  exact (aside.setContent inode _).setPosition other _

/-- Whatever stands elsewhere is written alike. -/
theorem Aside.write (aside : Aside fd fs fs') {other : Nat} (ne : other ≠ fd) (bytes : Bytes) :
    Agreed (Aside fd) (fs.write other bytes) (fs'.write other bytes) := by
  unfold Filesystem.write
  rw [aside.get?_of_ne ne, aside.content]
  split
  · exact ⟨rfl, aside⟩
  · cases fs.descriptors.get? other with
    | none => exact ⟨rfl, aside⟩
    | some d =>
        dsimp -zeta only
        split
        · exact ⟨rfl, aside⟩
        · cases d.inode with
          | none => exact ⟨rfl, aside⟩
          | some inode =>
              dsimp -zeta only
              extract_lets offset room
              split
              · exact ⟨rfl, aside.put ..⟩
              · split
                · exact ⟨rfl, aside⟩
                · exact ⟨rfl, aside.put ..⟩

/-- It makes no difference to a write at an offset where `fd` stands. -/
theorem Aside.writeAt (aside : Aside fd fs fs') (other offset : Nat) (bytes : Bytes) :
    Agreed (Aside fd) (fs.writeAt other offset bytes) (fs'.writeAt other offset bytes) := by
  by_cases same : other = fd
  · subst same
    obtain ⟨answer, left⟩ := writeAt_alike aside offset bytes
    exact ⟨answer, left⟩
  · have sought := aside.seek other offset
    unfold Filesystem.writeAt
    generalize fs.seek other offset = r, fs'.seek other offset = r' at sought
    cases sought with
    | refused e => exact ⟨rfl, aside⟩
    | granted related => exact related.write same bytes

theorem Aside.position (aside : Aside fd fs fs') {other : Nat} (ne : other ≠ fd) :
    fs'.position other = fs.position other := by
  simp only [Filesystem.position, aside.get?_of_ne ne]

theorem Aside.addDescriptor (aside : Aside fd fs fs') (d : Descriptor) :
    Agreed (Aside fd) (fs.addDescriptor d) (fs'.addDescriptor d) := by
  obtain ⟨at_, rfl⟩ := aside
  refine ⟨rfl, ?_⟩
  by_cases same : fd = fs.nextDescriptor
  · have table : (fs.setPosition fd at_).descriptors.set fs.nextDescriptor d =
        fs.descriptors.set fs.nextDescriptor d := by
      rw [← same]
      exact Table.modify_set_self ..
    have equal : ((fs.setPosition fd at_).addDescriptor d).2 = (fs.addDescriptor d).2 :=
      congrArg (fun descriptors => { fs with descriptors, nextDescriptor := fs.nextDescriptor + 1 })
        table
    rw [equal]
    exact .refl fd _
  · refine ⟨at_, ?_⟩
    exact congrArg (fun descriptors => { fs with descriptors, nextDescriptor := fs.nextDescriptor + 1 })
      (Table.modify_set_comm fs.descriptors same _ d)

theorem Aside.openExisting (aside : Aside fd fs fs') (path : String) (access : Access) :
    Matched (Agreed (Aside fd)) (fs.openExisting path access) (fs'.openExisting path access) := by
  unfold Filesystem.openExisting
  rw [aside.written.tree.find]
  split
  · exact .refused _
  · split
    · exact .refused _
    · rcases fs.find .follow path with e | ⟨at_, _ | inode | target⟩
      · exact .refused _
      · simp only
        split
        · exact .refused _
        · exact .granted (aside.addDescriptor _)
      · exact .granted (aside.addDescriptor _)
      · exact .refused _

theorem Aside.createNew (aside : Aside fd fs fs') (path : String) (read : Bool) :
    Matched (Agreed (Aside fd)) (fs.createNew path read) (fs'.createNew path read) := by
  have added (place : Location) : Agreed (Aside fd) (fs.addFile place) (fs'.addFile place) := by
    obtain ⟨at_, rfl⟩ := aside
    exact ⟨rfl, at_, rfl⟩
  unfold Filesystem.createNew
  rw [aside.written.tree.resolve]
  split
  · exact .refused _
  · rcases fs.resolve .name path with e | ⟨_ | _⟩ | ⟨directory, name, found, slash⟩
    · exact .refused _
    · exact .refused _
    · exact .refused _
    · simp only
      split
      · exact .refused _
      · split
        · exact .refused _
        · split
          · exact .refused _
          · obtain ⟨inode, left⟩ := added (directory ++ [name])
            rw [inode]
            exact .granted (left.addDescriptor _)

theorem Aside.unlink (aside : Aside fd fs fs') (path : String) :
    Matched (Aside fd) (fs.unlink path) (fs'.unlink path) := by
  have erased (place : Location) : Aside fd (fs.eraseEntry place) (fs'.eraseEntry place) := by
    obtain ⟨at_, rfl⟩ := aside
    exact ⟨at_, rfl⟩
  unfold Filesystem.unlink
  rw [aside.written.tree.resolve]
  split
  · exact .refused _
  · rcases fs.resolve .name path with e | _ | ⟨directory, name, found, slash⟩
    · exact .refused _
    · exact .refused _
    · rcases found with _ | _ | _ | _
      · exact .refused _
      · exact .refused _
      · simp only
        split
        · exact .refused _
        · exact .granted (erased _)
      · simp only
        split
        · exact .refused _
        · exact .granted (erased _)

theorem Aside.openOrCreate (aside : Aside fd fs fs') (path : String) (flags : OpenFlags) :
    Matched (fun r r' => r'.1 = r.1 ∧ r'.2.1 = r.2.1 ∧ Aside fd r.2.2 r'.2.2)
      (Files.openOrCreate fs path flags) (Files.openOrCreate fs' path flags) := by
  have opened : Matched (fun r r' => r'.1 = r.1 ∧ r'.2.1 = r.2.1 ∧ Aside fd r.2.2 r'.2.2)
      ((fs.openExisting path { read := flags.read, write := flags.writes }).map
        fun r => (r.1, false, r.2))
      ((fs'.openExisting path { read := flags.read, write := flags.writes }).map
        fun r => (r.1, false, r.2)) := by
    have agreed := aside.openExisting path { read := flags.read, write := flags.writes }
    generalize fs.openExisting path { read := flags.read, write := flags.writes } = r,
      fs'.openExisting path { read := flags.read, write := flags.writes } = r' at agreed ⊢
    cases agreed with
    | refused e => exact .refused e
    | granted related => exact .granted ⟨related.answer, rfl, related.left⟩
  unfold Files.openOrCreate
  simp only
  split
  · have created := aside.createNew path flags.read
    generalize fs.createNew path flags.read = r, fs'.createNew path flags.read = r' at created
    cases created with
    | granted agreed => exact .granted ⟨agreed.answer, rfl, agreed.left⟩
    | refused e =>
        cases e with
        | os errno => cases errno with
          | «exists» => exact opened
          | _ => exact .refused _
        | _ => exact .refused _
  · exact opened

theorem Aside.names (aside : Aside fd fs fs') (path : String) : fs'.names path = fs.names path := by
  simp only [Filesystem.names, aside.written.tree.find]

end Filesystem

/-! ## Worlds -/

/-- Two worlds that differ in where `fd` stands and in nothing else. -/
def World.Repositioned (fd : Nat) (w w' : World) : Prop :=
  ∃ files, w.files.Aside fd files ∧ w' = { w with files }

/-! ### Files -/

namespace Files

variable {fd : Nat} {w w' : World}

open World (Repositioned)

theorem openPath_repositioned (moved : w.Repositioned fd w') (s : Files) (path : String)
    (flags : OpenFlags) :
    Agreed (Agreed (Repositioned fd)) (s.openPath path flags w) (s.openPath path flags w') := by
  obtain ⟨files, aside, rfl⟩ := moved
  have opened := aside.openOrCreate path flags
  simp only [openPath, aside.written.tree.resource]
  cases s.checkNotRemoved (resource w.files path) with
  | error e => exact ⟨rfl, rfl, files, aside, rfl⟩
  | ok _ =>
      simp only
      generalize openOrCreate w.files path flags = r, openOrCreate files path flags = r' at opened
      cases opened with
      | refused e => exact ⟨rfl, rfl, files, aside, rfl⟩
      | @granted r r' related =>
          obtain ⟨descriptor, created, left⟩ := r
          obtain ⟨_, _, left'⟩ := r'
          obtain ⟨rfl, rfl, aside⟩ := related
          exact ⟨rfl, rfl, left', aside, rfl⟩

theorem adopt_repositioned (moved : w.Repositioned fd w') (s : Files) {descriptor : Nat}
    (ne : descriptor ≠ fd) (path : String) :
    Agreed (Agreed (Repositioned fd)) (s.adopt descriptor path w) (s.adopt descriptor path w') := by
  obtain ⟨files, aside, rfl⟩ := moved
  simp only [adopt, aside.written.tree.resource, aside.position ne]
  cases s.checkNotRemoved (resource w.files path) <;> exact ⟨rfl, rfl, files, aside, rfl⟩

theorem remove_repositioned (moved : w.Repositioned fd w') (s : Files) (path : String) :
    Agreed (Agreed (Repositioned fd)) (s.remove path w) (s.remove path w') := by
  obtain ⟨files, aside, rfl⟩ := moved
  simp only [remove, aside.written.tree.resource, aside.names]
  cases s.checkNotRemoved (resource w.files path) with
  | error e => exact ⟨rfl, rfl, files, aside, rfl⟩
  | ok _ => cases w.files.names path <;> exact ⟨rfl, rfl, files, aside, rfl⟩

theorem read_repositioned (moved : w.Repositioned fd w') (s : Files) (h : FileHandle) (len : Nat) :
    Agreed (Agreed (Repositioned fd)) (s.read h len w) (s.read h len w') := by
  obtain ⟨files, aside, rfl⟩ := moved
  unfold read
  cases s.checkReadable h with
  | error e => exact ⟨rfl, rfl, files, aside, rfl⟩
  | ok f =>
      obtain ⟨answer, left⟩ := aside.readAt f.descriptor f.offset len
      simp only
      rcases here : w.files.readAt f.descriptor f.offset len with ⟨e | window, left₁⟩ <;>
        rcases there : files.readAt f.descriptor f.offset len with ⟨e' | window', left₂⟩ <;>
        rw [here, there] at answer left <;> cases answer <;> exact ⟨rfl, rfl, left₂, left, rfl⟩

theorem write_repositioned (moved : w.Repositioned fd w') (s : Files) (h : FileHandle)
    (bytes : Bytes) :
    Agreed (Agreed (Repositioned fd)) (s.write h bytes w) (s.write h bytes w') := by
  obtain ⟨files, aside, rfl⟩ := moved
  simp only [write, logicalLength, aside.length]
  cases s.checkWritable h <;> exact ⟨rfl, rfl, files, aside, rfl⟩

theorem seek_repositioned (moved : w.Repositioned fd w') (s : Files) (h : FileHandle)
    (pos : SeekFrom) : Agreed (Agreed (Repositioned fd)) (s.seek h pos w) (s.seek h pos w') := by
  obtain ⟨files, aside, rfl⟩ := moved
  have target (f : OpenFile) : s.seekTarget f files pos = s.seekTarget f w.files pos := by
    cases pos <;> simp only [seekTarget, logicalLength, aside.length]
  simp only [seek, target]
  cases s.openFile h with
  | error e => exact ⟨rfl, rfl, files, aside, rfl⟩
  | ok f =>
      simp only
      cases s.seekTarget f w.files pos <;> exact ⟨rfl, rfl, files, aside, rfl⟩

theorem close_repositioned (moved : w.Repositioned fd w') (s : Files) (h : FileHandle) :
    Agreed (Agreed (Repositioned fd)) (s.close h w) (s.close h w') := by
  unfold close
  cases s.openFile h <;> exact ⟨rfl, rfl, moved⟩

theorem applyRecord_repositioned (moved : w.Repositioned fd w') (handles : Table Nat OpenFile)
    (r : Record FileEffect) :
    Agreed (Repositioned fd) (applyRecord handles r w) (applyRecord handles r w') := by
  obtain ⟨files, aside, rfl⟩ := moved
  unfold applyRecord
  cases r.payload with
  | create => exact ⟨rfl, files, aside, rfl⟩
  | adopt h => exact ⟨rfl, files, aside, rfl⟩
  | write h offset bytes =>
      simp only
      cases handles.get? h.number with
      | none => exact ⟨rfl, files, aside, rfl⟩
      | some f =>
          obtain ⟨answer, left⟩ := aside.writeAt f.descriptor offset bytes
          simp only
          rcases here : w.files.writeAt f.descriptor offset bytes with ⟨e | _, left₁⟩ <;>
            rcases there : files.writeAt f.descriptor offset bytes with ⟨e' | _, left₂⟩ <;>
            rw [here, there] at answer left <;> cases answer <;> exact ⟨rfl, left₂, left, rfl⟩
  | remove =>
      simp only [unlinkResource]
      cases r.resource with
      | path path =>
          have unlinked := aside.unlink path
          simp only
          generalize w.files.unlink path = q, files.unlink path = q' at unlinked
          cases unlinked with
          | refused e => exact ⟨rfl, files, aside, rfl⟩
          | granted left => exact ⟨rfl, _, left, rfl⟩
      | _ => exact ⟨rfl, files, aside, rfl⟩

end Files

/-- A job that looks where `fd` stands. -/
def Filing.Adopts (fd : Nat) (job : Filing) : Prop := ∃ path, job = .adopt fd path

/-- Two results that agree do so when only what was answered is told in other words. -/
theorem Agreed.map {α β W : Type} {R : W → W → Prop} {r r' : α × W} (agreed : Agreed R r r')
    (f : α → β) : Agreed R (f r.1, r.2) (f r'.1, r'.2) :=
  ⟨congrArg f agreed.answer, agreed.left⟩

/-- **Work on files does not depend on where a descriptor stands**, but for its adoption. -/
theorem Filing.perform_repositioned {fd : Nat} {w w' : World} (moved : w.Repositioned fd w')
    (s : Files) {job : Filing} (blind : ¬ job.Adopts fd) :
    Agreed (Agreed (World.Repositioned fd)) (job.perform s w) (job.perform s w') := by
  cases job with
  | adopt descriptor path =>
      have ne : descriptor ≠ fd := fun same => blind ⟨path, same ▸ rfl⟩
      exact (Files.adopt_repositioned moved s ne path).map _
  | remove path => exact (Files.remove_repositioned moved s path).map _
  | plain job =>
      cases job with
      | openPath path flags => exact (Files.openPath_repositioned moved s path flags).map _
      | read h len => exact (Files.read_repositioned moved s h len).map _
      | write h bytes => exact (Files.write_repositioned moved s h bytes).map _
      | seek h pos => exact (Files.seek_repositioned moved s h pos).map _
      | tell h => exact ⟨rfl, rfl, moved⟩
      | close h => exact (Files.close_repositioned moved s h).map _

/-! ### Pipes and threads -/

section Blind

variable {fd : Nat} {w w' : World}

open World (Repositioned)

theorem Pipes.read_repositioned (moved : w.Repositioned fd w') (s : Pipes) (chunk : Nat → Nat)
    (pipe max : Nat) :
    Agreed (Agreed (Repositioned fd)) (s.read chunk pipe max w) (s.read chunk pipe max w') := by
  obtain ⟨files, aside, rfl⟩ := moved
  unfold read
  cases w.pipes.get? pipe with
  | none => exact ⟨rfl, rfl, files, aside, rfl⟩
  | some p =>
      simp only
      split
      · exact ⟨rfl, rfl, files, aside, rfl⟩
      · exact ⟨rfl, rfl, files, aside, rfl⟩
      · split <;> exact ⟨rfl, rfl, files, aside, rfl⟩

theorem Pipes.write_repositioned (moved : w.Repositioned fd w') (s : Pipes) (pipe : Nat)
    (bytes : Bytes) :
    Agreed (Agreed (Repositioned fd)) (s.write pipe bytes w) (s.write pipe bytes w') := by
  obtain ⟨files, aside, rfl⟩ := moved
  unfold write
  cases w.pipes.get? pipe with
  | none => exact ⟨rfl, rfl, files, aside, rfl⟩
  | some p =>
      simp only
      split <;> exact ⟨rfl, rfl, files, aside, rfl⟩

theorem Pipes.applyRecord_repositioned (moved : w.Repositioned fd w') (s : Pipes)
    (r : Record PipeEffect) :
    Agreed (Repositioned fd) (s.applyRecord r w) (s.applyRecord r w') := by
  obtain ⟨files, aside, rfl⟩ := moved
  have same : s.pipeOf r.resource { w with files } = s.pipeOf r.resource w := rfl
  simp only [applyRecord, same]
  cases s.pipeOf r.resource w with
  | error e => exact ⟨rfl, files, aside, rfl⟩
  | ok p =>
      simp only
      split <;> exact ⟨rfl, files, aside, rfl⟩

theorem World.Repositioned.runThread (moved : w.Repositioned fd w') (id : Nat) :
    (w.runThread id).Repositioned fd (w'.runThread id) := by
  obtain ⟨files, aside, rfl⟩ := moved
  unfold World.runThread
  rcases w.threads.threads.get? id with _ | ⟨name, task, _ | (_ | _) | _ | _⟩
  · exact ⟨files, aside, rfl⟩
  · exact ⟨files, aside, rfl⟩
  · simp only
    cases task.panics with
    | true => exact ⟨files, aside, rfl⟩
    | false =>
        rcases task.reads with _ | ⟨pipe, max⟩
        · exact ⟨files, aside, rfl⟩
        · simp only [Bool.false_eq_true, if_false]
          cases w.pipes.get? pipe with
          | none => exact ⟨files, aside, rfl⟩
          | some p =>
              simp only
              cases (p.read Pipe.fullChunks max).1 <;> exact ⟨files, aside, rfl⟩
  all_goals exact ⟨files, aside, rfl⟩

theorem Threads.applyRecord_repositioned (moved : w.Repositioned fd w') (r : Record SpawnRequest) :
    Agreed (Repositioned fd) (applyRecord r w) (applyRecord r w') := by
  obtain ⟨files, aside, rfl⟩ := moved
  simp only [applyRecord, World.startThread]
  rcases w.threads.start r.payload.thread with ⟨e | _, threads⟩
  · exact ⟨rfl, files, aside, rfl⟩
  · have started : { w with threads }.Repositioned fd { w with files, threads } := ⟨files, aside, rfl⟩
    exact ⟨rfl, started.runThread r.payload.thread⟩

end Blind

/-! ## Transactions -/

/-- The same of worlds that guests share. -/
def Repositioned {V : Type} (fd : Nat) (w w' : World × V) : Prop :=
  w.1.Repositioned fd w'.1 ∧ w'.2 = w.2

section Transactions

variable {G V : Type} {fd : Nat} {w w' : World × V}

/-- **No operation that ends a transaction depends on where a descriptor stands.** -/
theorem Primitive.perform_repositioned {β : Type} (p : Primitive V β) (tx : TxId)
    (moved : Repositioned fd w w') :
    Agreed (Repositioned fd) (p.perform tx w) (p.perform tx w') := by
  obtain ⟨w, v⟩ := w
  obtain ⟨w', v'⟩ := w'
  obtain ⟨⟨files, aside, same⟩, guests⟩ := moved
  simp only at aside same guests
  subst same guests
  have moved : w.Repositioned fd { w with files } := ⟨files, aside, rfl⟩
  cases p with
  | performFile handles r =>
      have agreed := Files.applyRecord_repositioned moved handles r
      exact ⟨agreed.answer, agreed.left, rfl⟩
  | performPipe s r =>
      have agreed := Pipes.applyRecord_repositioned moved s r
      exact ⟨agreed.answer, agreed.left, rfl⟩
  | startThread r =>
      have agreed := Threads.applyRecord_repositioned moved r
      exact ⟨agreed.answer, agreed.left, rfl⟩
  | seek descriptor offset =>
      have sought := aside.seek descriptor offset
      simp only [perform]
      generalize w.files.seek descriptor offset = r, files.seek descriptor offset = r' at sought
      cases sought with
      | refused e => exact ⟨rfl, moved, rfl⟩
      | granted left => exact ⟨rfl, ⟨_, left, rfl⟩, rfl⟩
  | uncreate id path =>
      have unlinked := aside.unlink path
      simp only [perform]
      generalize w.files.unlink path = r, files.unlink path = r' at unlinked
      cases unlinked with
      | refused e => exact ⟨rfl, moved, rfl⟩
      | granted left => exact ⟨rfl, ⟨_, left, rfl⟩, rfl⟩
  | _ => exact ⟨rfl, ⟨files, aside, rfl⟩, rfl⟩

theorem Procedure.run_repositioned {α : Type} (q : Procedure V α) (tx : TxId)
    (moved : Repositioned fd w w') : Agreed (Repositioned fd) (q.run tx w) (q.run tx w') := by
  induction q generalizing w w' with
  | done a => exact ⟨rfl, moved⟩
  | act p next ih =>
      obtain ⟨answer, left⟩ := p.perform_repositioned tx moved
      simp only [run, answer]
      exact ih _ left

theorem Transaction.withModule_agreed {P M W α : Type} {R : W → W → Prop} (facet : Facet P M)
    {f : Context → M → W → Except Error α × M × W} {w w' : W} (related : R w w')
    (each : ∀ ctx s, Agreed (Agreed R) (f ctx s w) (f ctx s w')) (t : Transaction P) :
    Agreed (Agreed R) (withModule facet f t w) (withModule facet f t w') := by
  unfold withModule
  rcases t.checkActive "use a module" with e | _
  · exact ⟨rfl, rfl, related⟩
  · rcases t.ensure facet with e | t'
    · exact ⟨rfl, rfl, related⟩
    · simp only
      cases findFacet facet t'.members with
      | none => exact ⟨rfl, rfl, related⟩
      | some both =>
          obtain ⟨s, put⟩ := both
          obtain ⟨answer, state, left⟩ := each t'.context s
          exact ⟨answer, congrArg (fun s => { t' with members := put s }) state, left⟩

theorem onWorld_agreed {M α : Type} {f : M → World → Except Error α × M × World}
    (moved : Repositioned fd w w')
    (each : ∀ s, w.1.Repositioned fd w'.1 →
      Agreed (Agreed (World.Repositioned fd)) (f s w.1) (f s w'.1)) (ctx : Context) (s : M) :
    Agreed (Agreed (Repositioned fd)) (onWorld f ctx s w) (onWorld f ctx s w') := by
  obtain ⟨answer, state, left⟩ := each s moved.1
  exact ⟨answer, state, left, moved.2⟩

/-- A call that looks where `fd` stands. -/
def PartyCall.Adopts (fd : Nat) (call : PartyCall G) : Prop :=
  ∃ path, call = .work (.files (.adopt fd path))

theorem Work.perform_repositioned (chunk : Nat → Nat → Nat) (t : Transaction (Party G))
    (moved : Repositioned fd w w') {work : Work}
    (blind : ¬ (PartyCall.work work : PartyCall G).Adopts fd) :
    Agreed (Repositioned fd) (work.perform chunk t w) (work.perform chunk t w') := by
  cases work with
  | files job =>
      have elsewhere : ¬ job.Adopts fd := fun ⟨path, same⟩ => blind ⟨path, same ▸ rfl⟩
      exact (Transaction.withModule_agreed Party.files moved
        (onWorld_agreed moved fun s moved => job.perform_repositioned moved s elsewhere) t).left
  | readPipe pipe max =>
      exact (Transaction.withModule_agreed Party.pipes moved
        (onWorld_agreed moved fun s moved => s.read_repositioned moved (chunk pipe) pipe max) t).left
  | writePipe pipe bytes =>
      exact (Transaction.withModule_agreed Party.pipes moved
        (onWorld_agreed moved fun s moved => s.write_repositioned moved pipe bytes) t).left
  | spawn name task =>
      refine (Transaction.withModule_agreed Party.threads moved
        (onWorld_agreed moved fun s moved => ?_) t).left
      obtain ⟨files, aside, same⟩ := moved
      rw [same]
      exact ⟨rfl, rfl, files, aside, rfl⟩
  | yieldOnce =>
      exact (Transaction.withModule_agreed Party.yields moved
        (onWorld_agreed moved fun s moved => ⟨rfl, rfl, moved⟩) t).left

variable [Participant G V]

/-- **No call depends on where a descriptor stands**, but for its adoption. -/
theorem PartyCall.perform_repositioned (chunk : Nat → Nat → Nat) (t : Transaction (Party G))
    (moved : Repositioned fd w w') {call : PartyCall G} (blind : ¬ call.Adopts fd) :
    Agreed (Repositioned fd) (call.perform chunk t w) (call.perform chunk t w') := by
  cases taken : Stepwise.steps t call with
  | some q =>
      rw [← Stepwise.steps_run chunk taken w, ← Stepwise.steps_run chunk taken w']
      exact q.run_repositioned t.id moved
  | none =>
      cases call with
      | work work => exact work.perform_repositioned chunk t moved blind
      | register g => exact ⟨rfl, moved⟩
      | _ => cases taken

/-! ### Meeting again

An apply that succeeds puts every adopted descriptor at the offset of its handle, wherever it was. -/

/-- The participant has adopted `fd`. -/
def Party.Settles (fd : Nat) : Party G → Prop
  | .builtin (.files s) => ∃ f ∈ s.handles.values, f.adopted = true ∧ f.descriptor = fd
  | _ => False

omit [Participant G V] in
theorem Files.settle_meets {w w' : World} {files : List OpenFile} (moved : w.Repositioned fd w')
    (done : (settle files w).1 = .ok ())
    (within : ∃ f ∈ files, f.adopted = true ∧ f.descriptor = fd) :
    settle files w' = settle files w := by
  induction files generalizing w w' with
  | nil =>
      obtain ⟨f, member, -⟩ := within
      cases member
  | cons f rest ih =>
      obtain ⟨fs, aside, rfl⟩ := moved
      obtain ⟨g, member, adopted, on⟩ := within
      simp only [settle] at done ⊢
      by_cases here : f.adopted = true ∧ f.descriptor = fd
      · obtain ⟨adopted, rfl⟩ := here
        have same : fs.seek f.descriptor f.offset = w.files.seek f.descriptor f.offset := by
          obtain ⟨position, rfl⟩ := aside
          exact Filesystem.seek_setPosition ..
        simp only [adopted, if_true, same] at done ⊢
        cases sought : w.files.seek f.descriptor f.offset with
        | error e => rw [sought] at done; cases done
        | ok files => rfl
      · have later : ∃ g ∈ rest, g.adopted = true ∧ g.descriptor = fd := by
          rcases List.mem_cons.1 member with rfl | later
          · exact absurd ⟨adopted, on⟩ here
          · exact ⟨g, later, adopted, on⟩
        split at done
        · next adopts =>
          have sought := aside.seek f.descriptor f.offset
          simp only [if_pos adopts]
          generalize w.files.seek f.descriptor f.offset = r,
            fs.seek f.descriptor f.offset = r' at sought done ⊢
          cases sought with
          | refused e => cases done
          | granted left => exact ih ⟨_, left, rfl⟩ done later
        · next own =>
          simp only [if_neg own]
          exact ih ⟨fs, aside, rfl⟩ done later

omit [Participant G V] in
theorem Files.applyEach_repositioned {w w' : World} (moved : w.Repositioned fd w')
    (handles : Table Nat OpenFile) (rs : List (Record FileEffect)) :
    Agreed (World.Repositioned fd) (DeferredLog.applyEach (applyRecord handles) rs w)
      (DeferredLog.applyEach (applyRecord handles) rs w') := by
  induction rs generalizing w w' with
  | nil => exact ⟨rfl, moved⟩
  | cons r rest ih =>
      obtain ⟨answer, left⟩ := applyRecord_repositioned moved handles r
      simp only [DeferredLog.applyEach]
      rcases here : applyRecord handles r w with ⟨e | _, w₁⟩ <;>
        rcases there : applyRecord handles r w' with ⟨e' | _, w₁'⟩ <;>
        rw [here, there] at answer left <;> cases answer
      · exact ⟨rfl, left⟩
      · exact ih left

omit [Participant G V] in
theorem Files.apply_meets {w w' : World} (moved : w.Repositioned fd w') {s : Files}
    (done : (s.apply w).1 = .ok ())
    (within : ∃ f ∈ s.handles.values, f.adopted = true ∧ f.descriptor = fd) :
    s.apply w' = s.apply w := by
  obtain ⟨answer, left⟩ := applyEach_repositioned moved s.handles s.log.records
  simp only [apply, DeferredLog.applyAll] at done ⊢
  rcases here : DeferredLog.applyEach (applyRecord s.handles) s.log.records w with ⟨e | _, w₁⟩ <;>
    rcases there : DeferredLog.applyEach (applyRecord s.handles) s.log.records w' with ⟨e' | _, w₁'⟩ <;>
    rw [here, there] at answer left <;> cases answer
  · rw [here] at done
    cases done
  · rw [here] at done
    simp only at done ⊢
    rw [settle_meets left done within]

theorem Party.apply_agreed (ctx : Context) (p : Party G) (moved : Repositioned fd w w') :
    Agreed (Agreed (Repositioned fd)) (Participant.apply ctx p w) (Participant.apply ctx p w') := by
  have agreed := (Stepwise.apply ctx p).run_repositioned ctx.tx moved
  rw [Stepwise.apply_run, Stepwise.apply_run] at agreed
  obtain ⟨answer, left⟩ := agreed
  obtain ⟨result, state⟩ := Prod.ext_iff.1 answer
  exact ⟨result, state, left⟩

theorem Party.apply_meets {ctx : Context} {p : Party G} (settles : p.Settles fd)
    (moved : Repositioned fd w w') (done : (Participant.apply ctx p w).1 = .ok ()) :
    Participant.apply ctx p w' = Participant.apply ctx p w := by
  obtain ⟨w, v⟩ := w
  obtain ⟨w', v'⟩ := w'
  obtain ⟨moved, guests⟩ := moved
  simp only at moved guests
  subst guests
  rcases p with (s | s | s | s) | g
  · have same := Files.apply_meets moved done settles
    exact congrArg (fun r : Except Error Unit × Files × World =>
      (r.1, (Party.builtin (.files r.2.1) : Party G), r.2.2, v')) same
  all_goals cases settles

theorem applyAll_meets {ctx : Context} {members : List (Member (Party G))}
    (settles : ∃ m ∈ members, m.state.Settles fd) (moved : Repositioned fd w w')
    (done : (applyAll ctx members w).1 = none) :
    applyAll ctx members w' = applyAll ctx members w := by
  induction members generalizing w w' with
  | nil =>
      obtain ⟨m, member, -⟩ := settles
      cases member
  | cons m rest ih =>
      obtain ⟨n, member, settles⟩ := settles
      obtain ⟨answer, state, left⟩ := m.state.apply_agreed ctx moved
      simp only [applyAll] at done ⊢
      rcases here : Participant.apply ctx m.state w with ⟨e | _, s, w₁⟩
      · rw [here] at done
        cases done
      · rw [here] at done answer state left
        rcases List.mem_cons.1 member with rfl | later
        · rw [Party.apply_meets settles moved (by rw [here]), here]
        · rcases there : Participant.apply ctx m.state w' with ⟨e' | _, s', w₁'⟩ <;>
            rw [there] at answer state left <;> cases answer
          cases state
          simp only at done left ⊢
          rw [ih ⟨n, later, settles⟩ left done]

theorem lockAll_settles {ctx : Context} {members : List (Member (Party G))} (w : World × V)
    (settles : ∃ m ∈ members, m.state.Settles fd) :
    ∃ m ∈ (lockAll ctx members w).members, m.state.Settles fd := by
  have kept (p : Party G) (w : World × V) (settles : p.Settles fd) :
      (Participant.lock ctx p w).2.1.Settles fd := by
    rcases p with (s | s | s | s) | g
    · exact settles
    all_goals cases settles
  induction members generalizing w with
  | nil =>
      obtain ⟨m, member, -⟩ := settles
      cases member
  | cons m rest ih =>
      obtain ⟨n, member, settles⟩ := settles
      simp only [lockAll]
      rcases taken : Participant.lock ctx m.state w with ⟨e | _, s, w₁⟩
      · rcases List.mem_cons.1 member with rfl | later
        · have settles := kept _ w settles
          rw [taken] at settles
          exact ⟨_, List.mem_cons_self, settles⟩
        · exact ⟨n, List.mem_cons_of_mem _ later, settles⟩
      · rcases List.mem_cons.1 member with rfl | later
        · have settles := kept _ w settles
          rw [taken] at settles
          exact ⟨_, List.mem_cons_self, settles⟩
        · obtain ⟨k, there, settles⟩ := ih w₁ ⟨n, later, settles⟩
          exact ⟨k, List.mem_cons_of_mem _ there, settles⟩

/-- **Where a commit succeeds it does not matter where an adopted descriptor stood.** -/
theorem Transaction.commit_meets {t : Transaction (Party G)}
    (settles : ∃ m ∈ t.members, m.state.Settles fd) (moved : Repositioned fd w w')
    (done : (t.commit w).1 = .ok .committed) : t.commit w' = t.commit w := by
  have agreed := (Stepwise.lockAll t.context t.members).run_repositioned t.context.tx moved
  rw [Stepwise.lockAll_run, Stepwise.lockAll_run] at agreed
  have settled : ∃ m ∈ (lockAll t.context t.members w).members, m.state.Settles fd :=
    lockAll_settles w settles
  by_cases active : t.phase = .active
  · have forward : t.phase.canAdvance .locked = true := by rw [active]; rfl
    have further : Phase.canAdvance .locked .validating = true := rfl
    simp only [commit, checkActive_active active] at done ⊢
    generalize lockAll t.context t.members w = r, lockAll t.context t.members w' = r'
      at agreed settled done ⊢
    obtain ⟨members, locked, refusal, w₁⟩ := r
    obtain ⟨members', locked', refusal', w₁'⟩ := r'
    obtain ⟨answer, left⟩ := agreed
    cases answer
    cases refusal with
    | some e =>
        have opens : t.phase.canAdvance .undoing = true := by rw [active]; rfl
        simp only [undoAndRelease_eq (t := { t with members }) opens] at done
        cases done
    | none =>
        have checks := (Stepwise.validateAll t.context .final members).run_repositioned t.context.tx left
        rw [Stepwise.validateAll_run, Stepwise.validateAll_run] at checks
        have context : ({ t with
            phase := Phase.validating
            visited := t.visited ++ [Phase.locked, .validating], members } :
            Transaction (Party G)).context = t.context := rfl
        simp only [validateAndRelease, advance, forward, further, if_true, List.append_assoc,
          List.singleton_append, context] at done settled ⊢
        rcases here : validateAll t.context .final members w₁ with ⟨_ | _, w₂⟩ <;>
          rcases there : validateAll t.context .final members w₁' with ⟨_ | _, w₂'⟩ <;>
          rw [here, there] at checks <;> obtain ⟨answer, left⟩ := checks <;> cases answer
        · rw [here] at done
          simp only at done
          rw [undoAndRelease_eq rfl] at done
          cases done
        · rw [here] at done
          simp only at done ⊢
          rw [applyAndRelease_eq rfl] at done ⊢
          rw [applyAndRelease_eq rfl]
          simp only [context] at done ⊢
          rw [applyAll_meets settled left]
          cases fault : (applyAll t.context members w₂).1 with
          | none => rfl
          | some code =>
              rw [fault] at done
              cases done
  · rw [commit, checkActive_inactive active] at done
    cases done

end Transactions

end Transact
