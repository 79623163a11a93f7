/-
# Transact.Proofs.Limits -- how far files and descriptors reach

The system lets no file grow past a greatest length and puts no descriptor past a greatest position.
`Filesystem.Bounded` says so of everything there is, and no system call ends it: files are created empty,
descriptors begin at the front, a seek is refused past the greatest position and a write past the greatest
length, and a read ends where the file does.  So nothing that is done in a transaction ends it, nor its
commit or its abort (`PartyCall.perform_bounded`).
-/
import Transact.Proofs.Fruitless
import Transact.Proofs.LogicalEnd

namespace Transact

set_option autoImplicit false

namespace Filesystem

variable {fs fs' : Filesystem} {fd : Nat} {d : Descriptor} {inode : Inode}

/-- No file is longer than the system lets it be, and no descriptor stands farther. -/
structure Bounded (fs : Filesystem) : Prop where
  lengths : ∀ inode, (fs.content inode).length ≤ maxLength
  positions : ∀ fd, fs.position fd ≤ fs.positionLimit fd

theorem positionLimit_le (fs : Filesystem) (fd : Nat) : fs.positionLimit fd ≤ maxPosition := by
  unfold positionLimit
  split
  · decide
  · exact Nat.le_refl _

theorem positionLimit_file (known : fs.descriptors.get? fd = some d) (file : d.inode = some inode) :
    fs.positionLimit fd = maxLength := by
  simp only [positionLimit, inode?, known, Option.bind_some, file]

/-! ## What is read -/

/-- A read that is granted yields nothing, or what the file holds from the position on. -/
theorem read_ok {len ask : Nat} {bytes : Bytes} (done : fs.read fd len ask = .ok (bytes, fs')) :
    bytes = [] ∧ fs' = fs ∨ ∃ d inode, fs.descriptors.get? fd = some d ∧ d.inode = some inode ∧
      bytes = (fs.content inode).slice d.position len ∧
      fs' = fs.setPosition fd (d.position + bytes.length) := by
  unfold read at done
  split at done
  · cases done
    exact Or.inl ⟨rfl, rfl⟩
  · split at done
    · cases done
    · next d known =>
      split at done
      · cases done
      · split at done
        · split at done <;> cases done
        · next inode file =>
          cases done
          exact Or.inr ⟨d, inode, known, file, rfl, rfl⟩

/-- A read that is granted begins where a descriptor can stand, and ends within the file, or there. -/
theorem readAt_ok {offset len : Nat} {window : Bytes}
    (done : (fs.readAt fd offset len).1 = .ok window) :
    offset ≤ fs.positionLimit fd ∧ offset + window.length ≤ max offset (fs.length fd) := by
  unfold readAt seek at done
  by_cases far : fs.positionLimit fd < offset
  · simp [far] at done
  · refine ⟨Nat.not_lt.1 far, ?_⟩
    simp only [far, if_false] at done
    rcases granted : (fs.setPosition fd offset).read fd len transferLimit with e | ⟨bytes, files⟩ <;>
      rw [granted] at done <;> cases done
    rcases read_ok granted with ⟨rfl, -⟩ | ⟨d, inode, known, file, same, -⟩
    · exact Nat.le_max_left ..
    · rw [get?_setPosition_of, if_pos rfl] at known
      obtain ⟨d, before, rfl⟩ := Option.map_eq_some_iff.1 known
      have whole : fs.length fd = (fs.content inode).length := by
        rw [length, inode?, before, Option.bind_some, show d.inode = some inode from file]
      have taken : window.length = min len ((fs.content inode).length - offset) := by
        rw [same, Content.slice_eq, Bytes.length_slice, Content.length_toBytes]
        rfl
      omega

/-! ## Within bounds -/

namespace Bounded

theorem position_le (bounded : fs.Bounded) (fd : Nat) : fs.position fd ≤ maxPosition :=
  Nat.le_trans (bounded.positions fd) (fs.positionLimit_le fd)

theorem length_le (bounded : fs.Bounded) (fd : Nat) : fs.length fd ≤ maxLength := by
  unfold Filesystem.length
  split
  · exact bounded.lengths _
  · decide

/-- A descriptor on a file stands within the greatest length. -/
theorem within_file (bounded : fs.Bounded) (known : fs.descriptors.get? fd = some d)
    (file : d.inode = some inode) : d.position ≤ maxLength := by
  have within := bounded.positions fd
  rwa [positionLimit_file known file, position, known] at within

/-- Names play no part. -/
theorem eraseEntry (bounded : fs.Bounded) (at_ : Location) : (fs.eraseEntry at_).Bounded :=
  ⟨bounded.lengths, bounded.positions⟩

theorem addFile (bounded : fs.Bounded) (at_ : Location) : (fs.addFile at_).2.Bounded where
  lengths other := by
    rw [show (fs.addFile at_).2.content other = _ from content_setContent fs fs.nextInode other {}]
    split
    · exact Nat.zero_le _
    · exact bounded.lengths other
  positions := bounded.positions

theorem addDescriptor (bounded : fs.Bounded) (start : d.position = 0) :
    (fs.addDescriptor d).2.Bounded where
  lengths := bounded.lengths
  positions other := by
    by_cases new : other = fs.nextDescriptor
    · simp only [position, Filesystem.addDescriptor, new, Table.get?_set_self, start, Nat.zero_le]
    · have within := bounded.positions other
      simp only [position, positionLimit, inode?, Filesystem.addDescriptor,
        Table.get?_set_of_ne _ _ new] at within ⊢
      exact within

theorem setPosition (bounded : fs.Bounded) {position : Nat} (within : position ≤ fs.positionLimit fd) :
    (fs.setPosition fd position).Bounded where
  lengths := bounded.lengths
  positions other := by
    rw [positionLimit_setPosition, Filesystem.position, get?_setPosition_of]
    by_cases here : other = fd
    · subst here
      rw [if_pos rfl]
      cases fs.descriptors.get? other with
      | none => exact Nat.zero_le _
      | some d => exact within
    · rw [if_neg here]
      exact bounded.positions other

theorem setContent (bounded : fs.Bounded) {content : Content} (short : content.length ≤ maxLength) :
    (fs.setContent inode content).Bounded where
  lengths other := by
    rw [content_setContent]
    split
    · exact short
    · exact bounded.lengths other
  positions := bounded.positions

/-! ### System calls -/

theorem seek (bounded : fs.Bounded) {position : Nat} (sought : fs.seek fd position = .ok fs') :
    fs'.Bounded := by
  unfold Filesystem.seek at sought
  split at sought
  · cases sought
  · next near =>
    cases sought
    exact bounded.setPosition (Nat.not_lt.1 near)

theorem put (bounded : fs.Bounded) (known : fs.descriptors.get? fd = some d)
    (file : d.inode = some inode) {offset : Nat} {bytes : Bytes}
    (fits : offset + bytes.length ≤ maxLength) : (fs.put fd inode offset bytes).Bounded := by
  have grown : ((fs.content inode).splice offset bytes).length ≤ maxLength := by
    rw [Content.length_splice, Content.extend]
    split
    · exact bounded.lengths inode
    · exact Nat.max_le.2 ⟨bounded.lengths inode, fits⟩
  have limit : (fs.setContent inode ((fs.content inode).splice offset bytes)).positionLimit fd =
      maxLength := positionLimit_file known file
  exact (bounded.setContent grown).setPosition (limit ▸ fits)

theorem write (bounded : fs.Bounded) (fd : Nat) (bytes : Bytes) : (fs.write fd bytes).2.Bounded := by
  unfold Filesystem.write
  split
  · exact bounded
  · split
    · exact bounded
    · next d known =>
      split
      · exact bounded
      · split
        · exact bounded
        · next inode file =>
          have place : (if d.appends then (fs.content inode).length else d.position) ≤ maxLength := by
            split
            · exact bounded.lengths inode
            · exact bounded.within_file known file
          generalize (if d.appends then (fs.content inode).length else d.position) = offset at place
          have fits {part : Bytes} (short : part.length ≤ maxLength - offset) :
              offset + part.length ≤ maxLength := by omega
          simp only
          split
          · next room => exact bounded.put known file (fits room)
          · split
            · exact bounded
            · exact bounded.put known file (fits (List.length_take_le _ bytes))

theorem read (bounded : fs.Bounded) {len ask : Nat} {bytes : Bytes}
    (done : fs.read fd len ask = .ok (bytes, fs')) : fs'.Bounded := by
  rcases read_ok done with ⟨-, rfl⟩ | ⟨d, inode, known, file, rfl, rfl⟩
  · exact bounded
  · refine bounded.setPosition ?_
    have near := bounded.within_file known file
    have short := bounded.lengths inode
    rw [positionLimit_file known file, Content.slice_eq, Bytes.length_slice, Content.length_toBytes]
    omega

theorem readAt (bounded : fs.Bounded) (fd offset len : Nat) : (fs.readAt fd offset len).2.Bounded := by
  unfold Filesystem.readAt
  cases sought : fs.seek fd offset with
  | error e => exact bounded
  | ok moved =>
      have there := bounded.seek sought
      cases done : moved.read fd len transferLimit with
      | error e => simpa only [done] using there
      | ok result => simpa only [done] using there.read done

theorem writeAt (bounded : fs.Bounded) (fd offset : Nat) (bytes : Bytes) :
    (fs.writeAt fd offset bytes).2.Bounded := by
  unfold Filesystem.writeAt
  cases sought : fs.seek fd offset with
  | error e => exact bounded
  | ok moved => exact (bounded.seek sought).write fd bytes

theorem unlink (bounded : fs.Bounded) {path : String} (done : fs.unlink path = .ok fs') :
    fs'.Bounded := by
  obtain ⟨-, directory, name, e, -, -, rfl⟩ := unlink_ok done
  exact bounded.eraseEntry _

theorem openExisting (bounded : fs.Bounded) {path : String} {access : Access}
    (opened : fs.openExisting path access = .ok (fd, fs')) : fs'.Bounded := by
  unfold Filesystem.openExisting at opened
  split at opened
  · cases opened
  · split at opened
    · cases opened
    · split at opened
      · cases opened
      · cases opened
        exact bounded.addDescriptor rfl
      · split at opened <;> cases opened
        exact bounded.addDescriptor rfl
      · cases opened

theorem openOrCreate (bounded : fs.Bounded) {path : String} {flags : OpenFlags} {created : Bool}
    (made : Files.openOrCreate fs path flags = .ok (fd, created, fs')) : fs'.Bounded := by
  have existing (found : (fs.openExisting path { read := flags.read, write := flags.writes }).map
      (fun r => (r.1, false, r.2)) = .ok (fd, created, fs')) : fs'.Bounded := by
    rcases opened : fs.openExisting path { read := flags.read, write := flags.writes } with
      e | ⟨number, files⟩ <;> rw [opened] at found <;> cases found
    exact bounded.openExisting opened
  unfold Files.openOrCreate at made
  simp only at made
  split at made
  · rcases new : fs.createNew path flags.read with e | ⟨number, files⟩ <;> simp only [new] at made
    · split at made
      · next taken => cases taken
      · exact existing made
      · cases made
    · cases made
      obtain ⟨-, directory, name, -, -, same⟩ := createNew_ok new
      cases same
      exact (bounded.addFile _).addDescriptor rfl
  · exact existing made

end Bounded

end Filesystem

/-! ## Jobs -/

/-- No job on files ends it. -/
theorem Filing.perform_bounded (job : Filing) (s : Files) {w : World} (bounded : w.files.Bounded) :
    (job.perform s w).2.2.files.Bounded := by
  cases job with
  | adopt descriptor path =>
      simp only [perform, Files.adopt]
      split <;> exact bounded
  | remove path =>
      simp only [perform, Files.remove]
      split
      · exact bounded
      · split <;> exact bounded
  | plain job =>
      cases job with
      | openPath path flags =>
          simp only [perform, FileWork.perform, Files.openPath]
          split
          · exact bounded
          · split
            · exact bounded
            · next opened => exact bounded.openOrCreate opened
      | read h len =>
          simp only [perform, FileWork.perform, Files.read]
          split
          · exact bounded
          · next f _ =>
            have done := bounded.readAt f.descriptor f.offset len
            split <;> next same => rw [same] at done; exact done
      | write h bytes =>
          simp only [perform, FileWork.perform, Files.write]
          split <;> exact bounded
      | seek h pos =>
          simp only [perform, FileWork.perform, Files.seek]
          split
          · exact bounded
          · split <;> exact bounded
      | tell h => exact bounded
      | close h =>
          simp only [perform, FileWork.perform, Files.close]
          split <;> exact bounded

/-- To perform a record of the log does not end it either. -/
theorem Files.applyRecord_bounded (handles : Table Nat OpenFile) (r : Record FileEffect) {w : World}
    (bounded : w.files.Bounded) : (applyRecord handles r w).2.files.Bounded := by
  unfold applyRecord
  split
  · exact bounded
  · exact bounded
  · next h offset bytes _ =>
    split
    · exact bounded
    · next f _ =>
      have done := bounded.writeAt f.descriptor offset bytes
      split <;> next same => rw [same] at done; exact done
  · unfold unlinkResource
    split
    · split
      · next done => exact bounded.unlink done
      · exact bounded
    · exact bounded

/-! ## Transactions -/

section Transactions

variable {G V : Type} {w : World × V}

/-- No primitive ends it. -/
theorem Primitive.perform_bounded {β : Type} (p : Primitive V β) (tx : TxId)
    (bounded : w.1.files.Bounded) : (p.perform tx w).2.1.files.Bounded := by
  cases p with
  | performFile handles r => exact Files.applyRecord_bounded handles r bounded
  | performPipe s r =>
      have files : (s.applyRecord r w.1).2.files = w.1.files := by
        simp only [Pipes.applyRecord]
        split
        · rfl
        · split <;> rfl
      simp only [perform, files]
      exact bounded
  | startThread r =>
      have still := Threads.still_startThread tx w.1 r.payload.thread
      have started : (Threads.applyRecord r w.1).2 = (w.1.startThread r.payload.thread).2 := by
        unfold Threads.applyRecord
        rcases w.1.startThread r.payload.thread with ⟨_ | _, w'⟩ <;> rfl
      simp only [perform, started, still.files]
      exact bounded
  | seek descriptor offset =>
      simp only [perform]
      split
      · next sought => exact bounded.seek sought
      · exact bounded
  | uncreate id path =>
      simp only [perform]
      split
      · next done => exact bounded.unlink done
      · exact bounded
  | _ => exact bounded

theorem Procedure.run_bounded {α : Type} (q : Procedure V α) (tx : TxId)
    (bounded : w.1.files.Bounded) : (q.run tx w).2.1.files.Bounded := by
  induction q generalizing w with
  | done a => exact bounded
  | act p next ih => exact ih _ (p.perform_bounded tx bounded)

theorem Work.perform_bounded (chunk : Nat → Nat → Nat) (t : Transaction (Party G))
    (bounded : w.1.files.Bounded) (work : Work) : (work.perform chunk t w).2.1.files.Bounded := by
  have through {M α : Type} (facet : Facet (Party G) M) {f : M → World → Except Error α × M × World}
      (kept : ∀ s, (f s w.1).2.2.files.Bounded) :
      (Transaction.withModule facet (onWorld f) t w).2.2.1.files.Bounded := by
    rcases Transaction.withModule_world facet (onWorld f) t w with same | ⟨s, same⟩ <;> rw [same]
    · exact bounded
    · exact kept s
  cases work with
  | files job => exact through Party.files fun s => job.perform_bounded s bounded
  | readPipe pipe max =>
      refine through Party.pipes fun s => ?_
      rw [(Pipes.still_read t.id (chunk pipe) pipe max s w.1).files]
      exact bounded
  | writePipe pipe bytes =>
      refine through Party.pipes fun s => ?_
      rw [(Pipes.still_write t.id pipe bytes s w.1).files]
      exact bounded
  | spawn name task => exact through Party.threads fun _ => bounded
  | yieldOnce => exact through Party.yields fun _ => bounded

/-- **No call lets a file grow or a descriptor go past what the system allows.** -/
theorem PartyCall.perform_bounded [Participant G V] (chunk : Nat → Nat → Nat)
    (t : Transaction (Party G)) (bounded : w.1.files.Bounded) (call : PartyCall G) :
    (call.perform chunk t w).2.1.files.Bounded := by
  cases taken : Stepwise.steps t call with
  | some q =>
      rw [← Stepwise.steps_run chunk taken w]
      exact q.run_bounded t.id bounded
  | none =>
      cases call with
      | work work => exact work.perform_bounded chunk t bounded
      | register g => exact bounded
      | _ => cases taken

end Transactions

end Transact
