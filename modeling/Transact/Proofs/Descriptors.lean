/-
# Transact.Proofs.Descriptors -- what a call on a descriptor depends on

A transaction opens its own descriptors and goes to an offset before every transfer, so neither the
number nor the position of a descriptor matters.  `Descriptor.reading` and `Descriptor.writing` are
the transfers as functions of the rest of the descriptor and of the content of its file, and `readAt`
and `writeAt` are those (`readAt_answer`, `writeAt_file`).

Apart from contents, all that such calls do is `Onward`: the tree stays, and so does every descriptor
handed out, up to its position.
-/
import Transact.Proofs.Access
import Transact.Proofs.Existing

namespace Transact

set_option autoImplicit false

/-- A descriptor without its position. -/
def Descriptor.still (d : Descriptor) : Descriptor := { d with position := 0 }

namespace Descriptor

/-- Reading from the file of a descriptor. -/
def reading (d : Descriptor) (c : Content) (offset len : Nat) : Except Errno Bytes :=
  if Filesystem.maxLength < offset then .error .invalidArgument
  else if len = 0 then .ok []
  else if !d.readable then .error .badDescriptor
  else .ok (c.slice offset len)

/-- Writing to the file of a descriptor: the answer, and the part that is written. -/
def writing (d : Descriptor) (offset : Nat) (bytes : Bytes) : Except Errno Unit × Bytes :=
  if Filesystem.maxLength < offset then (.error .invalidArgument, [])
  else if bytes = [] then (.ok (), [])
  else if !d.writable then (.error .badDescriptor, [])
  else if bytes.length ≤ Filesystem.maxLength - offset then (.ok (), bytes)
  else (.error .fileTooLarge, bytes.take (Filesystem.maxLength - offset))

end Descriptor

namespace Filesystem

/-- From `fs` to `fs'` no name changed and no descriptor but in its position. -/
structure Onward (fs fs' : Filesystem) : Prop where
  tree : SameTree fs fs'
  next : fs.nextDescriptor ≤ fs'.nextDescriptor
  still : ∀ n, n < fs.nextDescriptor →
    (fs'.descriptors.get? n).map Descriptor.still = (fs.descriptors.get? n).map Descriptor.still

namespace Onward

variable {fs fs' fs'' : Filesystem}

theorem refl (fs : Filesystem) : Onward fs fs := ⟨.refl fs, Nat.le_refl _, fun _ _ => rfl⟩

theorem trans (first : Onward fs fs') (second : Onward fs' fs'') : Onward fs fs'' where
  tree := first.tree.trans second.tree
  next := Nat.le_trans first.next second.next
  still n known :=
    (second.still n (Nat.lt_of_lt_of_le known first.next)).trans (first.still n known)

/-- A descriptor that was handed out stays on its file. -/
theorem inode? (onward : Onward fs fs') {n : Nat} (known : n < fs.nextDescriptor) :
    fs'.inode? n = fs.inode? n := by
  have still := congrArg (Option.map Descriptor.inode) (onward.still n known)
  simp only [Option.map_map, Function.comp_def, Descriptor.still] at still
  simp only [Filesystem.inode?]
  cases here : fs.descriptors.get? n <;> cases there : fs'.descriptors.get? n <;>
    simp_all

end Onward

theorem onward_setPosition (fs : Filesystem) (fd position : Nat) :
    Onward fs (fs.setPosition fd position) where
  tree := ⟨rfl, rfl⟩
  next := Nat.le_refl _
  still n _ := by
    simp only [setPosition, Table.get?_modify]
    split
    · rename_i same
      rw [same]
      cases fs.descriptors.get? fd <;> rfl
    · rfl

theorem onward_addDescriptor (fs : Filesystem) (d : Descriptor) :
    Onward fs (fs.addDescriptor d).2 where
  tree := ⟨rfl, rfl⟩
  next := Nat.le_succ _
  still n known := by
    simp only [addDescriptor]
    rw [Table.get?_set_of_ne _ _ (Nat.ne_of_lt known)]

theorem onward_setContent (fs : Filesystem) (inode : Inode) (c : Content) :
    Onward fs (fs.setContent inode c) :=
  ⟨⟨rfl, rfl⟩, Nat.le_refl _, fun _ _ => rfl⟩

/-- Nothing changed but positions and new descriptors. -/
structure Moved (fs fs' : Filesystem) : Prop extends Onward fs fs' where
  contents : fs'.contents = fs.contents

namespace Moved

variable {fs fs' fs'' : Filesystem}

theorem refl (fs : Filesystem) : Moved fs fs := ⟨.refl fs, rfl⟩

theorem trans (first : Moved fs fs') (second : Moved fs' fs'') : Moved fs fs'' :=
  ⟨first.toOnward.trans second.toOnward, second.contents.trans first.contents⟩

theorem content (moved : Moved fs fs') (inode : Inode) : fs'.content inode = fs.content inode := by
  simp only [Filesystem.content, moved.contents]

end Moved

theorem moved_setPosition (fs : Filesystem) (fd position : Nat) :
    Moved fs (fs.setPosition fd position) :=
  ⟨onward_setPosition fs fd position, rfl⟩

theorem moved_seek {fs fs' : Filesystem} {fd position : Nat}
    (sought : fs.seek fd position = .ok fs') : Moved fs fs' := by
  unfold seek at sought
  split at sought
  · cases sought
  · cases sought
    exact moved_setPosition fs fd position

/-- After a seek the descriptor is there. -/
theorem get?_setPosition {fs : Filesystem} {fd : Nat} {d : Descriptor}
    (known : fs.descriptors.get? fd = some d) (position : Nat) :
    (fs.setPosition fd position).descriptors.get? fd = some { d with position } := by
  simp only [setPosition, Table.get?_modify, if_true, known, Option.map_some]

theorem seek_file {fs : Filesystem} {fd : Nat} {d : Descriptor} {inode : Inode}
    (known : fs.descriptors.get? fd = some d) (file : d.inode = some inode) (offset : Nat) :
    fs.seek fd offset =
      if maxLength < offset then .error .invalidArgument else .ok (fs.setPosition fd offset) := by
  have limit : fs.positionLimit fd = maxLength := by
    simp only [positionLimit, inode?, known, Option.bind_some, file]
  rw [seek, limit]

/-! ## Reading -/

theorem moved_read {fs fs' : Filesystem} {fd len ask : Nat} {bytes : Bytes}
    (done : fs.read fd len ask = .ok (bytes, fs')) : Moved fs fs' := by
  unfold read at done
  split at done
  · cases done
    exact .refl fs
  · split at done
    · cases done
    · split at done
      · cases done
      · split at done
        · split at done <;> cases done
        · cases done
          exact moved_setPosition ..

theorem moved_readAt (fs : Filesystem) (fd offset len : Nat) :
    Moved fs (fs.readAt fd offset len).2 := by
  unfold readAt
  cases sought : fs.seek fd offset with
  | error e => exact .refl fs
  | ok fs' =>
      have moved := moved_seek sought
      cases done : fs'.read fd len transferLimit with
      | error e =>
          simp only [done]
          exact moved
      | ok result =>
          simp only [done]
          exact moved.trans (moved_read done)

/-- **Reading depends on the rest of the descriptor and on the content of its file.** -/
theorem readAt_answer {fs : Filesystem} {fd : Nat} {d : Descriptor} {inode : Inode}
    (known : fs.descriptors.get? fd = some d) (file : d.inode = some inode) (offset len : Nat) :
    (fs.readAt fd offset len).1 = d.reading (fs.content inode) offset len := by
  unfold readAt Descriptor.reading
  rw [seek_file known file]
  by_cases far : maxLength < offset
  · simp only [far, if_true]
  · simp only [far, if_false, read, get?_setPosition known, file]
    by_cases empty : len = 0
    · simp only [empty, if_true]
    · cases readable : d.readable with
      | false => simp only [empty, if_false, Bool.not_false, if_true]
      | true =>
          simp only [empty, if_false, Bool.not_true, Bool.false_eq_true]
          rfl

/-! ## Writing -/

/-- What a content becomes when `part` is written. -/
def rewritten (c : Content) (offset : Nat) (part : Bytes) : Content :=
  if part = [] then c else c.splice offset part

/-- From `fs` to `fs'` one file got `part` at `offset`, and no other file changed. -/
structure Rewrites (inode : Inode) (offset : Nat) (part : Bytes) (fs fs' : Filesystem) : Prop
    extends Onward fs fs' where
  content : ∀ other, fs'.content other =
    if other = inode then rewritten (fs.content inode) offset part else fs.content other

theorem Moved.rewrites {fs fs' : Filesystem} (moved : Moved fs fs') (inode : Inode)
    (offset : Nat) : Rewrites inode offset [] fs fs' where
  toOnward := moved.toOnward
  content other := by
    rw [moved.content, rewritten, if_pos rfl]
    split
    · rename_i same
      rw [same]
    · rfl

theorem content_setContent (fs : Filesystem) (inode other : Inode) (c : Content) :
    (fs.setContent inode c).content other = if other = inode then c else fs.content other := by
  by_cases same : other = inode
  · simp [content, setContent, same]
  · simp [content, setContent, same, Table.get?_set_of_ne]

theorem rewrites_put (fs : Filesystem) (fd : Nat) (inode : Inode) (offset : Nat) {part : Bytes}
    (filled : part ≠ []) :
    Rewrites inode offset part fs ((fs.setPosition fd offset).put fd inode offset part) where
  toOnward :=
    ((onward_setPosition ..).trans (onward_setContent ..)).trans (onward_setPosition ..)
  content other := by
    have written := content_setContent (fs.setPosition fd offset) inode other
      ((fs.content inode).splice offset part)
    rw [rewritten, if_neg filled]
    exact written

/-- **Writing depends on the rest of the descriptor alone**, and changes its file alone. -/
theorem writeAt_file {fs : Filesystem} {fd : Nat} {d : Descriptor} {inode : Inode}
    (known : fs.descriptors.get? fd = some d) (file : d.inode = some inode)
    (plain : d.appends = false) (offset : Nat) (bytes : Bytes) :
    (fs.writeAt fd offset bytes).1 = (d.writing offset bytes).1 ∧
      Rewrites inode offset (d.writing offset bytes).2 fs (fs.writeAt fd offset bytes).2 := by
  have sought := moved_setPosition fs fd offset
  unfold writeAt Descriptor.writing
  rw [seek_file known file]
  by_cases far : maxLength < offset
  · simp only [far, if_true]
    exact ⟨trivial, (Moved.refl fs).rewrites inode offset⟩
  simp only [far, if_false, write, get?_setPosition known, file, plain]
  by_cases empty : bytes = []
  · simp only [empty, if_true]
    exact ⟨trivial, sought.rewrites inode offset⟩
  cases writable : d.writable with
  | false =>
      simp only [empty, if_false, Bool.not_false, if_true]
      exact ⟨trivial, sought.rewrites inode offset⟩
  | true =>
      simp only [empty, if_false, Bool.not_true, Bool.false_eq_true]
      by_cases fits : bytes.length ≤ maxLength - offset
      · simp only [fits, if_true]
        exact ⟨trivial, rewrites_put fs fd inode offset empty⟩
      simp only [fits, if_false]
      by_cases room : maxLength - offset = 0
      · simp only [room, if_true, List.take_zero]
        exact ⟨trivial, sought.rewrites inode offset⟩
      · simp only [room, if_false]
        refine ⟨trivial, rewrites_put fs fd inode offset fun nothing => ?_⟩
        rcases List.take_eq_nil_iff.1 nothing with zero | nil
        · exact room zero
        · exact empty nil

end Filesystem

end Transact
