/-
# Transact.Proofs.Lent -- work through a descriptor from outside

A descriptor from outside is shared, and everybody who works through it moves it.  But a handle has an
offset of its own and goes there before every transfer: what work answers and what it leaves in the
transaction does not depend on where the descriptor is (`Through.perform_alike`).  Only adoption
looks.  What it finds becomes the offset of the handle, and undo puts the descriptor back there
(`found`).

Apply performs the same wherever the descriptor is (`Lent.apply_aside`) and leaves it at the offset of
the last handle (`Lent.apply_resting`); undo leaves it where it was found first (`Lent.undo_first`).
-/
import Transact.Proofs.Performing
import Transact.Proofs.Unlocking

namespace Transact

set_option autoImplicit false

/-! ## Positions -/

namespace Table

variable {κ α : Type} [DecidableEq κ]

theorem put_put (l : List (κ × α)) (key : κ) (first second : α) :
    put (put l key first) key second = put l key second := by
  induction l with
  | nil => simp [put]
  | cons e rest ih =>
      obtain ⟨k, a⟩ := e
      by_cases here : k = key <;> simp [put, here, ih]

theorem put_find {l : List (κ × α)} {key : κ} {value : α} (found : find l key = some value) :
    put l key value = l := by
  induction l with
  | nil => cases found
  | cons e rest ih =>
      obtain ⟨k, a⟩ := e
      by_cases here : k = key
      · simp only [find, here, if_true, Option.some.injEq] at found
        simp [put, here, found]
      · simp only [find, here, if_false] at found
        simp [put, here, ih found]

theorem modify_modify (t : Table κ α) (key : κ) (first second : α → α) :
    (t.modify key first).modify key second = t.modify key (second ∘ first) := by
  unfold modify
  cases found : t.get? key with
  | none => simp only [found]
  | some value =>
      simp only [get?_set_self, Function.comp_apply]
      simp only [set, put_put]

theorem modify_self {t : Table κ α} {key : κ} {f : α → α}
    (same : ∀ value, t.get? key = some value → f value = value) : t.modify key f = t := by
  unfold modify
  cases found : t.get? key with
  | none => rfl
  | some value => simp only [same value found, set, put_find found]

end Table

namespace Filesystem

variable {fs fs' fs'' : Filesystem} {fd : Nat}

@[simp] theorem setPosition_setPosition (fs : Filesystem) (fd first second : Nat) :
    (fs.setPosition fd first).setPosition fd second = fs.setPosition fd second := by
  simp only [setPosition, Table.modify_modify]
  rfl

@[simp] theorem setPosition_position (fs : Filesystem) (fd : Nat) :
    fs.setPosition fd (fs.position fd) = fs := by
  have same : fs.descriptors.modify fd (fun d => { d with position := fs.position fd }) =
      fs.descriptors :=
    Table.modify_self fun d known => by simp only [position, known]
  rw [setPosition, same]

theorem position_setPosition (known : (fs.descriptors.get? fd).isSome) (position : Nat) :
    (fs.setPosition fd position).position fd = position := by
  obtain ⟨d, known⟩ := Option.isSome_iff_exists.1 known
  rw [Filesystem.position, get?_setPosition known]

@[simp] theorem positionLimit_setPosition (fs : Filesystem) (fd other position : Nat) :
    (fs.setPosition fd position).positionLimit other = fs.positionLimit other :=
  positionLimit_of_still ((Written.setPosition fs fd position).still other)

theorem Written.isSome (written : Written fs fs') (fd : Nat) :
    (fs'.descriptors.get? fd).isSome = (fs.descriptors.get? fd).isSome := by
  have still := congrArg Option.isSome (written.still fd)
  rwa [Option.isSome_map, Option.isSome_map] at still

/-- Nothing differs but the position of `fd`. -/
def Aside (fd : Nat) (fs fs' : Filesystem) : Prop := ∃ position, fs' = fs.setPosition fd position

namespace Aside

theorem refl (fd : Nat) (fs : Filesystem) : Aside fd fs fs :=
  ⟨fs.position fd, (fs.setPosition_position fd).symm⟩

theorem symm (aside : Aside fd fs fs') : Aside fd fs' fs := by
  obtain ⟨position, rfl⟩ := aside
  exact ⟨fs.position fd, by simp⟩

theorem trans (first : Aside fd fs fs') (second : Aside fd fs' fs'') : Aside fd fs fs'' := by
  obtain ⟨_, rfl⟩ := first
  obtain ⟨position, rfl⟩ := second
  exact ⟨position, by simp⟩

theorem written (aside : Aside fd fs fs') : Written fs fs' := by
  obtain ⟨position, rfl⟩ := aside
  exact .setPosition fs fd position

theorem contents (aside : Aside fd fs fs') : fs'.contents = fs.contents := by
  obtain ⟨position, rfl⟩ := aside
  rfl

theorem inode? (aside : Aside fd fs fs') (n : Nat) : fs'.inode? n = fs.inode? n := by
  have inodes := congrArg (Option.map Descriptor.inode) (aside.written.still n)
  rw [Option.map_map, Option.map_map] at inodes
  simp only [Filesystem.inode?]
  cases here : fs.descriptors.get? n <;> cases there : fs'.descriptors.get? n <;>
    rw [here, there] at inodes <;> simp_all [Descriptor.still]

theorem length (aside : Aside fd fs fs') (n : Nat) : fs'.length n = fs.length n := by
  simp only [Filesystem.length, aside.inode?, content, aside.contents]

end Aside

/-- It makes no difference to a seek where the descriptor is. -/
theorem seek_setPosition (fs : Filesystem) (fd position offset : Nat) :
    (fs.setPosition fd position).seek fd offset = fs.seek fd offset := by
  simp only [seek, positionLimit_setPosition, setPosition_setPosition]

theorem aside_seek {position : Nat} (sought : fs.seek fd position = .ok fs') : Aside fd fs fs' := by
  unfold seek at sought
  split at sought <;> cases sought
  exact ⟨position, rfl⟩

theorem aside_readAt (fs : Filesystem) (fd offset len : Nat) :
    Aside fd fs (fs.readAt fd offset len).2 := by
  unfold readAt
  cases sought : fs.seek fd offset with
  | error e => exact .refl fd fs
  | ok fs₁ =>
      simp only
      cases done : fs₁.read fd len transferLimit with
      | error e => exact aside_seek sought
      | ok result =>
          refine (aside_seek sought).trans ?_
          unfold read at done
          split at done
          · cases done
            exact .refl fd fs₁
          · split at done
            · cases done
            · split at done
              · cases done
              · split at done
                · split at done <;> cases done
                · cases done
                  exact ⟨_, rfl⟩

/-- It makes no difference to what is read where the descriptor was. -/
theorem readAt_alike (aside : Aside fd fs fs') (offset len : Nat) :
    (fs'.readAt fd offset len).1 = (fs.readAt fd offset len).1 := by
  obtain ⟨position, rfl⟩ := aside
  unfold readAt
  rw [seek_setPosition]
  cases fs.seek fd offset with
  | error e => rfl
  | ok fs₁ => rfl

/-- It makes no difference to what is written where the descriptor was. -/
theorem writeAt_alike (aside : Aside fd fs fs') (offset : Nat) (bytes : Bytes) :
    (fs'.writeAt fd offset bytes).1 = (fs.writeAt fd offset bytes).1 ∧
      Aside fd (fs.writeAt fd offset bytes).2 (fs'.writeAt fd offset bytes).2 := by
  obtain ⟨position, rfl⟩ := aside
  unfold writeAt
  rw [seek_setPosition]
  cases fs.seek fd offset with
  | error e => exact ⟨rfl, position, rfl⟩
  | ok fs₁ => exact ⟨rfl, .refl fd _⟩

end Filesystem

/-! ## Worlds -/

/-- Nothing that work on files depends on differs but the position of `fd`. -/
structure World.Aside (fd : Nat) (w w' : World) : Prop where
  files : w.files.Aside fd w'.files
  versions : w'.versions = w.versions

namespace World.Aside

variable {fd : Nat} {w w' w'' : World}

theorem refl (fd : Nat) (w : World) : Aside fd w w := ⟨.refl fd w.files, rfl⟩

theorem symm (aside : Aside fd w w') : Aside fd w' w := ⟨aside.files.symm, aside.versions.symm⟩

theorem trans (first : Aside fd w w') (second : Aside fd w' w'') : Aside fd w w'' :=
  ⟨first.files.trans second.files, second.versions.trans first.versions⟩

end World.Aside

/-! ## Adopted files -/

namespace Files

/-- Where the descriptor was that a record says was adopted. -/
def foundAt (r : Record FileEffect) : Option Nat :=
  match r.payload, r.preState with
  | .adopt _, some (.offset before) => some before
  | _, _ => none

/-- Where the descriptors it adopted were found, oldest first. -/
def found (s : Files) : List Nat := s.log.records.filterMap foundAt

/-- The files of a transaction that does nothing but adopt `fd` for the resource `id` and work through
its handles. -/
structure Lent (fd : Nat) (id : ResourceId) (s : Files) : Prop where
  removed : s.removed = []
  held : s.held = {}
  access : s.access.Keyed
  numbered : ∀ e ∈ s.handles.entries, e.1 < s.nextHandle
  handles : ∀ f ∈ s.handles.values, f.descriptor = fd ∧ f.adopted = true ∧ f.id = id
  log : ∀ r ∈ s.log.records,
    (∃ h before, r = .eager id (.offset before) (.adopt h) ∧ (s.handles.get? h.number).isSome) ∨
      ∃ h offset bytes, r = .deferred id (.write h offset bytes) ∧ s.access.isWritten id = true
  written : ∀ k ∈ s.access.written.keys, k = id.key
  noted : s.found ≠ [] → ∃ seen, s.access.snapshot id = some seen
  handed : s.found ≠ [] → s.handles.values ≠ []
  /-- Nothing can be done before the first adoption. -/
  idle : s.found = [] → s = {}

variable {fd : Nat} {id : ResourceId} {s s' : Files} {w v : World}

theorem Lent.fresh (fd : Nat) (id : ResourceId) : Lent fd id {} where
  removed := rfl
  held := rfl
  access := .empty
  numbered _ member := absurd member List.not_mem_nil
  handles _ member := absurd member List.not_mem_nil
  log _ member := absurd member List.not_mem_nil
  written _ member := absurd member List.not_mem_nil
  noted nothing := absurd rfl nothing
  handed nothing := absurd rfl nothing
  idle _ := rfl

theorem Lent.handle (lent : Lent fd id s) {n : Nat} {f : OpenFile}
    (known : s.handles.get? n = some f) :
    f.descriptor = fd ∧ f.adopted = true ∧ f.id = id :=
  lent.handles f (List.mem_map.2 ⟨_, Table.mem_of_get? known, rfl⟩)

/-- Who has a handle adopted the descriptor. -/
theorem Lent.busy (lent : Lent fd id s) {n : Nat} {f : OpenFile} (known : s.handles.get? n = some f) :
    s.found ≠ [] := by
  intro nothing
  rw [lent.idle nothing] at known
  cases known

theorem Lent.checkNotRemoved (lent : Lent fd id s) (other : ResourceId) :
    s.checkNotRemoved other = .ok () := by
  simp [Files.checkNotRemoved, lent.removed]

/-! ### Changes -/

theorem found_append (s : Files) (access : AccessSet) (r : Record FileEffect) :
    ({ s with access, log := s.log.append r } : Files).found =
      s.found ++ ({ log := ⟨[r]⟩ } : Files).found := by
  simp only [found, DeferredLog.append, List.filterMap_append]

theorem Lent.observed (lent : Lent fd id s) (busy : s.found ≠ []) (v : VersionTable) :
    Lent fd id { s with access := s.access.observe v id } where
  removed := lent.removed
  held := lent.held
  access := lent.access.observe v id
  numbered := lent.numbered
  handles := lent.handles
  log r member := by
    have grown := (AccessSet.grown_observe v s.access id).written id
    exact (lent.log r member).imp_right fun ⟨h, offset, bytes, same, written⟩ =>
      ⟨h, offset, bytes, same, grown written⟩
  written k member := lent.written k (by rwa [AccessSet.written_observe] at member)
  noted _ := AccessSet.snapshot_observe v s.access id
  handed := lent.handed
  idle nothing := absurd nothing busy

/-- A handle changes in its offset, or is closed. -/
theorem Lent.changed (lent : Lent fd id s) (n : Nat) {change : OpenFile → OpenFile}
    (same : ∀ f, (change f).descriptor = f.descriptor ∧ (change f).adopted = f.adopted ∧
      (change f).id = f.id) : Lent fd id { s with handles := s.handles.modify n change } where
  removed := lent.removed
  held := lent.held
  access := lent.access
  numbered e member := by
    rcases Table.mem_entries_modify member with before | ⟨f, before, rfl⟩
    · exact lent.numbered e before
    · exact lent.numbered (n, f) before
  handles f member := by
    obtain ⟨e, entry, rfl⟩ := List.mem_map.1 member
    rcases Table.mem_entries_modify entry with before | ⟨f, before, rfl⟩
    · exact lent.handles e.2 (List.mem_map.2 ⟨e, before, rfl⟩)
    · obtain ⟨descriptor, adopted, id⟩ := same f
      obtain ⟨on, ours, resource⟩ := lent.handles f (List.mem_map.2 ⟨(n, f), before, rfl⟩)
      exact ⟨descriptor.trans on, adopted.trans ours, id.trans resource⟩
  log r member := by
    refine (lent.log r member).imp_left fun ⟨h, before, same, known⟩ => ⟨h, before, same, ?_⟩
    rw [Table.get?_modify]
    split
    · next here => rw [Option.isSome_map, ← here]; exact known
    · exact known
  written := lent.written
  noted := lent.noted
  handed busy := by
    obtain ⟨f, member⟩ := List.exists_mem_of_ne_nil _ (lent.handed busy)
    obtain ⟨e, entry, -⟩ := List.mem_map.1 member
    simp only [Table.values, ne_eq, List.map_eq_nil_iff]
    intro nothing
    have some : s.handles.entries ≠ [] := List.ne_nil_of_mem entry
    unfold Table.modify at nothing
    split at nothing
    · rename_i value known
      have stays := Table.get?_set_self s.handles n (change value)
      rw [Table.get?, nothing] at stays
      cases stays
    · exact some nothing
  idle nothing := by
    rw [lent.idle nothing]
    rfl

theorem Lent.recorded (lent : Lent fd id s) (busy : s.found ≠ []) (v : VersionTable)
    (h : FileHandle) (offset : Nat) (bytes : Bytes) :
    Lent fd id
      { s with
        access := s.access.write v id
        log := s.log.append (.deferred id (.write h offset bytes)) } where
  removed := lent.removed
  held := lent.held
  access := lent.access.write v id
  numbered := lent.numbered
  handles := lent.handles
  log r member := by
    have grown := (AccessSet.grown_write v s.access id).written id
    rcases List.mem_append.1 member with before | new
    · exact (lent.log r before).imp_right fun ⟨h, offset, bytes, same, written⟩ =>
        ⟨h, offset, bytes, same, grown written⟩
    · exact Or.inr
        ⟨h, offset, bytes, List.mem_singleton.1 new, AccessSet.isWritten_write v s.access id⟩
  written k member := ((AccessSet.mem_keys_write ..).1 member).elim (lent.written k) fun same => same
  noted _ := by
    obtain ⟨seen, noted⟩ := AccessSet.snapshot_observe v s.access id
    exact ⟨seen, (AccessSet.snapshot_write ..).trans noted⟩
  handed _ := lent.handed busy
  idle nothing := by
    rw [found_append] at nothing
    exact absurd (List.append_eq_nil_iff.1 nothing).1 busy

theorem found_adopting (s : Files) (v : VersionTable) (id : ResourceId) (fd before : Nat) :
    (s.adopting v id fd before).found = s.found ++ [before] :=
  found_append s (s.access.observe v id) (.eager id (.offset before) (.adopt ⟨s.nextHandle⟩))

theorem Lent.adopting (lent : Lent fd id s) (v : VersionTable) (before : Nat) :
    Lent fd id (s.adopting v id fd before) where
  removed := lent.removed
  held := lent.held
  access := lent.access.observe v id
  numbered e member := by
    rcases Table.mem_entries_set member with old | rfl
    · exact Nat.lt_succ_of_lt (lent.numbered e old)
    · exact Nat.lt_succ_self _
  handles f member := by
    obtain ⟨e, entry, rfl⟩ := List.mem_map.1 member
    rcases Table.mem_entries_set entry with old | rfl
    · exact lent.handles e.2 (List.mem_map.2 ⟨e, old, rfl⟩)
    · exact ⟨rfl, rfl, rfl⟩
  log r member := by
    have grown := (AccessSet.grown_observe v s.access id).written id
    rcases List.mem_append.1 member with old | new
    · refine (lent.log r old).imp (fun ⟨h, at_, same, known⟩ => ⟨h, at_, same, ?_⟩)
        fun ⟨h, offset, bytes, same, written⟩ => ⟨h, offset, bytes, same, grown written⟩
      obtain ⟨f, found⟩ := Option.isSome_iff_exists.1 known
      have number := lent.numbered _ (Table.mem_of_get? found)
      exact (congrArg Option.isSome (Table.get?_set_of_ne _ _ (Nat.ne_of_lt number))).trans known
    · exact Or.inl ⟨⟨s.nextHandle⟩, before, List.mem_singleton.1 new,
        congrArg Option.isSome (Table.get?_set_self ..)⟩
  written k member := lent.written k (by rwa [Files.adopting, AccessSet.written_observe] at member)
  noted _ := AccessSet.snapshot_observe v s.access id
  handed _ := by
    have here := Table.mem_of_get? (Table.get?_set_self s.handles s.nextHandle
      { id, descriptor := fd, offset := before, flags := { read := true, write := true },
        adopted := true })
    exact List.ne_nil_of_mem (List.mem_map.2 ⟨_, here, rfl⟩)
  idle nothing := by
    rw [found_adopting] at nothing
    exact absurd (List.append_eq_nil_iff.1 nothing).2 (List.cons_ne_nil _ _)

/-! ### Work -/

theorem Lent.adopt_eq (lent : Lent fd id s) {path : String} (named : resource w.files path = id) :
    s.adopt fd path w =
      (.ok ⟨s.nextHandle⟩, s.adopting w.versions id fd (w.files.position fd), w) := by
  simp only [adopt, named, lent.checkNotRemoved]
  rfl

end Files

open Files (Lent)

theorem Filing.perform_locks (s : Files) (w : World) (job : Filing) :
    (job.perform s w).2.2.locks = w.locks := by
  rw [job.perform_files]

/-- Where a job finds the descriptor that it adopts. -/
def Filing.finds (fs : Filesystem) : Filing → List Nat
  | .adopt descriptor _ => [fs.position descriptor]
  | _ => []

theorem Filing.length_finds (fs fs' : Filesystem) (job : Filing) :
    (job.finds fs).length = (job.finds fs').length := by
  cases job <;> rfl

/-- A job through `fd`: it adopts it for the resource `id`, or goes through a handle. -/
def Filing.Through (fd : Nat) (id : ResourceId) (fs : Filesystem) : Filing → Prop
  | .adopt descriptor path => descriptor = fd ∧ Files.resource fs path = id
  | .plain (.openPath ..) => False
  | .plain _ => True
  | .remove _ => False

namespace Filing.Through

variable {fd : Nat} {id : ResourceId} {s : Files} {w v : World} {job : Filing}

/-- What such a job changes. -/
structure Done (fd : Nat) (id : ResourceId) (found : List Nat) (s : Files) (w : World) (s' : Files)
    (w' : World) : Prop where
  lent : Lent fd id s'
  aside : w.Aside fd w'
  grown : s.access.Grown w.versions s'.access
  found : s'.found = s.found ++ found
  idle : s'.found = [] → w' = w

theorem Done.still (lent : Lent fd id s) : Done fd id [] s w s w :=
  ⟨lent, .refl fd w, .refl w.versions s.access, (List.append_nil _).symm, fun _ => rfl⟩

/-- A handle changes in its offset, or is closed. -/
theorem Done.changed (lent : Lent fd id s) (n : Nat) {change : OpenFile → OpenFile}
    (same : ∀ f, (change f).descriptor = f.descriptor ∧ (change f).adopted = f.adopted ∧
      (change f).id = f.id) :
    Done fd id [] s w { s with handles := s.handles.modify n change } w :=
  ⟨lent.changed n same, .refl fd w, .refl w.versions s.access, (List.append_nil _).symm, fun _ => rfl⟩

/-- **A job through the descriptor moves it at most.** -/
theorem perform (through : job.Through fd id w.files) (lent : Lent fd id s) :
    Done fd id (job.finds w.files) s w (job.perform s w).2.1 (job.perform s w).2.2 := by
  cases job with
  | remove path => cases through
  | adopt descriptor path =>
      obtain ⟨rfl, named⟩ := through
      simp only [Filing.perform, lent.adopt_eq named]
      exact ⟨lent.adopting _ _, .refl _ w, AccessSet.grown_observe .., Files.found_adopting ..,
        fun _ => rfl⟩
  | plain job =>
      cases job with
      | openPath path flags => cases through
      | tell h => exact .still lent
      | close h =>
          simp only [Filing.perform, FileWork.perform, Files.close]
          cases s.openFile h with
          | error e => exact .still lent
          | ok f => exact .changed lent h.number fun _ => ⟨rfl, rfl, rfl⟩
      | seek h pos =>
          simp only [Filing.perform, FileWork.perform, Files.seek]
          cases s.openFile h with
          | error e => exact .still lent
          | ok f =>
              simp only
              cases s.seekTarget f w.files pos with
              | none => exact .still lent
              | some offset => exact .changed lent h.number fun _ => ⟨rfl, rfl, rfl⟩
      | write h bytes =>
          simp only [Filing.perform, FileWork.perform, Files.write]
          cases allowed : s.checkWritable h with
          | error e => exact .still lent
          | ok f =>
              have known := Files.handle_of_open (Files.open_of_writable allowed)
              obtain ⟨-, -, resource⟩ := lent.handle known
              simp only [resource]
              generalize (if f.flags.append then s.logicalLength f w.files else f.offset) = offset
              have recorded := lent.recorded (lent.busy known) w.versions h offset bytes
              exact ⟨recorded.changed h.number fun _ => ⟨rfl, rfl, rfl⟩, .refl fd w,
                AccessSet.grown_write .., Files.found_append s (s.access.write w.versions id) _,
                fun _ => rfl⟩
      | read h len =>
          simp only [Filing.perform, FileWork.perform, Files.read]
          cases allowed : s.checkReadable h with
          | error e => exact .still lent
          | ok f =>
              have known := Files.handle_of_open (Files.open_of_readable allowed)
              have busy := lent.busy known
              obtain ⟨on, -, resource⟩ := lent.handle known
              have moved := Filesystem.aside_readAt w.files fd f.offset len
              have observed := lent.observed busy w.versions
              have grown := AccessSet.grown_observe w.versions s.access id
              simp only [resource, on]
              rcases read : w.files.readAt fd f.offset len with ⟨e | window, files⟩ <;>
                rw [read] at moved
              · exact ⟨observed, ⟨moved, rfl⟩, grown, (List.append_nil _).symm,
                  fun nothing => absurd nothing busy⟩
              · exact ⟨observed.changed h.number fun _ => ⟨rfl, rfl, rfl⟩, ⟨moved, rfl⟩, grown,
                  (List.append_nil _).symm, fun nothing => absurd nothing busy⟩

/-- A job is through the descriptor wherever it leads to the resource it adopts it for. -/
theorem elsewhere {fs fs' : Filesystem} (through : job.Through fd id fs)
    (same : job.finds fs ≠ [] → fs.SameTree fs') : job.Through fd id fs' := by
  cases job with
  | remove path => exact through
  | plain job => cases job <;> exact through
  | adopt descriptor path =>
      obtain ⟨here, named⟩ := through
      exact ⟨here, ((same (List.cons_ne_nil _ _)).resource path).trans named⟩

/-- **What a job answers, and what it leaves in the transaction, does not depend on where the
descriptor is**, but for what an adoption finds. -/
theorem perform_alike (through : job.Through fd id w.files) (lent : Lent fd id s)
    (aside : (job.perform s w).2.1.found ≠ [] → w.Aside fd v)
    (same : (job.perform s v).2.1.found = (job.perform s w).2.1.found) :
    (job.perform s v).1 = (job.perform s w).1 ∧ (job.perform s v).2.1 = (job.perform s w).2.1 := by
  have aside' (busy : s.found ≠ []) : w.Aside fd v := by
    refine aside ?_
    rw [(through.perform lent).found]
    exact List.append_ne_nil_of_left_ne_nil busy _
  cases job with
  | remove path => cases through
  | adopt descriptor path =>
      obtain ⟨rfl, named⟩ := through
      simp only [Filing.perform, lent.adopt_eq named] at aside same ⊢
      rw [Files.found_adopting] at aside same
      have aside := aside (List.append_ne_nil_of_right_ne_nil _ (List.cons_ne_nil _ _))
      have named' : Files.resource v.files path = id :=
        (aside.files.written.tree.resource path).trans named
      rw [lent.adopt_eq named', Files.found_adopting] at same
      have here : v.files.position descriptor = w.files.position descriptor := by
        simpa using List.append_cancel_left same
      rw [lent.adopt_eq named', here, aside.versions]
      exact ⟨rfl, rfl⟩
  | plain job =>
      cases job with
      | openPath path flags => cases through
      | tell h => exact ⟨rfl, rfl⟩
      | close h =>
          simp only [Filing.perform, FileWork.perform, Files.close]
          cases s.openFile h <;> exact ⟨rfl, rfl⟩
      | seek h pos =>
          simp only [Filing.perform, FileWork.perform, Files.seek]
          cases opened : s.openFile h with
          | error e => exact ⟨rfl, rfl⟩
          | ok f =>
              have length := (aside' (lent.busy (Files.handle_of_open opened))).files.length
              have target : s.seekTarget f v.files pos = s.seekTarget f w.files pos := by
                cases pos <;> simp only [Files.seekTarget, Files.logicalLength, length]
              simp only [target]
              cases s.seekTarget f w.files pos <;> exact ⟨rfl, rfl⟩
      | write h bytes =>
          simp only [Filing.perform, FileWork.perform, Files.write]
          cases allowed : s.checkWritable h with
          | error e => exact ⟨rfl, rfl⟩
          | ok f =>
              have aside := aside' (lent.busy (Files.handle_of_open (Files.open_of_writable allowed)))
              simp only [Files.logicalLength, aside.files.length, aside.versions]
              exact ⟨trivial, trivial⟩
      | read h len =>
          simp only [Filing.perform, FileWork.perform, Files.read]
          cases allowed : s.checkReadable h with
          | error e => exact ⟨rfl, rfl⟩
          | ok f =>
              have known := Files.handle_of_open (Files.open_of_readable allowed)
              have aside := aside' (lent.busy known)
              have answer := Filesystem.readAt_alike aside.files f.offset len
              obtain ⟨on, -, -⟩ := lent.handle known
              simp only [on, aside.versions]
              rcases here : w.files.readAt fd f.offset len with ⟨e | window, files⟩ <;>
                rcases there : v.files.readAt fd f.offset len with ⟨e' | window', files'⟩ <;>
                rw [here, there] at answer <;> cases answer <;> exact ⟨rfl, rfl⟩

end Filing.Through

/-! ## The two ends -/

namespace Files

variable {fd : Nat} {id : ResourceId} {s : Files} {w v : World} {r : Record FileEffect}
  {rs : List (Record FileEffect)}

/-! ### Apply -/

/-- Where apply leaves the descriptor: at the offset of the last handle. -/
def resting (s : Files) : Nat := (s.handles.values.getLast?.map OpenFile.offset).getD 0

theorem Lent.applyRecord_aside (lent : Lent fd id s) (member : r ∈ s.log.records)
    (aside : w.Aside fd v) :
    (applyRecord s.handles r v).1 = (applyRecord s.handles r w).1 ∧
      (applyRecord s.handles r w).2.Aside fd (applyRecord s.handles r v).2 := by
  rcases lent.log r member with ⟨h, before, rfl, -⟩ | ⟨h, offset, bytes, rfl, -⟩
  · exact ⟨rfl, aside⟩
  · simp only [applyRecord, Record.deferred]
    cases known : s.handles.get? h.number with
    | none => exact ⟨rfl, aside⟩
    | some f =>
        obtain ⟨on, -, -⟩ := lent.handle known
        obtain ⟨answer, files⟩ := Filesystem.writeAt_alike aside.files offset bytes
        simp only [on]
        rcases here : w.files.writeAt fd offset bytes with ⟨e | _, fs⟩ <;>
          rcases there : v.files.writeAt fd offset bytes with ⟨e' | _, fs'⟩ <;>
          rw [here, there] at answer files <;> cases answer <;> exact ⟨rfl, files, aside.versions⟩

theorem Lent.applyEach_aside (lent : Lent fd id s) (within : ∀ r ∈ rs, r ∈ s.log.records)
    (aside : w.Aside fd v) :
    (DeferredLog.applyEach (applyRecord s.handles) rs v).1 =
        (DeferredLog.applyEach (applyRecord s.handles) rs w).1 ∧
      (DeferredLog.applyEach (applyRecord s.handles) rs w).2.Aside fd
        (DeferredLog.applyEach (applyRecord s.handles) rs v).2 := by
  induction rs generalizing w v with
  | nil => exact ⟨rfl, aside⟩
  | cons r rest ih =>
      obtain ⟨first, others⟩ := List.forall_mem_cons.1 within
      obtain ⟨answer, next⟩ := lent.applyRecord_aside first aside
      simp only [DeferredLog.applyEach]
      rcases here : applyRecord s.handles r w with ⟨e | _, w₁⟩ <;>
        rcases there : applyRecord s.handles r v with ⟨e' | _, v₁⟩ <;>
        rw [here, there] at answer next <;> cases answer
      · exact ⟨rfl, next⟩
      · exact ih others next

theorem settle_aside {files : List OpenFile} (ours : ∀ f ∈ files, f.descriptor = fd)
    (aside : w.Aside fd v) :
    (settle files v).1 = (settle files w).1 ∧ (settle files w).2.Aside fd (settle files v).2 := by
  induction files generalizing w v with
  | nil => exact ⟨rfl, aside⟩
  | cons f rest ih =>
      obtain ⟨on, others⟩ := List.forall_mem_cons.1 ours
      simp only [settle, on]
      cases f.adopted with
      | false => exact ih others aside
      | true =>
          obtain ⟨position, moved⟩ := aside.files
          have same : v.files.seek fd f.offset = w.files.seek fd f.offset := by
            rw [moved, Filesystem.seek_setPosition]
          simp only [if_true, same]
          cases w.files.seek fd f.offset with
          | error e => exact ⟨rfl, aside⟩
          | ok files => exact ih others ⟨.refl fd files, aside.versions⟩

/-- **Apply does the same wherever the descriptor is.** -/
theorem Lent.apply_aside (lent : Lent fd id s) (aside : w.Aside fd v) :
    (s.apply v).1 = (s.apply w).1 ∧ (s.apply w).2.2.Aside fd (s.apply v).2.2 := by
  obtain ⟨answer, next⟩ := lent.applyEach_aside (fun _ member => member) aside
  have ours : ∀ f ∈ s.handles.values, f.descriptor = fd := fun f member => (lent.handles f member).1
  simp only [apply, DeferredLog.applyAll]
  rcases here : DeferredLog.applyEach (applyRecord s.handles) s.log.records w with ⟨e | _, w₁⟩ <;>
    rcases there : DeferredLog.applyEach (applyRecord s.handles) s.log.records v with ⟨e' | _, v₁⟩ <;>
    rw [here, there] at answer next <;> cases answer
  · exact ⟨rfl, next.files, congrArg s.access.publish next.versions⟩
  · obtain ⟨answer, last⟩ := settle_aside ours next
    exact ⟨answer, last.files, congrArg s.access.publish last.versions⟩

theorem settle_written (files : List OpenFile) (w : World) :
    Filesystem.Written w.files (settle files w).2.files := by
  induction files generalizing w with
  | nil => exact .refl _
  | cons f rest ih =>
      simp only [settle]
      split
      · cases sought : w.files.seek f.descriptor f.offset with
        | error e => exact .refl _
        | ok files => exact (Filesystem.aside_seek sought).written.trans (ih { w with files })
      · exact ih w

theorem Lent.applyEach_written (lent : Lent fd id s) (within : ∀ r ∈ rs, r ∈ s.log.records) :
    Filesystem.Written w.files (DeferredLog.applyEach (applyRecord s.handles) rs w).2.files := by
  induction rs generalizing w with
  | nil => exact .refl _
  | cons r rest ih =>
      obtain ⟨first, others⟩ := List.forall_mem_cons.1 within
      have here : Filesystem.Written w.files (applyRecord s.handles r w).2.files := by
        rcases lent.log r first with ⟨h, before, rfl, -⟩ | ⟨h, offset, bytes, rfl, -⟩
        · exact .refl _
        · simp only [applyRecord, Record.deferred]
          cases s.handles.get? h.number with
          | none => exact .refl _
          | some f =>
              have written := (w.files.writeAt_written f.descriptor offset bytes).1
              simp only
              rcases done : w.files.writeAt f.descriptor offset bytes with ⟨e | _, fs⟩ <;>
                rw [done] at written <;> exact written
      simp only [DeferredLog.applyEach]
      rcases done : applyRecord s.handles r w with ⟨e | _, w₁⟩ <;> rw [done] at here
      · exact here
      · exact here.trans (ih others)

theorem Lent.apply_written (lent : Lent fd id s) (w : World) :
    Filesystem.Written w.files (s.apply w).2.2.files := by
  have written := lent.applyEach_written (w := w) (fun _ member => member)
  simp only [apply, DeferredLog.applyAll]
  rcases done : DeferredLog.applyEach (applyRecord s.handles) s.log.records w with ⟨e | _, w₁⟩ <;>
    rw [done] at written
  · exact written
  · exact written.trans (settle_written _ w₁)

theorem settle_resting {files : List OpenFile} {last : OpenFile}
    (ours : ∀ f ∈ files, f.descriptor = fd ∧ f.adopted = true)
    (known : (w.files.descriptors.get? fd).isSome) (done : (settle files w).1 = .ok ())
    (here : files.getLast? = some last) :
    (settle files w).2.files.position fd = last.offset ∧ last.offset ≤ w.files.positionLimit fd := by
  induction files generalizing w with
  | nil => cases here
  | cons f rest ih =>
      obtain ⟨⟨on, adopted⟩, others⟩ := List.forall_mem_cons.1 ours
      simp only [settle, adopted, if_true, on] at done ⊢
      cases sought : w.files.seek fd f.offset with
      | error e => simp [sought] at done
      | ok files =>
          simp only [sought] at done ⊢
          have written := (Filesystem.aside_seek sought).written
          have known' := (written.isSome fd).trans known
          rcases rest with _ | ⟨g, rest⟩
          · cases here
            unfold Filesystem.seek at sought
            split at sought <;> cases sought
            next within =>
              exact ⟨Filesystem.position_setPosition known _, Nat.not_lt.1 within⟩
          · rw [List.getLast?_cons_cons] at here
            rw [← Filesystem.positionLimit_of_still (written.still fd)]
            exact ih (w := { w with files }) others known' done here

/-- **An apply that succeeds leaves the descriptor at the offset of the last handle**, where it can
be. -/
theorem Lent.apply_resting (lent : Lent fd id s) (busy : s.found ≠ [])
    (known : (w.files.descriptors.get? fd).isSome) (done : (s.apply w).1 = .ok ()) :
    (s.apply w).2.2.files.position fd = s.resting ∧ s.resting ≤ w.files.positionLimit fd := by
  have written := lent.applyEach_written (w := w) (fun _ member => member)
  obtain ⟨last, here⟩ :=
    Option.ne_none_iff_exists'.1 (mt List.getLast?_eq_none_iff.1 (lent.handed busy))
  have rests : s.resting = last.offset := by simp [resting, here]
  simp only [apply, DeferredLog.applyAll] at done ⊢
  rcases performed : DeferredLog.applyEach (applyRecord s.handles) s.log.records w with
    ⟨e | _, w₁⟩ <;> rw [performed] at written <;> simp only [performed] at done ⊢
  · cases done
  · have settled := settle_resting (fun f member => (lent.handles f member).imp_right And.left)
      ((written.isSome fd).trans known) done here
    rw [rests, ← Filesystem.positionLimit_of_still (written.still fd)]
    exact settled

theorem Lent.applyEach_unwritten (lent : Lent fd id s) (unwritten : s.access.isWritten id = false)
    (within : ∀ r ∈ rs, r ∈ s.log.records) (w : World) :
    DeferredLog.applyEach (applyRecord s.handles) rs w = (.ok (), w) := by
  induction rs with
  | nil => rfl
  | cons r rest ih =>
      obtain ⟨first, others⟩ := List.forall_mem_cons.1 within
      rcases lent.log r first with ⟨h, before, rfl, -⟩ | ⟨-, -, -, -, written⟩
      · exact ih others
      · rw [unwritten] at written
        cases written

theorem Lent.publish_unwritten (lent : Lent fd id s) (unwritten : s.access.isWritten id = false)
    (v : VersionTable) : s.access.publish v = v := by
  have nothing : s.access.written.entries = [] := by
    refine List.eq_nil_iff_forall_not_mem.2 fun e member => ?_
    have key := lent.written e.1 (List.mem_map_of_mem member)
    rw [AccessSet.isWritten, ← Bool.not_eq_true, Table.contains_iff, ← key] at unwritten
    exact unwritten (List.mem_map_of_mem member)
  simp only [AccessSet.publish, Table.values, nothing, List.map_nil, List.foldl_nil]

theorem settle_moves {files : List OpenFile} (ours : ∀ f ∈ files, f.descriptor = fd) (w : World) :
    w.files.Aside fd (settle files w).2.files := by
  induction files generalizing w with
  | nil => exact .refl fd _
  | cons f rest ih =>
      obtain ⟨on, others⟩ := List.forall_mem_cons.1 ours
      simp only [settle, on]
      split
      · cases sought : w.files.seek fd f.offset with
        | error e => exact .refl fd _
        | ok files => exact (Filesystem.aside_seek sought).trans (ih others { w with files })
      · exact ih others w

/-- What wrote nothing applies nothing but positions. -/
theorem Lent.apply_unwritten (lent : Lent fd id s) (unwritten : s.access.isWritten id = false) :
    w.Aside fd (s.apply w).2.2 := by
  have moved := settle_moves (fun f member => (lent.handles f member).1) w
  have versions : (settle s.handles.values w).2.versions = w.versions :=
    (settle_applying (s := s) _ w).versions
  simp only [apply, DeferredLog.applyAll, lent.applyEach_unwritten unwritten fun _ member => member]
  exact ⟨moved, (congrArg s.access.publish versions).trans
    (lent.publish_unwritten unwritten w.versions)⟩

/-! ### Undo -/

theorem Lent.undoEach_first (lent : Lent fd id s) (held : HeldLocks) (tx : TxId)
    (within : ∀ r ∈ rs, r ∈ s.log.records) (w : World) :
    let w' := (DeferredLog.undoEach (undoRecord tx { s with held }) rs w).2
    w.Aside fd w' ∧ w'.locks = w.locks ∧
      ((w.files.descriptors.get? fd).isSome → ∀ first ∈ (rs.filterMap foundAt).head?,
        first ≤ w.files.positionLimit fd → w'.files.position fd = first) := by
  induction rs with
  | nil => exact ⟨.refl fd w, rfl, fun _ _ member => by cases member⟩
  | cons r rest ih =>
      obtain ⟨here, others⟩ := List.forall_mem_cons.1 within
      obtain ⟨aside, locks, back⟩ := ih others
      rw [DeferredLog.undoEach_foldr, List.foldr_cons, ← DeferredLog.undoEach_foldr]
      generalize (DeferredLog.undoEach (undoRecord tx { s with held }) rest w).2 = w₁
        at aside locks back
      rcases lent.log r here with ⟨h, before, rfl, known⟩ | ⟨h, offset, bytes, rfl, -⟩
      · obtain ⟨f, known⟩ := Option.isSome_iff_exists.1 known
        obtain ⟨on, -, -⟩ := lent.handle known
        have limit := Filesystem.positionLimit_of_still (aside.files.written.still fd)
        simp only [undoRecord, Record.eager, known, on, Filesystem.seek, limit]
        by_cases far : w.files.positionLimit fd < before
        · simp only [far, if_true]
          refine ⟨aside, locks, fun _ first member within => ?_⟩
          cases member
          exact absurd within (Nat.not_le.2 far)
        · simp only [far, if_false]
          refine ⟨aside.trans ⟨⟨before, rfl⟩, rfl⟩, locks, fun there first member _ => ?_⟩
          cases member
          exact Filesystem.position_setPosition
            ((aside.files.written.isSome fd).trans there) before
      · exact ⟨aside, locks, back⟩

/-- **Undo leaves the descriptor where it was found first**, if it can be there, and does nothing
else. -/
theorem Lent.undo_first (lent : Lent fd id s) (held : HeldLocks) (ctx : Context) (w : World) :
    let w' := (({ s with held } : Files).undo ctx w).2.2
    w.Aside fd w' ∧ w'.locks = w.locks ∧ (s.found = [] → w' = w) ∧
      ((w.files.descriptors.get? fd).isSome → ∀ first ∈ s.found.head?,
        first ≤ w.files.positionLimit fd → w'.files.position fd = first) := by
  intro w'
  obtain ⟨aside, locks, back⟩ := lent.undoEach_first held ctx.tx (fun _ member => member) w
  have last : w' = (DeferredLog.undoEach (undoRecord ctx.tx { s with held }) s.log.records w).2 := by
    rw [DeferredLog.undoEach_foldr]
    exact undo_world { s with held } ctx w
  rw [last]
  refine ⟨aside, locks, fun nothing => ?_, back⟩
  rw [lent.idle nothing]
  rfl

end Files

end Transact
