/-
# Transact.Proofs.LogicalEnd -- where a file ends for the transaction that writes to it

The end of a file, for a seek from the end and for a write that appends, is the furthest of the end on
disk and the ends of what is put off.  Writes reach as far, one after another, except that a write of no
bytes reaches nowhere: the two ends are one exactly if no such write lies past the end
(`Bytes.furthest_eq_iff`).

`Files.Facing` says that under one resource go exactly the handles on one file, opened, created or
adopted, where every file has one name (`Filesystem.OneName`).  So what is put off under the resource of
a handle is what was accepted for its file (`Files.Facing.pendingOn`), and `FilingCall.run_logical_end`
compares the end of a file with what a commit leaves.
-/
import Transact.Proofs.Fulfilling
import Transact.Proofs.OwnWrites

namespace Transact

set_option autoImplicit false

/-! ## Two ends -/

namespace Bytes

open Content (perform)

/-- The furthest of `n` and the ends of the writes. -/
def furthest (n : Nat) (writes : List (Nat × Bytes)) : Nat :=
  writes.foldl (fun n write => max n (write.1 + write.2.length)) n

theorem furthest_le_iff {n m : Nat} (writes : List (Nat × Bytes)) :
    furthest n writes ≤ m ↔ n ≤ m ∧ ∀ write ∈ writes, write.1 + write.2.length ≤ m := by
  induction writes generalizing n with
  | nil => exact ⟨fun le => ⟨le, fun _ member => absurd member List.not_mem_nil⟩, And.left⟩
  | cons write rest ih =>
      rw [furthest, List.foldl_cons, ← furthest, ih, List.forall_mem_cons, Nat.max_le, and_assoc]

/-- Writes reach no further. -/
theorem length_foldl_perform_le (writes : List (Nat × Bytes)) (old : Bytes) {n : Nat}
    (within : old.length ≤ n) : (writes.foldl perform old).length ≤ furthest n writes := by
  induction writes generalizing old n with
  | nil => exact within
  | cons write rest ih =>
      refine ih (perform old write) ?_
      rw [length_perform]
      split
      · exact Nat.le_trans within (Nat.le_max_left ..)
      · exact Nat.max_le.2 ⟨Nat.le_trans within (Nat.le_max_left ..), Nat.le_max_right ..⟩

/-- **Writes reach as far as the furthest of their ends** exactly if those of no bytes begin within what
is written. -/
theorem furthest_eq_iff (writes : List (Nat × Bytes)) (old : Bytes) :
    furthest old.length writes = (writes.foldl perform old).length ↔
      ∀ write ∈ writes, write.2 = [] → write.1 ≤ (writes.foldl perform old).length := by
  have reached := length_foldl_perform_le writes old (Nat.le_refl _)
  constructor
  · intro equal write member nothing
    have ends := ((furthest_le_iff writes).1 (Nat.le_of_eq equal)).2 write member
    rwa [nothing, List.length_nil, Nat.add_zero] at ends
  · intro near
    refine Nat.le_antisymm ((furthest_le_iff writes).2 ⟨?_, fun write member => ?_⟩) reached
    · exact length_le_foldl_perform writes old
    · by_cases nothing : write.2 = []
      · rw [nothing, List.length_nil, Nat.add_zero]
        exact near write member nothing
      · exact reach_le_foldl_perform member nothing old

end Bytes

namespace Deposit

/-- A deposit at the end goes behind what is there. -/
theorem perform_at_end (old : Bytes) {d : Deposit} (last : d.offset = old.length) :
    perform old d = old ++ d.bytes := by
  have place : (if d.appends then old.length else d.offset) = old.length := by rw [last, ite_self]
  rw [perform, place]
  by_cases nothing : d.bytes = []
  · rw [nothing, Bytes.splice_nil, List.append_nil]
  · rw [Bytes.splice, if_neg nothing, List.take_length, Nat.sub_self, List.replicate_zero,
      List.append_nil, List.drop_of_length_le (Nat.le_add_right _ _), List.append_nil]

end Deposit

/-! ## Paths that stay -/

namespace Filesystem

variable {fs fs' : Filesystem} {path : String} {at_ : Location} {e : Entry}

/-- A place where something is. -/
def Place.Found : Place → Prop
  | .here _ => True
  | .entry _ _ found _ => found ≠ none

/-- What is walked to is walked to in the same way where names were only added. -/
theorem Walk.gains {onLink onLink' : Rest → Except Errno Place} {slash : Bool}
    {directory : Location} {names : List String} {place : Place}
    (stays : ∀ at_ e, fs.entry? at_ = some e → fs'.entry? at_ = some e)
    (walk : Walk fs onLink slash directory names place) (there : place.Found)
    (behind : ∀ r, onLink r = .ok place → onLink' r = .ok place) :
    fs'.followWith .follow onLink' slash directory names = .ok place := by
  induction walk with
  | here => rfl
  | dot _ ih =>
      rw [followWith_dot]
      exact ih there behind
  | dots _ ih =>
      rw [followWith_dots]
      exact ih there behind
  | @last directory name found plain stands unlinked =>
      obtain ⟨e, rfl⟩ := Option.ne_none_iff_exists'.1 there
      rw [followWith_last plain (fun creating => by cases creating)
        (fun canonical => by cases canonical), stays _ _ stands]
      split
      · next target same => exact absurd same (unlinked target)
      · rfl
  | lastLink plain stands onward =>
      rw [followWith_last plain (fun creating => by cases creating)
        (fun canonical => by cases canonical), stays _ _ stands]
      exact behind _ onward
  | down plain stands _ ih =>
      rw [followWith_next plain (fun canonical => by cases canonical), stays _ _ stands]
      exact ih there behind
  | link plain stands onward =>
      rw [followWith_next plain (fun canonical => by cases canonical), stays _ _ stands]
      exact behind _ onward

theorem follow_gains (stays : ∀ at_ e, fs.entry? at_ = some e → fs'.entry? at_ = some e)
    (links : Nat) {r : Rest} {place : Place} (there : place.Found)
    (led : fs.follow .follow links r = .ok place) : fs'.follow .follow links r = .ok place := by
  induction links generalizing r with
  | zero =>
      rw [follow_eq] at led ⊢
      exact (walk_of_followWith (Or.inl rfl) led).gains stays there
        fun _ tooMany => by cases tooMany
  | succ links ih =>
      rw [follow_eq] at led ⊢
      exact (walk_of_followWith (Or.inl rfl) led).gains stays there fun _ onward => ih onward

/-- A path that can be followed is followed from the same place when files were created. -/
theorem Gains.resolve (gains : fs.Gains fs') {ending : Ending} {place : Place}
    (other : ending ≠ .canonical) (resolved : fs.resolve ending path = .ok place)
    (ending' : Ending) :
    fs'.resolve ending' path = fs'.follow ending' maxLinks (fs.restOf path) := by
  unfold Filesystem.resolve at resolved
  by_cases empty : path = ""
  · rw [if_pos empty] at resolved
    cases resolved
  by_cases long : maxPath ≤ path.utf8ByteSize
  · rw [if_neg empty, if_pos ⟨other, long⟩] at resolved
    cases resolved
  rw [Filesystem.resolve, if_neg empty, if_neg fun both => long both.2, gains.home]
  rfl

/-- **A path that leads somewhere leads there still** when files were created. -/
theorem Gains.find (gains : fs.Gains fs') (led : fs.find .follow path = .ok (at_, e)) :
    fs'.find .follow path = .ok (at_, e) := by
  cases resolved : fs.resolve .follow path with
  | error fault => simp [Filesystem.find, resolved] at led
  | ok place =>
      obtain ⟨followed, -⟩ := resolve_eq_restOf (by decide) resolved
      have there : place.Found := by
        rw [Filesystem.find, resolved] at led
        rcases place with directory | ⟨directory, name, _ | found, slash⟩
        · trivial
        · cases led
        · exact Option.some_ne_none found
      rw [Filesystem.find, gains.resolve (by decide) resolved,
        follow_gains gains.stands _ there followed]
      rw [Filesystem.find, resolved] at led
      exact led

/-- `path` leads to what the open descriptor `fd` is on. -/
structure Backs (fs : Filesystem) (fd : Nat) (path : String) : Prop where
  isOpen : fs.Open fd
  pure : hasNul path = false
  leads : ∃ at_ e, fs.find .follow path = .ok (at_, e) ∧
    ∀ inode, fs.inode? fd = some inode ↔ e = .file inode

theorem Gains.inode? (gains : fs.Gains fs') {fd : Nat} (handed : fd < fs.nextDescriptor) :
    fs'.inode? fd = fs.inode? fd := by
  have through (files : Filesystem) : files.inode? fd =
      ((files.descriptors.get? fd).map Descriptor.still).bind Descriptor.inode := by
    rw [Filesystem.inode?]
    cases files.descriptors.get? fd <;> rfl
  rw [through, through, gains.still fd handed]

theorem Backs.gains {fd : Nat} (backs : fs.Backs fd path) (gains : fs.Gains fs') :
    fs'.Backs fd path where
  isOpen := gains.isOpen backs.isOpen
  pure := backs.pure
  leads := by
    obtain ⟨at_, e, led, file⟩ := backs.leads
    refine ⟨at_, e, gains.find led, ?_⟩
    rw [gains.inode? backs.isOpen.handed]
    exact file

end Filesystem

/-! ## Handles that face their files -/

namespace Files

variable {fs fs' : Filesystem} {w w' : World} {s s' : Files} {f : OpenFile} {inode : Inode}
  {job : Filing}

/-- Every handle goes by the resource of its file. -/
structure Facing (fs : Filesystem) (s : Files) : Prop extends Bound fs s where
  faces : ∀ n f, s.handles.get? n = some f → Faces fs f

theorem Facing.fresh (fs : Filesystem) : Facing fs {} :=
  ⟨.fresh fs, fun _ _ found => by cases found⟩

theorem Faces.gains (faces : Faces fs f) (is : fs.Open f.descriptor) (gains : fs.Gains fs') :
    Faces fs' f := by
  obtain ⟨at_, e, named, stands, file⟩ := faces
  refine ⟨at_, e, named, gains.stands at_ e stands, ?_⟩
  rw [gains.inode? is.handed]
  exact file

/-- **What is put off under the resource of a handle** is what was accepted for its file. -/
theorem Facing.pendingOn (facing : Facing fs s) (orderly : fs.Orderly) {n : Nat}
    (found : s.handles.get? n = some f) (behind : fs.inode? f.descriptor = some inode) :
    s.pendingOn f.id = Deposit.writes (s.pending fs) inode := by
  rw [pending, Deposit.writes_filterMap]
  refine List.filterMap_congr fun r member => ?_
  unfold depositOf
  cases work : r.payload with
  | create => rfl
  | adopt h => rfl
  | remove => rfl
  | write h offset bytes =>
      obtain ⟨g, there, named⟩ := facing.writes r member h offset bytes work
      have same := (facing.faces n f found).same_iff orderly behind (facing.faces _ g there)
      simp only [there, Option.bind_some, Filesystem.deposit?_writes, ← named, same]

/-- The end of a file, as its handles see it. -/
theorem Facing.logicalLength (facing : Facing fs s) (orderly : fs.Orderly) {n : Nat}
    (found : s.handles.get? n = some f) (behind : fs.inode? f.descriptor = some inode) :
    s.logicalLength f fs =
      Bytes.furthest (fs.content inode).toBytes.length (Deposit.writes (s.pending fs) inode) := by
  rw [Files.logicalLength, facing.pendingOn orderly found behind, Filesystem.length, behind,
    Content.length_toBytes]
  rfl

/-- What is opened faces its file. -/
theorem faces_opened (orderly : fs.Orderly) {path : String} {flags : OpenFlags} {fd : Nat}
    {created : Bool} (made : openOrCreate fs path flags = .ok (fd, created, fs')) :
    Faces fs' { id := resource fs path, descriptor := fd, offset := 0, flags } := by
  have behind (files : Filesystem) (d : Descriptor) (inode : Inode) :
      (files.addDescriptor d).2.inode? files.nextDescriptor = some inode ↔ d.inode = some inode := by
    rw [Filesystem.inode?_addDescriptor]
  cases Filesystem.openOrCreate_opening orderly.sound orderly.roomy made with
  | found at_ e d named stands file readable number =>
      subst number
      exact ⟨at_, e, named, stands, fun inode => (behind fs d inode).trans (file inode)⟩
  | created at_ d named spot free file readable number =>
      have below : at_ ≠ [] := by
        rintro rfl
        simp at free
      have stands := (Filesystem.entry?_addFile fs below at_).trans (if_pos rfl)
      subst number
      refine ⟨at_, .file fs.nextInode, named, stands, fun inode => ?_⟩
      refine (behind (fs.addFile at_).2 d inode).trans ?_
      rw [file, Option.some.injEq, Entry.file.injEq]

/-- A job leaves every handle in front of its file, where descriptors are adopted under paths that lead
to what they are on. -/
theorem Handled.facing (handled : Handled w s job w' s') (facing : Facing w.files s)
    (orderly : w.files.Orderly)
    (backed : ∀ fd path, job = .adopt fd path → w.files.Backs fd path) : Facing w'.files s' := by
  obtain ⟨bound, gains, -⟩ :=
    handled.pending facing.toBound fun fd path same => (backed fd path same).isOpen
  refine ⟨bound, fun n f found => ?_⟩
  have kept {n : Nat} {f : OpenFile} (old : s.handles.get? n = some f) : Faces w'.files f :=
    (facing.faces n f old).gains (facing.opened n f old) gains
  have new {g : OpenFile} (found : (s.handles.set s.nextHandle g).get? n = some f)
      (faces : Faces w'.files g) : Faces w'.files f := by
    by_cases last : n = s.nextHandle
    · rw [last, Table.get?_set_self] at found
      exact Option.some.inj found ▸ faces
    · rw [Table.get?_set_of_ne _ _ last] at found
      exact kept found
  have lasting (same : s'.handles.map OpenFile.lasting = s.handles.map OpenFile.lasting) :
      Faces w'.files f := by
    obtain ⟨f₀, old, id, descriptor⟩ := OpenFile.found_of_lasting same.symm found
    have faces := kept old
    rwa [Faces, id, descriptor] at faces
  cases handled with
  | opened made => exact new found (faces_opened orderly made)
  | adopted fd path =>
      obtain ⟨at_, e, led, file⟩ := (backed fd path rfl).leads
      refine new found ⟨at_, e, ?_, ?_, file⟩
      · exact Filesystem.resource_of_find orderly.sound orderly.roomy (backed fd path rfl).pure led
      · exact Filesystem.stands_of_find orderly.sound (Or.inl rfl) led
  | wrote allowed => exact lasting (lasting_noting ..)
  | quiet nothing _ calm => exact lasting calm.handles

end Files

/-- All jobs of a transaction leave every handle in front of its file. -/
theorem Filing.performAll_facing (jobs : List Filing) {s : Files} {w : World}
    (facing : Files.Facing w.files s) (orderly : w.files.Orderly)
    (backed : ∀ fd path, .adopt fd path ∈ jobs → w.files.Backs fd path) :
    Files.Facing (performAll jobs s w).2.files (performAll jobs s w).1 ∧
      (performAll jobs s w).2.files.Orderly := by
  induction jobs generalizing s w with
  | nil => exact ⟨facing, orderly⟩
  | cons job rest ih =>
      have handled := job.perform_handled s w
      have here (fd : Nat) (path : String) (same : job = .adopt fd path) : w.files.Backs fd path :=
        backed fd path (same ▸ List.mem_cons_self)
      obtain ⟨-, gains, -⟩ := handled.pending facing.toBound fun fd path same => (here fd path same).isOpen
      have filed := job.perform_filed (s := s) orderly.sound orderly.roomy
      exact ih (handled.facing facing orderly here) (filed.orderly orderly)
        fun fd path member => (backed fd path (List.mem_cons_of_mem _ member)).gains gains

theorem Filing.deposits_snoc (jobs : List Filing) (last : Filing) (s : Files) (w : World) :
    deposits (jobs ++ [last]) s w = deposits jobs s w ++
      (last.deposit (performAll jobs s w).1 (performAll jobs s w).2).toList := by
  induction jobs generalizing s w with
  | nil => exact List.append_nil _
  | cons job rest ih =>
      simp only [List.cons_append, deposits, ih, List.append_assoc]
      rfl

theorem Filing.performAll_snoc (jobs : List Filing) (last : Filing) (s : Files) (w : World) :
    performAll (jobs ++ [last]) s w =
      (last.perform (performAll jobs s w).1 (performAll jobs s w).2).2 := by
  simp only [performAll, List.foldl_append, List.foldl_cons, List.foldl_nil]

/-- A write is put off: the world stays as it is. -/
theorem Files.write_world (s : Files) (h : FileHandle) (bytes : Bytes) (w : World) :
    (s.write h bytes w).2.2 = w := by
  unfold Files.write
  rcases s.checkWritable h with e | f <;> rfl

/-- A write through a handle on a file is a deposit to that file, where the handle writes. -/
theorem Filing.deposit_write {s : Files} {w : World} {h : FileHandle} {f : OpenFile} {inode : Inode}
    {bytes : Bytes} {d : Deposit} (opened : s.openFile h = .ok f)
    (behind : w.files.inode? f.descriptor = some inode)
    (made : (Filing.plain (.write h bytes)).deposit s w = some d) :
    d.inode = inode ∧ d.bytes = bytes ∧ d.offset = s.writesAt f w.files := by
  obtain ⟨g, writable, made⟩ := Option.bind_eq_some_iff.1 made
  cases allowed : s.checkWritable h with
  | error e => simp [allowed, Except.toOption] at writable
  | ok g' =>
      simp only [allowed, Except.toOption, Option.some.injEq] at writable
      subst writable
      obtain rfl : g' = f := Except.ok.inj ((Files.open_of_writable allowed).symm.trans opened)
      obtain ⟨e, there, made⟩ := Option.bind_eq_some_iff.1 made
      obtain ⟨file, on, rfl⟩ := Option.map_eq_some_iff.1 made
      rw [Filesystem.inode?, there, Option.bind_some, on] at behind
      exact ⟨Option.some.inj behind, rfl, rfl⟩

/-! ## Any jobs -/

/-- **The end of a file.**  A transaction by itself opens, creates, adopts and removes files, reads, writes,
appends, seeks and closes through any number of handles.  For a handle on a file, a seek from the end
starts at `last`, and a write in append mode is accepted there.  That is the end of the file with every
deposit made at its place, `placed`, exactly if no deposit of no bytes lies past it.  A commit leaves the
file as the deposits make it, `left`, which is `placed` where no descriptor on the file appends.  If
`last` is the end of that, a write in append mode that is committed puts its bytes behind what precedes
it.

Every file has one name: a file under two names goes by two resources, and the end that one of them shows
leaves out what is written under the other. -/
theorem FilingCall.run_logical_end (config : TxId → Config) (who : TxId) (jobs : List Filing) {w : World}
    (orderly : w.files.Orderly) (free : w.locks.Free)
    (backed : ∀ fd path, .adopt fd path ∈ jobs → w.files.Backs fd path)
    {h : FileHandle} {f : OpenFile} {inode : Inode} :
    let s := (Filing.performAll jobs {} w).1
    let now := (Filing.performAll jobs {} w).2
    let deposits := Filing.deposits jobs {} w
    let before := (now.files.content inode).toBytes
    let last := Bytes.furthest before.length (Deposit.writes deposits inode)
    let placed := (Deposit.writes deposits inode).foldl Content.perform before
    let left := Deposit.upon deposits inode before
    let committing (jobs : List Filing) :=
      performAll (jobs.map .work ++ [.commit]) (newTransaction config who) w
    s.openFile h = .ok f → now.files.inode? f.descriptor = some inode →
      (∀ delta, (s.seek h (.fromEnd delta) now).1 =
        match Files.moveBy last delta with
        | some n => .ok n
        | none => .error (Files.badSeek h)) ∧
      (∀ bytes d, (Filing.plain (.write h bytes)).deposit s now = some d →
        d.inode = inode ∧ d.bytes = bytes ∧ (f.flags.append = true → d.offset = last)) ∧
      (last = placed.length ↔
        ∀ d ∈ deposits, d.inode = inode → d.bytes = [] → d.offset ≤ placed.length) ∧
      ((committing jobs).1.getLast? = some (.ended (.ok .committed)) →
        ((committing jobs).2.2.files.content inode).toBytes = left) ∧
      ((∀ d ∈ deposits, d.inode = inode → d.appends = false) → left = placed) ∧
      (f.flags.append = true → last = left.length → ∀ bytes d,
        let appended := committing (jobs ++ [.plain (.write h bytes)])
        (Filing.plain (.write h bytes)).deposit s now = some d →
          appended.1.getLast? = some (.ended (.ok .committed)) →
            (appended.2.2.files.content inode).toBytes = left ++ bytes) := by
  intro s now deposits before last placed left committing opened behind
  have known (fd : Nat) (path : String) (member : .adopt fd path ∈ jobs) : w.files.Open fd :=
    (backed fd path member).isOpen
  obtain ⟨facing, orderly'⟩ := Filing.performAll_facing jobs (Files.Facing.fresh w.files) orderly backed
  obtain ⟨-, -, pending⟩ := Filing.performAll_pending jobs (Files.Bound.fresh w.files) known
  have found := Files.handle_of_open opened
  have ends : s.logicalLength f now.files = last := by
    rw [facing.logicalLength orderly' found behind]
    exact congrArg (fun all => Bytes.furthest before.length (Deposit.writes all inode)) pending
  have accepted (bytes : Bytes) (d : Deposit)
      (made : (Filing.plain (.write h bytes)).deposit s now = some d) :
      d.inode = inode ∧ d.bytes = bytes ∧ (f.flags.append = true → d.offset = last) := by
    obtain ⟨here, content, place⟩ := Filing.deposit_write opened behind made
    refine ⟨here, content, fun append => ?_⟩
    rw [place, Files.writesAt, if_pos append, ends]
  refine ⟨fun delta => ?_, accepted, ?_, fun committed => ?_,
    fun plain => Deposit.upon_plain plain before, fun append level bytes d => ?_⟩
  · simp only [Files.seek, opened, Files.seekTarget, ends]
    cases Files.moveBy last delta <;> rfl
  · have writes : (∀ write ∈ Deposit.writes deposits inode,
        write.2 = [] → write.1 ≤ placed.length) ↔
        ∀ d ∈ deposits, d.inode = inode → d.bytes = [] → d.offset ≤ placed.length := by
      simp only [Deposit.writes, List.forall_mem_map, List.mem_filter, decide_eq_true_eq, and_imp]
    rw [← writes]
    exact Bytes.furthest_eq_iff _ before
  · exact (commit_deposited config who free known committed).contents inode
  · intro appended made committed
    have known' (fd : Nat) (path : String)
        (member : .adopt fd path ∈ jobs ++ [.plain (.write h bytes)]) : w.files.Open fd := by
      rcases List.mem_append.1 member with old | new
      · exact known fd path old
      · cases List.mem_singleton.1 new
    obtain ⟨here, content, place⟩ := accepted bytes d made
    have contents := (commit_deposited config who free known' committed).contents inode
    have same : (Filing.performAll (jobs ++ [.plain (.write h bytes)]) {} w).2 = now := by
      rw [Filing.performAll_snoc]
      exact s.write_world h bytes now
    rw [Filing.deposits_snoc, same, Deposit.upon_append, show Filing.deposit _ _ _ = _ from made,
      Option.toList_some, Deposit.upon_singleton, if_pos here] at contents
    refine contents.trans ?_
    rw [Deposit.perform_at_end _ ((place append).trans level), content]

/-- A descriptor from outside at the beginning of `/old`. -/
def lentOld : World :=
  { files := { Assembly.oneOld.files with
      descriptors := ⟨[(0, { inode := some 0, readable := true, writable := true })]⟩
      nextDescriptor := 1 } }

theorem orderly_lentOld : lentOld.files.Orderly where
  sound := ⟨Assembly.sound_oneOld.home, Assembly.sound_oneOld.placed⟩
  roomy := Assembly.roomy_oneOld
  oneName := Assembly.orderly_oneOld.oneName
  numbered := Assembly.orderly_oneOld.numbered

/-- A transaction writes to the beginning of `/old` by way of the descriptor, appends by way of a handle
of its own, and writes no bytes at the end. -/
def throughBoth : List Filing :=
  [.adopt 0 "/old", .plain (.write ⟨0⟩ [9]), .plain (.openPath "/old" { append := true }),
    .plain (.write ⟨1⟩ [7]), .plain (.seek ⟨0⟩ (.start 3)), .plain (.write ⟨0⟩ [])]

/-- The end is behind what it appended, and that is where it appends next. -/
theorem FilingCall.run_logical_end_throughBoth :
    let s := (Filing.performAll throughBoth {} lentOld).1
    let now := (Filing.performAll throughBoth {} lentOld).2
    let committing (jobs : List Filing) :=
      performAll (jobs.map .work ++ [.commit]) (newTransaction (fun _ => {}) ⟨1, "first"⟩) lentOld
    (s.seek ⟨1⟩ (.fromEnd (-1)) now).1 = .ok 2 ∧
      ((committing throughBoth).2.2.files.content 0).toBytes = [9, 2, 7] ∧
      ((committing (throughBoth ++ [.plain (.write ⟨1⟩ [8])])).2.2.files.content 0).toBytes =
        [9, 2, 7, 8] := by
  intro s now committing
  have backed : ∀ fd path, .adopt fd path ∈ throughBoth → lentOld.files.Backs fd path := by
    intro fd path member
    obtain ⟨rfl, rfl⟩ : fd = 0 ∧ path = "/old" := by simpa [throughBoth] using member
    refine ⟨⟨by decide, by decide⟩, by decide, ["old"], .file 0, by rfl, fun inode => ?_⟩
    rw [show lentOld.files.inode? 0 = some 0 from rfl, Option.some.injEq, Entry.file.injEq]
  obtain ⟨seeks, -, ends, contents, plain, appends⟩ :=
    run_logical_end (fun _ => {}) ⟨1, "first"⟩ throughBoth orderly_lentOld (fun _ => rfl) backed
      (h := ⟨1⟩)
      (f := { id := .path "/old", descriptor := 1, offset := 3, flags := { append := true } })
      (by rfl) (show _ = some 0 by decide +kernel)
  have level := (ends.2 (by decide +kernel)).trans
    (congrArg List.length (plain (by decide +kernel)).symm)
  refine ⟨(seeks (-1)).trans (by rfl), (contents (by rfl)).trans (by decide +kernel), ?_⟩
  refine (appends rfl level [8] ⟨0, 3, [8], false⟩ (by decide +kernel) (by rfl)).trans ?_
  decide +kernel

/-- A write of no bytes moves the end, and leaves nothing there. -/
example :
    let jobs : List Filing := [.plain (.openPath "/old" { write := true }),
      .plain (.seek ⟨0⟩ (.start 5)), .plain (.write ⟨0⟩ [])]
    let r := Filing.performAll jobs {} Assembly.oneOld
    (r.1.seek ⟨0⟩ (.fromEnd 0) r.2).1.toOption = some 5 ∧
      Deposit.upon (Filing.deposits jobs {} Assembly.oneOld) 0 [1, 2] = [1, 2] := by
  decide +kernel

end Transact
