/-
# Transact.Proofs.Deposits -- what accepted writes come to

A write that is accepted is put off.  A `Deposit` is what it was accepted as: the file behind the handle,
the place and the bytes.  `Filing.deposits` lists them as the jobs of a transaction go along, whatever is
written down.

`Files.Handled` says once what a job does to handles and to the log.  From it follows that the log holds
what was accepted, in call order and whether or not the handle was closed since
(`Filing.performAll_pending`), and that until apply files are only created, empty
(`Filesystem.Gains`).  An apply that succeeds makes every deposit (`Files.apply_deposited`), and leaves a
descriptor from outside at the offset of the handle it was adopted under.

A descriptor may put every write at the end of its file, wherever the handle is.  That is the one thing
that can move a deposit, and `Deposit.appends` says so.
-/
import Transact.Proofs.Lending

namespace Transact

set_option autoImplicit false

/-! ## Deposits -/

/-- A write as it was accepted, and whether its descriptor puts every write at the end of the file. -/
structure Deposit where
  inode : Inode
  offset : Nat
  bytes : Bytes
  appends : Bool
  deriving DecidableEq

namespace Deposit

/-- Make a deposit in a file. -/
def perform (old : Bytes) (d : Deposit) : Bytes :=
  old.splice (if d.appends then old.length else d.offset) d.bytes

/-- Make those deposits in a file that are for it, one after another. -/
def upon (deposits : List Deposit) (inode : Inode) (old : Bytes) : Bytes :=
  (deposits.filter fun d => d.inode = inode).foldl perform old

/-- What is written to a file, and where. -/
def writes (deposits : List Deposit) (inode : Inode) : List (Nat × Bytes) :=
  (deposits.filter fun d => d.inode = inode).map fun d => (d.offset, d.bytes)

variable {deposits : List Deposit} {inode : Inode}

@[simp] theorem upon_nil (inode : Inode) (old : Bytes) : upon [] inode old = old := rfl

theorem upon_append (deposits more : List Deposit) (inode : Inode) (old : Bytes) :
    upon (deposits ++ more) inode old = upon more inode (upon deposits inode old) := by
  simp only [upon, List.filter_append, List.foldl_append]

theorem upon_singleton (d : Deposit) (inode : Inode) (old : Bytes) :
    upon [d] inode old = if d.inode = inode then perform old d else old := by
  simp only [upon, List.filter_cons, List.filter_nil, decide_eq_true_eq]
  split <;> rfl

/-- A deposit of no bytes changes nothing. -/
theorem perform_empty (old : Bytes) {d : Deposit} (nothing : d.bytes = []) : perform old d = old := by
  rw [perform, nothing, Bytes.splice_nil]

/-- **Where no descriptor appends** every deposit is made at the place it was accepted at. -/
theorem upon_plain (plain : ∀ d ∈ deposits, d.inode = inode → d.appends = false) (old : Bytes) :
    upon deposits inode old = (writes deposits inode).foldl Content.perform old := by
  have each : ∀ d ∈ deposits.filter fun d => d.inode = inode, d.appends = false := by
    intro d member
    obtain ⟨there, here⟩ := List.mem_filter.1 member
    exact plain d there (of_decide_eq_true here)
  rw [upon, writes]
  generalize (deposits.filter fun d => d.inode = inode) = own at each
  induction own generalizing old with
  | nil => rfl
  | cons d rest ih =>
      obtain ⟨here, later⟩ := List.forall_mem_cons.1 each
      simp only [List.foldl_cons, List.map_cons, perform, here, Bool.false_eq_true, if_false]
      exact ih _ later

/-- The writes to a file among what is deposited. -/
theorem writes_filterMap {α : Type} (f : α → Option Deposit) (l : List α) (inode : Inode) :
    writes (l.filterMap f) inode =
      l.filterMap fun a => (f a).bind fun d => if d.inode = inode then some (d.offset, d.bytes) else none := by
  induction l with
  | nil => rfl
  | cons a rest ih =>
      unfold writes at ih ⊢
      cases made : f a with
      | none => simpa only [List.filterMap_cons, made, Option.bind_none] using ih
      | some d =>
          by_cases here : d.inode = inode
          · simp [made, here, ih]
          · simp [made, here, ih]

end Deposit

namespace Filesystem

variable {fs fs' fs'' : Filesystem} {fd offset : Nat} {bytes : Bytes}

/-- What a write through a descriptor deposits, if there is a file behind it. -/
def deposit? (fs : Filesystem) (fd offset : Nat) (bytes : Bytes) : Option Deposit :=
  (fs.descriptors.get? fd).bind fun d =>
    d.inode.map fun inode => { inode, offset, bytes, appends := d.appends }

/-- A deposit depends on the descriptor but for its position. -/
theorem deposit?_of_still
    (still : (fs'.descriptors.get? fd).map Descriptor.still =
      (fs.descriptors.get? fd).map Descriptor.still) :
    fs'.deposit? fd offset bytes = fs.deposit? fd offset bytes := by
  have through (files : Filesystem) : files.deposit? fd offset bytes =
      ((files.descriptors.get? fd).map Descriptor.still).bind fun d =>
        d.inode.map fun inode => { inode, offset, bytes, appends := d.appends } := by
    rw [deposit?]
    cases files.descriptors.get? fd <;> rfl
  rw [through, through, still]

/-- What a deposit is for is what its descriptor is on. -/
theorem deposit?_writes (fs : Filesystem) (fd offset : Nat) (bytes : Bytes) (inode : Inode) :
    ((fs.deposit? fd offset bytes).bind fun d =>
        if d.inode = inode then some (d.offset, d.bytes) else none) =
      if fs.inode? fd = some inode then some (offset, bytes) else none := by
  unfold deposit? Filesystem.inode?
  cases fs.descriptors.get? fd with
  | none => rfl
  | some d =>
      cases file : d.inode with
      | none => simp [file]
      | some other => simp [file]

/-- From `fs` to `fs'` the deposits were made, and nothing else became of files and descriptors. -/
structure Deposited (deposits : List Deposit) (fs fs' : Filesystem) : Prop where
  contents : ∀ inode,
    (fs'.content inode).toBytes = Deposit.upon deposits inode (fs.content inode).toBytes
  count : fs'.nextInode = fs.nextInode
  still : ∀ n,
    (fs'.descriptors.get? n).map Descriptor.still = (fs.descriptors.get? n).map Descriptor.still

namespace Deposited

variable {deposits more : List Deposit}

theorem refl (fs : Filesystem) : Deposited [] fs fs := ⟨fun _ => rfl, rfl, fun _ => rfl⟩

theorem trans (first : Deposited deposits fs fs') (second : Deposited more fs' fs'') :
    Deposited (deposits ++ more) fs fs'' where
  contents inode := by rw [second.contents, first.contents, Deposit.upon_append]
  count := second.count.trans first.count
  still n := (second.still n).trans (first.still n)

theorem isSome (deposited : Deposited deposits fs fs') (n : Nat) :
    (fs'.descriptors.get? n).isSome = (fs.descriptors.get? n).isSome := by
  rw [← Option.isSome_map (f := Descriptor.still), deposited.still, Option.isSome_map]

end Deposited

theorem deposited_setPosition (fs : Filesystem) (fd position : Nat) :
    Deposited [] fs (fs.setPosition fd position) :=
  ⟨fun _ => rfl, rfl, (Written.setPosition fs fd position).still⟩

/-- A write that succeeds puts all its bytes at its place, if there are any. -/
theorem write_ok (done : fs.write fd bytes = (.ok (), fs')) :
    bytes = [] ∧ fs' = fs ∨ ∃ d inode, fs.descriptors.get? fd = some d ∧ d.inode = some inode ∧
      fs' = fs.put fd inode (fs.landing d inode d.position) bytes := by
  unfold write at done
  by_cases nothing : bytes = []
  · rw [if_pos nothing] at done
    cases done
    exact Or.inl ⟨nothing, rfl⟩
  rw [if_neg nothing] at done
  cases known : fs.descriptors.get? fd with
  | none => simp [known] at done
  | some d =>
      cases writable : d.writable with
      | false => simp [known, writable] at done
      | true =>
          cases file : d.inode with
          | none => simp [known, writable, file] at done
          | some inode =>
              refine Or.inr ⟨d, inode, rfl, file, ?_⟩
              rw [landing]
              simp only [known, writable, file, Bool.not_true, Bool.false_eq_true, if_false] at done
              generalize (if d.appends then (fs.content inode).length else d.position) = place
                at done
              by_cases fits : bytes.length ≤ maxLength - place
              · rw [if_pos fits] at done
                cases done
                rfl
              · rw [if_neg fits] at done
                split at done <;> cases done

/-- **A write that succeeds makes its deposit.** -/
theorem deposited_writeAt (done : fs.writeAt fd offset bytes = (.ok (), fs')) :
    Deposited (fs.deposit? fd offset bytes).toList fs fs' := by
  have moved := deposited_setPosition fs fd offset
  have written : (fs.setPosition fd offset).write fd bytes = (.ok (), fs') := by
    unfold writeAt seek at done
    by_cases far : fs.positionLimit fd < offset
    · simp [far] at done
    · simpa [far] using done
  rcases write_ok written with ⟨nothing, rfl⟩ | ⟨d, inode, known, file, rfl⟩
  · refine ⟨fun inode => ?_, rfl, moved.still⟩
    rw [moved.contents, Deposit.upon_nil]
    cases made : fs.deposit? fd offset bytes with
    | none => rfl
    | some d =>
        have empty : d.bytes = [] := by
          obtain ⟨e, -, inside⟩ := Option.bind_eq_some_iff.1 made
          obtain ⟨inode, -, rfl⟩ := Option.map_eq_some_iff.1 inside
          exact nothing
        rw [Option.toList_some, Deposit.upon_singleton, Deposit.perform_empty _ empty, ite_self]
  · rw [get?_setPosition_of, if_pos rfl] at known
    obtain ⟨e, here, rfl⟩ := Option.map_eq_some_iff.1 known
    have behind : e.inode = some inode := file
    have made : fs.deposit? fd offset bytes =
        some { inode, offset, bytes, appends := e.appends } := by
      simp only [deposit?, here, Option.bind_some, behind, Option.map_some]
    refine ⟨fun other => ?_, rfl, fun n => ((Written.put ..).still n).trans (moved.still n)⟩
    rw [made, Option.toList_some, Deposit.upon_singleton]
    refine (congrArg Content.toBytes (content_setContent ..)).trans ?_
    by_cases same : inode = other
    · subst same
      rw [if_pos rfl, if_pos rfl, Content.toBytes_splice, Deposit.perform, Content.length_toBytes]
      rfl
    · rw [if_neg same, if_neg (Ne.symm same)]
      rfl

end Filesystem

/-! ## What is accepted -/

namespace Files

/-- Where a write through a handle goes. -/
def writesAt (s : Files) (f : OpenFile) (fs : Filesystem) : Nat :=
  if f.flags.append then s.logicalLength f fs else f.offset

/-- What a record deposits. -/
def depositOf (handles : Table Nat OpenFile) (fs : Filesystem) (r : Record FileEffect) :
    Option Deposit :=
  match r.payload with
  | .write h offset bytes =>
      (handles.get? h.number).bind fun f => fs.deposit? f.descriptor offset bytes
  | _ => none

/-- What is written down to be deposited, oldest first. -/
def pending (s : Files) (fs : Filesystem) : List Deposit :=
  s.log.records.filterMap (depositOf s.handles fs)

end Files

namespace Filing

/-- What a job deposits, if it is a write that is accepted. -/
def deposit (s : Files) (w : World) : Filing → Option Deposit
  | .plain (.write h bytes) =>
      (s.checkWritable h).toOption.bind fun f =>
        w.files.deposit? f.descriptor (s.writesAt f w.files) bytes
  | _ => none

/-- Do jobs one after another. -/
def performAll (jobs : List Filing) (s : Files) (w : World) : Files × World :=
  jobs.foldl (fun r job => (job.perform r.1 r.2).2) (s, w)

/-- What jobs deposit that are done one after another. -/
def deposits : List Filing → Files → World → List Deposit
  | [], _, _ => []
  | job :: rest, s, w =>
      (job.deposit s w).toList ++ deposits rest (job.perform s w).2.1 (job.perform s w).2.2

end Filing

/-! ## What a job does -/

/-- A change that a view does not show. -/
theorem Table.map_modify_of_same {κ α β : Type} [DecidableEq κ] {f : α → β} {change : α → α}
    (same : ∀ a, f (change a) = f a) (t : Table κ α) (key : κ) :
    (t.modify key change).map f = t.map f := by
  unfold modify
  cases found : t.get? key with
  | none => rfl
  | some value =>
      rcases t with ⟨entries⟩
      simp only [get?, set, map, Table.mk.injEq] at found ⊢
      induction entries with
      | nil => cases found
      | cons first rest ih =>
          obtain ⟨k, a⟩ := first
          by_cases here : k = key
          · simp only [find, here, if_true, Option.some.injEq] at found
            simp only [put, here, if_true, List.map_cons, same, found]
          · simp only [find, here, if_false] at found
            simp only [put, here, if_false, List.map_cons, ih found]

namespace Filesystem

variable {fs fs' fs'' : Filesystem}

/-- The number of an open descriptor. -/
structure Open (fs : Filesystem) (fd : Nat) : Prop where
  handed : fd < fs.nextDescriptor
  known : (fs.descriptors.get? fd).isSome

/-- From `fs` to `fs'` files were created, all of them empty, and descriptors opened and moved. -/
structure Gains (fs fs' : Filesystem) : Prop where
  home : fs'.home = fs.home
  stands : ∀ at_ e, fs.entry? at_ = some e → fs'.entry? at_ = some e
  new : ∀ at_ e, fs'.entry? at_ = some e → fs.entry? at_ = some e ∨
    ∃ inode, e = .file inode ∧ fs.nextInode ≤ inode ∧ inode < fs'.nextInode
  count : fs.nextInode ≤ fs'.nextInode
  contents : ∀ inode, inode < fs.nextInode → fs'.content inode = fs.content inode
  empty : ∀ inode, fs.nextInode ≤ inode → inode < fs'.nextInode → fs'.content inode = {}
  next : fs.nextDescriptor ≤ fs'.nextDescriptor
  still : ∀ n, n < fs.nextDescriptor →
    (fs'.descriptors.get? n).map Descriptor.still = (fs.descriptors.get? n).map Descriptor.still

namespace Gains

theorem refl (fs : Filesystem) : Gains fs fs where
  home := rfl
  stands _ _ stood := stood
  new _ _ := Or.inl
  count := Nat.le_refl _
  contents _ _ := rfl
  empty _ above below := absurd below (Nat.not_lt.2 above)
  next := Nat.le_refl _
  still _ _ := rfl

theorem trans (first : Gains fs fs') (second : Gains fs' fs'') : Gains fs fs'' where
  home := second.home.trans first.home
  stands at_ e stood := second.stands at_ e (first.stands at_ e stood)
  new at_ e stood := by
    rcases second.new at_ e stood with before | ⟨inode, file, above, below⟩
    · refine (first.new at_ e before).imp_right fun ⟨inode, file, above, below⟩ => ?_
      exact ⟨inode, file, above, Nat.lt_of_lt_of_le below second.count⟩
    · exact Or.inr ⟨inode, file, Nat.le_trans first.count above, below⟩
  count := Nat.le_trans first.count second.count
  contents inode old :=
    (second.contents inode (Nat.lt_of_lt_of_le old first.count)).trans (first.contents inode old)
  empty inode above below := by
    by_cases before : inode < fs'.nextInode
    · exact (second.contents inode before).trans (first.empty inode above before)
    · exact second.empty inode (Nat.le_of_not_lt before) below
  next := Nat.le_trans first.next second.next
  still n handed :=
    (second.still n (Nat.lt_of_lt_of_le handed first.next)).trans (first.still n handed)

theorem isOpen (gains : Gains fs fs') {fd : Nat} (is : fs.Open fd) : fs'.Open fd where
  handed := Nat.lt_of_lt_of_le is.handed gains.next
  known := by
    rw [← Option.isSome_map (f := Descriptor.still), gains.still fd is.handed, Option.isSome_map]
    exact is.known

end Gains

theorem Moved.gains (moved : Moved fs fs') (inodes : fs'.nextInode = fs.nextInode) :
    Gains fs fs' where
  home := moved.tree.home
  stands at_ _ stood := (moved.tree.entry? at_).trans stood
  new at_ _ stood := Or.inl ((moved.tree.entry? at_).symm.trans stood)
  count := Nat.le_of_eq inodes.symm
  contents inode _ := moved.content inode
  empty _ above below := absurd (inodes ▸ below) (Nat.not_lt.2 above)
  next := moved.next
  still := moved.still

theorem gains_addDescriptor (fs : Filesystem) (d : Descriptor) : Gains fs (fs.addDescriptor d).2 :=
  Moved.gains ⟨onward_addDescriptor fs d, rfl⟩ rfl

theorem gains_addFile {at_ : Location} (below : at_ ≠ []) (free : fs.entry? at_ = none) :
    Gains fs (fs.addFile at_).2 := by
  have entries := entry?_addFile fs below
  have content (inode : Inode) : (fs.addFile at_).2.content inode =
      if inode = fs.nextInode then {} else fs.content inode :=
    content_setContent fs fs.nextInode inode {}
  refine ⟨rfl, fun there e stood => ?_, fun there e stood => ?_, Nat.le_succ _, fun inode old => ?_,
    fun inode above within => ?_, Nat.le_refl _, fun _ _ => rfl⟩
  · rw [entries, if_neg, stood]
    rintro rfl
    rw [free] at stood
    cases stood
  · rw [entries] at stood
    split at stood
    · cases stood
      exact Or.inr ⟨_, rfl, Nat.le_refl _, Nat.lt_succ_self _⟩
    · exact Or.inl stood
  · rw [content, if_neg (Nat.ne_of_lt old)]
  · have last : inode = fs.nextInode := Nat.le_antisymm (Nat.le_of_lt_succ within) above
    rw [content, if_pos last]

/-- Opening creates an empty file at most, and hands out a descriptor. -/
theorem openOrCreate_gains {path : String} {flags : OpenFlags} {fd : Nat} {created : Bool}
    (made : Files.openOrCreate fs path flags = .ok (fd, created, fs')) :
    Gains fs fs' ∧ fd = fs.nextDescriptor ∧ fs'.Open fd := by
  have handed (files : Filesystem) (d : Descriptor) (count : files.nextDescriptor = fs.nextDescriptor) :
      (files.addDescriptor d).1 = fs.nextDescriptor ∧
        (files.addDescriptor d).2.Open (files.addDescriptor d).1 :=
    ⟨count, Nat.lt_succ_self _, by simp only [addDescriptor, Table.get?_set_self, Option.isSome_some]⟩
  obtain ⟨-, ⟨-, at_, e, d, -, same, -⟩ | ⟨-, directory, name, resolved, -, same⟩⟩ :=
    openOrCreate_ok made
  · cases same
    exact ⟨gains_addDescriptor fs d, handed fs d rfl⟩
  · obtain ⟨led, -⟩ := resolve_eq_restOf (by decide) resolved
    obtain ⟨-, free, -⟩ := stopsAt_of_follow (by rfl) led
    cases same
    have added : Gains fs (fs.addFile (directory ++ [name])).2 := gains_addFile (by simp) free.symm
    exact ⟨added.trans (gains_addDescriptor _ _), handed (fs.addFile _).2 _ rfl⟩

end Filesystem

namespace Files

/-- The files after a write through `h`, which stands for `f`, was accepted. -/
def noting (s : Files) (v : VersionTable) (h : FileHandle) (f : OpenFile) (offset : Nat)
    (bytes : Bytes) : Files :=
  ({ s with
    access := s.access.write v f.id
    log := s.log.append (.deferred f.id (.write h offset bytes)) } : Files).setOffset h
      (offset + bytes.length)

theorem lasting_noting (s : Files) (v : VersionTable) (h : FileHandle) (f : OpenFile) (offset : Nat)
    (bytes : Bytes) : (s.noting v h f offset bytes).handles.map OpenFile.lasting =
      s.handles.map OpenFile.lasting := by
  have same (g : OpenFile) : OpenFile.lasting { g with offset := offset + bytes.length } = g.lasting :=
    rfl
  exact Table.map_modify_of_same same s.handles h.number

/-- A job that only moves or closes a handle, or writes a removal down. -/
structure Calm (job : Filing) (s s' : Files) : Prop where
  count : s'.nextHandle = s.nextHandle
  handles : s'.handles.map OpenFile.lasting = s.handles.map OpenFile.lasting
  records : ∃ new, s'.log.records = s.log.records ++ new ∧
    ∀ r ∈ new, r.payload = .remove ∧ ∃ path, job = .remove path
  removed : (∀ path, job ≠ .remove path) → s'.removed = s.removed

/-- **What a job does** to handles and to what is written down. -/
inductive Handled (w : World) (s : Files) : Filing → World → Files → Prop where
  /-- It opens a file, or creates it. -/
  | opened {path : String} {flags : OpenFlags} {fd : Nat} {created : Bool} {files : Filesystem}
      (made : openOrCreate w.files path flags = .ok (fd, created, files)) :
      Handled w s (.plain (.openPath path flags)) { w with files }
        (s.opened w.versions (resource w.files path) fd flags created)
  /-- It takes in a descriptor from outside. -/
  | adopted (fd : Nat) (path : String) :
      Handled w s (.adopt fd path) w
        (s.adopting w.versions (resource w.files path) fd (w.files.position fd))
  /-- It writes a write down. -/
  | wrote {h : FileHandle} {bytes : Bytes} {f : OpenFile} (allowed : s.checkWritable h = .ok f) :
      Handled w s (.plain (.write h bytes)) w
        (s.noting w.versions h f (s.writesAt f w.files) bytes)
  /-- It does nothing of this. -/
  | quiet {job : Filing} {files : Filesystem} {s' : Files} (nothing : job.deposit s w = none)
      (moved : Filesystem.Gains w.files files) (calm : Calm job s s') :
      Handled w s job { w with files } s'

variable {w w' : World} {s s' : Files} {job : Filing}

theorem Calm.access (job : Filing) (s : Files) (access : AccessSet) :
    Calm job s { s with access } where
  count := rfl
  handles := rfl
  records := ⟨[], (List.append_nil _).symm, fun _ member => absurd member List.not_mem_nil⟩
  removed _ := rfl

theorem Calm.refl (job : Filing) (s : Files) : Calm job s s := .access job s s.access

theorem Calm.modify (job : Filing) (s : Files) (access : AccessSet) (n : Nat)
    {change : OpenFile → OpenFile} (lasting : ∀ f, (change f).lasting = f.lasting) :
    Calm job s { s with access, handles := s.handles.modify n change } :=
  { Calm.access job s access with handles := Table.map_modify_of_same lasting s.handles n }

/-- A refused job does nothing. -/
theorem Handled.refused (nothing : job.deposit s w = none) : Handled w s job w s :=
  .quiet nothing (.refl w.files) (.refl job s)

theorem openPath_handled (path : String) (flags : OpenFlags) :
    Handled w s (.plain (.openPath path flags)) (s.openPath path flags w).2.2
      (s.openPath path flags w).2.1 := by
  rcases s.openPath_cases w path flags with same | ⟨fd, created, files, made, done⟩
  · rw [same]
    exact .refused rfl
  · rw [done]
    exact .opened made

theorem adopt_handled (fd : Nat) (path : String) :
    Handled w s (.adopt fd path) (s.adopt fd path w).2.2 (s.adopt fd path w).2.1 := by
  unfold Files.adopt
  simp only
  rcases s.checkNotRemoved (resource w.files path) with e | _
  · exact .refused rfl
  · exact .adopted fd path

theorem remove_handled (path : String) :
    Handled w s (.remove path) (s.remove path w).2.2 (s.remove path w).2.1 := by
  unfold Files.remove
  simp only
  rcases s.checkNotRemoved (resource w.files path) with e | _
  · exact .refused rfl
  · cases w.files.names path with
    | false => exact .refused rfl
    | true =>
        refine .quiet rfl (.refl w.files)
          ⟨rfl, rfl, ⟨[_], rfl, fun r member => ?_⟩, fun keeps => absurd rfl (keeps path)⟩
        rw [List.mem_singleton.1 member]
        exact ⟨rfl, path, rfl⟩

theorem read_handled (h : FileHandle) (len : Nat) :
    Handled w s (.plain (.read h len)) (s.read h len w).2.2 (s.read h len w).2.1 := by
  unfold Files.read
  rcases s.checkReadable h with e | f
  · exact .refused rfl
  · have shifted := Filesystem.shifted_readAt w.files f.descriptor f.offset len
    have gains := shifted.toMoved.gains shifted.inodes
    simp only
    rcases read : w.files.readAt f.descriptor f.offset len with ⟨e | window, files⟩ <;>
      rw [read] at gains
    · exact .quiet rfl gains (.access _ s _)
    · exact .quiet rfl gains (.modify _ s _ h.number fun _ => rfl)

theorem write_handled (h : FileHandle) (bytes : Bytes) :
    Handled w s (.plain (.write h bytes)) (s.write h bytes w).2.2 (s.write h bytes w).2.1 := by
  unfold Files.write
  cases allowed : s.checkWritable h with
  | error e =>
      refine .refused ?_
      simp only [Filing.deposit, allowed]
      rfl
  | ok f => exact .wrote allowed

theorem seek_handled (h : FileHandle) (pos : SeekFrom) :
    Handled w s (.plain (.seek h pos)) (s.seek h pos w).2.2 (s.seek h pos w).2.1 := by
  unfold Files.seek
  rcases s.openFile h with e | f
  · exact .refused rfl
  · simp only
    rcases s.seekTarget f w.files pos with _ | offset
    · exact .refused rfl
    · exact .quiet rfl (.refl w.files) (.modify _ s s.access h.number fun _ => rfl)

theorem close_handled (h : FileHandle) :
    Handled w s (.plain (.close h)) (s.close h w).2.2 (s.close h w).2.1 := by
  unfold Files.close
  rcases s.openFile h with e | f
  · exact .refused rfl
  · exact .quiet rfl (.refl w.files) (.modify _ s s.access h.number fun _ => rfl)

end Files

/-- **Every job does one of these.** -/
theorem Filing.perform_handled (s : Files) (w : World) (job : Filing) :
    Files.Handled w s job (job.perform s w).2.2 (job.perform s w).2.1 := by
  cases job with
  | adopt fd path => exact Files.adopt_handled fd path
  | remove path => exact Files.remove_handled path
  | plain job =>
      cases job with
      | openPath path flags => exact Files.openPath_handled path flags
      | read h len => exact Files.read_handled h len
      | write h bytes => exact Files.write_handled h bytes
      | seek h pos => exact Files.seek_handled h pos
      | tell h => exact .refused rfl
      | close h => exact Files.close_handled h

/-! ## What is written down -/

/-- A handle that lasts stands for what it stood for. -/
theorem OpenFile.found_of_lasting {t t' : Table Nat OpenFile} {n : Nat} {f : OpenFile}
    (same : t'.map OpenFile.lasting = t.map OpenFile.lasting) (found : t.get? n = some f) :
    ∃ f', t'.get? n = some f' ∧ f'.id = f.id ∧ f'.descriptor = f.descriptor := by
  have alike := congrArg (fun t => t.get? n) same
  simp only [Table.get?_map, found, Option.map_some] at alike
  obtain ⟨f', found', lasting⟩ := Option.map_eq_some_iff.1 alike
  obtain ⟨-, id, descriptor⟩ := OpenFile.same_of_lasting lasting
  exact ⟨f', found', id, descriptor⟩

namespace Files

/-- Handles are numbered as they come and stand for open descriptors, and writes go through handles. -/
structure Bound (fs : Filesystem) (s : Files) : Prop where
  numbered : ∀ n f, s.handles.get? n = some f → n < s.nextHandle
  opened : ∀ n f, s.handles.get? n = some f → fs.Open f.descriptor
  writes : ∀ r ∈ s.log.records, ∀ h offset bytes, r.payload = .write h offset bytes →
    ∃ f, s.handles.get? h.number = some f ∧ f.id = r.resource

section Bound

variable {fs fs' : Filesystem} {w w' : World} {s s' : Files} {job : Filing}

theorem Bound.fresh (fs : Filesystem) : Bound fs {} where
  numbered _ _ found := by cases found
  opened _ _ found := by cases found
  writes _ member := absurd member List.not_mem_nil

/-- What is deposited through a handle stays what it is. -/
theorem Bound.depositOf (bound : Bound fs s) (gains : fs.Gains fs')
    (kept : ∀ n f, s.handles.get? n = some f →
      ∃ f', s'.handles.get? n = some f' ∧ f'.descriptor = f.descriptor)
    {r : Record FileEffect} (through : ∀ h offset bytes, r.payload = .write h offset bytes →
      ∃ f, s.handles.get? h.number = some f ∧ f.id = r.resource) :
    depositOf s'.handles fs' r = depositOf s.handles fs r := by
  unfold Files.depositOf
  cases work : r.payload with
  | create => rfl
  | adopt h => rfl
  | remove => rfl
  | write h offset bytes =>
      obtain ⟨f, found, -⟩ := through h offset bytes work
      obtain ⟨f', found', same⟩ := kept h.number f found
      have still := gains.still f.descriptor (bound.opened _ f found).handed
      simp only [found, found', Option.bind_some, same, Filesystem.deposit?_of_still still]

/-- What was written down is the beginning of what is. -/
theorem Bound.pending_append (bound : Bound fs s) (gains : fs.Gains fs')
    (kept : ∀ n f, s.handles.get? n = some f →
      ∃ f', s'.handles.get? n = some f' ∧ f'.descriptor = f.descriptor)
    {new : List (Record FileEffect)} (log : s'.log.records = s.log.records ++ new) :
    s'.pending fs' = s.pending fs ++ new.filterMap (Files.depositOf s'.handles fs') := by
  rw [pending, log, List.filterMap_append, pending]
  exact congrArg (· ++ _)
    (List.filterMap_congr fun r member => bound.depositOf gains kept (bound.writes r member))

/-- A new handle with no write, at whatever it stands for. -/
theorem Bound.add (bound : Bound fs s) (gains : fs.Gains fs') {f : OpenFile}
    (opened : fs'.Open f.descriptor) {log : DeferredLog FileEffect} {access : AccessSet}
    {new : List (Record FileEffect)} (records : log.records = s.log.records ++ new)
    (unwritten : ∀ r ∈ new, ∀ h offset bytes, r.payload ≠ .write h offset bytes) :
    let s' : Files := { s with nextHandle := s.nextHandle + 1
                               handles := s.handles.set s.nextHandle f, log, access }
    Bound fs' s' ∧ s'.pending fs' = s.pending fs := by
  intro s'
  have kept {n : Nat} {g : OpenFile} (found : s.handles.get? n = some g) :
      s'.handles.get? n = some g := by
    have known := bound.numbered n g found
    show (s.handles.set s.nextHandle f).get? n = some g
    rw [Table.get?_set_of_ne _ _ (Nat.ne_of_lt known)]
    exact found
  have split {n : Nat} {g : OpenFile} (found : s'.handles.get? n = some g) :
      n = s.nextHandle ∧ g = f ∨ s.handles.get? n = some g := by
    have found : (s.handles.set s.nextHandle f).get? n = some g := found
    by_cases last : n = s.nextHandle
    · rw [last, Table.get?_set_self] at found
      exact Or.inl ⟨last, (Option.some.inj found).symm⟩
    · rw [Table.get?_set_of_ne _ _ last] at found
      exact Or.inr found
  refine ⟨⟨fun n g found => ?_, fun n g found => ?_, fun r member h offset bytes work => ?_⟩, ?_⟩
  · show n < s.nextHandle + 1
    rcases split found with ⟨rfl, -⟩ | old
    · exact Nat.lt_succ_self _
    · exact Nat.lt_succ_of_lt (bound.numbered n g old)
  · rcases split found with ⟨-, rfl⟩ | old
    · exact opened
    · exact gains.isOpen (bound.opened n g old)
  · have member : r ∈ log.records := member
    rw [records] at member
    rcases List.mem_append.1 member with before | last
    · obtain ⟨g, found, named⟩ := bound.writes r before h offset bytes work
      exact ⟨g, kept found, named⟩
    · exact absurd work (unwritten r last h offset bytes)
  · rw [bound.pending_append gains (fun n g found => ⟨g, kept found, rfl⟩)
      (show s'.log.records = _ from records)]
    have none : new.filterMap (Files.depositOf s'.handles fs') = [] := by
      refine List.filterMap_eq_nil_iff.2 fun r member => ?_
      unfold Files.depositOf
      cases work : r.payload with
      | write h offset bytes => exact absurd work (unwritten r member h offset bytes)
      | _ => rfl
    rw [none, List.append_nil]

/-- Handles that last, and what is written down at the end through one of them. -/
theorem Bound.last (bound : Bound fs s) (gains : fs.Gains fs') (count : s'.nextHandle = s.nextHandle)
    (lasting : s'.handles.map OpenFile.lasting = s.handles.map OpenFile.lasting)
    {new : List (Record FileEffect)} (log : s'.log.records = s.log.records ++ new)
    (writes : ∀ r ∈ new, ∀ h offset bytes, r.payload = .write h offset bytes →
      ∃ f, s.handles.get? h.number = some f ∧ f.id = r.resource) :
    Bound fs' s' ∧ s'.pending fs' = s.pending fs ++ new.filterMap (Files.depositOf s.handles fs) := by
  have stays (n : Nat) (f : OpenFile) (found : s.handles.get? n = some f) :
      ∃ f', s'.handles.get? n = some f' ∧ f'.descriptor = f.descriptor := by
    obtain ⟨f', found', -, descriptor⟩ := OpenFile.found_of_lasting lasting found
    exact ⟨f', found', descriptor⟩
  refine ⟨⟨fun n f' found => ?_, fun n f' found => ?_, fun r member h offset bytes work => ?_⟩, ?_⟩
  · obtain ⟨f, known, -⟩ := OpenFile.found_of_lasting lasting.symm found
    exact count ▸ bound.numbered n f known
  · obtain ⟨f, known, -, same⟩ := OpenFile.found_of_lasting lasting.symm found
    exact same ▸ gains.isOpen (bound.opened n f known)
  · rw [log] at member
    have named : ∃ f, s.handles.get? h.number = some f ∧ f.id = r.resource := by
      rcases List.mem_append.1 member with old | recent
      · exact bound.writes r old h offset bytes work
      · exact writes r recent h offset bytes work
    obtain ⟨f, known, named⟩ := named
    obtain ⟨f', found', id, -⟩ := OpenFile.found_of_lasting lasting known
    exact ⟨f', found', id.trans named⟩
  · rw [bound.pending_append gains stays log]
    exact congrArg (s.pending fs ++ ·) (List.filterMap_congr fun r member =>
      bound.depositOf gains stays (writes r member))

/-- **A job writes down what it deposits**, and nothing else of this sort. -/
theorem Handled.pending (handled : Handled w s job w' s') (bound : Bound w.files s)
    (known : ∀ fd path, job = .adopt fd path → w.files.Open fd) :
    Bound w'.files s' ∧ w.files.Gains w'.files ∧
      s'.pending w'.files = s.pending w.files ++ (job.deposit s w).toList := by
  cases handled with
  | @opened path flags fd created files made =>
      obtain ⟨gains, -, is⟩ := Filesystem.openOrCreate_gains made
      have log : (s.opened w.versions (resource w.files path) fd flags created).log.records =
          s.log.records ++
            (if created then [.eager (resource w.files path) .absent .create] else []) := by
        cases created with
        | true => rfl
        | false => exact (List.append_nil _).symm
      obtain ⟨bound', same⟩ := bound.add gains
        (f := { id := resource w.files path, descriptor := fd, offset := 0, flags }) is log
        fun r member h offset bytes work => by
          cases created with
          | true =>
              rw [List.mem_singleton.1 member] at work
              cases work
          | false => cases member
      exact ⟨bound', gains, same.trans (List.append_nil _).symm⟩
  | adopted fd path =>
      let before := w.files.position fd
      let id := resource w.files path
      let s' := s.adopting w.versions id fd before
      obtain ⟨bound', same⟩ : Bound w.files s' ∧ s'.pending w.files = s.pending w.files :=
        bound.add (.refl w.files) (known fd path rfl) rfl fun r member h offset bytes work => by
          rw [List.mem_singleton.1 member] at work
          cases work
      exact ⟨bound', .refl w.files, same.trans (List.append_nil _).symm⟩
  | @wrote h bytes f allowed =>
      have found := handle_of_open (open_of_writable allowed)
      let s' := s.noting w.versions h f (s.writesAt f w.files) bytes
      let new : Record FileEffect := .deferred f.id (.write h (s.writesAt f w.files) bytes)
      have count : s'.nextHandle = s.nextHandle := rfl
      have log : s'.log.records = s.log.records ++ [new] := rfl
      obtain ⟨bound', same⟩ := bound.last (.refl w.files) count (lasting_noting ..) log
        fun r member h' offset content work => by
          rw [List.mem_singleton.1 member] at work ⊢
          cases work
          exact ⟨f, found, rfl⟩
      refine ⟨bound', .refl w.files, same.trans (congrArg (s.pending w.files ++ ·) ?_)⟩
      simp only [List.filterMap_cons, List.filterMap_nil, Files.depositOf, new, Record.deferred, found,
        Option.bind_some, Filing.deposit, allowed, Except.toOption]
      cases w.files.deposit? f.descriptor (s.writesAt f w.files) bytes <;> rfl
  | quiet nothing gains calm =>
      obtain ⟨new, log, removals⟩ := calm.records
      obtain ⟨bound', same⟩ := bound.last gains calm.count calm.handles log
        fun r member h offset bytes work => by
          rw [(removals r member).1] at work
          cases work
      refine ⟨bound', gains, same.trans (congrArg (s.pending w.files ++ ·) ?_)⟩
      rw [nothing]
      refine List.filterMap_eq_nil_iff.2 fun r member => ?_
      unfold Files.depositOf
      rw [(removals r member).1]

/-- What a job writes down comes last, and only a removal writes a removal down. -/
theorem Handled.log (handled : Handled w s job w' s') :
    ∃ new, s'.log.records = s.log.records ++ new ∧
      ∀ r ∈ new, r.payload = .remove → ∃ path, job = .remove path := by
  have one {r : Record FileEffect} (other : r.payload ≠ .remove) :
      ∀ q ∈ [r], q.payload = .remove → ∃ path, job = .remove path := by
    intro q member removal
    rw [List.mem_singleton.1 member] at removal
    exact absurd removal other
  cases handled with
  | @opened path flags fd created files made =>
      cases created with
      | false => exact ⟨[], (List.append_nil _).symm, fun _ member => absurd member List.not_mem_nil⟩
      | true => exact ⟨_, rfl, one FileEffect.noConfusion⟩
  | adopted fd path => exact ⟨_, rfl, one FileEffect.noConfusion⟩
  | wrote allowed => exact ⟨_, rfl, one FileEffect.noConfusion⟩
  | quiet nothing gains calm =>
      obtain ⟨new, log, removals⟩ := calm.records
      exact ⟨new, log, fun r member _ => (removals r member).2⟩

end Bound

end Files

/-- **What is written down after jobs is what they deposited, in call order**, and the world gained empty
files at most. -/
theorem Filing.performAll_pending (jobs : List Filing) {s : Files} {w : World}
    (bound : Files.Bound w.files s) (known : ∀ fd path, .adopt fd path ∈ jobs → w.files.Open fd) :
    let r := performAll jobs s w
    Files.Bound r.2.files r.1 ∧ w.files.Gains r.2.files ∧
      r.1.pending r.2.files = s.pending w.files ++ deposits jobs s w := by
  induction jobs generalizing s w with
  | nil => exact ⟨bound, .refl w.files, (List.append_nil _).symm⟩
  | cons job rest ih =>
      obtain ⟨bound', gains, first⟩ := (job.perform_handled s w).pending bound
        fun fd path same => known fd path (same ▸ List.mem_cons_self)
      obtain ⟨bound'', gains', others⟩ := ih bound'
        fun fd path member => gains.isOpen (known fd path (List.mem_cons_of_mem _ member))
      exact ⟨bound'', gains.trans gains',
        others.trans ((congrArg (· ++ _) first).trans (List.append_assoc ..))⟩

/-- Jobs that remove nothing write no removal down. -/
theorem Filing.performAll_removals {jobs : List Filing} (keeps : ∀ path, .remove path ∉ jobs)
    {s : Files} {w : World} {r : Record FileEffect}
    (member : r ∈ (performAll jobs s w).1.log.records) (removal : r.payload = .remove) :
    r ∈ s.log.records := by
  induction jobs generalizing s w with
  | nil => exact member
  | cons job rest ih =>
      have before := ih (fun path there => keeps path (List.mem_cons_of_mem _ there)) member
      obtain ⟨new, log, removals⟩ := (job.perform_handled s w).log
      rw [log] at before
      rcases List.mem_append.1 before with old | recent
      · exact old
      · obtain ⟨path, same⟩ := removals r recent removal
        exact absurd (same ▸ List.mem_cons_self) (keeps path)

end Transact
