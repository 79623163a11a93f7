/-
# Transact.Proofs.Fulfilling -- what a commit writes

Apply goes through the log record by record and then puts the adopted descriptors where their handles
are.  If it succeeds, every file holds what its deposits make of what it held (`Files.apply_deposited`),
and a descriptor that was adopted once is at the offset of its handle (`Files.apply_position`).

`FilingCall.run_commit` says this of a transaction that does any work on files but removals, all by
itself, and is answered that it committed.
-/
import Transact.Proofs.Deposits
import Transact.Proofs.Readiness

namespace Transact

set_option autoImplicit false

/-! ## Apply -/

namespace Filesystem

variable {fs fs' : Filesystem}

/-- No file is written when a name goes. -/
theorem deposited_unlink {path : String} (done : fs.unlink path = .ok fs') : Deposited [] fs fs' := by
  obtain ⟨-, directory, name, e, -, -, rfl⟩ := unlink_ok done
  exact ⟨fun _ => rfl, rfl, fun _ => rfl⟩

end Filesystem

namespace Files

variable {handles : Table Nat OpenFile} {r : Record FileEffect} {rs : List (Record FileEffect)}
  {s s' : Files} {w w' : World}

theorem depositOf_of_deposited {deposits : List Deposit} {fs fs' : Filesystem}
    (deposited : Filesystem.Deposited deposits fs fs') (r : Record FileEffect) :
    depositOf handles fs' r = depositOf handles fs r := by
  unfold depositOf
  cases r.payload with
  | create => rfl
  | adopt h => rfl
  | remove => rfl
  | write h offset bytes =>
      have same (f : OpenFile) : fs'.deposit? f.descriptor offset bytes =
          fs.deposit? f.descriptor offset bytes :=
        Filesystem.deposit?_of_still (deposited.still f.descriptor)
      simp only [same]

/-- A record that is performed makes its deposit. -/
theorem applyRecord_deposited (done : applyRecord handles r w = (.ok (), w')) :
    Filesystem.Deposited (depositOf handles w.files r).toList w.files w'.files := by
  unfold applyRecord at done
  unfold depositOf
  cases work : r.payload with
  | create =>
      simp only [work, Prod.mk.injEq, true_and] at done
      exact done ▸ .refl w.files
  | adopt h =>
      simp only [work, Prod.mk.injEq, true_and] at done
      exact done ▸ .refl w.files
  | write h offset bytes =>
      cases found : handles.get? h.number with
      | none => simp [work, found] at done
      | some f =>
          simp only [work, found] at done
          rcases written : w.files.writeAt f.descriptor offset bytes with ⟨_ | _, files⟩ <;>
            rw [written] at done <;> cases done
          simp only [found, Option.bind_some]
          exact Filesystem.deposited_writeAt written
  | remove =>
      simp only [work, unlinkResource] at done
      split at done
      · next path _ =>
        rcases gone : w.files.unlink path with e | files <;> rw [gone] at done <;> cases done
        exact Filesystem.deposited_unlink gone
      · cases done

/-- **A log that is performed makes its deposits**, in its order. -/
theorem applyEach_deposited (done : DeferredLog.applyEach (applyRecord handles) rs w = (.ok (), w')) :
    Filesystem.Deposited (rs.filterMap (depositOf handles w.files)) w.files w'.files := by
  induction rs generalizing w with
  | nil =>
      cases done
      exact .refl _
  | cons r rest ih =>
      simp only [DeferredLog.applyEach] at done
      rcases performed : applyRecord handles r w with ⟨_ | _, w₁⟩ <;> rw [performed] at done
      · cases done
      · have first := applyRecord_deposited performed
        have others := ih done
        have same : rest.filterMap (depositOf handles w₁.files) =
            rest.filterMap (depositOf handles w.files) :=
          List.filterMap_congr fun r _ => depositOf_of_deposited first r
        have both := first.trans others
        rw [same] at both
        rw [List.filterMap_cons]
        cases made : depositOf handles w.files r with
        | none => rwa [made] at both
        | some d => rwa [made] at both

/-- Where nothing is removed every name stays. -/
theorem applyEach_tree (keeps : ∀ r ∈ rs, r.payload ≠ .remove) (w : World) :
    w.files.SameTree (DeferredLog.applyEach (applyRecord handles) rs w).2.files := by
  induction rs generalizing w with
  | nil => exact .refl w.files
  | cons r rest ih =>
      obtain ⟨here, later⟩ := List.forall_mem_cons.1 keeps
      have first : w.files.SameTree (applyRecord handles r w).2.files := by
        unfold applyRecord
        cases work : r.payload with
        | create => exact .refl w.files
        | adopt h => exact .refl w.files
        | remove => exact absurd work here
        | write h offset bytes =>
            simp only
            cases handles.get? h.number with
            | none => exact .refl w.files
            | some f =>
                have written := (w.files.writeAt_written f.descriptor offset bytes).1.tree
                simp only
                rcases made : w.files.writeAt f.descriptor offset bytes with ⟨_ | _, files⟩ <;>
                  rw [made] at written <;> exact written
      simp only [DeferredLog.applyEach]
      rcases done : applyRecord handles r w with ⟨_ | _, w'⟩ <;> rw [done] at first
      · exact first
      · exact first.trans (ih later w')

/-! ### Adopted descriptors -/

/-- Putting descriptors where their handles are writes to no file. -/
theorem settle_deposited (files : List OpenFile) (w : World) :
    Filesystem.Deposited [] w.files (settle files w).2.files := by
  induction files generalizing w with
  | nil => exact .refl w.files
  | cons f rest ih =>
      unfold settle
      split
      · cases sought : w.files.seek f.descriptor f.offset with
        | error e => exact .refl w.files
        | ok fs =>
            unfold Filesystem.seek at sought
            split at sought <;> cases sought
            exact (Filesystem.deposited_setPosition ..).trans
              (ih { w with files := w.files.setPosition f.descriptor f.offset })
      · exact ih w

/-- A descriptor is left at the offset that all its handles have. -/
theorem settle_position {files : List OpenFile} {fd n : Nat}
    (only : ∀ f ∈ files, f.adopted = true → f.descriptor = fd → f.offset = n)
    (known : (w.files.descriptors.get? fd).isSome) (done : (settle files w).1 = .ok ())
    (there : (∃ f ∈ files, f.adopted = true ∧ f.descriptor = fd) ∨ w.files.position fd = n) :
    (settle files w).2.files.position fd = n := by
  induction files generalizing w with
  | nil =>
      rcases there with ⟨f, member, -⟩ | there
      · cases member
      · exact there
  | cons f rest ih =>
      obtain ⟨here, later⟩ := List.forall_mem_cons.1 only
      unfold settle at done ⊢
      cases adopted : f.adopted with
      | false =>
          simp only [adopted, Bool.false_eq_true, if_false] at done ⊢
          refine ih later known done (there.imp_left ?_)
          rintro ⟨g, member, adopted', on⟩
          rcases List.mem_cons.1 member with rfl | member
          · rw [adopted] at adopted'
            cases adopted'
          · exact ⟨g, member, adopted', on⟩
      | true =>
          simp only [adopted, if_true] at done ⊢
          rcases sought : w.files.seek f.descriptor f.offset with e | files <;>
            simp only [sought] at done ⊢
          · cases done
          unfold Filesystem.seek at sought
          split at sought <;> cases sought
          have moved := Filesystem.deposited_setPosition w.files f.descriptor f.offset
          refine ih later ((moved.isSome fd).trans known) done ?_
          by_cases on : f.descriptor = fd
          · subst on
            exact Or.inr ((Filesystem.position_setPosition known _).trans (here adopted rfl))
          · refine there.imp ?_ fun before => ?_
            · rintro ⟨g, member, adopted', on'⟩
              rcases List.mem_cons.1 member with rfl | member
              · exact absurd on' on
              · exact ⟨g, member, adopted', on'⟩
            · rw [← before]
              simp only [Filesystem.position, Filesystem.get?_setPosition_of, if_neg (Ne.symm on)]

/-- **An apply that succeeds makes every deposit**, and where nothing is removed every name stays. -/
theorem apply_deposited (done : (s.apply w).1 = .ok ()) :
    Filesystem.Deposited (s.pending w.files) w.files (s.apply w).2.2.files ∧
      ((∀ r ∈ s.log.records, r.payload ≠ .remove) → w.files.SameTree (s.apply w).2.2.files) := by
  simp only [apply, DeferredLog.applyAll] at done ⊢
  have tree (keeps : ∀ r ∈ s.log.records, r.payload ≠ .remove) : w.files.SameTree
      (DeferredLog.applyEach (applyRecord s.handles) s.log.records w).2.files :=
    applyEach_tree keeps w
  rcases performed : DeferredLog.applyEach (applyRecord s.handles) s.log.records w with
    ⟨_ | _, w₁⟩ <;> simp only [performed] at done tree ⊢
  · cases done
  · have all := (applyEach_deposited performed).trans (settle_deposited s.handles.values w₁)
    rw [List.append_nil] at all
    exact ⟨all, fun keeps => (tree keeps).trans (settle_written s.handles.values w₁).tree⟩

/-- The handles that a descriptor was adopted under. -/
def adopters (s : Files) (fd : Nat) : List OpenFile :=
  s.handles.values.filter fun f => f.adopted && f.descriptor == fd

/-- **A descriptor that was adopted once is left at the offset of its handle.** -/
theorem apply_position (done : (s.apply w).1 = .ok ()) {fd : Nat} {f : OpenFile}
    (known : (w.files.descriptors.get? fd).isSome) (once : s.adopters fd = [f]) :
    (s.apply w).2.2.files.position fd = f.offset := by
  have members (g : OpenFile) : g ∈ s.handles.values ∧ g.adopted = true ∧ g.descriptor = fd ↔
      g = f := by
    rw [← List.mem_singleton (a := g), ← once, adopters, List.mem_filter, Bool.and_eq_true,
      beq_iff_eq]
  simp only [apply, DeferredLog.applyAll] at done ⊢
  rcases performed : DeferredLog.applyEach (applyRecord s.handles) s.log.records w with
    ⟨_ | _, w₁⟩ <;> simp only [performed] at done ⊢
  · cases done
  · have deposited := applyEach_deposited performed
    refine settle_position (fun g member adopted on => ?_) ((deposited.isSome fd).trans known) done
      (Or.inl ⟨f, (members f).2 rfl⟩)
    rw [(members g).1 ⟨member, adopted, on⟩]

/-! ### Adoptions -/

/-- The change of an offset, or a closed handle, is no adoption. -/
theorem adopters_lasting (same : s'.handles.map OpenFile.lasting = s.handles.map OpenFile.lasting)
    (fd : Nat) : (s'.adopters fd).length = (s.adopters fd).length := by
  have through (t : Files) : (t.adopters fd).length =
      (((t.handles.map OpenFile.lasting).values).filter
        fun f => f.adopted && f.descriptor == fd).length := by
    have values : (t.handles.map OpenFile.lasting).values = t.handles.values.map OpenFile.lasting := by
      simp only [Table.values, Table.map, List.map_map, Function.comp_def]
    rw [values, List.filter_map, List.length_map]
    rfl
  rw [through, through, same]

/-- A new handle comes last. -/
theorem Bound.values_set {fs : Filesystem} (bound : Bound fs s) (f : OpenFile) :
    (s.handles.set s.nextHandle f).values = s.handles.values ++ [f] := by
  have absent : s.handles.contains s.nextHandle = false := by
    rw [Table.contains, Option.isSome_eq_false_iff, Option.isNone_iff_eq_none]
    cases found : s.handles.get? s.nextHandle with
    | none => rfl
    | some g => exact absurd (bound.numbered _ g found) (Nat.lt_irrefl _)
  rw [Table.values, Table.entries_set_of_absent absent, List.map_append]
  rfl

/-- Only an adoption adds to who adopted a descriptor. -/
theorem Handled.adopters {job : Filing} (handled : Handled w s job w' s') (bound : Bound w.files s)
    (keeps : ∀ path, job ≠ .remove path) (other : ∀ fd path, job ≠ .adopt fd path) (fd : Nat) :
    s'.removed = s.removed ∧ (s'.adopters fd).length = (s.adopters fd).length := by
  cases handled with
  | opened made =>
      refine ⟨rfl, ?_⟩
      rw [Files.adopters, Files.opened, bound.values_set, List.filter_append, List.length_append]
      rfl
  | adopted fd path => exact absurd rfl (other fd path)
  | wrote allowed => exact ⟨rfl, adopters_lasting (lasting_noting ..) fd⟩
  | quiet nothing gains calm => exact ⟨calm.removed keeps, adopters_lasting calm.handles fd⟩

end Files

namespace Filing

/-- `true` for the adoption of a descriptor. -/
def adopts (fd : Nat) : Filing → Bool
  | .adopt descriptor _ => descriptor == fd
  | _ => false

/-- Where nothing was removed an adoption is never refused. -/
theorem perform_adopters {s : Files} {w : World} (bound : Files.Bound w.files s)
    (removed : s.removed = []) {job : Filing} (keeps : ∀ path, job ≠ .remove path) (fd : Nat) :
    (job.perform s w).2.1.removed = [] ∧ ((job.perform s w).2.1.adopters fd).length =
      (s.adopters fd).length + (if job.adopts fd then 1 else 0) := by
  cases job with
  | remove path => exact absurd rfl (keeps path)
  | plain job =>
      obtain ⟨removed', same⟩ := ((Filing.plain job).perform_handled s w).adopters bound keeps
        (fun _ _ => Filing.noConfusion) fd
      exact ⟨removed'.trans removed, same⟩
  | adopt descriptor path =>
      have clear : s.checkNotRemoved (Files.resource w.files path) = .ok () := by
        simp [Files.checkNotRemoved, removed]
      have done : ((Filing.adopt descriptor path).perform s w).2.1 =
          s.adopting w.versions (Files.resource w.files path) descriptor
            (w.files.position descriptor) := by
        simp only [perform, Files.adopt, clear]
        rfl
      rw [done]
      refine ⟨removed, ?_⟩
      rw [Files.adopters, Files.adopting, bound.values_set, List.filter_append, List.length_append]
      cases same : descriptor == fd with
      | true => simp [adopts, same, Files.adopters]
      | false => simp [adopts, same, Files.adopters]

/-- Each descriptor has as many handles as it was adopted times. -/
theorem performAll_adopters {jobs : List Filing} {s : Files} {w : World}
    (bound : Files.Bound w.files s) (removed : s.removed = [])
    (known : ∀ fd path, .adopt fd path ∈ jobs → w.files.Open fd)
    (keeps : ∀ path, .remove path ∉ jobs) (fd : Nat) :
    ((performAll jobs s w).1.adopters fd).length =
      (s.adopters fd).length + jobs.countP (adopts fd) := by
  induction jobs generalizing s w with
  | nil => rfl
  | cons job rest ih =>
      obtain ⟨removed', first⟩ := perform_adopters bound removed
        (fun path same => keeps path (same ▸ List.mem_cons_self)) fd
      obtain ⟨bound', gains, -⟩ := (job.perform_handled s w).pending bound
        fun fd path same => known fd path (same ▸ List.mem_cons_self)
      have others := ih bound' removed'
        (fun fd path member => gains.isOpen (known fd path (List.mem_cons_of_mem _ member)))
        fun path member => keeps path (List.mem_cons_of_mem _ member)
      refine others.trans ?_
      rw [first, List.countP_cons]
      omega

/-- Jobs take no lock, neither in the world nor for themselves. -/
theorem performAll_locks (jobs : List Filing) (s : Files) (w : World) :
    (performAll jobs s w).2.locks = w.locks ∧ (performAll jobs s w).1.held = s.held := by
  induction jobs generalizing s w with
  | nil => exact ⟨rfl, rfl⟩
  | cons job rest ih =>
      obtain ⟨locks, held⟩ := ih (job.perform s w).2.1 (job.perform s w).2.2
      exact ⟨locks.trans (job.perform_locks s w), held.trans (job.perform_held s w)⟩

end Filing

/-! ## A transaction by itself -/

namespace FilingCall

/-- Jobs of a transaction are done on its files. -/
theorem performAll_work (jobs : List Filing) {t : Transaction Builtin} {s : Files}
    (working : t.Working s) (w : World) :
    ∃ answers t', performAll (jobs.map .work) t w = (answers, t', (Filing.performAll jobs s w).2) ∧
      t'.Working (Filing.performAll jobs s w).1 := by
  induction jobs generalizing t s w with
  | nil => exact ⟨[], t, rfl, working⟩
  | cons job rest ih =>
      obtain ⟨t₁, done, working₁⟩ := working.through (fun s w => job.perform s w) w
      obtain ⟨answers, t', others, working'⟩ := ih working₁ (job.perform s w).2.2
      refine ⟨.worked (job.perform s w).1 :: answers, t', ?_, working'⟩
      have first : FilingCall.perform t w (.work job) =
          (.worked (job.perform s w).1, t₁, (job.perform s w).2.2) := by
        simp only [perform, done]
      unfold performAll at others ⊢
      simp only [List.map_cons, callAll, first, others]
      rfl

/-- **A commit that is answered as such applied the files.** -/
theorem performAll_commit (config : TxId → Config) (who : TxId) (jobs : List Filing) {w : World}
    (free : w.locks.Free)
    (committed : (performAll (jobs.map .work ++ [.commit]) (newTransaction config who) w).1.getLast? =
      some (.ended (.ok .committed))) :
    ∃ held locks,
      let s : Files := { (Filing.performAll jobs {} w).1 with held }
      let now : World := { (Filing.performAll jobs {} w).2 with locks }
      (s.apply now).1 = .ok () ∧
        (performAll (jobs.map .work ++ [.commit]) (newTransaction config who) w).2.2.files =
          (s.apply now).2.2.files := by
  obtain ⟨answers, t, worked, working⟩ := performAll_work jobs (.start config who) w
  obtain ⟨locks', held'⟩ := Filing.performAll_locks jobs {} w
  obtain ⟨held, locks, -, ended⟩ := working.commits held' (locks' ▸ free)
  rw [performAll_snoc] at committed ⊢
  simp only [worked, perform, ended, List.getLast?_concat, Option.some.injEq,
    FileAnswer.ended.injEq] at committed ⊢
  refine ⟨held, locks, ?_⟩
  cases valid : (Filing.performAll jobs {} w).1.access.validate
      (Filing.performAll jobs {} w).2.versions with
  | false => simp [valid, Transaction.abandonedAs] at committed
  | true =>
      simp only [valid, if_true, Except.ok.injEq] at committed ⊢
      refine ⟨?_, trivial⟩
      revert committed
      rcases (Files.apply _ _).1 with e | _
      · exact fun same => by cases same
      · exact fun _ => rfl

/-- **A commit makes every deposit.** -/
theorem commit_deposited (config : TxId → Config) (who : TxId) {jobs : List Filing} {w : World}
    (free : w.locks.Free) (known : ∀ fd path, .adopt fd path ∈ jobs → w.files.Open fd)
    (committed : (performAll (jobs.map .work ++ [.commit]) (newTransaction config who) w).1.getLast? =
      some (.ended (.ok .committed))) :
    Filesystem.Deposited (Filing.deposits jobs {} w) (Filing.performAll jobs {} w).2.files
      (performAll (jobs.map .work ++ [.commit]) (newTransaction config who) w).2.2.files := by
  obtain ⟨held, locks, applied, same⟩ := performAll_commit config who jobs free committed
  obtain ⟨-, -, pending⟩ := Filing.performAll_pending jobs (Files.Bound.fresh w.files) known
  have all : ({ (Filing.performAll jobs {} w).1 with held } : Files).pending
      (Filing.performAll jobs {} w).2.files = Filing.deposits jobs {} w := pending
  rw [same, ← all]
  exact (Files.apply_deposited applied).1

/-- **What a commit writes.**  A transaction by itself opens, creates and adopts files, reads, writes,
appends, seeks and closes in any order, and is answered that it committed.  Then every file holds what
its deposits, in call order, make of what it held before, or of nothing if it was created; where none of
them went through a descriptor that appends, each was made at the place it was accepted at.  No name
changed but those of created files, and a descriptor that was adopted once is at the offset of its
handle. -/
theorem run_commit (config : TxId → Config) (who : TxId) (jobs : List Filing) {w : World}
    (free : w.locks.Free) (known : ∀ fd path, .adopt fd path ∈ jobs → w.files.Open fd)
    (keeps : ∀ path, .remove path ∉ jobs) :
    let r := performAll (jobs.map .work ++ [.commit]) (newTransaction config who) w
    let after := r.2.2.files
    let deposits := Filing.deposits jobs {} w
    let before (inode : Inode) : Bytes :=
      if inode < w.files.nextInode then (w.files.content inode).toBytes else []
    r.1.getLast? = some (.ended (.ok .committed)) →
      (∀ inode, inode < after.nextInode →
        (after.content inode).toBytes = Deposit.upon deposits inode (before inode) ∧
          ((∀ d ∈ deposits, d.inode = inode → d.appends = false) →
            (after.content inode).toBytes =
              (Deposit.writes deposits inode).foldl Content.perform (before inode))) ∧
      (∀ at_ e, w.files.entry? at_ = some e → after.entry? at_ = some e) ∧
      (∀ at_ e, after.entry? at_ = some e → w.files.entry? at_ = some e ∨
        ∃ inode, e = .file inode ∧ w.files.nextInode ≤ inode ∧ inode < after.nextInode) ∧
      ∀ fd, jobs.countP (Filing.adopts fd) = 1 →
        ∃ f, (Filing.performAll jobs {} w).1.adopters fd = [f] ∧ after.position fd = f.offset := by
  intro r after deposits before committed
  obtain ⟨held, locks, applied, same⟩ := performAll_commit config who jobs free committed
  have same : after = _ := same
  obtain ⟨-, gains, -⟩ := Filing.performAll_pending jobs (Files.Bound.fresh w.files) known
  have made := commit_deposited config who free known committed
  have tree := (Files.apply_deposited applied).2 fun q member removal =>
    absurd (Filing.performAll_removals keeps member removal) List.not_mem_nil
  rw [← same] at tree
  have count : after.nextInode = (Filing.performAll jobs {} w).2.files.nextInode := made.count
  refine ⟨fun inode within => ?_, fun at_ e stood => ?_, fun at_ e stands => ?_,
    fun fd once => ?_⟩
  · have start : ((Filing.performAll jobs {} w).2.files.content inode).toBytes = before inode := by
      show _ = if _ then _ else _
      split
      · next old => rw [gains.contents inode old]
      · next new => rw [gains.empty inode (Nat.not_lt.1 new) (count ▸ within), Content.toBytes_empty]
    have all : (after.content inode).toBytes = Deposit.upon deposits inode (before inode) := by
      rw [← start]
      exact made.contents inode
    exact ⟨all, fun plain => all.trans (Deposit.upon_plain plain _)⟩
  · exact (tree.entry? at_).trans (gains.stands at_ e stood)
  · rw [count]
    exact gains.new at_ e ((tree.entry? at_).symm.trans stands)
  · have length := Filing.performAll_adopters (Files.Bound.fresh w.files) rfl known keeps fd
    rw [once] at length
    obtain ⟨f, only⟩ := List.length_eq_one_iff.1 length
    refine ⟨f, only, ?_⟩
    obtain ⟨job, member, adopts⟩ := List.countP_pos_iff.1 (Nat.lt_of_lt_of_eq Nat.zero_lt_one once.symm)
    have is : w.files.Open fd := by
      cases job with
      | adopt descriptor path =>
          obtain rfl : descriptor = fd := beq_iff_eq.1 adopts
          exact known descriptor path member
      | plain job => cases adopts
      | remove path => cases adopts
    rw [same]
    exact Files.apply_position applied (gains.isOpen is).known only

/-- A transaction works on a descriptor from outside, on `/f`, and creates a file that it closes before
the end, after a write that leaves a hole. -/
def throughTwo : List Filing :=
  [.adopt 0 "/f", .plain (.openPath "/new" { write := true, create := true }),
    .plain (.read ⟨0⟩ 2), .plain (.seek ⟨1⟩ (.start 2)), .plain (.write ⟨1⟩ [7]),
    .plain (.write ⟨0⟩ [9]), .plain (.close ⟨1⟩)]

/-- Both files are written, the hole is filled with zeros, and the descriptor is behind the write. -/
theorem run_commit_throughTwo :
    let r := performAll (throughTwo.map .work ++ [.commit])
      (newTransaction (fun _ => {}) ⟨1, "first"⟩) Session.oneDescriptor
    r.1.getLast? = some (.ended (.ok .committed)) ∧
      (r.2.2.files.content 0).toBytes = [1, 2, 9, 4, 5, 6] ∧
      (r.2.2.files.content 1).toBytes = [0, 0, 7] ∧ r.2.2.files.position 0 = 3 := by
  intro r
  have known : ∀ fd path, .adopt fd path ∈ throughTwo → Session.oneDescriptor.files.Open fd := by
    intro fd path member
    obtain ⟨rfl, -⟩ : fd = 0 ∧ path = "/f" := by simpa [throughTwo] using member
    exact ⟨by decide, by decide⟩
  have keeps : ∀ path, .remove path ∉ throughTwo := by simp [throughTwo]
  have committed : r.1.getLast? = some (.ended (.ok .committed)) := by rfl
  obtain ⟨contents, -, -, positions⟩ :=
    run_commit (fun _ => {}) ⟨1, "first"⟩ throughTwo (fun _ => rfl) known keeps committed
  obtain ⟨f, only, position⟩ := positions 0 (by decide)
  have offset : (Filing.performAll throughTwo {} Session.oneDescriptor).1.adopters 0 =
      [{ id := .path "/f", descriptor := 0, offset := 3, flags := { read := true, write := true },
         adopted := true }] := by
    decide +kernel
  rw [offset, List.singleton_inj] at only
  refine ⟨committed, ((contents 0 (by decide +kernel)).2 (by decide +kernel)).trans (by decide +kernel),
    ((contents 1 (by decide +kernel)).2 (by decide +kernel)).trans (by decide +kernel), ?_⟩
  rw [← only] at position
  exact position

/-- A descriptor that appends takes the write that was accepted at the beginning to the end. -/
example :
    let appending : World :=
      { Session.oneDescriptor with
        files := { Session.oneDescriptor.files with
          descriptors := ⟨[(0, { inode := some 0, readable := true, writable := true,
                                 appends := true })]⟩ } }
    let jobs : List Filing := [.adopt 0 "/f", .plain (.write ⟨0⟩ [9])]
    let r := performAll (jobs.map .work ++ [.commit]) (newTransaction (fun _ => {}) ⟨1, "first"⟩)
      appending
    Filing.deposits jobs {} appending = [{ inode := 0, offset := 0, bytes := [9], appends := true }] ∧
      r.2.1.outcome = some .committed ∧
      (r.2.2.files.content 0).toBytes = [1, 2, 3, 4, 5, 6, 9] := by
  decide +kernel

end FilingCall

end Transact
