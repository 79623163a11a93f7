/-
# Transact.Proofs.Serializable -- interleaved work on files is work in commit order

While a transaction is at work, the others change a file only by counting up the version of every
resource it goes by (`Shift`).  So as long as the versions it noted are in force, the files it has
open hold what they held when it opened them, and the work it did so far can be done over in any
world that agrees on those files: the answers are the same, and so is the face of its files
(`AtWork.replays`).

A commit that gets to the apply phase finds its versions in force.  At that moment the world is the
one that the earlier commits leave behind when they run one after another, and there the whole
transaction can be run over, with its commit.  `Serial` is that invariant, `Serial.step` its step, and
`run_serializable` what a whole schedule comes to.
-/
import Transact.Proofs.FileEnding

namespace Transact

set_option autoImplicit false

open Files (Tidy Alike)

/-! ## What others do -/

/-- The paths lead to files, and two that lead to one file are one resource. -/
structure Ground (opened : String → Prop) (fs : Filesystem) : Prop where
  existing : ∀ path, opened path → (fs.fileAt? path).isSome
  oneResource : ∀ path other, opened path → opened other →
    fs.fileAt? path = fs.fileAt? other →
      (Files.resource fs path).key = (Files.resource fs other).key

theorem Ground.sameTree {opened : String → Prop} {fs fs' : Filesystem} (ground : Ground opened fs)
    (same : fs.SameTree fs') : Ground opened fs' where
  existing path asked := by
    rw [same.fileAt?]
    exact ground.existing path asked
  oneResource path other asked askedToo leads := by
    rw [same.fileAt?, same.fileAt?] at leads
    rw [same.resource, same.resource]
    exact ground.oneResource path other asked askedToo leads

/-- From `w` to `w'` versions went up, and a file changed only where they did. -/
structure Shift (opened : String → Prop) (w w' : World) : Prop where
  onward : w.files.Onward w'.files
  later : ∀ id, w.versions.current id ≤ w'.versions.current id
  fresh : ∀ inode, w'.files.content inode = w.files.content inode ∨
    ∀ path, opened path → w.files.fileAt? path = some inode →
      w.versions.current (Files.resource w.files path) <
        w'.versions.current (Files.resource w.files path)

variable {opened : String → Prop} {s s' : Files} {w w' : World} {t t' : Transaction Builtin}

theorem Files.Progress.shift (progress : Files.Progress opened s w s' w') : Shift opened w w' where
  onward := progress.files.toOnward
  later id := Nat.le_of_eq (by rw [progress.versions])
  fresh inode := Or.inl (progress.files.content inode)

theorem Shift.locks (w : World) (locks : LockTable) : Shift opened w { w with locks } where
  onward := .refl _
  later _ := Nat.le_refl _
  fresh _ := Or.inl rfl

/-- What the apply phase writes it publishes under every name. -/
theorem Shift.applied (ground : Ground opened w.files) (tidy : Tidy opened w.files s)
    (locks : LockTable) :
    Shift opened w
      { w with
        locks
        files := (s.applied w.files).2
        versions := s.access.publish w.versions } where
  onward := (Files.applied_changes tidy).1
  later id := by
    simp only [AccessSet.current_publish tidy.access]
    exact Nat.le_add_right ..
  fresh inode := by
    refine ((Files.applied_changes tidy).2 inode).imp_right ?_
    intro writes path asked leads
    obtain ⟨n, f, found, behind, written⟩ := writes
    obtain ⟨target, on⟩ := tidy.openOn found
    obtain ⟨name, askedToo, leadsToo, id⟩ := on.named
    have one : target = inode := Option.some.inj (on.inode?.symm.trans behind)
    have same : (Files.resource w.files path).key = f.id.key := by
      rw [id]
      exact ground.oneResource path name asked askedToo (by rw [leads, leadsToo, one])
    have changed : s.access.isWritten (Files.resource w.files path) = true := by
      rw [AccessSet.isWritten, Table.contains_iff, same]
      exact written
    simp only [AccessSet.current_publish tidy.access, changed, if_true]
    exact Nat.lt_succ_self _

/-- `v` can stand in for `w`: no name and no file differs, and no lock is taken. -/
structure Stands (v w : World) : Prop where
  tree : w.files.SameTree v.files
  free : v.locks.Free
  contents : ∀ inode, v.files.content inode = w.files.content inode

/-- It still can after something that changed no file. -/
theorem Stands.unchanged {v : World} (stands : Stands v w) (tree : w.files.SameTree w'.files)
    (contents : ∀ inode, w'.files.content inode = w.files.content inode) : Stands v w' where
  tree := tree.symm.trans stands.tree
  free := stands.free
  contents inode := (stands.contents inode).trans (contents inode).symm

/-! ## Work that can be done over -/

/-- The calls, made in the world `v`, come to the same answers and to files with the same face. -/
structure Rerun (opened : String → Prop) (fresh : Transaction Builtin) (calls : List FileCall)
    (answers : List FileAnswer) (face : Files.Face) (v : World) (t : Transaction Builtin) (s : Files)
    (v' : World) : Prop where
  ran : FileCall.performAll calls fresh v = (answers, t, v')
  working : t.Working s
  tidy : Tidy opened v'.files s
  face : s.face v'.files = face
  files : v.files.Moved v'.files
  versions : v'.versions = v.versions
  locks : v'.locks = v.locks
  valid : s.access.validate v'.versions = true

/-- A transaction at work: `calls` were answered with `answers` so far. -/
structure AtWork (opened : String → Prop) (fresh : Transaction Builtin) (calls : List FileCall)
    (answers : List FileAnswer) (t : Transaction Builtin) (s : Files) (w : World) : Prop where
  working : t.Working s
  tidy : Tidy opened w.files s
  past : ∀ id seen, s.access.snapshot id = some seen → seen ≤ w.versions.current id
  replays : s.access.validate w.versions = true → ∀ v : World, w.files.SameTree v.files →
    (∀ inode, s.Holds w.files inode → v.files.content inode = w.files.content inode) →
      ∃ t' s' v', Rerun opened fresh calls answers (s.face w.files) v t' s' v'

namespace AtWork

variable {fresh : Transaction Builtin} {calls : List FileCall} {answers : List FileAnswer}

theorem start (config : TxId → Config) (who : TxId) (w : World) :
    AtWork opened (newTransaction config who) [] [] (newTransaction config who) {} w where
  working := .start config who
  tidy := .fresh opened w.files
  past _ _ noted := by cases noted
  replays _ v _ _ :=
    ⟨_, {}, v, rfl, .start config who, .fresh opened v.files, rfl, .refl _, rfl, rfl, rfl⟩

/-- What others do does not touch what a transaction did, as long as its versions are in force. -/
theorem meanwhile (atWork : AtWork opened fresh calls answers t s w) (shift : Shift opened w w') :
    AtWork opened fresh calls answers t s w' where
  working := atWork.working
  tidy := atWork.tidy.onward shift.onward
  past id seen noted := Nat.le_trans (atWork.past id seen noted) (shift.later id)
  replays valid v tree agree := by
    have access := atWork.tidy.access
    have still : ∀ id seen, s.access.snapshot id = some seen →
        w.versions.current id = seen ∧ w'.versions.current id = seen := by
      intro id seen noted
      have now := (AccessSet.validate_iff access _).1 valid id seen noted
      have before := atWork.past id seen noted
      have later := shift.later id
      exact ⟨by omega, now⟩
    have validBefore : s.access.validate w.versions = true :=
      (AccessSet.validate_iff access _).2 fun id seen noted => (still id seen noted).1
    have agreeBefore : ∀ inode, s.Holds w.files inode →
        v.files.content inode = w.files.content inode := by
      intro inode holds
      rw [agree inode (atWork.tidy.holds_onward shift.onward holds)]
      refine (shift.fresh inode).resolve_right ?_
      intro counted
      obtain ⟨n, f, found, behind⟩ := holds
      obtain ⟨target, on⟩ := atWork.tidy.openOn found
      obtain ⟨path, asked, leads, id⟩ := on.named
      have one : target = inode := Option.some.inj (on.inode?.symm.trans behind)
      have less := counted path asked (one ▸ leads)
      obtain ⟨seen, noted⟩ :=
        AccessSet.exists_snapshot (atWork.tidy.noted _ (Table.mem_of_get? found))
      obtain ⟨before, now⟩ := still f.id seen noted
      rw [← id] at less
      omega
    obtain ⟨t', s', v', rerun⟩ :=
      atWork.replays validBefore v (shift.onward.tree.trans tree) agreeBefore
    exact ⟨t', s', v', (atWork.tidy.face_onward shift.onward) ▸ rerun⟩

/-- A piece of its own work. -/
theorem work (ground : Ground opened w.files) (atWork : AtWork opened fresh calls answers t s w)
    {job : FileWork} (asked : ∀ path flags, job = .openPath path flags → opened path)
    (working : t'.Working (job.perform s w).2.1) :
    AtWork opened fresh (calls ++ [.work job]) (answers ++ [.worked (job.perform s w).1]) t'
      (job.perform s w).2.1 (job.perform s w).2.2 := by
  have progress := Files.perform_progress atWork.tidy asked ground.existing
  refine ⟨working, progress.tidy, ?_, ?_⟩
  · intro id seen noted
    rw [progress.versions]
    rcases progress.noted id seen noted with before | now
    · exact atWork.past id seen before
    · exact Nat.le_of_eq now.symm
  · intro valid v tree agree
    have validBefore : s.access.validate w.versions = true := by
      refine (AccessSet.validate_iff atWork.tidy.access _).2 ?_
      intro id seen noted
      rw [← progress.versions]
      exact (AccessSet.validate_iff progress.tidy.access _).1 valid id seen
        (progress.kept id seen noted)
    obtain ⟨t₁, s₁, v₁, rerun⟩ := atWork.replays validBefore v
      (progress.files.tree.trans tree) fun inode holds => by
        rw [agree inode (progress.holds inode holds), progress.files.content]
    have alike : Alike opened s w s₁ v₁ :=
      { tidy := atWork.tidy
        tidy' := rerun.tidy
        tree := (progress.files.tree.trans tree).trans rerun.files.tree
        face := rerun.face.symm
        agree := by
          intro inode holds
          rw [rerun.files.content, agree inode (progress.holds inode holds),
            progress.files.content] }
    obtain ⟨answer, face⟩ := Files.perform_alike alike asked ground.existing
    have progress' := Files.perform_progress rerun.tidy asked (ground.sameTree alike.tree).existing
    obtain ⟨t₂, ran, working₂⟩ := rerun.working.work job v₁
    refine ⟨t₂, _, _, ?_, working₂, progress'.tidy, face.symm,
      rerun.files.trans progress'.files, progress'.versions.trans rerun.versions,
      progress'.locks.trans rerun.locks, ?_⟩
    · rw [FileCall.performAll_snoc]
      simp only [rerun.ran, ran, answer]
    · refine (AccessSet.validate_iff progress'.tidy.access _).2 ?_
      intro id seen noted
      rw [progress'.versions]
      rcases progress'.noted id seen noted with before | now
      · exact (AccessSet.validate_iff rerun.tidy.access _).1 rerun.valid id seen before
      · exact now

/-- **The commit can be done over** in a world that stands in for this one: the answer is the same,
and the world it leaves behind stands in for the one that is left behind here. -/
theorem commit (ground : Ground opened w.files) (atWork : AtWork opened fresh calls answers t s w)
    (free : w.locks.Free) (valid : s.access.validate w.versions = true) {v : World}
    (stands : Stands v w) :
    ∃ outcome w',
      t.commit w =
        (.ok outcome, t.ended [.locked, .validating, .applying, .finishing, .released] outcome,
          w') ∧
      Shift opened w w' ∧ w'.locks.Free ∧
      ∃ last v', FileCall.performAll (calls ++ [.commit]) fresh v =
          (answers ++ [.ended (.ok outcome)], last, v') ∧
        Stands v' w' := by
  obtain ⟨t', s', v', rerun⟩ :=
    atWork.replays valid v stands.tree fun inode _ => stands.contents inode
  obtain ⟨locks, unlocked, committed⟩ := atWork.working.commit atWork.tidy free
  obtain ⟨locks', unlocked', committed'⟩ :=
    rerun.working.commit rerun.tidy (rerun.locks ▸ stands.free)
  rw [if_pos valid] at committed
  rw [if_pos rerun.valid] at committed'
  obtain ⟨result, after⟩ := Files.applied_alike atWork.tidy rerun.tidy rerun.face.symm
    fun inode => (rerun.files.content inode).trans (stands.contents inode)
  have ran := FileCall.performAll_snoc calls .commit fresh v
  simp only [rerun.ran, FileCall.perform, committed', ← result] at ran
  have tree := ((Files.applied_changes atWork.tidy).1.tree.symm.trans
    (stands.tree.trans rerun.files.tree)).trans (Files.applied_changes rerun.tidy).1.tree
  exact ⟨_, _, committed, .applied ground atWork.tidy locks, unlocked, _, _, ran,
    ⟨tree, unlocked', after⟩⟩

end AtWork

/-! ## One after another -/

section Serially

variable {config : TxId → Config} {calls : TxId → List FileCall}

theorem serially_eq (order : List TxId) (w : World) :
    serially config calls order w =
      inTurn (fun who w => let r := FileCall.performAll (calls who) (newTransaction config who) w
        (r.1, r.2.2)) order w := by
  induction order generalizing w with
  | nil => rfl
  | cons first rest ih => simp only [serially, inTurn, ih]

theorem serially_snoc (order : List TxId) (who : TxId) (w : World) :
    serially config calls (order ++ [who]) w =
      let r := serially config calls order w
      let last := FileCall.performAll (calls who) (newTransaction config who) r.2
      (r.1 ++ [last.1], last.2.2) := by
  simp only [serially_eq, inTurn_snoc]

end Serially

/-! ## The invariant -/

/-- After the calls `past` the session `s` is where the transactions that got to apply, run one after
another from `w₀`, would have left the files, and they were answered as they would be there. -/
structure Serial (config : TxId → Config) (opened : String → Prop) (w₀ : World)
    (past : List (TxId × FileCall)) (s : Session) : Prop where
  ground : Ground opened s.world.files
  free : s.world.locks.Free
  order : ∃ v, serially config (fun who => entriesOf who past) s.applied w₀ =
      (s.applied.map fun who => entriesOf who s.answers, v) ∧
    Stands v s.world
  once : s.applied.Nodup
  counted : ∀ who, who ∈ s.applied ↔ .applying ∈ (s.transactions who).visited
  each : ∀ who,
    (∃ files, AtWork opened (newTransaction config who) (entriesOf who past)
        (entriesOf who s.answers) (s.transactions who) files s.world) ∨
      (s.transactions who).phase = .released ∧ (entriesOf who past).any FileCall.ends

namespace Serial

variable {config : TxId → Config} {w₀ : World} {past : List (TxId × FileCall)} {f : Session}
  {who : TxId} {call : FileCall} {answer : FileAnswer}

/-- Who got to apply is released. -/
theorem released (serial : Serial config opened w₀ past f) (member : who ∈ f.applied) :
    (f.transactions who).phase = .released ∧ (entriesOf who past).any FileCall.ends := by
  refine (serial.each who).resolve_left ?_
  rintro ⟨files, atWork⟩
  have applying := (serial.counted who).1 member
  rw [atWork.working.unseen] at applying
  cases applying

/-- What the others are after a step. -/
theorem others (serial : Serial config opened w₀ past f) (shift : Shift opened f.world w')
    {other : TxId} (ne : other ≠ who) (call : FileCall) (answer : FileAnswer) :
    (∃ files, AtWork opened (newTransaction config other)
        (entriesOf other (past ++ [(who, call)])) (entriesOf other (f.answers ++ [(who, answer)]))
        (f.transactions other) files w') ∨
      (f.transactions other).phase = .released ∧
        (entriesOf other (past ++ [(who, call)])).any FileCall.ends := by
  rw [entriesOf_other ne, entriesOf_other ne]
  exact (serial.each other).imp_left fun ⟨files, atWork⟩ => ⟨files, atWork.meanwhile shift⟩

/-- Who got to apply is refused everything since, so one more call adds a refusal at most to the
run one after another. -/
theorem refused (serial : Serial config opened w₀ past f)
    (made : call.perform (f.transactions who) f.world = (answer, t, w')) {v : World}
    (ran : serially config (fun other => entriesOf other past) f.applied w₀ =
      (f.applied.map fun other => entriesOf other f.answers, v)) :
    serially config (fun other => entriesOf other (past ++ [(who, call)])) f.applied w₀ =
      (f.applied.map fun other => entriesOf other (f.answers ++ [(who, answer)]), v) := by
  simp only [serially_eq, FileCall.performAll_eq] at ran ⊢
  refine inTurn_refused (fun call t w released => FileCall.perform_released released call w)
    (fun member => ?_) ran
  obtain ⟨gone, ended⟩ := serial.released member
  refine ⟨congrArg Prod.fst (made.symm.trans (FileCall.perform_released gone call f.world)),
    fun w => ?_⟩
  have phase := FileCall.performAll_phase (entriesOf who past) (t := newTransaction config who) rfl w
  rw [ended, if_pos rfl, FileCall.performAll_eq] at phase
  exact phase

/-- What a call does to the others and to itself, put together. -/
theorem next (serial : Serial config opened w₀ past f)
    (shift : Shift opened f.world w') (free : w'.locks.Free)
    (own : (∃ files, AtWork opened (newTransaction config who) (entriesOf who past ++ [call])
        (entriesOf who f.answers ++ [answer]) t files w') ∨
      t.phase = .released ∧ (entriesOf who past ++ [call]).any FileCall.ends)
    {applied : List TxId} (order : ∃ v,
      serially config (fun other => entriesOf other (past ++ [(who, call)])) applied w₀ =
          (applied.map fun other => entriesOf other (f.answers ++ [(who, answer)]), v) ∧
        Stands v w')
    (once : applied.Nodup) (counted : who ∈ applied ↔ .applying ∈ t.visited)
    (others : ∀ other, other ≠ who → (other ∈ applied ↔ other ∈ f.applied)) :
    Serial config opened w₀ (past ++ [(who, call)])
      { world := w'
        transactions := fun other => if other = who then t else f.transactions other
        applied
        answers := f.answers ++ [(who, answer)] } := by
  refine ⟨serial.ground.sameTree shift.onward.tree, free, order, once, ?_, ?_⟩
  · intro other
    by_cases here : other = who
    · subst here
      simp only [if_true]
      exact counted
    · simp only [here, if_false]
      exact (others other here).trans (serial.counted other)
  · intro other
    by_cases here : other = who
    · subst here
      simp only [if_true, entriesOf_self]
      exact own
    · simp only [here, if_false]
      exact serial.others shift here call answer

/-- A call after which the same transactions got to apply. -/
theorem quiet (serial : Serial config opened w₀ past f)
    (made : call.perform (f.transactions who) f.world = (answer, t, w'))
    (shift : Shift opened f.world w') (free : w'.locks.Free)
    (contents : ∀ inode, w'.files.content inode = f.world.files.content inode)
    (visited : .applying ∈ t.visited ↔ .applying ∈ (f.transactions who).visited)
    (own : (∃ files, AtWork opened (newTransaction config who) (entriesOf who past ++ [call])
        (entriesOf who f.answers ++ [answer]) t files w') ∨
      t.phase = .released ∧ (entriesOf who past ++ [call]).any FileCall.ends) :
    Serial config opened w₀ (past ++ [(who, call)]) (f.step (who, call)) := by
  have same : ¬(.applying ∈ t.visited ∧ .applying ∉ (f.transactions who).visited) :=
    fun both => both.2 (visited.1 both.1)
  obtain ⟨v, ran, stands⟩ := serial.order
  have order := serial.refused made ran
  simp only [Session.step, made, same, if_false]
  exact serial.next shift free own
    ⟨v, order, stands.unchanged shift.onward.tree contents⟩ serial.once
    ((serial.counted who).trans visited.symm) fun _ _ => Iff.rfl

/-- A commit that gets to apply. -/
theorem commits (serial : Serial config opened w₀ past f) {files : Files}
    (atWork : AtWork opened (newTransaction config who) (entriesOf who past)
      (entriesOf who f.answers) (f.transactions who) files f.world)
    (valid : files.access.validate f.world.versions = true) :
    Serial config opened w₀ (past ++ [(who, .commit)]) (f.step (who, .commit)) := by
  obtain ⟨v, ran, stands⟩ := serial.order
  obtain ⟨outcome, w', committed, shift, free, last, v', again, standsAfter⟩ :=
    atWork.commit serial.ground serial.free valid stands
  have made : FileCall.commit.perform (f.transactions who) f.world =
      (.ended (.ok outcome),
        (f.transactions who).ended [.locked, .validating, .applying, .finishing, .released] outcome,
        w') := by
    simp only [FileCall.perform, committed]
  have unseen : .applying ∉ (f.transactions who).visited := by
    rw [atWork.working.unseen]
    exact List.not_mem_nil
  have new : who ∉ f.applied := fun member => unseen ((serial.counted who).1 member)
  have visited : .applying ∈ ((f.transactions who).ended
      [.locked, .validating, .applying, .finishing, .released] outcome).visited := by
    simp only [Transaction.ended, atWork.working.unseen, List.nil_append]
    decide
  have order : serially config (fun other => entriesOf other (past ++ [(who, .commit)]))
      (f.applied ++ [who]) w₀ =
        ((f.applied ++ [who]).map fun other =>
          entriesOf other (f.answers ++ [(who, .ended (.ok outcome))]), v') := by
    simp only [serially_snoc, serial.refused made ran, entriesOf_self, again, List.map_append,
      List.map_cons, List.map_nil]
  have once : (f.applied ++ [who]).Nodup := by
    refine List.nodup_append.2 ⟨serial.once, List.pairwise_singleton _ _, ?_⟩
    rintro other member last there rfl
    exact new (List.mem_singleton.1 there ▸ member)
  simp only [Session.step, made, visited, unseen, not_false_eq_true, and_self, if_true]
  refine serial.next shift free (Or.inr ⟨rfl, ?_⟩) ⟨v', order, standsAfter⟩ once ?_ ?_
  · simp [FileCall.ends]
  · simp only [visited, List.mem_append, List.mem_singleton, or_true]
  · intro other ne
    simp only [List.mem_append, List.mem_singleton, ne, or_false]

/-- An end at which nothing is applied. -/
theorem gives_up (serial : Serial config opened w₀ past f) {files : Files}
    (atWork : AtWork opened (newTransaction config who) (entriesOf who past)
      (entriesOf who f.answers) (f.transactions who) files f.world)
    (ends : call.ends = true) {locks : LockTable} (free : locks.Free) (visited : List Phase)
    (without : .applying ∉ visited) (outcome : Outcome)
    (made : call.perform (f.transactions who) f.world =
      (answer, (f.transactions who).ended visited outcome, { f.world with locks })) :
    Serial config opened w₀ (past ++ [(who, call)]) (f.step (who, call)) := by
  refine serial.quiet made (.locks f.world locks) free (fun _ => rfl) ?_ (Or.inr ⟨rfl, ?_⟩)
  · simp only [Transaction.ended, atWork.working.unseen, List.nil_append, without]
    simp
  · simp [ends]

/-- **Every call keeps to the serial order.** -/
theorem step (serial : Serial config opened w₀ past f) (entry : TxId × FileCall)
    (asked : ∀ path flags, entry.2 = .work (.openPath path flags) → opened path) :
    Serial config opened w₀ (past ++ [entry]) (f.step entry) := by
  obtain ⟨who, call⟩ := entry
  rcases serial.each who with ⟨files, atWork⟩ | ⟨gone, ended⟩
  · cases call with
    | work job =>
        have named : ∀ path flags, job = .openPath path flags → opened path :=
          fun path flags same => asked path flags (congrArg FileCall.work same)
        obtain ⟨t, made, working⟩ := atWork.working.work job f.world
        have progress := Files.perform_progress atWork.tidy named serial.ground.existing
        refine serial.quiet made progress.shift (progress.locks ▸ serial.free)
          progress.files.content ?_ (Or.inl ⟨_, atWork.work serial.ground named working⟩)
        rw [working.unseen, atWork.working.unseen]
    | commit =>
        cases valid : files.access.validate f.world.versions with
        | true => exact serial.commits atWork valid
        | false =>
            obtain ⟨locks, free, committed⟩ := atWork.working.commit atWork.tidy serial.free
            rw [valid] at committed
            have made : FileCall.commit.perform (f.transactions who) f.world =
                (.ended (.ok (.aborted .validationFailed)),
                  (f.transactions who).ended [.locked, .validating, .undoing, .finishing, .released]
                    (.aborted .validationFailed),
                  { f.world with locks }) := by
              simp only [FileCall.perform, committed]
              rfl
            exact serial.gives_up atWork rfl free _ (by decide) _ made
    | abort =>
        have made : FileCall.abort.perform (f.transactions who) f.world =
            (.ended (.ok (.aborted .requested)),
              (f.transactions who).ended [.undoing, .finishing, .released] (.aborted .requested),
              f.world) := by
          simp only [FileCall.perform, Transaction.abort_active atWork.working.active,
            atWork.working.abandon atWork.tidy]
        exact serial.gives_up atWork rfl serial.free _ (by decide) _ made
    | drop =>
        have made : FileCall.drop.perform (f.transactions who) f.world =
            (.dropped,
              (f.transactions who).ended [.undoing, .finishing, .released] (.aborted .requested),
              f.world) := by
          simp only [FileCall.perform, Transaction.drop_active atWork.working.active,
            atWork.working.abandon atWork.tidy]
        exact serial.gives_up atWork rfl serial.free _ (by decide) _ made
  · refine serial.quiet (FileCall.perform_released gone call f.world) (.locks _ _) serial.free
      (fun _ => rfl) Iff.rfl (Or.inr ⟨gone, ?_⟩)
    simp only [List.any_append, ended, Bool.true_or]

theorem start (config : TxId → Config) (ground : Ground opened w.files) (free : w.locks.Free) :
    Serial config opened w [] (.start config w) where
  ground := ground
  free := free
  order := ⟨w, rfl, .refl _, free, fun _ => rfl⟩
  once := .nil
  counted _ := ⟨fun member => absurd member List.not_mem_nil, fun seen => absurd seen List.not_mem_nil⟩
  each who := Or.inl ⟨{}, .start config who w⟩

theorem run (serial : Serial config opened w₀ past f) (schedule : List (TxId × FileCall))
    (asked : ∀ path, openedIn schedule path → opened path) :
    Serial config opened w₀ (past ++ schedule) (f.run schedule) := by
  induction schedule generalizing past f with
  | nil =>
      rw [List.append_nil]
      exact serial
  | cons entry rest ih =>
      have next := serial.step entry fun path flags same =>
        asked path ⟨entry.1, flags, same ▸ List.mem_cons_self⟩
      have all := ih next fun path ⟨who, flags, member⟩ =>
        asked path ⟨who, flags, List.mem_cons_of_mem _ member⟩
      rw [List.append_assoc] at all
      exact all

end Serial

/-! ## Every schedule -/

/-- Paths that all have a canonical location go by one resource where they lead to one file, if every
file has one name. -/
theorem Ground.of_canonical {fs : Filesystem} (oneName : fs.OneName)
    (existing : ∀ path, opened path → (fs.fileAt? path).isSome)
    (canonical : ∀ path, opened path → (fs.canonical? path).isSome) : Ground opened fs where
  existing := existing
  oneResource path other asked askedToo leads := by
    obtain ⟨inode, found⟩ := Option.isSome_iff_exists.1 (existing path asked)
    rw [Filesystem.same_resource oneName found (leads ▸ found) (canonical path asked)
      (canonical other askedToo)]

/-- **Transactions on files are serializable in commit order.**  Whatever the order of their calls,
every transaction whose commit got to the apply phase was answered as it is answered when those
transactions run one after another, in the order of their commits, and every file holds what it holds
then.  Two paths that lead to one file have to be one resource. -/
theorem Session.run_serializable (config : TxId → Config) (schedule : List (TxId × FileCall))
    (w : World) (free : w.locks.Free) (ground : Ground (openedIn schedule) w.files) :
    let session := (Session.start config w).run schedule
    let alone := serially config (fun who => entriesOf who schedule) session.applied w
    alone.1 = session.applied.map (fun who => entriesOf who session.answers) ∧
      (∀ path, alone.2.files.load path = session.world.files.load path) ∧
      session.applied.Nodup ∧
      ∀ who, who ∈ session.applied ↔ .applying ∈ (session.transactions who).visited := by
  have serial := (Serial.start config ground free).run schedule fun _ asked => asked
  rw [List.nil_append] at serial
  obtain ⟨v, ran, stands⟩ := serial.order
  intro session alone
  have world : alone = _ := ran
  rw [world]
  exact ⟨rfl, fun path => stands.tree.load path stands.contents, serial.once, serial.counted⟩

namespace Session

/-- One file, `/f`. -/
def oneFile : World :=
  { files := { entries := ⟨[(["f"], .file 0)]⟩, contents := ⟨[(0, .ofBytes [1, 2])]⟩, nextInode := 1 } }

/-- Two transactions open `/f` before either writes; a third appends after the first committed. -/
def threeWriters : List (TxId × FileCall) :=
  let first : TxId := ⟨1, "first"⟩
  let second : TxId := ⟨2, "second"⟩
  let third : TxId := ⟨3, "third"⟩
  [(first, .work (.openPath "/f" { read := true, write := true })),
    (second, .work (.openPath "/f" { read := true, write := true })),
    (second, .work (.read ⟨0⟩ 2)),
    (first, .work (.write ⟨0⟩ [7])),
    (first, .commit),
    (third, .work (.openPath "/f" { append := true })),
    (second, .work (.write ⟨0⟩ [8])),
    (second, .commit),
    (third, .work (.write ⟨0⟩ [9])),
    (third, .commit)]

theorem opened_threeWriters {path : String} (opened : openedIn threeWriters path) : path = "/f" := by
  obtain ⟨who, flags, member⟩ := opened
  simp only [threeWriters, List.mem_cons, Prod.mk.injEq, FileCall.work.injEq,
    FileWork.openPath.injEq, reduceCtorEq, and_false, false_or, or_false, List.not_mem_nil] at member
  rcases member with ⟨-, named, -⟩ | ⟨-, named, -⟩ | ⟨-, named, -⟩ <;> exact named

/-- Of the three the first and the third got to apply. -/
theorem run_serializable_threeWriters :
    let session := (start (fun _ => {}) oneFile).run threeWriters
    let alone := serially (fun _ => {}) (fun who => entriesOf who threeWriters) session.applied oneFile
    session.applied.map (·.serial) = [1, 3] ∧
      alone.1 = session.applied.map (fun who => entriesOf who session.answers) ∧
      ∀ path, alone.2.files.load path = session.world.files.load path := by
  have ground : Ground (openedIn threeWriters) oneFile.files :=
    { existing := by
        intro path opened
        rw [opened_threeWriters opened]
        decide
      oneResource := by
        intro path other opened openedToo _
        rw [opened_threeWriters opened, opened_threeWriters openedToo] }
  obtain ⟨answers, contents, -, -⟩ :=
    run_serializable (fun _ => {}) threeWriters oneFile (fun _ => rfl) ground
  exact ⟨by decide, answers, contents⟩

end Session

end Transact
