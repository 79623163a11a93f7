/-
# Transact.Proofs.Lending -- one descriptor lent to many transactions

Transactions adopt one descriptor from outside, work through their handles and end, their calls
interleaved in any way.  Their files are isolated by versions, as always.  The position of the
descriptor is not: a read moves it for all of them, an adoption takes it wherever another transaction
left it, and undo puts it back there.

So the calls come to what they come to when those that committed run one after another, and the
descriptor is left where it is left then, if no end is disturbed in this way (`Session.Undisturbed`):
whoever commits had found the descriptor where it finds it in a run of its own, and whoever gives up
had found it where those that committed left it.  `Lending` is the invariant, `Lending.turn` its step,
and `run_lent` what a whole schedule comes to.
-/
import Transact.Proofs.Lent
import Transact.Proofs.Serializable

namespace Transact

set_option autoImplicit false

open Files (Lent)

/-! ## Calls -/

/-- A call on a transaction that works on files in any way. -/
inductive FilingCall where
  | work (job : Filing)
  | commit
  | abort
  | drop

namespace FilingCall

/-- Make one call. -/
def perform (t : Transaction Builtin) (w : World) :
    FilingCall → FileAnswer × Transaction Builtin × World
  | .work job =>
      let r := Transaction.withModule Builtin.filesFacet (fun _ s w => job.perform s w) t w
      (.worked r.1, r.2)
  | .commit => let r := t.commit w; (.ended r.1, r.2)
  | .abort => let r := t.abort w; (.ended r.1, r.2)
  | .drop => (.dropped, t.drop w)

/-- Make calls one after another. -/
def performAll (calls : List FilingCall) (t : Transaction Builtin) (w : World) :
    List FileAnswer × Transaction Builtin × World :=
  callAll (fun call t w => call.perform t w) calls t w

/-- `true` for a call that ends the transaction. -/
def ends : FilingCall → Bool
  | .work _ => false
  | _ => true

/-- What a released transaction answers. -/
def refusal : FilingCall → FileAnswer
  | .work _ => .worked (.error (Transaction.notActive "use a module" .released))
  | .commit => .ended (.error (Transaction.notActive "commit" .released))
  | .abort => .ended (.error (Transaction.notActive "abort" .released))
  | .drop => .dropped

/-- What the calls of a transaction come to when it makes them all by itself. -/
def alone (config : TxId → Config) (calls : TxId → List FilingCall) (who : TxId) (w : World) :
    List FileAnswer × World :=
  let r := performAll (calls who) (newTransaction config who) w
  (r.1, r.2.2)

theorem performAll_snoc (calls : List FilingCall) (last : FilingCall) (t : Transaction Builtin)
    (w : World) :
    performAll (calls ++ [last]) t w =
      let r := performAll calls t w
      let s := last.perform r.2.1 r.2.2
      (r.1 ++ [s.1], s.2) :=
  callAll_snoc ..

/-- A released transaction answers every call in the same way, and nothing happens. -/
theorem perform_released {t : Transaction Builtin} (released : t.phase = .released)
    (call : FilingCall) (w : World) : call.perform t w = (call.refusal, t, w) := by
  cases call <;>
    simp only [perform, refusal, Transaction.withModule_released released,
      Transaction.commit_released released, Transaction.abort_released released,
      Transaction.drop_released released]

theorem perform_phase {t : Transaction Builtin} (active : t.phase = .active) (call : FilingCall)
    (w : World) :
    if call.ends then (call.perform t w).2.1.phase = .released
    else (call.perform t w).2.1.phase = .active := by
  cases call with
  | work job => exact (Transaction.withModule_phase ..).trans active
  | commit => exact Transaction.commit_phase active w
  | abort => exact Transaction.abort_phase active w
  | drop => exact Transaction.drop_phase active w

/-- Calls that end a transaction release it in every world. -/
theorem performAll_released {calls : List FilingCall} (ended : calls.any ends = true)
    {t : Transaction Builtin} (active : t.phase = .active) (w : World) :
    (performAll calls t w).2.1.phase = .released := by
  have all := callAll_ends (fun call t w active => perform_phase (t := t) active call w)
    (fun call t w released => perform_released (t := t) released call w) calls active w
  rw [ended, if_pos rfl] at all
  exact all

end FilingCall

/-! ## Sessions -/

/-- Where a transaction found the descriptors that it adopted, oldest first. -/
def Transaction.found (t : Transaction Builtin) : List Nat := (t.seat Builtin.filesFacet).found

namespace Session

/-- Let one transaction make a call. -/
def turn (s : Session) (entry : TxId × FilingCall) : Session :=
  let (who, call) := entry
  let before := s.transactions who
  let (answer, t, w) := call.perform before s.world
  { world := w
    transactions := fun other => if other = who then t else s.transactions other
    applied := if .applying ∈ t.visited ∧ .applying ∉ before.visited then s.applied ++ [who]
      else s.applied
    answers := s.answers ++ [(who, answer)] }

/-- Make the calls of a schedule in its order. -/
def turns (s : Session) (schedule : List (TxId × FilingCall)) : Session := schedule.foldl turn s

/-- Nobody at work has adopted a descriptor. -/
def Unlent (transactions : TxId → Transaction Builtin) : Prop :=
  ∀ who, (transactions who).phase = .active → (transactions who).found = []

/-- After the calls `past`, which began in the world `w`, the call does not end its transaction, or
does so undisturbed.  If the transaction commits it had found the descriptor, whenever it adopted it,
where it finds it when it makes its calls by itself after those that committed; if it gives up it had
found the descriptor first where those left it. -/
def Undisturbed (config : TxId → Config) (w : World) (fd : Nat) (past : List (TxId × FilingCall))
    (s : Session) (entry : TxId × FilingCall) : Prop :=
  let t := s.transactions entry.1
  let after := (s.turn entry).transactions entry.1
  let before := (inTurn (FilingCall.alone config fun who => entriesOf who past) s.applied w).2
  t.phase = .active → entry.2.ends = true →
    if .applying ∈ after.visited then
      after.outcome = some .committed ∧
        (FilingCall.performAll (entriesOf entry.1 past) (newTransaction config entry.1)
          before).2.1.found = t.found
    else ∀ first ∈ t.found.head?, first = before.files.position fd
  deriving Decidable

end Session

/-! ## Others -/

/-- What others do: versions go up, and nothing but the position of `fd` changes as long as that of
its resource does not. -/
structure Passing (fd : Nat) (id : ResourceId) (w w' : World) : Prop where
  later : ∀ other, w.versions.current other ≤ w'.versions.current other
  quiet : w.Aside fd w' ∨ w.versions.current id < w'.versions.current id

variable {fd : Nat} {id : ResourceId} {s : Files} {w w' v : World} {t t' : Transaction Builtin}

theorem World.Aside.passing (aside : w.Aside fd w') : Passing fd id w w' where
  later other := Nat.le_of_eq (by rw [aside.versions])
  quiet := Or.inl aside

theorem Transaction.Working.found (working : t.Working s) : t.found = s.found := by
  unfold Transaction.found Transaction.seat
  rcases working.members with ⟨nobody, rfl⟩ | alone
  · rw [nobody]
    rfl
  · rw [alone]
    rfl

/-! ## Work that can be done over -/

variable {fresh : Transaction Builtin} {calls : List FilingCall} {answers : List FileAnswer}

/-- The calls made in the world `v`. -/
structure Replay (fd : Nat) (id : ResourceId) (fresh : Transaction Builtin) (calls : List FilingCall)
    (v : World) (answers : List FileAnswer) (t : Transaction Builtin) (s : Files) (v' : World) :
    Prop where
  ran : FilingCall.performAll calls fresh v = (answers, t, v')
  working : t.Working s
  lent : Lent fd id s
  aside : v.Aside fd v'
  locks : v'.locks = v.locks
  idle : s.found = [] → v' = v

/-- A transaction at work: `calls` were answered with `answers` so far.  While its versions are in
force the calls can be made over wherever nothing but positions differs, and come to the same if they
find the same. -/
structure Borrower (fd : Nat) (id : ResourceId) (fresh : Transaction Builtin)
    (calls : List FilingCall) (answers : List FileAnswer) (t : Transaction Builtin) (s : Files)
    (w : World) : Prop where
  working : t.Working s
  lent : Lent fd id s
  past : ∀ other seen, s.access.snapshot other = some seen → seen ≤ w.versions.current other
  replays : s.access.validate w.versions = true → ∀ v, (s.found ≠ [] → w.Aside fd v) →
    ∃ answers' t' s' v', Replay fd id fresh calls v answers' t' s' v' ∧
      s'.found.length = s.found.length ∧ (s'.found = s.found → answers' = answers ∧ s' = s)

namespace Borrower

theorem start (fd : Nat) (id : ResourceId) (config : TxId → Config) (who : TxId) (w : World) :
    Borrower fd id (newTransaction config who) [] [] (newTransaction config who) {} w where
  working := .start config who
  lent := .fresh fd id
  past _ _ noted := by cases noted
  replays _ v _ :=
    ⟨[], _, {}, v, ⟨rfl, .start config who, .fresh fd id, .refl fd v, rfl, fun _ => rfl⟩, rfl,
      fun _ => ⟨rfl, rfl⟩⟩

/-- What others do does not touch what a transaction did, as long as its versions are in force. -/
theorem meanwhile (borrower : Borrower fd id fresh calls answers t s w)
    (passing : Passing fd id w w') : Borrower fd id fresh calls answers t s w' where
  working := borrower.working
  lent := borrower.lent
  past other seen noted := Nat.le_trans (borrower.past other seen noted) (passing.later other)
  replays valid v beside := by
    have access := borrower.lent.access
    by_cases busy : s.found = []
    · refine borrower.replays ?_ v fun adopted => absurd busy adopted
      rw [borrower.lent.idle busy]
      rfl
    · obtain ⟨seen, noted⟩ := borrower.lent.noted busy
      have now := (AccessSet.validate_iff access _).1 valid id seen noted
      have aside := passing.quiet.resolve_right fun up => by
        have before := borrower.past id seen noted
        omega
      rw [aside.versions] at valid
      exact borrower.replays valid v fun adopted => aside.trans (beside adopted)

/-- A piece of its own work. -/
theorem work (borrower : Borrower fd id fresh calls answers t s w) {job : Filing}
    (through : job.Through fd id w.files) (working : t'.Working (job.perform s w).2.1) :
    Borrower fd id fresh (calls ++ [.work job]) (answers ++ [.worked (job.perform s w).1]) t'
      (job.perform s w).2.1 (job.perform s w).2.2 := by
  have done := through.perform borrower.lent
  refine ⟨working, done.lent, fun other seen noted => ?_, fun valid v beside => ?_⟩
  · rw [done.aside.versions]
    rcases done.grown.new other seen noted with before | now
    · exact borrower.past other seen before
    · exact Nat.le_of_eq now.symm
  · have validBefore : s.access.validate w.versions = true := by
      refine (AccessSet.validate_iff borrower.lent.access _).2 fun other seen noted => ?_
      rw [← done.aside.versions]
      exact (AccessSet.validate_iff done.lent.access _).1 valid other seen
        (done.grown.kept other seen noted)
    have adopted (part : s.found ≠ [] ∨ job.finds w.files ≠ []) : w.Aside fd v := by
      refine done.aside.trans (beside ?_)
      rw [done.found]
      exact part.elim (List.append_ne_nil_of_left_ne_nil · _)
        (List.append_ne_nil_of_right_ne_nil _ ·)
    obtain ⟨answers', t₁, s₁, v₁, replay, length, same⟩ :=
      borrower.replays validBefore v fun busy => adopted (Or.inl busy)
    have through' : job.Through fd id v₁.files := through.elsewhere fun finds =>
      ((adopted (Or.inr finds)).trans replay.aside).files.written.tree
    have done' := through'.perform replay.lent
    obtain ⟨t₂, ran, working'⟩ := replay.working.through (fun s w => job.perform s w) v₁
    have locks := (job.perform_locks s₁ v₁).trans replay.locks
    refine ⟨answers' ++ [.worked (job.perform s₁ v₁).1], t₂, _, _, ⟨?_, working', done'.lent,
      replay.aside.trans done'.aside, locks, fun nothing => ?_⟩, ?_, fun alike => ?_⟩
    · rw [FilingCall.performAll_snoc]
      simp only [replay.ran, FilingCall.perform, ran]
    · rw [done'.idle nothing]
      rw [done'.found] at nothing
      exact replay.idle (List.append_eq_nil_iff.1 nothing).1
    · rw [done.found, done'.found, List.length_append, List.length_append, length,
        job.length_finds v₁.files w.files]
    · have found := alike
      rw [done.found, done'.found] at alike
      obtain ⟨rfl, rfl⟩ := same (List.append_inj alike length).1
      have beside' (busy : (job.perform s₁ w).2.1.found ≠ []) : w.Aside fd v₁ :=
        (done.aside.trans (beside busy)).trans replay.aside
      obtain ⟨answer, state⟩ := through.perform_alike borrower.lent beside' found
      exact ⟨by rw [answer], state⟩

/-! ### Its end -/

/-- What a commit leaves in `w'`, and in `v'` when it is made over in `v`. -/
structure Commits (fd : Nat) (id : ResourceId) (s : Files) (outcome : Outcome) (w w' v v' : World) :
    Prop where
  free : w'.locks.Free
  free' : v'.locks.Free
  passing : Passing fd id w w'
  written : w.files.Written w'.files
  beside : w'.Aside fd v'
  idle : s.found = [] → w'.files = w.files ∧ v'.files = v.files
  settled : s.found ≠ [] → outcome = .committed →
    w'.files.position fd = v'.files.position fd ∧
      v'.files.position fd ≤ v'.files.positionLimit fd

/-- What apply does to the world, whatever is locked. -/
theorem applied_passing (lent : Lent fd id s) (w : World) {locks locks' : LockTable} :
    Passing fd id w { (s.apply { w with locks }).2.2 with locks := locks' } := by
  have versions := s.apply_versions { w with locks }
  refine ⟨fun other => ?_, ?_⟩
  · rw [versions, AccessSet.current_publish lent.access]
    exact Nat.le_add_right _ _
  · cases written : s.access.isWritten id with
    | true =>
        refine Or.inr ?_
        rw [versions, AccessSet.current_publish lent.access, if_pos written]
        exact Nat.lt_succ_self _
    | false =>
        obtain ⟨files, same⟩ := lent.apply_unwritten (w := { w with locks }) written
        exact Or.inl ⟨files, same⟩

/-- A commit that finds its versions in force applies the files. -/
theorem applies (working : t.Working s) (lent : Lent fd id s) (free : w.locks.Free)
    (valid : s.access.validate w.versions = true) :
    ∃ locks freed : LockTable, freed.Free ∧
      let r := s.apply { w with locks }
      t.commit w =
        (.ok (Transaction.outcomeOf r.1),
          t.ended [.locked, .validating, .applying, .finishing, .released]
            (Transaction.outcomeOf r.1),
          { r.2.2 with locks := freed }) := by
  obtain ⟨held, locks, exactly, committed⟩ := working.commits lent.held free
  rw [if_pos valid] at committed
  refine ⟨locks, _, ?_, committed⟩
  rw [Files.apply_locks]
  exact exactly.releaseAll

/-- **A commit can be made over beside it**, if it found the descriptor where it finds it there: the
answer is the same, and nothing but positions differs in what is left. -/
theorem commit (borrower : Borrower fd id fresh calls answers t s w) (free : w.locks.Free)
    (known : (w.files.descriptors.get? fd).isSome) (valid : s.access.validate w.versions = true)
    (beside : w.Aside fd v) (free' : v.locks.Free) :
    ∃ outcome w',
      t.commit w =
        (.ok outcome, t.ended [.locked, .validating, .applying, .finishing, .released] outcome,
          w') ∧
      ((FilingCall.performAll calls fresh v).2.1.found = s.found → ∃ last v',
        FilingCall.performAll (calls ++ [.commit]) fresh v =
          (answers ++ [.ended (.ok outcome)], last, v') ∧
        Commits fd id s outcome w w' v v') := by
  have lent := borrower.lent
  obtain ⟨locks, freed, free₁, committed⟩ := applies borrower.working lent free valid
  refine ⟨_, _, committed, fun undisturbed => ?_⟩
  obtain ⟨answers', t₁, s₁, v₁, replay, -, same⟩ := borrower.replays valid v fun _ => beside
  rw [replay.ran, replay.working.found] at undisturbed
  obtain ⟨rfl, rfl⟩ := same undisturbed
  have aside := beside.trans replay.aside
  obtain ⟨locks', freed', free₂, committed'⟩ :=
    applies replay.working lent (replay.locks ▸ free') (aside.versions ▸ valid)
  have level : World.Aside fd { w with locks } { v₁ with locks := locks' } :=
    ⟨aside.files, aside.versions⟩
  obtain ⟨answer, after⟩ := lent.apply_aside level
  simp only at committed'
  rw [answer] at committed'
  have ran := FilingCall.performAll_snoc calls .commit fresh v
  simp only [replay.ran, FilingCall.perform, committed'] at ran
  refine ⟨_, _, ran, free₁, free₂, applied_passing lent w, ?_, ?_, fun nothing => ?_,
    fun busy done => ?_⟩
  · exact lent.apply_written { w with locks }
  · exact ⟨after.files, after.versions⟩
  · rw [replay.idle nothing, lent.idle nothing]
    exact ⟨rfl, rfl⟩
  · have applied : (s₁.apply { w with locks }).1 = .ok () := by
      revert done
      rcases (s₁.apply { w with locks }).1 with e | _
      · exact fun done => by cases done
      · exact fun _ => rfl
    have known' : (v₁.files.descriptors.get? fd).isSome :=
      (aside.files.written.isSome fd).trans known
    obtain ⟨here, -⟩ := lent.apply_resting (w := { w with locks }) busy known applied
    obtain ⟨there, within⟩ :=
      lent.apply_resting (w := { v₁ with locks := locks' }) busy known' (answer.trans applied)
    refine ⟨here.trans there.symm, ?_⟩
    have limit := Filesystem.positionLimit_of_still
      ((lent.apply_written { v₁ with locks := locks' }).still fd)
    rw [there, limit]
    exact within

/-- What giving up leaves: the descriptor is where it was found first. -/
structure Reverted (fd : Nat) (s : Files) (w w' : World) : Prop where
  free : w'.locks.Free
  aside : w.Aside fd w'
  idle : s.found = [] → w'.files = w.files
  back : (w.files.descriptors.get? fd).isSome → ∀ first ∈ s.found.head?,
    first ≤ w.files.positionLimit fd → w'.files.position fd = first

theorem reverted (lent : Lent fd id s) (held : HeldLocks) (ctx : Context) (w : World)
    {locks freed : LockTable} (free : freed.Free) :
    Reverted fd s w
      { (({ s with held } : Files).undo ctx { w with locks }).2.2 with locks := freed } := by
  obtain ⟨aside, -, idle, back⟩ := lent.undo_first held ctx { w with locks }
  exact ⟨free, ⟨aside.files, aside.versions⟩, fun nothing => by rw [idle nothing], back⟩

/-- **Giving up** takes back the moves of the descriptor. -/
theorem gives_up (borrower : Borrower fd id fresh calls answers t s w) (free : w.locks.Free)
    {call : FilingCall} (ends : call.ends = true)
    (stale : call = .commit → s.access.validate w.versions = false) :
    ∃ answer visited outcome w',
      call.perform t w = (answer, t.ended visited outcome, w') ∧ .applying ∉ visited ∧
        outcome ≠ .committed ∧ Reverted fd s w w' := by
  have lent := borrower.lent
  have active := borrower.working.active
  have given := borrower.working.gives_up .requested w
  have undone (freed : (s.undo t.context w).2.2.locks.Free) :
      Reverted fd s w (s.undo t.context w).2.2 := reverted lent s.held t.context w freed
  have locks : (s.undo t.context w).2.2.locks = w.locks := (lent.undo_first s.held t.context w).2.1
  cases call with
  | work job => cases ends
  | commit =>
      obtain ⟨held, locks, exactly, committed⟩ := borrower.working.commits lent.held free
      rw [stale rfl, if_neg (by decide)] at committed
      have freed : (held.releaseAll t.id
          (({ s with held } : Files).undo t.context { w with locks }).2.2.locks).Free := by
        rw [(lent.undo_first held t.context { w with locks }).2.1]
        exact exactly.releaseAll
      refine ⟨_, _, _, _, congrArg (fun r => (FileAnswer.ended r.1, r.2)) committed, by decide,
        fun same => ?_, reverted lent held t.context w freed⟩
      cases same
  | abort =>
      have aborted := (Transaction.abort_active active w).trans given
      refine ⟨_, _, _, _, congrArg (fun r => (FileAnswer.ended r.1, r.2)) aborted, by decide,
        fun same => ?_, undone (locks ▸ free)⟩
      cases same
  | drop =>
      have dropped := (Transaction.drop_active active w).trans (congrArg Prod.snd given)
      refine ⟨_, _, _, _, congrArg (FileAnswer.dropped, ·) dropped, by decide, fun same => ?_,
        undone (locks ▸ free)⟩
      cases same

end Borrower

/-! ## The invariant -/

/-- Those that committed, one after another, leave `v` where the calls so far leave `w`. -/
structure Level (fd : Nat) (transactions : TxId → Transaction Builtin) (w v : World) : Prop where
  aside : w.Aside fd v
  free : v.locks.Free
  within : v.files.position fd ≤ v.files.positionLimit fd
  settled : Session.Unlent transactions → w.files.position fd = v.files.position fd

/-- After the calls `past` the session is where the transactions that committed, one after another
from `w₀`, would have left it, but for where the descriptor is meanwhile; and they were answered as
they would be there. -/
structure Lending (config : TxId → Config) (fd : Nat) (id : ResourceId) (w₀ : World)
    (past : List (TxId × FilingCall)) (f : Session) : Prop where
  tree : w₀.files.SameTree f.world.files
  known : (f.world.files.descriptors.get? fd).isSome
  free : f.world.locks.Free
  order : ∃ v, inTurn (FilingCall.alone config fun who => entriesOf who past) f.applied w₀ =
      (f.applied.map fun who => entriesOf who f.answers, v) ∧
    Level fd f.transactions f.world v
  once : f.applied.Nodup
  counted : ∀ who, who ∈ f.applied ↔ .applying ∈ (f.transactions who).visited
  committed : ∀ who,
    .applying ∈ (f.transactions who).visited ↔ (f.transactions who).outcome = some .committed
  each : ∀ who,
    (∃ files, Borrower fd id (newTransaction config who) (entriesOf who past)
        (entriesOf who f.answers) (f.transactions who) files f.world) ∨
      (f.transactions who).phase = .released ∧ (entriesOf who past).any FilingCall.ends

namespace Lending

variable {config : TxId → Config} {w₀ : World} {past : List (TxId × FilingCall)} {f : Session}
  {who : TxId} {call : FilingCall} {answer : FileAnswer}

/-- Who committed is released. -/
theorem released (lending : Lending config fd id w₀ past f) (member : who ∈ f.applied) :
    (f.transactions who).phase = .released ∧ (entriesOf who past).any FilingCall.ends := by
  refine (lending.each who).resolve_left ?_
  rintro ⟨files, borrower⟩
  have applying := (lending.counted who).1 member
  rw [borrower.working.unseen] at applying
  cases applying

/-- What the others are after a call. -/
theorem others (lending : Lending config fd id w₀ past f) (passing : Passing fd id f.world w')
    {other : TxId} (ne : other ≠ who) (call : FilingCall) (answer : FileAnswer) :
    (∃ files, Borrower fd id (newTransaction config other)
        (entriesOf other (past ++ [(who, call)])) (entriesOf other (f.answers ++ [(who, answer)]))
        (f.transactions other) files w') ∨
      (f.transactions other).phase = .released ∧
        (entriesOf other (past ++ [(who, call)])).any FilingCall.ends := by
  rw [entriesOf_other ne, entriesOf_other ne]
  exact (lending.each other).imp_left fun ⟨files, borrower⟩ => ⟨files, borrower.meanwhile passing⟩

/-- Who committed is refused everything since, so one more call adds a refusal at most to the run one
after another. -/
theorem refused (lending : Lending config fd id w₀ past f)
    (made : call.perform (f.transactions who) f.world = (answer, t, w'))
    (ran : inTurn (FilingCall.alone config fun other => entriesOf other past) f.applied w₀ =
      (f.applied.map fun other => entriesOf other f.answers, v)) :
    inTurn (FilingCall.alone config fun other => entriesOf other (past ++ [(who, call)])) f.applied
        w₀ =
      (f.applied.map fun other => entriesOf other (f.answers ++ [(who, answer)]), v) := by
  refine inTurn_refused (fun call t w released => FilingCall.perform_released released call w)
    (fun member => ?_) ran
  obtain ⟨gone, ended⟩ := lending.released member
  exact ⟨congrArg Prod.fst (made.symm.trans (FilingCall.perform_released gone call f.world)),
    FilingCall.performAll_released ended rfl⟩

/-- What a call does to the others and to itself, put together. -/
theorem next (lending : Lending config fd id w₀ past f) (passing : Passing fd id f.world w')
    (written : f.world.files.Written w'.files) (free : w'.locks.Free)
    (own : (∃ files, Borrower fd id (newTransaction config who) (entriesOf who past ++ [call])
        (entriesOf who f.answers ++ [answer]) t files w') ∨
      t.phase = .released ∧ (entriesOf who past ++ [call]).any FilingCall.ends)
    {applied : List TxId} (order : ∃ v,
      inTurn (FilingCall.alone config fun other => entriesOf other (past ++ [(who, call)])) applied
          w₀ =
          (applied.map fun other => entriesOf other (f.answers ++ [(who, answer)]), v) ∧
        Level fd (fun other => if other = who then t else f.transactions other) w' v)
    (once : applied.Nodup) (counted : who ∈ applied ↔ .applying ∈ t.visited)
    (committed : .applying ∈ t.visited ↔ t.outcome = some .committed)
    (others : ∀ other, other ≠ who → (other ∈ applied ↔ other ∈ f.applied)) :
    Lending config fd id w₀ (past ++ [(who, call)])
      { world := w'
        transactions := fun other => if other = who then t else f.transactions other
        applied
        answers := f.answers ++ [(who, answer)] } := by
  refine ⟨lending.tree.trans written.tree, (written.isSome fd).trans lending.known, free, order, once,
    fun other => ?_, fun other => ?_, fun other => ?_⟩ <;> by_cases here : other = who
  · subst here
    simp only [if_true]
    exact counted
  · simp only [here, if_false]
    exact (others other here).trans (lending.counted other)
  · subst here
    simp only [if_true]
    exact committed
  · simp only [here, if_false]
    exact lending.committed other
  · subst here
    simp only [if_true, entriesOf_self]
    exact own
  · simp only [here, if_false]
    exact lending.others passing here call answer

/-- A call after which the same transactions committed. -/
theorem quiet (lending : Lending config fd id w₀ past f)
    (made : call.perform (f.transactions who) f.world = (answer, t, w'))
    (aside : f.world.Aside fd w') (free : w'.locks.Free)
    (visited : .applying ∈ t.visited ↔ .applying ∈ (f.transactions who).visited)
    (committed : .applying ∈ t.visited ↔ t.outcome = some .committed)
    (own : (∃ files, Borrower fd id (newTransaction config who) (entriesOf who past ++ [call])
        (entriesOf who f.answers ++ [answer]) t files w') ∨
      t.phase = .released ∧ (entriesOf who past ++ [call]).any FilingCall.ends)
    (settled : ∀ v,
      inTurn (FilingCall.alone config fun other => entriesOf other past) f.applied w₀ =
        (f.applied.map fun other => entriesOf other f.answers, v) →
      Level fd f.transactions f.world v →
      Session.Unlent (fun other => if other = who then t else f.transactions other) →
      w'.files.position fd = v.files.position fd) :
    Lending config fd id w₀ (past ++ [(who, call)]) (f.turn (who, call)) := by
  have same : ¬(.applying ∈ t.visited ∧ .applying ∉ (f.transactions who).visited) :=
    fun both => both.2 (visited.1 both.1)
  obtain ⟨v, ran, level⟩ := lending.order
  have order := lending.refused made ran
  simp only [Session.turn, made, same, if_false]
  exact lending.next aside.passing aside.files.written free own
    ⟨v, order, aside.symm.trans level.aside, level.free, level.within, settled v ran level⟩
    lending.once ((lending.counted who).trans visited.symm) committed fun _ _ => Iff.rfl

/-- Nobody at work had adopted a descriptor if nobody has now and who made the call had not. -/
theorem unlent (nothing : (f.transactions who).phase = .active → (f.transactions who).found = [])
    (after : Session.Unlent fun other => if other = who then t else f.transactions other) :
    Session.Unlent f.transactions := by
  intro other active
  by_cases here : other = who
  · exact here ▸ nothing (here ▸ active)
  · have rest := after other
    simp only [here, if_false] at rest
    exact rest active

/-- A piece of work. -/
theorem works (lending : Lending config fd id w₀ past f) {files : Files}
    (borrower : Borrower fd id (newTransaction config who) (entriesOf who past)
      (entriesOf who f.answers) (f.transactions who) files f.world)
    {job : Filing} (through : job.Through fd id w₀.files) :
    Lending config fd id w₀ (past ++ [(who, .work job)]) (f.turn (who, .work job)) := by
  have here := through.elsewhere fun _ => lending.tree
  obtain ⟨t, ran, working⟩ := borrower.working.through (fun s w => job.perform s w) f.world
  have done := here.perform borrower.lent
  have made : FilingCall.perform (f.transactions who) f.world (.work job) =
      (.worked (job.perform files f.world).1, t, (job.perform files f.world).2.2) := by
    simp only [FilingCall.perform, ran]
  have unseen := borrower.working.unseen
  have undecided := borrower.working.undecided
  refine lending.quiet made done.aside ((job.perform_locks files f.world) ▸ lending.free) ?_ ?_
    (Or.inl ⟨_, borrower.work here working⟩) fun v ran level after => ?_
  · rw [working.unseen, unseen]
  · rw [working.unseen, working.undecided]
    simp
  · have nothing : (job.perform files f.world).2.1.found = [] := by
      have own := after who
      simp only [if_true] at own
      exact working.found.symm.trans (own working.active)
    rw [done.idle nothing]
    refine level.settled (unlent (fun _ => borrower.working.found.trans ?_) after)
    rw [done.found] at nothing
    exact (List.append_eq_nil_iff.1 nothing).1

/-- A commit that finds its versions in force. -/
theorem commits (lending : Lending config fd id w₀ past f) {files : Files}
    (borrower : Borrower fd id (newTransaction config who) (entriesOf who past)
      (entriesOf who f.answers) (f.transactions who) files f.world)
    (valid : files.access.validate f.world.versions = true)
    (undisturbed : Session.Undisturbed config w₀ fd past f (who, .commit)) :
    Lending config fd id w₀ (past ++ [(who, .commit)]) (f.turn (who, .commit)) := by
  obtain ⟨v, ran, level⟩ := lending.order
  obtain ⟨outcome, w', committed, remade⟩ :=
    borrower.commit lending.free lending.known valid level.aside level.free
  have made : FilingCall.perform (f.transactions who) f.world .commit =
      (.ended (.ok outcome),
        (f.transactions who).ended [.locked, .validating, .applying, .finishing, .released] outcome,
        w') := by
    simp only [FilingCall.perform, committed]
  have unseen : .applying ∉ (f.transactions who).visited := by
    rw [borrower.working.unseen]
    exact List.not_mem_nil
  have new : who ∉ f.applied := fun member => unseen ((lending.counted who).1 member)
  have visited : .applying ∈ ((f.transactions who).ended
      [.locked, .validating, .applying, .finishing, .released] outcome).visited := by
    simp only [Transaction.ended, borrower.working.unseen, List.nil_append]
    decide
  have here := undisturbed borrower.working.active rfl
  simp only [Session.turn, made, if_true, if_pos visited, ran, borrower.working.found] at here
  obtain ⟨outcome?, found⟩ := here
  obtain rfl : outcome = .committed := Option.some.inj outcome?
  obtain ⟨last, v', again, commits⟩ := remade found
  have order :
      inTurn (FilingCall.alone config fun other => entriesOf other (past ++ [(who, .commit)]))
        (f.applied ++ [who]) w₀ =
      ((f.applied ++ [who]).map fun other =>
        entriesOf other (f.answers ++ [(who, .ended (.ok .committed))]), v') := by
    simp only [inTurn_snoc, lending.refused made ran, FilingCall.alone, entriesOf_self, again,
      List.map_append, List.map_cons, List.map_nil]
  have once : (f.applied ++ [who]).Nodup := by
    refine List.nodup_append.2 ⟨lending.once, List.pairwise_singleton _ _, ?_⟩
    rintro other member last there rfl
    exact new (List.mem_singleton.1 there ▸ member)
  have level' : Level fd (fun other => if other = who then (f.transactions who).ended
      [.locked, .validating, .applying, .finishing, .released] .committed else f.transactions other)
      w' v' := by
    by_cases busy : files.found = []
    · obtain ⟨same, same'⟩ := commits.idle busy
      refine ⟨commits.beside, commits.free', same' ▸ level.within, fun after => ?_⟩
      rw [same, same']
      exact level.settled (unlent (fun _ => borrower.working.found.trans busy) after)
    · obtain ⟨settled, within⟩ := commits.settled busy rfl
      exact ⟨commits.beside, commits.free', within, fun _ => settled⟩
  simp only [Session.turn, made, visited, unseen, not_false_eq_true, and_self, if_true]
  refine lending.next commits.passing commits.written commits.free (Or.inr ⟨rfl, ?_⟩)
    ⟨v', order, level'⟩ once ?_ (iff_of_true visited rfl) fun other ne => ?_
  · simp [FilingCall.ends]
  · simp only [visited, List.mem_append, List.mem_singleton, or_true]
  · simp only [List.mem_append, List.mem_singleton, ne, or_false]

/-- An end at which nothing is applied. -/
theorem gives_up (lending : Lending config fd id w₀ past f) {files : Files}
    (borrower : Borrower fd id (newTransaction config who) (entriesOf who past)
      (entriesOf who f.answers) (f.transactions who) files f.world)
    (ends : call.ends = true)
    (stale : call = .commit → files.access.validate f.world.versions = false)
    (undisturbed : Session.Undisturbed config w₀ fd past f (who, call)) :
    Lending config fd id w₀ (past ++ [(who, call)]) (f.turn (who, call)) := by
  obtain ⟨answer, visited, outcome, w', made, without, not, reverted⟩ :=
    borrower.gives_up lending.free ends stale
  have unseen := borrower.working.unseen
  have unapplied : .applying ∉ ((f.transactions who).ended visited outcome).visited := by
    simp only [Transaction.ended, unseen, List.nil_append]
    exact without
  have undecided : ((f.transactions who).ended visited outcome).outcome ≠ some .committed :=
    fun same => not (Option.some.inj same)
  refine lending.quiet made reverted.aside reverted.free ?_ ?_ (Or.inr ⟨rfl, ?_⟩)
    fun v ran level after => ?_
  · rw [unseen]
    exact iff_of_false unapplied List.not_mem_nil
  · exact iff_of_false unapplied undecided
  · simp [ends]
  · by_cases busy : files.found = []
    · rw [reverted.idle busy]
      exact level.settled (unlent (fun _ => borrower.working.found.trans busy) after)
    · obtain ⟨first, rest, found⟩ := List.exists_cons_of_ne_nil busy
      have found' : first ∈ files.found.head? := by rw [found]; rfl
      have here := undisturbed borrower.working.active ends
      simp only [Session.turn, made, if_true, if_neg unapplied, ran, borrower.working.found] at here
      obtain rfl := here first found'
      refine reverted.back lending.known _ found' ?_
      rw [← Filesystem.positionLimit_of_still (level.aside.files.written.still fd)]
      exact level.within

/-- **Every call keeps to the order of the commits.** -/
theorem turn (lending : Lending config fd id w₀ past f) (entry : TxId × FilingCall)
    (through : ∀ job, entry.2 = .work job → job.Through fd id w₀.files)
    (undisturbed : Session.Undisturbed config w₀ fd past f entry) :
    Lending config fd id w₀ (past ++ [entry]) (f.turn entry) := by
  obtain ⟨who, call⟩ := entry
  rcases lending.each who with ⟨files, borrower⟩ | ⟨gone, ended⟩
  · cases call with
    | work job => exact lending.works borrower (through job rfl)
    | commit =>
        cases valid : files.access.validate f.world.versions with
        | true => exact lending.commits borrower valid undisturbed
        | false => exact lending.gives_up borrower rfl (fun _ => valid) undisturbed
    | abort => exact lending.gives_up borrower rfl FilingCall.noConfusion undisturbed
    | drop => exact lending.gives_up borrower rfl FilingCall.noConfusion undisturbed
  · refine lending.quiet (FilingCall.perform_released gone call f.world) (.refl _ _) lending.free
      Iff.rfl (lending.committed who) (Or.inr ⟨gone, ?_⟩) fun v ran level after => level.settled ?_
    · simp only [List.any_append, ended, Bool.true_or]
    · refine unlent (fun active => ?_) after
      rw [gone] at active
      cases active

theorem start (config : TxId → Config) (fd : Nat) (id : ResourceId) (free : w.locks.Free)
    (known : (w.files.descriptors.get? fd).isSome)
    (within : w.files.position fd ≤ w.files.positionLimit fd) :
    Lending config fd id w [] (.start config w) where
  tree := .refl _
  known := known
  free := free
  order := ⟨w, rfl, .refl fd w, free, within, fun _ => rfl⟩
  once := .nil
  counted _ := iff_of_false List.not_mem_nil List.not_mem_nil
  committed _ := iff_of_false List.not_mem_nil fun same => by cases same
  each who := Or.inl ⟨{}, .start fd id config who w⟩

/-- After any part of a schedule that no end of it disturbs. -/
theorem run {schedule : List (TxId × FilingCall)} (free : w.locks.Free)
    (known : (w.files.descriptors.get? fd).isSome)
    (within : w.files.position fd ≤ w.files.positionLimit fd)
    (through : ∀ who job, (who, .work job) ∈ schedule → job.Through fd id w.files)
    (undisturbed : ∀ n (inside : n < schedule.length),
      Session.Undisturbed config w fd (schedule.take n)
        ((Session.start config w).turns (schedule.take n)) schedule[n])
    (n : Nat) (inside : n ≤ schedule.length) :
    Lending config fd id w (schedule.take n) ((Session.start config w).turns (schedule.take n)) := by
  induction n with
  | zero => exact .start config fd id free known within
  | succ n ih =>
      have next := (ih (Nat.le_of_succ_le inside)).turn schedule[n]
        (fun job same => through schedule[n].1 job (by rw [← same]; exact List.getElem_mem inside))
        (undisturbed n inside)
      rw [List.take_succ_eq_append_getElem inside, Session.turns, List.foldl_append]
      exact next

end Lending

/-! ## Every schedule -/

namespace Session

/-- A transaction that has no call in the schedule stays as it was. -/
theorem turns_absent {schedule : List (TxId × FilingCall)} {who : TxId}
    (absent : ∀ entry ∈ schedule, entry.1 ≠ who) (s : Session) :
    (s.turns schedule).transactions who = s.transactions who := by
  induction schedule generalizing s with
  | nil => rfl
  | cons entry rest ih =>
      have first := absent entry List.mem_cons_self
      refine (ih (fun later member => absent later (List.mem_cons_of_mem _ member)) _).trans ?_
      simp only [turn, if_neg first.symm]

/-- When all that made a call have ended. -/
theorem unlent_of_ended (config : TxId → Config) (schedule : List (TxId × FilingCall)) (w : World)
    (ended : ∀ entry ∈ schedule,
      (((start config w).turns schedule).transactions entry.1).phase = .released) :
    Unlent ((start config w).turns schedule).transactions := by
  intro who active
  by_cases present : ∃ entry ∈ schedule, entry.1 = who
  · obtain ⟨entry, member, rfl⟩ := present
    rw [ended entry member] at active
    cases active
  · rw [turns_absent (fun entry member same => present ⟨entry, member, same⟩)]
    rfl

/-- **Transactions that share a descriptor come to what they come to in the order of their commits**,
if none of their ends is disturbed: those that committed were answered as they are when they run one
after another, every file holds what it holds then, and when nobody at work has the descriptor any
more it is where it is left then, so where it was at first if nobody committed. -/
theorem run_lent (config : TxId → Config) (fd : Nat) (id : ResourceId)
    (schedule : List (TxId × FilingCall)) (w : World) (free : w.locks.Free)
    (known : (w.files.descriptors.get? fd).isSome)
    (within : w.files.position fd ≤ w.files.positionLimit fd)
    (through : ∀ who job, (who, .work job) ∈ schedule → job.Through fd id w.files)
    (undisturbed : ∀ n (inside : n < schedule.length),
      Undisturbed config w fd (schedule.take n) ((start config w).turns (schedule.take n))
        schedule[n]) :
    let session := (start config w).turns schedule
    let alone := inTurn (FilingCall.alone config fun who => entriesOf who schedule) session.applied w
    alone.1 = session.applied.map (fun who => entriesOf who session.answers) ∧
      (∀ path, alone.2.files.load path = session.world.files.load path) ∧
      (Unlent session.transactions →
        session.world.files.position fd = alone.2.files.position fd) ∧
      session.applied.Nodup ∧
      ∀ who, who ∈ session.applied ↔ (session.transactions who).outcome = some .committed := by
  have lending := Lending.run free known within through undisturbed schedule.length (Nat.le_refl _)
  rw [List.take_length] at lending
  obtain ⟨v, ran, level⟩ := lending.order
  intro session alone
  have world : alone = _ := ran
  rw [world]
  refine ⟨rfl, fun path => ?_, level.settled, lending.once,
    fun who => (lending.counted who).trans (lending.committed who)⟩
  exact level.aside.files.written.tree.load path fun inode => by
    rw [Filesystem.content, level.aside.files.contents, Filesystem.content]

/-- A descriptor at the beginning of a file. -/
def oneDescriptor : World :=
  { files :=
      { entries := ⟨[(["f"], .file 0)]⟩
        contents := ⟨[(0, .ofBytes [1, 2, 3, 4, 5, 6])]⟩
        nextInode := 1
        descriptors := ⟨[(0, { inode := some 0, readable := true, writable := true })]⟩
        nextDescriptor := 1 } }

/-- The first two have the descriptor at the same time and read; the first gives up, the second writes
and commits, and a third goes on where the second left it. -/
def threeBorrowers : List (TxId × FilingCall) :=
  let first : TxId := ⟨1, "first"⟩
  let second : TxId := ⟨2, "second"⟩
  let third : TxId := ⟨3, "third"⟩
  [(first, .work (.adopt 0 "/f")),
    (second, .work (.adopt 0 "/f")),
    (first, .work (.plain (.read ⟨0⟩ 2))),
    (second, .work (.plain (.read ⟨0⟩ 1))),
    (first, .abort),
    (second, .work (.plain (.write ⟨0⟩ [8, 9]))),
    (second, .commit),
    (third, .work (.adopt 0 "/f")),
    (third, .work (.plain (.read ⟨0⟩ 2))),
    (third, .commit)]

/-- The second and the third commit, and leave the descriptor at 5. -/
theorem run_lent_threeBorrowers :
    let session := (start (fun _ => {}) oneDescriptor).turns threeBorrowers
    let alone := inTurn (FilingCall.alone (fun _ => {}) fun who => entriesOf who threeBorrowers)
      session.applied oneDescriptor
    session.applied.map (·.serial) = [2, 3] ∧ session.world.files.position 0 = 5 ∧
      alone.1 = session.applied.map (fun who => entriesOf who session.answers) ∧
      alone.2.files.position 0 = 5 := by
  have through : ∀ who job, (who, FilingCall.work job) ∈ threeBorrowers →
      job.Through 0 (Files.resource oneDescriptor.files "/f") oneDescriptor.files := by
    intro who job member
    simp only [threeBorrowers, List.mem_cons, Prod.mk.injEq, FilingCall.work.injEq, reduceCtorEq,
      and_false, false_or, or_false, List.not_mem_nil] at member
    rcases member with ⟨-, rfl⟩ | ⟨-, rfl⟩ | ⟨-, rfl⟩ | ⟨-, rfl⟩ | ⟨-, rfl⟩ | ⟨-, rfl⟩ | ⟨-, rfl⟩ <;>
      simp [Filing.Through]
  have undisturbed : ∀ n (inside : n < threeBorrowers.length),
      Undisturbed (fun _ => {}) oneDescriptor 0 (threeBorrowers.take n)
        ((start (fun _ => {}) oneDescriptor).turns (threeBorrowers.take n)) threeBorrowers[n] := by
    decide +kernel
  obtain ⟨answers, -, settled, -, -⟩ :=
    run_lent (fun _ => {}) 0 _ threeBorrowers oneDescriptor (fun _ => rfl) (by decide) (by decide)
      through undisturbed
  have position : ((start (fun _ => {}) oneDescriptor).turns threeBorrowers).world.files.position 0 =
      5 := by
    decide +kernel
  have ended := unlent_of_ended (fun _ => {}) threeBorrowers oneDescriptor (by decide +kernel)
  exact ⟨by decide +kernel, position, answers, (settled ended).symm.trans position⟩

end Session

end Transact
