/-
# Transact.Proofs.FirstCommitter -- of two that overlap, one comes first

`Sound` is what every schedule keeps to.  For each transaction it relates its locks, its snapshots
and the counters to what has happened so far (`Local`): a resource it observed is locked before it
passes, a resource it publishes is published before its lock is released, and a counter is past a
snapshot once somebody has published since.  For two transactions it says that one lock is taken by
the second only after the first released it.

Main statement: `run_first_committer`.
-/
import Mathlib.Data.List.Basic
import Transact.Proofs.Contention

namespace Transact.Contention

set_option autoImplicit false

/-! ## The order of events -/

/-- `x` happened, and `y` later. -/
def Before (x y : Event) (h : List Event) : Prop := h.idxOf x < h.idxOf y ∧ y ∈ h

section Order

variable {x y z e : Event} {h : List Event}

theorem Before.mem_left (before : Before x y h) : x ∈ h :=
  List.idxOf_lt_length_iff.1 (Nat.lt_trans before.1 (List.idxOf_lt_length_iff.2 before.2))

theorem Before.trans (first : Before x y h) (second : Before y z h) : Before x z h :=
  ⟨Nat.lt_trans first.1 second.1, second.2⟩

theorem not_before_of_notMem (absent : x ∉ h) : ¬ Before x y h :=
  fun before => absent before.mem_left

/-- A new event comes after all others. -/
theorem before_snoc (new : e ∉ h) : Before x y (h ++ [e]) ↔ Before x y h ∨ x ∈ h ∧ y = e := by
  by_cases left : x ∈ h
  · have inside := List.idxOf_lt_length_iff.2 left
    by_cases right : y ∈ h
    · have other : y ≠ e := fun same => new (same ▸ right)
      simp [Before, List.idxOf_append, left, right, other]
    · by_cases same : y = e
      · subst same
        refine ⟨fun _ => Or.inr ⟨left, rfl⟩, fun _ => ⟨?_, by simp⟩⟩
        rw [List.idxOf_append, if_pos left, List.idxOf_append, if_neg right]
        omega
      · simp [Before, List.idxOf_append, left, right, same]
  · constructor
    · intro before
      have last : x = e := by
        rcases List.mem_append.1 before.mem_left with here | there
        · exact absurd here left
        · exact List.mem_singleton.1 there
      subst last
      rcases List.mem_append.1 before.2 with here | there
      · have inside := List.idxOf_lt_length_iff.2 here
        have earlier := before.1
        simp only [List.idxOf_append, left, here, if_true, if_false] at earlier
        omega
      · exact absurd before.1 (by rw [List.mem_singleton.1 there]; exact Nat.lt_irrefl _)
    · rintro (before | ⟨here, -⟩)
      · exact absurd before (not_before_of_notMem left)
      · exact absurd here left

theorem Before.snoc (before : Before x y h) (new : e ∉ h) : Before x y (h ++ [e]) :=
  (before_snoc new).2 (Or.inl before)

theorem Before.of_snoc (before : Before x y (h ++ [e])) (new : e ∉ h) (other : y ≠ e) :
    Before x y h :=
  ((before_snoc new).1 before).resolve_right fun last => other last.2

end Order

/-! ## What a transaction keeps to -/

def Event.tx : Event → TxId
  | .observed tx _ | .acquired tx _ | .passed tx | .published tx _ | .released tx _ => tx

/-- The resources whose locks an agent holds. -/
def Agent.heldKeys (g : Agent) : List ResourceKey := g.held.ids.map ResourceId.key

/-- Nothing is decided yet. -/
structure Undecided (h : List Event) (a : TxId) : Prop where
  passed : .passed a ∉ h
  published : ∀ k, .published a k ∉ h
  released : ∀ k, .released a k ∉ h

theorem Undecided.snoc {h : List Event} {a : TxId} {e : Event} (quiet : Undecided h a)
    (passed : .passed a ≠ e) (published : ∀ k, .published a k ≠ e)
    (released : ∀ k, .released a k ≠ e) : Undecided (h ++ [e]) a where
  passed := by simp [quiet.passed, passed]
  published k := by simp [quiet.published k, published k]
  released k := by simp [quiet.released k, released k]

/-- Everything observed is locked. -/
def AllLocked (g : Agent) : Prop := ∀ k ∈ g.access.observed.keys, k ∈ g.heldKeys

/-- What holds of the transaction `a` where it stands. -/
def AtStage (h : List Event) (v : VersionTable) (a : TxId) (g : Agent) : Prop :=
  match g.stage with
  | .body => Undecided h a ∧ g.held.ids = []
  | .locking todo =>
      Undecided h a ∧
        ∀ k ∈ g.access.observed.keys, k ∈ g.heldKeys ∨ k ∈ todo.map ResourceId.key
  | .validating todo =>
      Undecided h a ∧ AllLocked g ∧
        ∀ e ∈ g.access.observed.values, e ∈ todo ∨ v.current e.1 = e.2
  | .publishing todo =>
      .passed a ∈ h ∧ (∀ k, .released a k ∉ h) ∧ AllLocked g ∧ (todo.map ResourceId.key).Nodup ∧
        (∀ k ∈ todo.map ResourceId.key, k ∈ g.access.written.keys ∧ .published a k ∉ h) ∧
        ∀ k ∈ g.access.written.keys, .published a k ∈ h ∨ k ∈ todo.map ResourceId.key
  | .releasing => .passed a ∈ h → ∀ k ∈ g.access.written.keys, .published a k ∈ h
  | .ended => g.held.ids = []

/-- What the transaction `a` keeps to, whatever the others do. -/
structure Local (h : List Event) (v : VersionTable) (l : LockTable) (a : TxId) (g : Agent) :
    Prop where
  keyed : g.access.Keyed
  observed : ∀ k, .observed a k ∈ h ↔ k ∈ g.access.observed.keys
  heldOnce : g.heldKeys.Nodup
  holder : ∀ k, l.holderOf k = some a ↔ k ∈ g.heldKeys
  acquired : ∀ k, .acquired a k ∈ h ↔ k ∈ g.heldKeys ∨ .released a k ∈ h
  released : ∀ k, .released a k ∈ h → k ∉ g.heldKeys
  stage : AtStage h v a g
  lockedFirst : .passed a ∈ h → ∀ k ∈ g.access.observed.keys,
    Before (.acquired a k) (.passed a) h
  publishedFirst : .passed a ∈ h → ∀ k ∈ g.access.written.keys, .released a k ∈ h →
    Before (.published a k) (.released a k) h
  seen : ∀ id version, g.access.snapshot id = some version → version ≤ v.current id
  stale : ∀ id version b, g.access.snapshot id = some version →
    Before (.observed a id.key) (.published b id.key) h → version < v.current id

/-- What every schedule keeps to. -/
structure Sound (h : List Event) (f : Floor) : Prop where
  once : h.Nodup
  each : ∀ a, Local h f.versions f.locks a (f.agents a)
  /-- A lock is taken by another only after it was given back. -/
  exclusive : ∀ a b k, a ≠ b → Before (.acquired a k) (.acquired b k) h →
    Before (.released a k) (.acquired b k) h
  /-- Whoever passed did so before anything it had observed was published. -/
  fresh : ∀ a b k, Before (.observed b k) (.published a k) h → .passed b ∈ h →
    Before (.passed b) (.published a k) h

/-! ### What others do -/

/-- A step of another transaction changes nothing of what holds here, where it counts up no resource
locked here. -/
theorem Local.frame {h h' : List Event} {v v' : VersionTable} {l l' : LockTable} {a : TxId}
    {g : Agent} (here : Local h v l a g)
    (events : ∀ x : Event, x.tx = a → (x ∈ h' ↔ x ∈ h))
    (order : ∀ x y, Before x y h → Before x y h')
    (locks : ∀ k, l'.holderOf k = some a ↔ l.holderOf k = some a)
    (kept : ∀ id, id.key ∈ g.heldKeys → v'.current id = v.current id)
    (grown : ∀ id, v.current id ≤ v'.current id)
    (counted : ∀ id b, Before (.observed a id.key) (.published b id.key) h' →
      Before (.observed a id.key) (.published b id.key) h ∨ v.current id < v'.current id) :
    Local h' v' l' a g := by
  have undecided : Undecided h a → Undecided h' a := by
    intro quiet
    refine ⟨?_, ?_, ?_⟩
    · exact fun m => quiet.passed ((events _ rfl).1 m)
    · exact fun k m => quiet.published k ((events _ rfl).1 m)
    · exact fun k m => quiet.released k ((events _ rfl).1 m)
  refine
    { keyed := here.keyed
      observed := fun k => (events _ rfl).trans (here.observed k)
      heldOnce := here.heldOnce
      holder := fun k => (locks k).trans (here.holder k)
      acquired := ?acquired
      released := fun k m => here.released k ((events _ rfl).1 m)
      stage := ?stage
      lockedFirst := ?lockedFirst
      publishedFirst := ?publishedFirst
      seen := fun id version noted => Nat.le_trans (here.seen id version noted) (grown id)
      stale := ?stale }
  case acquired =>
    intro k
    rw [events _ rfl, events _ rfl]
    exact here.acquired k
  case stage =>
    have stage := here.stage
    unfold AtStage at stage ⊢
    split at stage
    · exact ⟨undecided stage.1, stage.2⟩
    · exact ⟨undecided stage.1, stage.2⟩
    · obtain ⟨quiet, locked, checked⟩ := stage
      refine ⟨undecided quiet, locked, ?_⟩
      intro e member
      refine (checked e member).imp_right ?_
      intro same
      obtain ⟨⟨k, entry⟩, there, rfl⟩ := List.mem_map.1 member
      have under : entry.1.key = k := here.keyed.observed _ there
      rw [kept entry.1 (locked _ (List.mem_map.2 ⟨_, there, under.symm⟩)), same]
    · obtain ⟨passed, quiet, locked, onceTodo, todo, done⟩ := stage
      refine ⟨(events _ rfl).2 passed, ?_, locked, onceTodo, ?_, ?_⟩
      · exact fun k m => quiet k ((events _ rfl).1 m)
      · exact fun k m => ⟨(todo k m).1, fun p => (todo k m).2 ((events _ rfl).1 p)⟩
      · exact fun k m => (done k m).imp_left (events _ rfl).2
    · exact fun passed k m => (events _ rfl).2 (stage ((events _ rfl).1 passed) k m)
    · exact stage
  case lockedFirst =>
    intro passed k m
    exact order _ _ (here.lockedFirst ((events _ rfl).1 passed) k m)
  case publishedFirst =>
    intro passed k written m
    exact order _ _ (here.publishedFirst ((events _ rfl).1 passed) k written ((events _ rfl).1 m))
  case stale =>
    intro id version b noted before
    rcases counted id b before with earlier | more
    · exact Nat.lt_of_lt_of_le (here.stale id version b noted earlier) (grown id)
    · exact Nat.lt_of_le_of_lt (here.seen id version noted) more

/-! ### One step -/

section Step

variable {h : List Event} {v : VersionTable} {l : LockTable} {a : TxId} {g : Agent} {f : Floor}

/-- To go on without an event is to be where one goes. -/
theorem Local.turn (here : Local h v l a g) {stage : Stage} {l' : LockTable}
    (locks : ∀ k, l'.holderOf k = l.holderOf k) (at_ : AtStage h v a { g with stage }) :
    Local h v l' a { g with stage } where
  keyed := here.keyed
  observed := here.observed
  heldOnce := here.heldOnce
  holder k := by rw [locks]; exact here.holder k
  acquired := here.acquired
  released := here.released
  stage := at_
  lockedFirst := here.lockedFirst
  publishedFirst := here.publishedFirst
  seen := here.seen
  stale := here.stale

/-- A step without an event keeps to everything where its transaction does. -/
theorem Sound.silent (sound : Sound h f) (a : TxId) {g' : Agent} {l' : LockTable}
    (locks : ∀ k, l'.holderOf k = f.locks.holderOf k) (own : Local h f.versions l' a g') :
    Sound h ((f.withLocks l').put a g') := by
  refine ⟨sound.once, fun b => ?_, sound.exclusive, sound.fresh⟩
  by_cases same : b = a
  · subst same
    rw [put_agents]
    exact own
  · rw [put_agents_of_ne _ same]
    have here := sound.each b
    exact { here with
      holder := fun k => (iff_of_eq (congrArg (· = some b) (locks k))).trans (here.holder k) }

theorem Sound.turn (sound : Sound h f) (a : TxId) (stage : Stage)
    (at_ : AtStage h f.versions a { f.agents a with stage }) :
    Sound h (f.put a { f.agents a with stage }) :=
  sound.silent a (fun _ => rfl) ((sound.each a).turn (fun _ => rfl) at_)

/-- What a new event of `a` leaves, where it keeps what `a` keeps to: the others hold what they held,
a counter goes up where something was published, and a lock was free and a snapshot current where
the event says so. -/
theorem Sound.happened (sound : Sound h f) {e : Event} {f' : Floor} (new : e ∉ h)
    (own : Local (h ++ [e]) f'.versions f'.locks e.tx (f'.agents e.tx))
    (rest : ∀ b, b ≠ e.tx → f'.agents b = f.agents b)
    (locks : ∀ b k, b ≠ e.tx → (f'.locks.holderOf k = some b ↔ f.locks.holderOf k = some b))
    (kept : ∀ b id, b ≠ e.tx → id.key ∈ (f.agents b).heldKeys →
      f'.versions.current id = f.versions.current id)
    (grown : ∀ id, f.versions.current id ≤ f'.versions.current id)
    (counted : ∀ b id, .published b id.key = e → f.versions.current id < f'.versions.current id)
    (taken : ∀ b c k, b ≠ c → .acquired c k = e → .acquired b k ∈ h → .released b k ∈ h)
    (valid : ∀ b c k, .passed b = e → ¬ Before (.observed b k) (.published c k) h) :
    Sound (h ++ [e]) f' := by
  refine ⟨?once, ?each, ?exclusive, ?fresh⟩
  case once =>
    refine List.nodup_append.2 ⟨sound.once, List.pairwise_singleton _ _, ?_⟩
    rintro x here y there rfl
    exact new (List.mem_singleton.1 there ▸ here)
  case each =>
    intro b
    by_cases same : b = e.tx
    · rw [same]
      exact own
    · rw [rest b same]
      refine (sound.each b).frame ?_ (fun x y before => before.snoc new)
        (fun k => locks b k same) (fun id held => kept b id same held) grown ?_
      · intro x mine
        have other : x ≠ e := by
          rintro rfl
          exact same mine.symm
        simp [other]
      · intro id c before
        exact ((before_snoc new).1 before).imp_right fun last => counted c id last.2
  case exclusive =>
    intro b c k ne before
    rcases (before_snoc new).1 before with earlier | ⟨first, last⟩
    · exact (sound.exclusive b c k ne earlier).snoc new
    · exact (before_snoc new).2 (Or.inr ⟨taken b c k ne last first, last⟩)
  case fresh =>
    intro b c k before passed
    rcases List.mem_append.1 passed with earlier | now
    · rcases (before_snoc new).1 before with old | ⟨-, last⟩
      · exact (sound.fresh b c k old earlier).snoc new
      · exact (before_snoc new).2 (Or.inr ⟨earlier, last⟩)
    · have now := List.mem_singleton.1 now
      rcases (before_snoc new).1 before with old | ⟨-, last⟩
      · exact absurd old (valid c b k now)
      · cases last.trans now.symm

/-! ### The five events -/

/-- Touching again what was touched before. -/
theorem Local.touchAgain (here : Local h v l a g) (body : g.stage = .body) {access : AccessSet}
    (keyed : access.Keyed) (same : access.observed = g.access.observed) :
    Local h v l a { g with access } := by
  have stage := here.stage
  simp only [AtStage, body] at stage
  have noted : ∀ id, access.snapshot id = g.access.snapshot id := by
    intro id
    rw [AccessSet.snapshot, AccessSet.snapshot, same]
  exact
    { here with
      keyed
      observed := by rw [same]; exact here.observed
      stage := by simpa only [AtStage, body] using stage
      lockedFirst := fun passed => absurd passed stage.1.passed
      publishedFirst := fun passed => absurd passed stage.1.passed
      seen := fun id version seen => here.seen id version ((noted id).symm.trans seen)
      stale := fun id version b seen => here.stale id version b ((noted id).symm.trans seen) }

/-- Touching a resource for the first time notes the version in force. -/
theorem Local.touch (here : Local h v l a g) (body : g.stage = .body) {access : AccessSet}
    (keyed : access.Keyed) {id : ResourceId} (new : id.key ∉ g.access.observed.keys)
    (same : access.observed = g.access.observed.set id.key (id, v.current id)) :
    Local (h ++ [.observed a id.key]) v l a { g with access } := by
  have stage := here.stage
  simp only [AtStage, body] at stage
  have absent : .observed a id.key ∉ h := fun m => new ((here.observed _).1 m)
  have fresh : g.access.observed.contains id.key = false := by
    rw [← Bool.not_eq_true, Table.contains_iff]
    exact new
  have keys : access.observed.keys = g.access.observed.keys ++ [id.key] := by
    rw [same]
    simp only [Table.keys, Table.entries_set_of_absent fresh, List.map_append, List.map_cons,
      List.map_nil]
  have noted : ∀ other version, access.snapshot other = some version →
      (other.key = id.key ∧ version = v.current other) ∨
        other.key ≠ id.key ∧ g.access.snapshot other = some version := by
    intro other version seen
    by_cases here : other.key = id.key
    · refine Or.inl ⟨here, ?_⟩
      rw [AccessSet.snapshot, same, here, Table.get?_set_self] at seen
      rw [AccessSet.current_congr v here]
      exact (Option.some.inj seen).symm
    · refine Or.inr ⟨here, ?_⟩
      rwa [AccessSet.snapshot, same, Table.get?_set_of_ne _ _ here] at seen
  have undecided : Undecided (h ++ [.observed a id.key]) a := stage.1.snoc (by simp) (by simp) (by simp)
  refine
    { keyed
      observed := ?observed
      heldOnce := here.heldOnce
      holder := here.holder
      acquired := ?acquired
      released := fun k m => absurd m (undecided.released k)
      stage := ?stage
      lockedFirst := fun passed => absurd passed undecided.passed
      publishedFirst := fun passed => absurd passed undecided.passed
      seen := ?seen
      stale := ?stale }
  case observed =>
    intro k
    rw [keys, List.mem_append, List.mem_append, List.mem_singleton, List.mem_singleton,
      here.observed k]
    simp
  case acquired =>
    intro k
    simpa [Agent.heldKeys] using here.acquired k
  case stage =>
    simp only [AtStage, body]
    exact ⟨undecided, stage.2⟩
  case seen =>
    intro other version seen
    rcases noted other version seen with ⟨-, rfl⟩ | ⟨-, old⟩
    · exact Nat.le_refl _
    · exact here.seen other version old
  case stale =>
    intro other version b seen before
    have earlier := before.of_snoc absent (by simp)
    rcases noted other version seen with ⟨under, -⟩ | ⟨-, old⟩
    · exact absurd ((here.observed _).1 earlier.mem_left) (by rw [under]; exact new)
    · exact here.stale other version b old earlier

/-- Taking a lock. -/
theorem Local.take (here : Local h v l a g) {id : ResourceId} {rest : List ResourceId}
    {l' : LockTable} (locking : g.stage = .locking (id :: rest)) (new : id.key ∉ g.heldKeys)
    (taken : l.acquire id a = (true, l')) :
    Local (h ++ [.acquired a id.key]) v l' a
      { g with held := ⟨id :: g.held.ids⟩, stage := .locking rest } := by
  have stage := here.stage
  simp only [AtStage, locking] at stage
  obtain ⟨quiet, todo⟩ := stage
  have absent : .acquired a id.key ∉ h := fun m =>
    ((here.acquired _).1 m).elim new (quiet.released _)
  have undecided : Undecided (h ++ [.acquired a id.key]) a := quiet.snoc (by simp) (by simp) (by simp)
  have held : ({ g with held := ⟨id :: g.held.ids⟩, stage := .locking rest } : Agent).heldKeys =
      id.key :: g.heldKeys := rfl
  refine
    { keyed := here.keyed
      observed := fun k => by simpa using here.observed k
      heldOnce := by rw [held]; exact List.nodup_cons.2 ⟨new, here.heldOnce⟩
      holder := ?holder
      acquired := ?acquired
      released := fun k m => absurd m (undecided.released k)
      stage := ?stage
      lockedFirst := fun passed => absurd passed undecided.passed
      publishedFirst := fun passed => absurd passed undecided.passed
      seen := here.seen
      stale := fun other version b seen before =>
        here.stale other version b seen (before.of_snoc absent (by simp)) }
  case holder =>
    intro k
    rw [held, (LockTable.acquire_true taken).2 k, List.mem_cons]
    split
    · rename_i same
      simp [same]
    · rename_i other
      rw [here.holder k]
      simp [other]
  case acquired =>
    intro k
    rw [held, List.mem_append, List.mem_append, List.mem_singleton, List.mem_cons,
      List.mem_singleton, here.acquired k]
    simp only [Event.acquired.injEq, true_and, reduceCtorEq, or_false]
    constructor
    · rintro ((there | gone) | same)
      · exact Or.inl (Or.inr there)
      · exact Or.inr gone
      · exact Or.inl (Or.inl same)
    · rintro ((same | there) | gone)
      · exact Or.inr same
      · exact Or.inl (Or.inl there)
      · exact Or.inl (Or.inr gone)
  case stage =>
    simp only [AtStage]
    refine ⟨undecided, ?_⟩
    intro k m
    rw [held, List.mem_cons]
    rcases todo k m with there | waiting
    · exact Or.inl (Or.inr there)
    · rcases List.mem_cons.1 waiting with same | later
      · exact Or.inl (Or.inl same)
      · exact Or.inr later

/-- Finding every version current. -/
theorem Local.pass (here : Local h v l a g) (validating : g.stage = .validating []) :
    Local (h ++ [.passed a]) v l a { g with stage := .publishing g.access.writtenIds } := by
  have stage := here.stage
  simp only [AtStage, validating] at stage
  obtain ⟨quiet, locked, -⟩ := stage
  have unpublished : ∀ k, .published a k ∉ h ++ [.passed a] := by
    intro k
    simp [quiet.published k]
  have unreleased : ∀ k, .released a k ∉ h ++ [.passed a] := by
    intro k
    simp [quiet.released k]
  refine
    { keyed := here.keyed
      observed := fun k => by simpa using here.observed k
      heldOnce := here.heldOnce
      holder := here.holder
      acquired := fun k => by simpa [Agent.heldKeys] using here.acquired k
      released := fun k m => absurd m (unreleased k)
      stage := ?stage
      lockedFirst := ?lockedFirst
      publishedFirst := fun _ k _ m => absurd m (unreleased k)
      seen := here.seen
      stale := fun other version b seen before =>
        here.stale other version b seen (before.of_snoc quiet.passed (by simp)) }
  case stage =>
    simp only [AtStage, AccessSet.keys_written here.keyed]
    exact ⟨by simp, unreleased, locked, here.keyed.writtenOnce,
      fun k m => ⟨m, unpublished k⟩, fun k m => Or.inr m⟩
  case lockedFirst =>
    intro _ k m
    exact (before_snoc quiet.passed).2 (Or.inr ⟨(here.acquired k).2 (Or.inl (locked k m)), rfl⟩)

/-- Counting a resource up. -/
theorem Local.publish (here : Local h v l a g) {id : ResourceId} {rest : List ResourceId}
    (publishing : g.stage = .publishing (id :: rest)) :
    Local (h ++ [.published a id.key]) (v.bump id) l a { g with stage := .publishing rest } := by
  have stage := here.stage
  simp only [AtStage, publishing] at stage
  obtain ⟨passed, unreleased, locked, onceTodo, todo, done⟩ := stage
  obtain ⟨notLater, onceRest⟩ := List.nodup_cons.1 onceTodo
  have absent : .published a id.key ∉ h := (todo _ List.mem_cons_self).2
  have unreleased' : ∀ k, .released a k ∉ h ++ [.published a id.key] := by
    intro k
    simp [unreleased k]
  have grown : ∀ other, v.current other ≤ (v.bump id).current other := by
    intro other
    rw [AccessSet.current_bump]
    exact Nat.le_add_right ..
  refine
    { keyed := here.keyed
      observed := fun k => by simpa using here.observed k
      heldOnce := here.heldOnce
      holder := here.holder
      acquired := fun k => by simpa [Agent.heldKeys] using here.acquired k
      released := fun k m => absurd m (unreleased' k)
      stage := ?stage
      lockedFirst := fun _ k m => (here.lockedFirst passed k m).snoc absent
      publishedFirst := fun _ k _ m => absurd m (unreleased' k)
      seen := fun other version seen => Nat.le_trans (here.seen other version seen) (grown other)
      stale := ?stale }
  case stage =>
    simp only [AtStage]
    refine ⟨List.mem_append_left _ passed, unreleased', locked, onceRest, ?_, ?_⟩
    · intro k m
      refine ⟨(todo k (List.mem_cons_of_mem _ m)).1, ?_⟩
      intro out
      rcases List.mem_append.1 out with old | now
      · exact (todo k (List.mem_cons_of_mem _ m)).2 old
      · cases List.mem_singleton.1 now
        exact notLater m
    · intro k m
      rcases done k m with out | waiting
      · exact Or.inl (List.mem_append_left _ out)
      · rcases List.mem_cons.1 waiting with rfl | later
        · exact Or.inl (List.mem_append_right _ List.mem_cons_self)
        · exact Or.inr later
  case stale =>
    intro other version b seen before
    rcases (before_snoc absent).1 before with earlier | ⟨-, now⟩
    · exact Nat.lt_of_lt_of_le (here.stale other version b seen earlier) (grown other)
    · rw [AccessSet.current_bump, if_pos (Event.published.inj now).2]
      exact Nat.lt_succ_of_le (here.seen other version seen)

/-- Giving a lock back. -/
theorem Local.free (here : Local h v l a g) {id : ResourceId} {rest : List ResourceId}
    (releasing : g.stage = .releasing) (held : g.held.ids = id :: rest) :
    Local (h ++ [.released a id.key]) v (l.release id a).2 a { g with held := ⟨rest⟩ } := by
  have stage := here.stage
  simp only [AtStage, releasing] at stage
  have keys : g.heldKeys = id.key :: rest.map ResourceId.key := by
    rw [Agent.heldKeys, held, List.map_cons]
  have mine : id.key ∈ g.heldKeys := by
    rw [keys]
    exact List.mem_cons_self
  obtain ⟨notLater, onceRest⟩ := List.nodup_cons.1 (keys ▸ here.heldOnce)
  have absent : .released a id.key ∉ h := fun m => here.released _ m mine
  have owner : l.holder id = some a := (here.holder id.key).2 mine
  have passedBefore : .passed a ∈ h ++ [.released a id.key] → .passed a ∈ h := by simp
  refine
    { keyed := here.keyed
      observed := fun k => by simpa using here.observed k
      heldOnce := onceRest
      holder := ?holder
      acquired := ?acquired
      released := ?released
      stage := ?stage
      lockedFirst := fun passed k m => (here.lockedFirst (passedBefore passed) k m).snoc absent
      publishedFirst := ?publishedFirst
      seen := here.seen
      stale := fun other version b seen before =>
        here.stale other version b seen (before.of_snoc absent (by simp)) }
  case holder =>
    intro k
    rw [LockTable.holderOf_release owner]
    split
    · rename_i same
      rw [same]
      exact ⟨fun unheld => (by cases unheld), fun later => absurd later notLater⟩
    · rename_i other
      rw [here.holder k, keys, List.mem_cons]
      exact ⟨fun either => either.resolve_left other, Or.inr⟩
  case acquired =>
    intro k
    rw [List.mem_append, List.mem_append, List.mem_singleton, List.mem_singleton, here.acquired k,
      keys, List.mem_cons]
    simp only [Event.released.injEq, true_and, reduceCtorEq, or_false]
    constructor
    · rintro ((same | later) | gone)
      · exact Or.inr (Or.inr same)
      · exact Or.inl later
      · exact Or.inr (Or.inl gone)
    · rintro (later | gone | same)
      · exact Or.inl (Or.inr later)
      · exact Or.inr gone
      · exact Or.inl (Or.inl same)
  case released =>
    intro k m
    rcases List.mem_append.1 m with old | now
    · intro later
      exact here.released k old (by rw [keys]; exact List.mem_cons_of_mem _ later)
    · rw [(Event.released.inj (List.mem_singleton.1 now)).2]
      exact notLater
  case stage =>
    simp only [AtStage, releasing]
    intro passed k m
    exact List.mem_append_left _ (stage (passedBefore passed) k m)
  case publishedFirst =>
    intro passed k written m
    rcases List.mem_append.1 m with old | now
    · exact (here.publishedFirst (passedBefore passed) k written old).snoc absent
    · exact (before_snoc absent).2
        (Or.inr ⟨stage (passedBefore passed) k written, List.mem_singleton.1 now⟩)

/-! ### Every step -/

/-- A lock has one holder. -/
theorem Sound.apart (sound : Sound h f) {a b : TxId} {k : ResourceKey} (ne : b ≠ a)
    (mine : k ∈ (f.agents a).heldKeys) : f.locks.holderOf k ≠ some b := by
  intro other
  have owner := ((sound.each a).holder k).2 mine
  exact ne (Option.some.inj (other.symm.trans owner))

theorem Sound.touch (sound : Sound h f) {a : TxId} (id : ResourceId)
    (body : (f.agents a).stage = .body) {access : AccessSet} (keyed : access.Keyed)
    (same : access.observed = ((f.agents a).access.observe f.versions id).observed) :
    Sound (h ++ if (f.agents a).access.observed.contains id.key then []
        else [.observed a id.key])
      (f.put a { f.agents a with access }) := by
  have here := sound.each a
  cases known : (f.agents a).access.observed.contains id.key with
  | true =>
      rw [if_pos rfl, List.append_nil]
      rw [AccessSet.observe_known known] at same
      exact sound.silent a (fun _ => rfl) (here.touchAgain body keyed same)
  | false =>
      rw [if_neg (by decide)]
      rw [AccessSet.observe_new known] at same
      have new : id.key ∉ (f.agents a).access.observed.keys := by
        rw [← Table.contains_iff, known]
        decide
      refine sound.happened (fun m => new ((here.observed _).1 m)) ?_
        (fun b ne => put_agents_of_ne _ ne _) (fun _ _ _ => Iff.rfl) (fun _ _ _ _ => rfl)
        (fun _ => Nat.le_refl _) (fun _ _ same => by cases same) (fun _ _ _ _ same => by cases same)
        (fun _ _ _ same => by cases same)
      simp only [Event.tx, put_agents]
      exact here.touch body keyed new same

theorem Sound.take (sound : Sound h f) {a : TxId} {id : ResourceId} {rest : List ResourceId}
    {l' : LockTable} (locking : (f.agents a).stage = .locking (id :: rest))
    (new : id.key ∉ (f.agents a).heldKeys) (taken : f.locks.acquire id a = (true, l')) :
    Sound (h ++ [.acquired a id.key]) ((f.withLocks l').put a
      { f.agents a with held := ⟨id :: (f.agents a).held.ids⟩, stage := .locking rest }) := by
  have here := sound.each a
  have quiet : Undecided h a := by
    have stage := here.stage
    simp only [AtStage, locking] at stage
    exact stage.1
  obtain ⟨free, locks⟩ := LockTable.acquire_true taken
  -- nobody else holds the lock, so whoever acquired it has released it
  have nobody : ∀ b, b ≠ a → f.locks.holderOf id.key ≠ some b := by
    intro b ne other
    rcases free with unheld | mine
    · cases unheld.symm.trans other
    · exact ne (Option.some.inj (other.symm.trans mine))
  refine sound.happened
    (fun m => ((here.acquired _).1 m).elim new (quiet.released _)) ?_
    (fun b ne => put_agents_of_ne _ ne _) (fun b k ne => ?_) (fun _ _ _ _ => rfl)
    (fun _ => Nat.le_refl _) (fun _ _ same => by cases same) (fun b c k ne same before => ?_)
    (fun _ _ _ same => by cases same)
  · simp only [Event.tx, put_agents]
    exact here.take locking new taken
  · rw [put_locks, show (f.withLocks l').locks = l' from rfl, locks k]
    split
    · rename_i same
      rw [same]
      exact ⟨fun mine => absurd (Option.some.inj mine).symm ne, fun other => absurd other (nobody b ne)⟩
    · exact Iff.rfl
  · obtain ⟨rfl, rfl⟩ := Event.acquired.inj same
    refine (((sound.each b).acquired _).1 before).resolve_left ?_
    intro held
    exact nobody b ne (((sound.each b).holder _).2 held)

theorem Sound.pass (sound : Sound h f) {a : TxId} (validating : (f.agents a).stage = .validating []) :
    Sound (h ++ [.passed a]) (f.put a
      { f.agents a with stage := .publishing (f.agents a).access.writtenIds }) := by
  have here := sound.each a
  have stage := here.stage
  simp only [AtStage, validating] at stage
  obtain ⟨quiet, -, checked⟩ := stage
  refine sound.happened quiet.passed ?_ (fun b ne => put_agents_of_ne _ ne _)
    (fun _ _ _ => Iff.rfl) (fun _ _ _ _ => rfl) (fun _ => Nat.le_refl _)
    (fun _ _ same => by cases same) (fun _ _ _ _ same => by cases same)
    (fun b c k same before => ?_)
  · simp only [Event.tx, put_agents]
    exact here.pass validating
  · obtain rfl := Event.passed.inj same
    -- a snapshot that was found current has not been published since
    have noted := (here.observed k).1 before.mem_left
    obtain ⟨⟨_, id, version⟩, member, rfl⟩ := List.mem_map.1 noted
    have under : id.key = _ := here.keyed.observed _ member
    have current : f.versions.current id = version :=
      (checked (id, version) (List.mem_map_of_mem member)).resolve_left List.not_mem_nil
    have snapshot : (f.agents b).access.snapshot id = some version :=
      (AccessSet.snapshot_iff here.keyed).2 ⟨id, by rw [under]; exact member⟩
    have less := here.stale id version c snapshot (by rw [under]; exact before)
    omega

theorem Sound.publish (sound : Sound h f) {a : TxId} {id : ResourceId} {rest : List ResourceId}
    (publishing : (f.agents a).stage = .publishing (id :: rest)) :
    Sound (h ++ [.published a id.key]) ((f.withVersions (f.versions.bump id)).put a
      { f.agents a with stage := .publishing rest }) := by
  have here := sound.each a
  have stage := here.stage
  simp only [AtStage, publishing] at stage
  obtain ⟨-, -, locked, -, todo, -⟩ := stage
  have written := todo id.key List.mem_cons_self
  have mine : id.key ∈ (f.agents a).heldKeys := locked _ (here.keyed.within _ written.1)
  refine sound.happened written.2 ?_ (fun b ne => put_agents_of_ne _ ne _) (fun _ _ _ => Iff.rfl)
    (fun b other ne held => ?_) (fun other => ?_) (fun b other same => ?_)
    (fun _ _ _ _ same => by cases same) (fun _ _ _ same => by cases same)
  · simp only [Event.tx, put_agents]
    exact here.publish publishing
  · refine VersionTable.current_bump_of_ne f.versions ?_
    intro same
    exact sound.apart ne mine (same ▸ ((sound.each b).holder other.key).2 held)
  · exact (AccessSet.current_bump f.versions id other).symm ▸ Nat.le_add_right ..
  · have counted := AccessSet.current_bump f.versions id other
    rw [if_pos (Event.published.inj same).2] at counted
    exact counted.symm ▸ Nat.lt_succ_self _

theorem Sound.free (sound : Sound h f) {a : TxId} {id : ResourceId} {rest : List ResourceId}
    (releasing : (f.agents a).stage = .releasing) (held : (f.agents a).held.ids = id :: rest) :
    Sound (h ++ [.released a id.key]) ((f.withLocks (f.locks.release id a).2).put a
      { f.agents a with held := ⟨rest⟩ }) := by
  have here := sound.each a
  have mine : id.key ∈ (f.agents a).heldKeys := by
    rw [Agent.heldKeys, held]
    exact List.mem_cons_self
  have owner : f.locks.holder id = some a := (here.holder id.key).2 mine
  refine sound.happened (fun m => here.released _ m mine) ?_
    (fun b ne => put_agents_of_ne _ ne _) (fun b k ne => ?_) (fun _ _ _ _ => rfl)
    (fun _ => Nat.le_refl _) (fun _ _ same => by cases same) (fun _ _ _ _ same => by cases same)
    (fun _ _ _ same => by cases same)
  · simp only [Event.tx, put_agents]
    exact here.free releasing held
  · have locks := LockTable.holderOf_release owner k
    rw [put_locks, show (f.withLocks (f.locks.release id a).2).locks = (f.locks.release id a).2 from rfl,
      locks]
    split
    · rename_i same
      rw [same]
      exact ⟨fun unheld => (by cases unheld), fun other => absurd other (sound.apart ne mine)⟩
    · exact Iff.rfl

/-- One resource less to lock, or all are. -/
theorem Sound.lockNext (sound : Sound h f) {a : TxId} {todo : List ResourceId}
    (at_ : (f.agents a).stage = .locking todo) :
    Sound (h ++ (Contention.proceed f a).1) (Contention.proceed f a).2 := by
  have stage := (sound.each a).stage
  simp only [AtStage, at_] at stage
  obtain ⟨quiet, covered⟩ := stage
  cases todo with
  | nil =>
      simp only [Contention.proceed, at_, List.append_nil]
      refine sound.turn a (.validating _) ⟨quiet, fun k m => ?_, fun e m => Or.inl m⟩
      exact (covered k m).resolve_right List.not_mem_nil
  | cons id rest =>
      cases mine : (f.agents a).held.holds id with
      | true =>
          simp only [Contention.proceed, at_, mine, if_true, List.append_nil]
          refine sound.turn a (.locking rest) ⟨quiet, ?_⟩
          intro k m
          rcases covered k m with there | waiting
          · exact Or.inl there
          · rcases List.mem_cons.1 waiting with rfl | later
            · exact Or.inl ((HeldLocks.holds_iff _ _).1 mine)
            · exact Or.inr later
      | false =>
          have new : id.key ∉ (f.agents a).heldKeys := (HeldLocks.holds_eq_false _ id).1 mine
          rcases taken : f.locks.acquire id a with ⟨granted, l'⟩
          cases granted with
          | true =>
              simp only [Contention.proceed, at_, mine, Bool.false_eq_true, if_false, taken]
              exact sound.take at_ new taken
          | false =>
              simp only [Contention.proceed, at_, mine, Bool.false_eq_true, if_false, taken,
                List.append_nil]
              have locks := (LockTable.acquire_false taken).2
              refine sound.silent a locks ((sound.each a).turn locks ?_)
              intro passed
              exact absurd passed quiet.passed

/-- One version less to check, or all are in force. -/
theorem Sound.checkNext (sound : Sound h f) {a : TxId} {todo : List (ResourceId × Nat)}
    (at_ : (f.agents a).stage = .validating todo) :
    Sound (h ++ (Contention.proceed f a).1) (Contention.proceed f a).2 := by
  have stage := (sound.each a).stage
  simp only [AtStage, at_] at stage
  obtain ⟨quiet, locked, checked⟩ := stage
  cases todo with
  | nil =>
      simp only [Contention.proceed, at_]
      exact sound.pass at_
  | cons entry rest =>
      obtain ⟨id, seen⟩ := entry
      by_cases current : f.versions.current id = seen
      · simp only [Contention.proceed, at_, current, if_true, List.append_nil]
        refine sound.turn a (.validating rest) ⟨quiet, locked, ?_⟩
        intro e m
        rcases checked e m with waiting | done
        · rcases List.mem_cons.1 waiting with rfl | later
          · exact Or.inr current
          · exact Or.inl later
        · exact Or.inr done
      · simp only [Contention.proceed, at_, current, if_false, List.append_nil]
        refine sound.turn a .releasing ?_
        intro passed
        exact absurd passed quiet.passed

theorem Sound.proceed (sound : Sound h f) (a : TxId) :
    Sound (h ++ (proceed f a).1) (proceed f a).2 := by
  cases at_ : (f.agents a).stage with
  | body => simpa only [Contention.proceed, at_, List.append_nil] using sound
  | ended => simpa only [Contention.proceed, at_, List.append_nil] using sound
  | locking todo => exact sound.lockNext at_
  | validating todo => exact sound.checkNext at_
  | publishing todo =>
      cases todo with
      | nil =>
          have stage := (sound.each a).stage
          simp only [AtStage, at_] at stage
          obtain ⟨-, -, -, -, -, done⟩ := stage
          simp only [Contention.proceed, at_, List.append_nil]
          refine sound.turn a .releasing ?_
          intro _ k m
          exact (done k m).resolve_right List.not_mem_nil
      | cons id rest =>
          simp only [Contention.proceed, at_]
          exact sound.publish at_
  | releasing =>
      cases held : (f.agents a).held.ids with
      | nil =>
          simp only [Contention.proceed, at_, held, List.append_nil]
          exact sound.turn a .ended held
      | cons id rest =>
          simp only [Contention.proceed, at_, held]
          simpa only [at_] using sound.free at_ held

/-- Whoever has not passed may give up. -/
theorem Sound.giveUp (sound : Sound h f) (a : TxId) (unpassed : .passed a ∉ h) :
    Sound (h ++ []) (f.put a { f.agents a with stage := .releasing }) := by
  rw [List.append_nil]
  exact sound.turn a .releasing fun passed => absurd passed unpassed

/-- Every step keeps to it. -/
theorem Sound.step (sound : Sound h f) (a : TxId) (act : Act) :
    Sound (h ++ (step f a act).1) (step f a act).2 := by
  have here := sound.each a
  have stage := here.stage
  have nothing : Sound (h ++ []) f := by rwa [List.append_nil]
  cases act with
  | proceed =>
      simp only [Contention.step]
      exact sound.proceed a
  | observe id =>
      cases at_ : (f.agents a).stage with
      | body =>
          simp only [Contention.step, at_]
          simpa only [at_] using sound.touch id at_ (here.keyed.observe _ _) rfl
      | _ => simpa only [Contention.step, at_] using nothing
  | write id =>
      cases at_ : (f.agents a).stage with
      | body =>
          simp only [Contention.step, at_]
          simpa only [at_] using
            sound.touch id at_ (here.keyed.write _ _) (AccessSet.observed_write ..)
      | _ => simpa only [Contention.step, at_] using nothing
  | commit =>
      cases at_ : (f.agents a).stage with
      | body =>
          simp only [AtStage, at_] at stage
          simp only [Contention.step, at_, List.append_nil]
          refine sound.turn a (.locking _) ⟨stage.1, fun k m => Or.inr ?_⟩
          rw [ResourceId.mem_keys_canonical, AccessSet.keys_observed here.keyed]
          exact m
      | _ => simpa only [Contention.step, at_] using nothing
  | abort =>
      cases at_ : (f.agents a).stage with
      | body =>
          simp only [AtStage, at_] at stage
          simp only [Contention.step, at_]
          exact sound.giveUp a stage.1.passed
      | _ => simpa only [Contention.step, at_] using nothing
  | refuse =>
      cases at_ : (f.agents a).stage with
      | locking todo =>
          simp only [AtStage, at_] at stage
          simp only [Contention.step, at_]
          exact sound.giveUp a stage.1.passed
      | validating todo =>
          simp only [AtStage, at_] at stage
          simp only [Contention.step, at_]
          exact sound.giveUp a stage.1.passed
      | _ => simpa only [Contention.step, at_] using nothing

end Step

/-! ## Every schedule -/

theorem Sound.run {h : List Event} {f : Floor} (sound : Sound h f)
    (schedule : List (TxId × Act)) : Sound (h ++ (run schedule f).1) (run schedule f).2 := by
  induction schedule generalizing h f with
  | nil => simpa only [Contention.run, List.append_nil] using sound
  | cons entry rest ih =>
      obtain ⟨a, act⟩ := entry
      have whole := ih (sound.step a act)
      rwa [List.append_assoc] at whole

/-- Nothing has happened, and no lock is held. -/
theorem sound_start (versions : VersionTable) : Sound [] { versions } where
  once := .nil
  each a := {
    keyed := .empty
    observed := fun k => ⟨fun m => absurd m List.not_mem_nil, fun m => absurd m List.not_mem_nil⟩
    heldOnce := .nil
    holder := fun k => ⟨fun m => (by cases m), fun m => absurd m List.not_mem_nil⟩
    acquired := fun k => ⟨fun m => absurd m List.not_mem_nil,
      fun m => m.elim (absurd · List.not_mem_nil) (absurd · List.not_mem_nil)⟩
    released := fun k m => absurd m List.not_mem_nil
    stage := ⟨⟨List.not_mem_nil, fun _ => List.not_mem_nil, fun _ => List.not_mem_nil⟩, rfl⟩
    lockedFirst := fun m => absurd m List.not_mem_nil
    publishedFirst := fun m => absurd m List.not_mem_nil
    seen := fun id version m => by cases m
    stale := fun id version b m => by cases m }
  exclusive a b k _ before := absurd before.mem_left List.not_mem_nil
  fresh a b k before := absurd before.mem_left List.not_mem_nil

/-! ### Counters -/

/-- The event counts the resource `k` up. -/
def Event.publishes (k : ResourceKey) : Event → Bool
  | .published _ k' => k' == k
  | _ => false

/-- Two transactions change a resource in turn; the second looks at it while the first still holds its
lock, but has published. -/
def inTurn (a b : TxId) (r : ResourceId) : List (TxId × Act) :=
  [(a, .write r), (a, .commit), (a, .proceed), (a, .proceed), (a, .proceed), (a, .proceed),
    (a, .proceed), (b, .write r), (b, .commit), (a, .proceed), (a, .proceed), (b, .proceed),
    (b, .proceed), (b, .proceed), (b, .proceed)]

end Transact.Contention
