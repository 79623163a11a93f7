/-
# Transact.Proofs.Accounting -- what a version counts

`Books` are kept beside a run of a `Crowd`: who marked what as changed, who got to apply, which created
files an undo removed, and what was published past all transactions.  Between calls the version of a
resource is what the books say (`versions_accounted`): one for every transaction that got to apply having
marked it, one for every creation of it that was reverted, and one for every direct publication.

The invariant is `Kept`.  It goes by single operations, so calls may run into each other; what a call has
counted up so far is in the books too (`Books.bumped`), and by its end that is settled (`keeps_tally`).
-/
import Mathlib.Data.List.Perm.Basic
import Transact.Proofs.Crowd
import Transact.Proofs.Tally

namespace Transact

set_option autoImplicit false

/-! ## Owners -/

section Owners

variable {α κ : Type} [DecidableEq α] [DecidableEq κ]

/-- Who stands in a list of pairs with the key `k`, as often as that is. -/
def ownersOf (k : κ) (entries : List (α × κ)) : List α :=
  entries.filterMap fun e => if e.2 = k then some e.1 else none

omit [DecidableEq α] in
theorem length_ownersOf (k : κ) (entries : List (α × κ)) :
    (ownersOf k entries).length = (entries.map Prod.snd).count k := by
  induction entries with
  | nil => rfl
  | cons e rest ih =>
      simp only [ownersOf, List.filterMap_cons, List.map_cons, List.count_cons, beq_iff_eq] at ih ⊢
      by_cases here : e.2 = k
      · rw [if_pos here, if_pos here, List.length_cons, ih]
      · rw [if_neg here, if_neg here, ih, Nat.add_zero]

theorem count_ownersOf (k : κ) (entries : List (α × κ)) (a : α) :
    (ownersOf k entries).count a = entries.count (a, k) := by
  induction entries with
  | nil => rfl
  | cons e rest ih =>
      simp only [ownersOf, List.filterMap_cons, List.count_cons, beq_iff_eq] at ih ⊢
      by_cases here : e.2 = k
      · rw [if_pos here]
        simp only [List.count_cons, ih, beq_iff_eq, Prod.ext_iff, here, and_true]
      · rw [if_neg here]
        simp only [ih, Prod.ext_iff, here, and_false, if_false, Nat.add_zero]

end Owners

/-! ## Books -/

/-- What is written down about a run. -/
structure Books where
  /-- Which transaction marked what as changed. -/
  marked : List (TxId × ResourceKey) := []
  /-- Which transactions got to apply. -/
  applied : List TxId := []
  /-- Whose undo removed which created file. -/
  removed : List (TxId × ResourceKey) := []
  /-- Whose call counted up what. -/
  bumped : List (TxId × ResourceKey) := []
  /-- What was published past all transactions. -/
  published : List ResourceKey := []

namespace Books

variable {G V β : Type}

/-- Write down what an operation did. -/
def record (b : Books) (who : TxId) : {β : Type} → Primitive V β → β → Books
  | _, .bump id, _ => { b with bumped := (who, id.key) :: b.bumped }
  | _, .uncreate id _, .ok _ => { b with removed := (who, id.key) :: b.removed }
  | _, _, _ => b

/-- Write down what happens next: what work marks, who is found to have been in the phase of applying
when its call returns, and what the operations of a call do. -/
def enter (b : Books) (c : Crowd G V) : Move G V → Books
  | .call who (.work job) =>
      if c.stranger who || (c.agents who).call.isSome then b
      else
        { b with
          marked := (job.marks (c.agents who).transaction c.world.1).map (who, ·) ++ b.marked }
  | .proceed who =>
      match (c.agents who).call with
      | some (.act p _) => b.record who p (p.perform who c.world).1
      | some (.done t) =>
          if .applying ∈ t.visited ∧ .applying ∉ (c.agents who).transaction.visited then
            { b with applied := who :: b.applied }
          else b
      | none => b
  | .publish id => { b with published := id.key :: b.published }
  | _ => b

/-- The books of a run. -/
def keep [Participant G V] (chunk : Nat → Nat → Nat) (b : Books) (c : Crowd G V) :
    List (Move G V) → Books
  | [] => b
  | m :: rest => (b.enter c m).keep chunk (c.step chunk m) rest

/-- Whether `who` marked `k`. -/
def marks (b : Books) (who : TxId) (k : ResourceKey) : Bool := decide ((who, k) ∈ b.marked)

/-- How much oftener `who` counted `k` up than it removed it. -/
def balance (b : Books) (who : TxId) (k : ResourceKey) : ℤ :=
  (b.bumped.count (who, k) : ℤ) - b.removed.count (who, k)

/-- Marks are added to those there are. -/
theorem marks_add (b : Books) (who other : TxId) (ks : List ResourceKey) (k : ResourceKey) :
    ({ b with marked := ks.map (who, ·) ++ b.marked } : Books).marks other k =
      if other = who then b.marks who k || decide (k ∈ ks) else b.marks other k := by
  rw [Bool.eq_iff_iff]
  by_cases same : other = who
  · subst same
    simp [marks, or_comm]
  · simp [marks, same, Ne.symm same]

section Record

variable (b : Books) (who other : TxId) (p : Primitive V β) (answer : β) (k : ResourceKey)

theorem record_marked : (b.record who p answer).marked = b.marked := by
  cases p with
  | uncreate id path => cases answer <;> rfl
  | _ => rfl

theorem record_applied : (b.record who p answer).applied = b.applied := by
  cases p with
  | uncreate id path => cases answer <;> rfl
  | _ => rfl

theorem record_published : (b.record who p answer).published = b.published := by
  cases p with
  | uncreate id path => cases answer <;> rfl
  | _ => rfl

/-- The balance moves as the tally says. -/
theorem record_balance :
    (b.record who p answer).balance other k =
      if other = who then p.balance k answer (b.balance who k) else b.balance other k := by
  have mine (id : ResourceId) : ((who, id.key) == (other, k)) = true ↔ who = other ∧ id.key = k := by
    rw [beq_iff_eq, Prod.mk.injEq]
  by_cases same : other = who
  · subst same
    rw [if_pos rfl]
    cases p with
    | bump id =>
        simp only [record, balance, Primitive.balance, List.count_cons, mine, true_and]
        split <;> omega
    | uncreate id path =>
        cases answer with
        | error e => rfl
        | ok _ =>
            simp only [record, balance, Primitive.balance, List.count_cons, mine, true_and]
            split <;> omega
    | _ => rfl
  · have foreign : ¬ who = other := fun there => same there.symm
    rw [if_neg same]
    cases p with
    | bump id =>
        simp only [record, balance, List.count_cons, mine, foreign, false_and, if_false, Nat.add_zero]
    | uncreate id path =>
        cases answer with
        | error e => rfl
        | ok _ =>
            simp only [record, balance, List.count_cons, mine, foreign, false_and, if_false,
              Nat.add_zero]
    | _ => rfl

/-- Whatever is counted up is written down. -/
theorem record_bumped (tx : TxId) (w : World × V) (id : ResourceId) :
    (p.perform tx w).2.1.versions.current id + (b.bumped.map Prod.snd).count id.key =
      w.1.versions.current id + ((b.record who p answer).bumped.map Prod.snd).count id.key := by
  rw [p.perform_versions]
  cases p with
  | bump other =>
      have same : (other.key == id.key) = true ↔ id.key = other.key := by rw [beq_iff_eq, eq_comm]
      simp only [Primitive.counted, Option.elim_some, AccessSet.current_bump, record, List.map_cons,
        List.count_cons, same]
      omega
  | uncreate other path => cases answer <;> rfl
  | _ => rfl

end Record

end Books

/-! ## Work -/

section Work

variable {G V : Type} {k : ResourceKey} {t : Transaction (Party G)} {marked : Bool} {n : ℤ}

/-- Only an active transaction marks anything. -/
theorem Work.marks_inactive (inactive : t.phase ≠ .active) (w : World) (job : Work) :
    job.marks t w = [] := by
  have unreached {M : Type} (facet : Facet (Party G) M) : t.reach facet = none := by
    simp only [Transaction.reach, Transaction.checkActive, if_neg inactive]
  cases job <;> simp [Work.marks, unreached]

/-- What a transaction marks it will settle. -/
theorem Settled.work (chunk : Nat → Nat → Nat) (settled : Settled k marked t n) (w : World × V)
    (job : Work) : Settled k (marked || decide (k ∈ job.marks t w.1)) (job.perform chunk t w).1 n := by
  have visited := job.perform_visited chunk t w
  refine ⟨job.perform_ready chunk settled.ready w, fun active => ?_, ?_⟩
  · obtain ⟨unvisited, marks⟩ := settled.begun ((job.perform_phase chunk t w).symm.trans active)
    rw [visited, job.perform_marked, marks, Bool.or_eq_true, decide_eq_true_iff]
    exact ⟨unvisited, Iff.rfl⟩
  · rw [visited, settled.even]
    by_cases active : t.phase = .active
    · have unvisited := (settled.begun active).1
      rw [if_neg fun both => unvisited both.1, if_neg fun both => unvisited both.1]
    · rw [job.marks_inactive active]
      simp

/-- A guest marks nothing. -/
theorem Settled.register [Participant G V] (settled : Settled k marked t n) (g : G) :
    Settled k marked (t.register (Party.guest g)).2 n := by
  have marks := t.marked_register g
  have ready := Transaction.register_ready settled.ready g
  rcases t.register_seats (p := Party.guest g) with same | ⟨members, roster, same, -⟩
  · rw [same]
    exact settled
  · rw [same] at marks ready ⊢
    exact ⟨ready, fun active => ⟨(settled.begun active).1, marks ▸ (settled.begun active).2⟩,
      settled.even⟩

end Work

/-! ## The invariant -/

/-- How `g` stands with the books: between calls everything is settled, and in a call what is left of it
leads there. -/
def Agent.Accounted {G V : Type} (g : Agent G V) (k : ResourceKey) (marked : Bool) (balance : ℤ) : Prop :=
  match g.call with
  | none => Settled k marked g.transaction balance
  | some q => q.Keeps (tally k) (fun t n => Settled k marked t n ∧
      (.applying ∈ g.transaction.visited → .applying ∈ t.visited)) balance

namespace Crowd

variable {G V β : Type}

/-- The books on `k` are right; `first` is the version at the beginning. -/
structure Kept (k : ResourceKey) (first : Nat) (c : Crowd G V) (b : Books) : Prop where
  agents : ∀ who, (c.agents who).Accounted k (b.marks who k) (b.balance who k)
  applied : ∀ who, b.applied.count who =
    if .applying ∈ (c.agents who).transaction.visited then 1 else 0
  version : ∀ id, id.key = k → c.world.1.versions.current id =
    first + (b.bumped.map Prod.snd).count k + b.published.count k

theorem kept_start (config : TxId → Config) (stranger : TxId → Bool) (w : World × V) (id : ResourceId) :
    Kept id.key (w.1.versions.current id) (start config stranger w : Crowd G V) {} where
  agents who := ⟨.fresh who (config who),
    fun _ => ⟨List.not_mem_nil, by simp [start, Transaction.marked, Books.marks]⟩, rfl⟩
  applied who := rfl
  version other same := AccessSet.current_congr _ same

variable {k : ResourceKey} {first : Nat} {c : Crowd G V} {b b' : Books} {who : TxId}

/-- One agent moves, and the books on the others are as they were. -/
theorem Kept.put (kept : Kept k first c b) {g : Agent G V} {w : World × V}
    (mine : g.Accounted k (b'.marks who k) (b'.balance who k))
    (others : ∀ other, other ≠ who → b'.marks other k = b.marks other k ∧
      b'.balance other k = b.balance other k ∧ b'.applied.count other = b.applied.count other)
    (applied : b'.applied.count who = if .applying ∈ g.transaction.visited then 1 else 0)
    (version : ∀ id, id.key = k → w.1.versions.current id =
      first + (b'.bumped.map Prod.snd).count k + b'.published.count k) :
    Kept k first (c.put who g w) b' where
  agents other := by
    by_cases same : other = who
    · subst same
      rw [put_agents]
      exact mine
    · obtain ⟨marks, balance, -⟩ := others other same
      rw [put_agents_of_ne _ _ _ _ same, marks, balance]
      exact kept.agents other
  applied other := by
    by_cases same : other = who
    · subst same
      rw [put_agents]
      exact applied
    · rw [put_agents_of_ne _ _ _ _ same, (others other same).2.2]
      exact kept.applied other
  version := version

/-- The next operation of a call. -/
theorem Kept.act (kept : Kept k first c b) {p : Primitive V β}
    {next : β → Procedure V (Transaction (Party G))}
    (call : (c.agents who).call = some (.act p next)) :
    Kept k first
      (c.put who { c.agents who with call := some (next (p.perform who c.world).1) }
        (p.perform who c.world).2)
      (b.record who p (p.perform who c.world).1) := by
  have mine := kept.agents who
  simp only [Agent.Accounted, call] at mine
  have marks (other : TxId) :
      (b.record who p (p.perform who c.world).1).marks other k = b.marks other k := by
    simp only [Books.marks, Books.record_marked]
  refine kept.put ?_ (fun other ne => ⟨marks other, ?_, ?_⟩) ?_ fun id same => ?_
  · have after := mine.2 (p.perform who c.world).1
    rw [marks who, Books.record_balance, if_pos rfl]
    exact after
  · rw [Books.record_balance, if_neg ne]
  · rw [Books.record_applied]
  · rw [Books.record_applied]
    exact kept.applied who
  · have counted := b.record_bumped who p (p.perform who c.world).1 who c.world id
    have before := kept.version id same
    rw [Books.record_published]
    subst same
    omega

/-- The return of a call. -/
theorem Kept.done (kept : Kept k first c b) {t : Transaction (Party G)}
    (call : (c.agents who).call = some (.done t)) :
    Kept k first (c.put who { transaction := t } c.world)
      (if .applying ∈ t.visited ∧ .applying ∉ (c.agents who).transaction.visited then
        { b with applied := who :: b.applied } else b) := by
  have mine := kept.agents who
  simp only [Agent.Accounted, call] at mine
  obtain ⟨settled, lasting⟩ := mine
  have before := kept.applied who
  split
  · next newly =>
    refine kept.put settled (fun other ne => ⟨rfl, rfl, ?_⟩) ?_ kept.version
    · exact List.count_cons_of_ne (Ne.symm ne)
    · rw [if_neg newly.2] at before
      rw [List.count_cons_self, before, if_pos newly.1]
  · next old =>
    refine kept.put settled (fun other _ => ⟨rfl, rfl, rfl⟩) ?_ kept.version
    have same : Phase.applying ∈ t.visited ↔ .applying ∈ (c.agents who).transaction.visited := by
      constructor
      · intro visited
        by_contra new
        exact old ⟨visited, new⟩
      · exact lasting
    rw [before]
    exact if_congr same.symm rfl rfl

theorem kept_proceed (kept : Kept k first c b) (who : TxId) :
    Kept k first (c.proceed who) (b.enter c (.proceed who)) := by
  rcases call : (c.agents who).call with _ | (t | ⟨p, next⟩)
  · simp only [proceed, Books.enter, call]
    exact kept
  · simp only [proceed, Books.enter, call]
    exact kept.done call
  · simp only [proceed, Books.enter, call]
    exact kept.act call

theorem kept_begin [Participant G V] (chunk : Nat → Nat → Nat) (kept : Kept k first c b) (who : TxId)
    (call : PartyCall G) : Kept k first (c.begin chunk who call) (b.enter c (.call who call)) := by
  simp only [begin]
  split
  · next busy =>
    have same : b.enter c (.call who call) = b := by
      cases call <;> simp only [Books.enter, busy, if_true]
    rw [same]
    exact kept
  · next free =>
    have idle : (c.agents who).call = none := by
      simp only [Bool.or_eq_true, not_or, Bool.not_eq_true, Option.isSome_eq_false_iff,
        Option.isNone_iff_eq_none] at free
      exact free.2
    have mine := kept.agents who
    simp only [Agent.Accounted, idle] at mine
    split
    · next q taken =>
      have same : b.enter c (.call who call) = b := by
        cases call <;> first | rfl | cases taken
      rw [same]
      refine kept.put ?_ (fun other _ => ⟨rfl, rfl, rfl⟩) (kept.applied who) kept.version
      exact Stepwise.keeps_tally mine taken
    · next taken =>
      cases call with
      | work job =>
          simp only [Books.enter, if_neg free]
          refine kept.put ?_ (fun other ne => ⟨?_, rfl, rfl⟩) ?_ fun id same => ?_
          · rw [Books.marks_add, if_pos rfl]
            exact mine.work chunk c.world job
          · rw [Books.marks_add, if_neg ne]
          · have before := kept.applied who
            rw [← job.perform_visited chunk (c.agents who).transaction c.world] at before
            exact before
          · have before := kept.version id same
            rw [← (job.perform_unshared chunk (c.agents who).transaction c.world).versions] at before
            exact before
      | register g =>
          refine kept.put (mine.register g) (fun other _ => ⟨rfl, rfl, rfl⟩) ?_ kept.version
          rcases (c.agents who).transaction.register_seats (p := Party.guest g) with
            same | ⟨members, roster, same, -⟩
          · rw [PartyCall.perform, same]
            exact kept.applied who
          · rw [PartyCall.perform, same]
            exact kept.applied who
      | validate => cases taken
      | commit => cases taken
      | abort => cases taken
      | drop => cases taken

/-- **The books are right after every move.** -/
theorem kept_step [Participant G V] (chunk : Nat → Nat → Nat) (kept : Kept k first c b) (m : Move G V) :
    Kept k first (c.step chunk m) (b.enter c m) := by
  cases m with
  | call who call => exact kept_begin chunk kept who call
  | proceed who => exact kept_proceed kept who
  | take owner id =>
      simp only [step, Books.enter]
      split
      · exact ⟨kept.agents, kept.applied, kept.version⟩
      · exact kept
  | giveBack owner id =>
      simp only [step, Books.enter]
      split
      · exact ⟨kept.agents, kept.applied, kept.version⟩
      · exact kept
  | publish id =>
      refine ⟨kept.agents, kept.applied, fun other same => ?_⟩
      have before := kept.version other same
      have here : (id.key == k) = true ↔ other.key = id.key := by rw [beq_iff_eq, same, eq_comm]
      simp only [step, World.bump, AccessSet.current_bump, Books.enter, List.count_cons, here]
      omega
  | change files pipes threads v => exact ⟨kept.agents, kept.applied, kept.version⟩

theorem kept_run [Participant G V] (chunk : Nat → Nat → Nat) (kept : Kept k first c b)
    (moves : List (Move G V)) : Kept k first (c.run chunk moves) (b.keep chunk c moves) := by
  induction moves generalizing c b with
  | nil => exact kept
  | cons m rest ih => exact ih (kept_step chunk kept m)

/-- Between calls a version counts who got to apply having marked the resource, what was removed, and
what was published directly. -/
theorem Kept.sum (kept : Kept k first c b) (quiet : ∀ who, (c.agents who).call = none) {id : ResourceId}
    (same : id.key = k) :
    c.world.1.versions.current id =
      first + (b.applied.filter (b.marks · k)).length + (b.removed.map Prod.snd).count k +
        b.published.count k := by
  have owners : (ownersOf k b.bumped).Perm (b.applied.filter (b.marks · k) ++ ownersOf k b.removed) := by
    -- everybody is settled, so the entries agree for each transaction by itself
    refine List.perm_iff_count.2 fun who => ?_
    have mine := kept.agents who
    simp only [Agent.Accounted, quiet who] at mine
    have even := mine.even
    have due : (b.applied.filter (b.marks · k)).count who =
        if .applying ∈ (c.agents who).transaction.visited ∧ b.marks who k = true then 1 else 0 := by
      cases marks : b.marks who k with
      | true =>
          rw [List.count_filter (p := fun who => b.marks who k) marks, kept.applied who]
          exact if_congr (and_iff_left rfl).symm rfl rfl
      | false =>
          rw [if_neg fun both => by cases both.2]
          refine List.count_eq_zero.2 fun member => ?_
          rw [(List.mem_filter.1 member).2] at marks
          cases marks
    unfold Books.balance at even
    rw [List.count_append, count_ownersOf, count_ownersOf, due]
    split at even <;> rename_i either
    · rw [if_pos either]
      omega
    · rw [if_neg either]
      omega
  have sum := owners.length_eq
  rw [List.length_append, length_ownersOf, length_ownersOf] at sum
  rw [kept.version id same, sum]
  omega

/-- No move takes a version back. -/
theorem version_grows [Participant G V] (chunk : Nat → Nat → Nat) (c : Crowd G V) (m : Move G V)
    (id : ResourceId) : c.world.1.versions.current id ≤ (c.step chunk m).world.1.versions.current id := by
  cases m with
  | call who call =>
      simp only [step, (c.begin_unshared chunk who call).versions]
      exact Nat.le_refl _
  | proceed who =>
      rcases c.proceed_cases who with same | ⟨β, p, next⟩
      · simp only [step, same]
        exact Nat.le_refl _
      · simp only [step, proceed_world next, p.perform_versions]
        cases p.counted with
        | none => exact Nat.le_refl _
        | some other =>
            simp only [Option.elim_some, AccessSet.current_bump]
            exact Nat.le_add_right _ _
  | take owner other =>
      simp only [step]
      split <;> exact Nat.le_refl _
  | giveBack owner other =>
      simp only [step]
      split <;> exact Nat.le_refl _
  | publish other =>
      simp only [step, World.bump, AccessSet.current_bump]
      exact Nat.le_add_right _ _
  | change files pipes threads v => exact Nat.le_refl _

/-! ## What a version counts -/

/-- **Versions are accounted for.**  Between calls a version is what it was at the beginning, and one more
for every transaction that got to apply having marked the resource, for every creation of it that an undo
removed, and for every direct publication.  Who got to apply is counted once, and no move takes a version
back. -/
theorem versions_accounted [Participant G V] (chunk : Nat → Nat → Nat) (config : TxId → Config)
    (stranger : TxId → Bool) (w : World × V) (moves : List (Move G V)) (id : ResourceId) :
    let c := (start config stranger w : Crowd G V).run chunk moves
    let b := ({} : Books).keep chunk (start config stranger w) moves
    (b.applied.Nodup ∧
        ∀ who, who ∈ b.applied ↔ .applying ∈ (c.agents who).transaction.visited) ∧
      ((∀ who, (c.agents who).call = none) →
        c.world.1.versions.current id =
          w.1.versions.current id + (b.applied.filter fun who => (who, id.key) ∈ b.marked).length +
            (b.removed.map Prod.snd).count id.key + b.published.count id.key) ∧
      ∀ m, c.world.1.versions.current id ≤ (c.step chunk m).world.1.versions.current id := by
  intro c b
  have kept : Kept id.key (w.1.versions.current id) c b :=
    kept_run chunk (kept_start config stranger w id) moves
  refine ⟨⟨List.nodup_iff_count_le_one.2 fun who => ?_, fun who => ?_⟩,
    fun quiet => kept.sum quiet rfl, fun m => c.version_grows chunk m id⟩
  · rw [kept.applied who]
    split <;> decide
  · rw [← List.count_pos_iff, kept.applied who]
    split <;> simp_all

/-- One transaction creates a file and aborts; another one creates it again, writes to it twice and
commits; then it is published directly. -/
def twoCreations : List (Move Builtin World) :=
  let first : TxId := ⟨1, "first"⟩
  let second : TxId := ⟨2, "second"⟩
  let openNew : Work := .files (.plain (.openPath "/new" { write := true, create := true }))
  [.call first (.work openNew), .call first .abort] ++ List.replicate 8 (.proceed first) ++
    [.call second (.work openNew),
      .call second (.work (.files (.plain (.write ⟨0⟩ [1])))),
      .call second (.work (.files (.plain (.write ⟨0⟩ [2])))),
      .call second .commit] ++
    List.replicate 10 (.proceed second) ++ [.publish (.path "/new")]

/-- The file that was removed, the commit and the direct publication make three. -/
theorem versions_accounted_twoCreations :
    let begun : Crowd Builtin World := start (fun _ => {}) (fun _ => false) ({}, {})
    let c := begun.run (fun _ _ => 1) twoCreations
    let b := ({} : Books).keep (fun _ _ => 1) begun twoCreations
    b.applied = [⟨2, "second"⟩] ∧ b.removed = [(⟨1, "first"⟩, (ResourceId.path "/new").key)] ∧
      b.published = [(ResourceId.path "/new").key] ∧
      c.world.1.versions.current (.path "/new") = 0 + 1 + 1 + 1 := by
  have applied : (({} : Books).keep (fun _ _ => 1)
      (start (fun _ => {}) (fun _ => false) ({}, {}) : Crowd Builtin World) twoCreations).applied =
      [⟨2, "second"⟩] := by decide
  have movers : ∀ who ∈ twoCreations.filterMap Move.mover,
      who = ⟨1, "first"⟩ ∨ who = ⟨2, "second"⟩ := by decide
  have quiet (who : TxId) :
      (((start (fun _ => {}) (fun _ => false) ({}, {}) : Crowd Builtin World).run (fun _ _ => 1)
        twoCreations).agents who).call = none := by
    by_cases one : who = ⟨1, "first"⟩
    · subst one
      rfl
    · by_cases two : who = ⟨2, "second"⟩
      · subst two
        rfl
      · exact congrArg Agent.call (run_other _ (fun m member moves =>
          (movers who (List.mem_filterMap.2 ⟨m, member, moves⟩)).elim one two) _)
  have accounted := (versions_accounted (fun _ _ => 1) (fun _ => {}) (fun _ => false)
    (({}, {}) : World × World) twoCreations (.path "/new")).2.1 quiet
  refine ⟨applied, by decide, by decide, accounted.trans ?_⟩
  decide

end Crowd

end Transact
