/-
# Transact.Proofs.Tally -- how often a call counts a resource up

`tally` keeps the balance of one resource through a call: it goes up where the resource is counted up,
and down where a creation of it is removed.  An undo that removes a file counts it up, so giving up
leaves the balance as it is; an apply counts up what was marked, each once, whether or not it fails
part-way.  So the balance of a transaction is one if it got to apply having marked the resource, and
zero if not (`keeps_tally`).
-/
import Transact.Proofs.Marking

namespace Transact

set_option autoImplicit false

/-! ## The balance -/

/-- The balance of the resource `k` afterwards. -/
def Primitive.balance {V : Type} (k : ResourceKey) : {β : Type} → Primitive V β → β → ℤ → ℤ
  | _, .bump id, _, n => if id.key = k then n + 1 else n
  | _, .uncreate id _, .ok _, n => if id.key = k then n - 1 else n
  | _, _, _, n => n

/-- Everything is allowed, and the balance is kept. -/
def tally {V : Type} (k : ResourceKey) : Rules V ℤ where
  allowed _ _ := True
  after := Primitive.balance k

/-- Where a transaction stands between calls: it is settled what it owes `k`.  `marked` says whether it
marked `k` while it was active. -/
structure Settled {G : Type} (k : ResourceKey) (marked : Bool) (t : Transaction (Party G))
    (balance : ℤ) : Prop where
  ready : t.Ready
  begun : t.phase = .active → Phase.applying ∉ t.visited ∧ (k ∈ t.marked ↔ marked = true)
  even : balance = if .applying ∈ t.visited ∧ marked = true then 1 else 0

namespace Stepwise

open Procedure

section Tally

variable {V : Type} {k : ResourceKey} {n : ℤ}

theorem stays_tally {β : Type} {p : Primitive V β} (idle : ∀ b, p.balance k b n = n) :
    (ask p).Stays (tally k) n :=
  keeps_ask.2 ⟨trivial, idle⟩

theorem tally_spares (k : ResourceKey) (n : ℤ) : (tally (V := V) k).Spares n := by
  intro β p quiet
  refine ⟨trivial, fun b => ?_⟩
  cases p with
  | bump id => cases quiet
  | uncreate id path => cases quiet
  | _ => rfl

theorem tally_bumpEach (ids : List ResourceId) :
    (bumpEach ids : Procedure V Unit).Keeps (tally k)
      (fun _ n' => n' = n + (ids.map ResourceId.key).count k) n := by
  induction ids generalizing n with
  | nil => exact (by simp : n = n + (([] : List ResourceId).map ResourceId.key).count k)
  | cons id rest ih =>
      refine Keeps.bind (keeps_ask.2 ⟨trivial, fun _ => ih.mono fun _ n' same => ?_⟩)
      rw [same]
      simp only [tally, Primitive.balance, List.map_cons, List.count_cons, beq_iff_eq]
      split <;> push_cast <;> omega

/-- **A removal is made up for by the version**: who reverts a creation owes nothing. -/
theorem stays_removal (access : AccessSet) (id : ResourceId) (path : String) :
    (removeIfCurrent access id path : Procedure V _).Stays (tally k) n := by
  refine (stays_ask (tally_spares k n) rfl).bind fun version => ?_
  cases access.snapshot id == some version with
  | false => exact stays_pure _
  | true =>
      refine Keeps.bind (keeps_ask.2 ⟨trivial, fun answer => ?_⟩)
      rcases answer with fault | _
      · cases fault with
        | os errno => cases errno <;> exact stays_pure _
        | _ => exact stays_pure _
      · -- one down for the removal, and one up for the version
        refine Keeps.bind (keeps_ask.2 ⟨trivial, fun _ => ?_⟩)
        change (tally (V := V) k).after (.bump id) () ((tally k).after (.uncreate id path) (.ok ()) n) = n
        simp only [tally, Primitive.balance]
        split <;> omega

theorem stays_reversal (access : AccessSet) (h : HeldLocks) (id : ResourceId) (path : String) :
    (revertCreation access h id path : Procedure V _).Stays (tally k) n := by
  unfold revertCreation
  split
  · exact stays_removal access id path
  · refine (stays_tally fun _ => rfl).bind fun granted => ?_
    cases granted with
    | false => exact stays_pure _
    | true =>
        refine (stays_removal access id path).bind fun result => ?_
        exact (stays_tally fun _ => rfl).bind fun _ => stays_pure _

/-! ## Parties -/

section Parties

variable {G : Type} [Participant G V] (ctx : Context)

theorem tally_lock {p : Party G} (ready : p.Ready) :
    (lock ctx p).Keeps (tally k) (fun r n' => r.2.Ready ∧ r.2.marked = p.marked ∧ n' = n) n := by
  have request (ids : List ResourceId) (h : HeldLocks) :
      (acquireEach ids h : Procedure V _).Stays (tally k) n :=
    stays_acquireEach (fun _ => stays_tally fun _ => rfl) (fun _ => stays_tally fun _ => rfl) ids h
  cases p with
  | guest g => exact Keeps.bind ((stays_ask (tally_spares k n) rfl).keeps fun r => ⟨trivial, rfl, rfl⟩)
  | builtin b =>
      cases b with
      | files s =>
          exact Keeps.bind ((request _ _).keeps fun r =>
            ⟨Files.Ready.aside ready s.nextHandle s.removed r.2, rfl, rfl⟩)
      | pipes s =>
          exact Keeps.bind ((request _ _).keeps fun r =>
            ⟨Pipes.Ready.aside ready s.cursors r.2, rfl, rfl⟩)
      | threads s => exact ⟨trivial, rfl, rfl⟩
      | yields s => exact ⟨trivial, rfl, rfl⟩

/-- **What was marked is counted up once**, whatever comes of the log. -/
theorem tally_apply {p : Party G} (ready : p.Ready) :
    (apply ctx p).Keeps (tally k) (fun r n' => r.2.held = p.held ∧ n' = n + p.marked.count k) n := by
  have publishes := tally_bumpEach (V := V) (k := k) (n := n) p.access.writtenIds
  rw [AccessSet.keys_written ready.keyed] at publishes
  exact keeps_apply (tally_spares k n) ctx (fun _ _ _ _ => stays_tally fun _ => rfl)
    (fun _ _ _ _ => stays_tally fun _ => rfl) publishes

theorem tally_undo (p : Party G) :
    (undo ctx p).Keeps (tally k) (fun r n' => r.2.held = p.held ∧ n' = n) n :=
  keeps_undo (tally_spares k n) ctx fun s _ r _ path _ => stays_reversal s.access s.held r.resource path

/-! ## All participants -/

/-- The resources that participants marked. -/
abbrev markedBy (members : List (Member (Party G))) : List ResourceKey :=
  members.flatMap fun m => m.state.marked

theorem tally_lockAll {members : List (Member (Party G))} (ready : ∀ m ∈ members, m.state.Ready) :
    (lockAll ctx members).Keeps (tally k) (fun r n' =>
      (∀ m ∈ r.1, m.state.Ready) ∧ markedBy r.1 = markedBy members ∧ n' = n) n := by
  induction members with
  | nil => exact ⟨ready, rfl, rfl⟩
  | cons m rest ih =>
      refine Keeps.bind ((tally_lock ctx (ready m List.mem_cons_self)).mono fun r n' here => ?_)
      obtain ⟨sound, same, rfl⟩ := here
      have others : ∀ m ∈ rest, m.state.Ready := fun m there => ready m (List.mem_cons_of_mem _ there)
      obtain ⟨_ | _, p⟩ := r
      · refine ⟨List.forall_mem_cons.2 ⟨sound, others⟩, ?_, rfl⟩
        exact congrArg (· ++ markedBy rest) same
      · refine Keeps.bind ((ih others).mono fun q n' later => ?_)
        exact ⟨List.forall_mem_cons.2 ⟨sound, later.1⟩, congrArg₂ (· ++ ·) same later.2.1, later.2.2⟩

theorem tally_applyAll {members : List (Member (Party G))} (ready : ∀ m ∈ members, m.state.Ready) :
    (applyAll ctx members).Keeps (tally k) (fun _ n' => n' = n + (markedBy members).count k) n := by
  induction members generalizing n with
  | nil => exact (by simp : n = n + ((markedBy ([] : List (Member (Party G)))).count k : ℕ))
  | cons m rest ih =>
      refine Keeps.bind ((tally_apply ctx (ready m List.mem_cons_self)).mono fun r n' here => ?_)
      refine Keeps.bind ((ih fun m there => ready m (List.mem_cons_of_mem _ there)).mono
        fun q n'' later => ?_)
      change n'' = n + ((m.state.marked ++ markedBy rest).count k : ℕ)
      rw [later, here.2, List.count_append]
      push_cast
      omega

/-! ## The coordinator -/

theorem tally_close (members : List (Member (Party G))) (locked : Nat) :
    (close ctx members locked).Stays (tally k) n :=
  stays_close (tally_spares k n) ctx (fun _ => stays_tally fun _ => rfl) members locked

variable {t : Transaction (Party G)} {marked : Bool}

omit [Participant G V] in
/-- Who leaves without getting to apply owes nothing. -/
theorem Settled.abandoned (settled : Settled k marked t n) (active : t.phase = .active)
    {visited : List Phase} (avoids : .applying ∉ visited) (outcome : Outcome) :
    Settled k marked (t.ended visited outcome) n := by
  have unvisited : Phase.applying ∉ t.visited ++ visited :=
    fun member => (List.mem_append.1 member).elim (settled.begun active).1 avoids
  refine ⟨.ended _ _, (nomatch ·), ?_⟩
  rw [settled.even, if_neg fun both => (settled.begun active).1 both.1,
    if_neg fun both => unvisited both.1]

theorem tally_abandon (settled : Settled k marked t n) (active : t.phase = .active)
    {before : List Phase} (avoids : .applying ∉ before) (members : List (Member (Party G)))
    (locked : Nat) (reason : AbortReason) :
    (abandon t before members locked reason).Keeps (tally k)
      (fun r n' => Settled k marked r.2 n' ∧ (.applying ∈ t.visited → .applying ∈ r.2.visited)) n := by
  have reverts : (undoAll t.context members).Keeps (tally k)
      (fun r n' => hands r.2 = hands members ∧ n' = n) n :=
    keeps_undoAll t.context fun m _ => tally_undo t.context m.state
  refine Keeps.bind (reverts.mono fun r n' done => ?_)
  obtain ⟨-, rfl⟩ := done
  refine Keeps.bind ((tally_close t.context r.2 locked).keeps fun _ => ?_)
  refine ⟨Settled.abandoned settled active ?_ _, List.mem_append_left _⟩
  intro member
  rcases List.mem_append.1 member with early | late
  · exact avoids early
  · revert late
    decide

/-- **Who gets to apply owes one for what it marked.** -/
theorem tally_perform (settled : Settled k marked t n) (active : t.phase = .active)
    {members : List (Member (Party G))} (ready : ∀ m ∈ members, m.state.Ready)
    (same : markedBy members = t.marked) (locked : Nat) :
    (perform t members locked).Keeps (tally k)
      (fun r n' => Settled k marked r.2 n' ∧ (.applying ∈ t.visited → .applying ∈ r.2.visited)) n := by
  refine Keeps.bind ((tally_applyAll t.context ready).mono fun r n' done => ?_)
  refine Keeps.bind ((tally_close t.context r.2 locked).keeps fun _ => ?_)
  obtain ⟨unvisited, marks⟩ := settled.begun active
  refine ⟨⟨.ended _ _, (nomatch ·), ?_⟩, List.mem_append_left _⟩
  have visited : Phase.applying ∈
      t.visited ++ [.locked, .validating, .applying, .finishing, .released] :=
    List.mem_append_right _ (by decide)
  have due : ((markedBy members).count k : ℤ) = if marked = true then 1 else 0 := by
    rw [same, List.Nodup.count settled.ready.marked_once]
    by_cases here : k ∈ t.marked
    · rw [if_pos here, if_pos (marks.1 here)]
      rfl
    · rw [if_neg here, if_neg (mt marks.2 here)]
      rfl
  rw [done, due, settled.even, if_neg fun both => unvisited both.1, Int.zero_add]
  exact if_congr (and_iff_right visited).symm rfl rfl

/-- **The balance of a call is settled**: one if the transaction got to apply having marked the resource,
zero if not. -/
theorem keeps_tally (settled : Settled k marked t n) {call : PartyCall G}
    {q : Procedure V (Transaction (Party G))} (taken : steps t call = some q) :
    q.Keeps (tally k)
      (fun t' n' => Settled k marked t' n' ∧ (.applying ∈ t.visited → .applying ∈ t'.visited)) n := by
  have spares := tally_spares (V := V) k n
  refine keeps_steps taken ⟨settled, id⟩ (fun active => ?_)
    (fun active reason => tally_abandon settled active List.not_mem_nil _ _ reason)
    (stays_validateAll spares t.context .early t.members)
  have ready : ∀ m ∈ t.members, m.state.Ready :=
    fun m member => (settled.ready.members m member).1.ready
  refine Keeps.bind ((tally_lockAll t.context ready).mono fun r n' done => ?_)
  obtain ⟨ready', same, rfl⟩ := done
  rcases r.2.2 with _ | e
  · refine Keeps.bind ((stays_validateAll (tally_spares k n') t.context .final r.1).keeps
      fun valid => ?_)
    cases valid with
    | true => exact tally_perform settled active ready' same _
    | false => exact tally_abandon settled active (by decide) _ _ _
  · exact tally_abandon settled active List.not_mem_nil _ _ _

end Parties

end Tally

end Stepwise

end Transact
