/-
# Transact.Proofs.Turns -- calls one after another, and programs in turn

`callAll` makes the calls of one program on what they act on; `inTurn` lets whole programs run one
after another in a world that they share.  Both are the same for every sort of call.
-/
import Transact.Transaction

namespace Transact

set_option autoImplicit false

variable {C T W A : Type}

/-! ## Calls -/

section Calls

variable (perform : C → T → W → A × T × W)

/-- Make calls one after another. -/
def callAll : List C → T → W → List A × T × W
  | [], t, w => ([], t, w)
  | call :: rest, t, w =>
      let (answer, t, w) := perform call t w
      let (answers, t, w) := callAll rest t w
      (answer :: answers, t, w)

theorem callAll_snoc (calls : List C) (last : C) (t : T) (w : W) :
    callAll perform (calls ++ [last]) t w =
      let r := callAll perform calls t w
      let s := perform last r.2.1 r.2.2
      (r.1 ++ [s.1], s.2) := by
  induction calls generalizing t w with
  | nil => rfl
  | cons call rest ih => simp only [List.cons_append, callAll, ih]

variable {perform}

/-- Where every call is refused, all of them are. -/
theorem callAll_refused {refusal : C → A} {t : T}
    (refused : ∀ call w, perform call t w = (refusal call, t, w)) (calls : List C) (w : W) :
    callAll perform calls t w = (calls.map refusal, t, w) := by
  induction calls with
  | nil => rfl
  | cons call rest ih => simp only [callAll, refused, ih, List.map_cons]

/-- Whether calls end what they act on does not depend on the world they are made in. -/
theorem callAll_ends {going gone : T → Prop} {ends : C → Bool} {refusal : C → A}
    (step : ∀ call t w, going t →
      if ends call then gone (perform call t w).2.1 else going (perform call t w).2.1)
    (refused : ∀ call t w, gone t → perform call t w = (refusal call, t, w)) (calls : List C) {t : T}
    (first : going t) (w : W) :
    if calls.any ends then gone (callAll perform calls t w).2.1
    else going (callAll perform calls t w).2.1 := by
  induction calls generalizing t w with
  | nil => exact first
  | cons call rest ih =>
      have after := step call t w first
      cases last : ends call with
      | true =>
          rw [last, if_pos rfl] at after
          simp only [callAll, callAll_refused (fun call w => refused call _ w after), List.any_cons,
            last, Bool.true_or, if_true]
          exact after
      | false =>
          simp only [last, Bool.false_eq_true, if_false] at after
          simp only [callAll, List.any_cons, last, Bool.false_or]
          exact ih after _

end Calls

/-! ## Programs -/

/-- Let programs run one after another, each from its beginning to its end.  With the answers of
each. -/
def inTurn (alone : TxId → W → List A × W) : List TxId → W → List (List A) × W
  | [], w => ([], w)
  | who :: rest, w =>
      let (answers, w) := alone who w
      let (others, w) := inTurn alone rest w
      (answers :: others, w)

theorem inTurn_snoc (alone : TxId → W → List A × W) (order : List TxId) (who : TxId) (w : W) :
    inTurn alone (order ++ [who]) w =
      let r := inTurn alone order w
      let last := alone who r.2
      (r.1 ++ [last.1], last.2) := by
  induction order generalizing w with
  | nil => rfl
  | cons first rest ih => simp only [List.cons_append, inTurn, ih]

/-- Longer programs that leave every world as the shorter ones do. -/
theorem inTurn_extend {alone alone' : TxId → W → List A × W} {answers answers' : TxId → List A}
    {order : List TxId} {w v : W}
    (each : ∀ who ∈ order, ∀ w, (alone who w).1 = answers who →
      (alone' who w).1 = answers' who ∧ (alone' who w).2 = (alone who w).2)
    (ran : inTurn alone order w = (order.map answers, v)) :
    inTurn alone' order w = (order.map answers', v) := by
  induction order generalizing w with
  | nil => exact ran
  | cons first rest ih =>
      simp only [inTurn, List.map_cons, Prod.mk.injEq, List.cons.injEq] at ran ⊢
      obtain ⟨⟨here, others⟩, world⟩ := ran
      obtain ⟨extended, same⟩ := each first List.mem_cons_self w here
      have later := ih (fun who member => each who (List.mem_cons_of_mem _ member))
        (Prod.ext others world)
      rw [same, later]
      exact ⟨⟨extended, rfl⟩, rfl⟩

/-! ## Logs -/

/-- The entries of one transaction. -/
def entriesOf {α : Type} (who : TxId) (log : List (TxId × α)) : List α :=
  log.filterMap fun entry => if entry.1 = who then some entry.2 else none

theorem entriesOf_self {α : Type} (who : TxId) (log : List (TxId × α)) (entry : α) :
    entriesOf who (log ++ [(who, entry)]) = entriesOf who log ++ [entry] := by
  simp [entriesOf]

theorem entriesOf_other {α : Type} {who other : TxId} (ne : other ≠ who) (log : List (TxId × α))
    (entry : α) : entriesOf other (log ++ [(who, entry)]) = entriesOf other log := by
  simp [entriesOf, Ne.symm ne]

/-- Calls made one after another, each program with its own: one more call of somebody who is gone by
then, wherever the program runs, adds a refusal and nothing else. -/
theorem inTurn_refused {perform : C → T → W → A × T × W} {fresh : TxId → T} {gone : T → Prop}
    {refusal : C → A} (refused : ∀ call t w, gone t → perform call t w = (refusal call, t, w))
    {order : List TxId} {past : List (TxId × C)} {answers : List (TxId × A)} {w v : W} {who : TxId}
    {call : C} {answer : A}
    (late : who ∈ order → answer = refusal call ∧
      ∀ w, gone (callAll perform (entriesOf who past) (fresh who) w).2.1)
    (ran : inTurn (fun other w =>
        let r := callAll perform (entriesOf other past) (fresh other) w
        (r.1, r.2.2)) order w =
      (order.map fun other => entriesOf other answers, v)) :
    inTurn (fun other w =>
        let r := callAll perform (entriesOf other (past ++ [(who, call)])) (fresh other) w
        (r.1, r.2.2)) order w =
      (order.map fun other => entriesOf other (answers ++ [(who, answer)]), v) := by
  refine inTurn_extend (fun other member w answered => ?_) ran
  by_cases here : other = who
  · subst here
    obtain ⟨rfl, released⟩ := late member
    simp only [entriesOf_self, callAll_snoc, refused call _ _ (released w)]
    exact ⟨congrArg (· ++ [refusal call]) answered, trivial⟩
  · simp only [entriesOf_other here]
    exact ⟨answered, trivial⟩

end Transact
