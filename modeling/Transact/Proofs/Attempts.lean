/-
# Transact.Proofs.Attempts -- a run with every attempt retained

A run keeps the answer of its last attempt and forgets the others.  `retained` is the same run with a
`Trial` of every attempt beside its answer: the transaction it was given, what the body answered, what
the call that ended it answered, and the transaction as it was left.

Main statements: `retained_run` (it is the same run) and `retained_next` (an attempt is followed by
another exactly when it failed by contention and retries are left).
-/
import Transact.Manager

namespace Transact

set_option autoImplicit false

variable {P W B L X α : Type}

/-! ## Attempts -/

/-- How an attempt went on after its body answered. -/
inductive Course (α : Type) where
  /-- The body answered a value, and then the commit answered. -/
  | finished (value : α) (commit : Except Error Outcome)
  /-- The body failed, and then the abort of a transaction still active answered. -/
  | gaveUp (e : Error) (abort : Option (Except Error Outcome))

/-- Everything seen of one attempt. -/
structure Trial (P α : Type) where
  begun : Transaction P
  course : Course α
  /-- The transaction as the attempt left it. -/
  left : Transaction P

namespace Manager.Attempt

/-- The value or the error of an attempt. -/
def verdict : Attempt α → Except Error α
  | .final answer => answer
  | .failed e => .error e

/-- Whether an attempt failed by contention. -/
def contended : Attempt α → Bool
  | .final _ => false
  | .failed e => e.isRetryable

end Manager.Attempt

namespace Trial

/-- What the body answered. -/
def answer (trial : Trial P α) : Except Error α :=
  match trial.course with
  | .finished value _ => .ok value
  | .gaveUp e _ => .error e

def result (trial : Trial P α) : Manager.Attempt α :=
  match trial.course with
  | .finished value (.ok .committed) => .final (.ok value)
  | .finished _ (.ok (.aborted reason)) => .failed reason.toError
  | .finished _ (.error e) => .final (.error e)
  | .gaveUp _ (some (.error e)) => .final (.error e)
  | .gaveUp e _ => .failed e

/-- The value or the error of the attempt. -/
def verdict (trial : Trial P α) : Except Error α := trial.result.verdict

/-- Whether the attempt failed by contention. -/
def contended (trial : Trial P α) : Bool := trial.result.contended

/-- The error of the attempt: the one its body failed with, or the one its commit came to. -/
def error? (trial : Trial P α) : Option Error :=
  match trial.course with
  | .finished _ (.ok .committed) => none
  | .finished _ (.ok (.aborted reason)) => some reason.toError
  | .finished _ (.error e) => some e
  | .gaveUp e _ => some e

theorem verdict_eq_ok {trial : Trial P α} {value : α} :
    trial.verdict = .ok value ↔ trial.course = .finished value (.ok .committed) := by
  rcases trial with ⟨begun, ⟨value', _ | _ | _⟩ | ⟨e, _ | _ | _⟩, left⟩ <;>
    simp [verdict, result, Manager.Attempt.verdict]

theorem verdict_contended {trial : Trial P α} (contended : trial.contended = true) :
    ∃ e, trial.verdict = .error e ∧ e.isRetryable = true := by
  rw [Trial.contended] at contended
  rw [verdict]
  cases result : trial.result with
  | final answer =>
      rw [result] at contended
      cases contended
  | failed e =>
      rw [result] at contended
      exact ⟨e, rfl, contended⟩

end Trial

namespace Manager

section Run

variable [Delivery B L TxEvent] [Participant P W]

/-- One attempt, with everything seen of it. -/
def trial (body : Body P W B X α) (k : Nat) (m : Manager W B) (x : X) : Trial P α × Manager W B × X :=
  let m := { m with attempts := m.attempts + 1 }
  let (begun, m) := m.begin (P := P) ("run" ++ toString m.attempts)
  match body k begun m x with
  | (.ok value, t, m, x) =>
      let (answer, left, m) := m.commit t
      ({ begun, course := .finished value answer, left }, m, x)
  | (.error e, t, m, x) =>
      if t.isActive then
        let (answer, left, m) := m.abort t
        ({ begun, course := .gaveUp e (some answer), left }, m, x)
      else ({ begun, course := .gaveUp e none, left := t }, m, x)

theorem attempt_trial (body : Body P W B X α) (k : Nat) (m : Manager W B) (x : X) :
    attempt body k m x = ((trial body k m x).1.result, (trial body k m x).2) := by
  simp only [attempt, trial]
  generalize Manager.begin (P := P) _ _ = start
  rcases body k start.1 start.2 x with ⟨e | value, t, m', x'⟩
  · simp only
    cases t.isActive
    · rfl
    · rcases m'.abort t with ⟨_ | _, left, m''⟩ <;> rfl
  · simp only
    rcases m'.commit t with ⟨_ | _ | _, left, m''⟩ <;> rfl

/-! ## Runs -/

/-- As `runFrom`, with every attempt retained. -/
def retainedFrom (body : Body P W B X α) :
    Nat → Nat → Manager W B → X → List (Trial P α) × Except Error α × Manager W B × X
  | retries, k, m, x =>
      let (trial, m, x) := trial body k m x
      if trial.contended then
        match retries with
        | 0 => ([trial], trial.verdict, m, x)
        | retries + 1 =>
            let later :=
              retainedFrom body retries (k + 1) { m with stats := m.stats.recordRetry } x
            (trial :: later.1, later.2)
      else ([trial], trial.verdict, m, x)

/-- As `run`, with every attempt retained. -/
def retained (body : Body P W B X α) (m : Manager W B) (x : X) :
    List (Trial P α) × Except Error α × Manager W B × X :=
  retainedFrom body m.config.maxRetries 0 m x

/-- A run ends with its attempt, or it goes on after contention. -/
theorem runFrom_eq (body : Body P W B X α) (retries k : Nat) (m : Manager W B) (x : X) :
    runFrom body retries k m x =
      let now := attempt body k m x
      if now.1.contended then
        match retries with
        | 0 => (now.1.verdict, now.2)
        | retries + 1 =>
            runFrom body retries (k + 1) { now.2.1 with stats := now.2.1.stats.recordRetry } now.2.2
      else (now.1.verdict, now.2) := by
  rw [runFrom]
  rcases attempt body k m x with ⟨answer | e, m', x'⟩
  · rfl
  · have contended : (Attempt.failed e : Attempt α).contended = e.isRetryable := rfl
    simp only [contended]
    by_cases retryable : e.isRetryable = true
    · rw [if_pos retryable, if_pos retryable]
      cases retries <;> rfl
    · rw [if_neg retryable, if_neg retryable]
      rfl

theorem retainedFrom_run (body : Body P W B X α) (retries k : Nat) (m : Manager W B) (x : X) :
    (retainedFrom body retries k m x).2 = runFrom body retries k m x := by
  induction retries generalizing k m x with
  | zero =>
      rw [retainedFrom, runFrom_eq, attempt_trial]
      simp only [Trial.contended, Trial.verdict]
      exact apply_ite Prod.snd ..
  | succ retries ih =>
      rw [retainedFrom, runFrom_eq, attempt_trial]
      simp only [Trial.contended, Trial.verdict, ← ih]
      exact apply_ite Prod.snd ..

/-- **Retaining the attempts changes nothing.** -/
theorem retained_run (body : Body P W B X α) (m : Manager W B) (x : X) :
    (retained body m x).2 = run body m x :=
  retainedFrom_run body m.config.maxRetries 0 m x

/-- A run ends with this attempt, or it goes on after contention. -/
theorem retainedFrom_cases (body : Body P W B X α) (retries k : Nat) (m : Manager W B) (x : X) :
    let now := trial body k m x
    (retries = 0 ∨ now.1.contended = false) ∧
        retainedFrom body retries k m x = ([now.1], now.1.verdict, now.2) ∨
      ∃ fewer, retries = fewer + 1 ∧ now.1.contended = true ∧
        let later := retainedFrom body fewer (k + 1)
          { now.2.1 with stats := now.2.1.stats.recordRetry } now.2.2
        retainedFrom body retries k m x = (now.1 :: later.1, later.2) := by
  intro now
  rw [retainedFrom]
  simp only [show trial body k m x = now from rfl]
  cases contended : now.1.contended with
  | false => exact Or.inl ⟨Or.inr rfl, rfl⟩
  | true =>
      cases retries with
      | zero => exact Or.inl ⟨Or.inl rfl, rfl⟩
      | succ fewer => exact Or.inr ⟨fewer, rfl, rfl, rfl⟩

/-- The number of the attempt and what the body answered decide whether there is another one. -/
theorem retainedFrom_next (body : Body P W B X α) {retries k : Nat} {m : Manager W B} {x : X}
    {before after : List (Trial P α)} {trial : Trial P α}
    (split : (retainedFrom body retries k m x).1 = before ++ trial :: after) :
    after ≠ [] ↔ before.length < retries ∧ trial.contended = true := by
  induction before generalizing retries k m x with
  | nil =>
      rcases retainedFrom_cases body retries k m x with
        ⟨stops, whole⟩ | ⟨fewer, rfl, contended, whole⟩
      · rw [whole] at split
        obtain ⟨rfl, rfl⟩ := List.cons.inj split
        simp only [ne_eq, not_true_eq_false, List.length_nil, false_iff, not_and,
          Bool.not_eq_true]
        intro left
        exact stops.resolve_left (by omega)
      · rw [whole] at split
        obtain ⟨rfl, rest⟩ := List.cons.inj split
        refine ⟨fun _ => ⟨Nat.succ_pos _, contended⟩, fun _ none => ?_⟩
        rw [none] at rest
        rcases retainedFrom_cases body fewer (k + 1) _ _ with ⟨-, later⟩ | ⟨_, -, -, later⟩ <;>
          · rw [later] at rest
            cases rest
  | cons first before ih =>
      rcases retainedFrom_cases body retries k m x with ⟨-, whole⟩ | ⟨fewer, rfl, -, whole⟩
      · rw [whole] at split
        have none : before ++ trial :: after = [] := (List.cons.inj split).2.symm
        simp at none
      · rw [whole] at split
        rw [ih (List.cons.inj split).2, List.length_cons, Nat.succ_lt_succ_iff]

theorem retained_next (body : Body P W B X α) {m : Manager W B} {x : X}
    {before after : List (Trial P α)} {trial : Trial P α}
    (split : (retained body m x).1 = before ++ trial :: after) :
    after ≠ [] ↔ before.length < m.config.maxRetries ∧ trial.contended = true :=
  retainedFrom_next body split

end Run

end Manager

end Transact
