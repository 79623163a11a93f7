/-
# Transact.Proofs.Faults -- attempts that are followed by another one

An attempt may end in three ways: its transaction committed, or a participant failed, or all was
reverted.  Which it was shows in the calls its participants got, so the calls a body makes of its
transaction are made once more with recording (`Entry.told`), and the one with which the run ends the
attempt after them.

Main statement: `run_faulted`.  It says when another attempt follows one in which a participant failed,
and that everybody was undone in any other attempt that is followed by one.
-/
import Transact.Proofs.Retrying
import Transact.Proofs.Verdict

namespace Transact

set_option autoImplicit false

variable {P W B L X α : Type} [Delivery B L TxEvent] [Participant P W]

namespace Manager

/-! ## What each attempt was given -/

/-- What an attempt begins with: its number, the manager and the state of the caller. -/
structure Entry (W B X : Type) where
  number : Nat
  manager : Manager W B
  state : X

def Entry.trial (entry : Entry W B X) (body : Body P W B X α) : Trial P α :=
  (Manager.trial body entry.number entry.manager entry.state).1

/-- What each attempt of a run begins with. -/
def entriesFrom (body : Body P W B X α) : Nat → Nat → Manager W B → X → List (Entry W B X)
  | retries, k, m, x =>
      let (trial, m', x') := trial body k m x
      if trial.contended then
        match retries with
        | 0 => [⟨k, m, x⟩]
        | retries + 1 =>
            ⟨k, m, x⟩ :: entriesFrom body retries (k + 1) { m' with stats := m'.stats.recordRetry } x'
      else [⟨k, m, x⟩]

def entries (body : Body P W B X α) (m : Manager W B) (x : X) : List (Entry W B X) :=
  entriesFrom body m.config.maxRetries 0 m x

/-- The attempts that a run retains are those that begin so. -/
theorem retainedFrom_entries (body : Body P W B X α) (retries k : Nat) (m : Manager W B) (x : X) :
    (retainedFrom body retries k m x).1 =
      (entriesFrom body retries k m x).map fun entry => entry.trial body := by
  induction retries generalizing k m x with
  | zero =>
      rw [retainedFrom, entriesFrom]
      cases contended : (trial body k m x).1.contended <;> simp [contended, Entry.trial]
  | succ retries ih =>
      rw [retainedFrom, entriesFrom]
      cases contended : (trial body k m x).1.contended <;> simp [contended, Entry.trial, ih]

theorem retained_entry {body : Body P W B X α} {m : Manager W B} {x : X}
    {before after : List (Trial P α)} {trial : Trial P α}
    (split : (retained body m x).1 = before ++ trial :: after) :
    ∃ entry, (entries body m x)[before.length]? = some entry ∧ entry.trial body = trial := by
  have here : ((entries body m x).map fun entry => entry.trial body)[before.length]? = some trial := by
    rw [entries, ← retainedFrom_entries, ← retained, split]
    simp
  rw [List.getElem?_map] at here
  exact Option.map_eq_some_iff.1 here

/-! ## What a body calls for -/

/-- The calls of its transaction that bring a body to `t` and `m`, each with the world it was made in.
What it does besides may change the manager in any way. -/
inductive LedBy (begun : Transaction P) (m₀ : Manager W B) :
    List (Use P W × W) → Transaction P → Manager W B → Prop where
  | start : LedBy begun m₀ [] begun m₀
  | use {calls : List (Use P W × W)} {t : Transaction P} {m : Manager W B}
      (before : LedBy begun m₀ calls t m) (use : Use P W) :
      LedBy begun m₀ (calls ++ [(use, m.world)]) (m.through t fun t w => use.perform t w).2.1
        (m.through t fun t w => use.perform t w).2.2
  | aside {calls : List (Use P W × W)} {t : Transaction P} {m : Manager W B}
      (before : LedBy begun m₀ calls t m) (m' : Manager W B) : LedBy begun m₀ calls t m'

/-- The call with which a run ends an attempt after its body: a commit, or an abort where the body
failed and left its transaction active. -/
def lastCall (answer : Except Error α) (t : Transaction P) (m : Manager W B) : List (Use P W × W) :=
  match answer with
  | .ok _ => [(.commit, m.world)]
  | .error _ => if t.isActive then [(.abort, m.world)] else []

namespace Entry

/-- The calls that `body` makes of its transaction in this attempt. -/
def MadeBy (entry : Entry W B X) (body : Body P W B X α) (calls : List (Use P W × W)) : Prop :=
  let done := body entry.number entry.manager.fresh entry.manager.beginning entry.state
  LedBy entry.manager.fresh entry.manager.beginning calls done.2.1 done.2.2.1

/-- All calls of an attempt: those of its body and the last one. -/
def allCalls (entry : Entry W B X) (body : Body P W B X α) (calls : List (Use P W × W)) :
    List (Use P W × W) :=
  let done := body entry.number entry.manager.fresh entry.manager.beginning entry.state
  calls ++ lastCall done.1 done.2.1 done.2.2.1

/-- The attempt with recording: its replies, its transaction, and the calls on the participants. -/
def told (entry : Entry W B X) (body : Body P W B X α) (calls : List (Use P W × W)) :
    List Reply × Transaction (Recorded P) × Trace :=
  Use.recordIn (entry.allCalls body calls) entry.manager.fresh []

end Entry

/-- Everybody whom the calls of an attempt involve was undone, nobody's undo failed, and nobody was
applied. -/
structure Reverted (calls : List (Use P W × W))
    (told : List Reply × Transaction (Recorded P) × Trace) : Prop where
  unapplied : told.2.2.called .apply = []
  undone : told.2.2.only .undo = told.2.1.roster.reverse.map (⟨·, .undo (.ok ())⟩)
  attended : Use.Attended (calls.map Prod.fst) told.1 told.2.1.roster told.2.2

variable {begun t : Transaction P} {m₀ m : Manager W B}

/-- Recorded, the calls of a body bring its transaction to where the body brought it. -/
theorem LedBy.recorded {calls : List (Use P W × W)} (led : LedBy begun m₀ calls t m)
    (start : Transaction (Recorded P)) (bare : start.bare = begun) :
    (Use.recordIn calls start []).2.1.bare = t := by
  induction led with
  | start => exact bare
  | @use calls t m before use ih =>
      simp only [Use.recordIn_snoc, through_eq]
      have same := Use.perform_recorded use (Use.recordIn calls start []).2.1
        { world := m.world, trace := (Use.recordIn calls start []).2.2 }
      rw [ih] at same
      exact congrArg (·.2.1) same.symm
  | aside before m' ih => exact ih

/-- One more call, recorded, does to the transaction what it does without recording. -/
theorem recordIn_last {calls : List (Use P W × W)} {start : Transaction (Recorded P)}
    (bare : (Use.recordIn calls start []).2.1.bare = t) (use : Use P W) (world : W) :
    (Use.recordIn (calls ++ [(use, world)]) start []).2.1.bare = (use.perform t world).2.1 := by
  rw [Use.recordIn_snoc]
  have same := Use.perform_recorded use (Use.recordIn calls start []).2.1
    { world, trace := (Use.recordIn calls start []).2.2 }
  rw [bare] at same
  exact congrArg (·.2.1) same.symm

/-- **The recorded attempt is the attempt**: it leaves the same transaction. -/
theorem told_left {entry : Entry W B X} {body : Body P W B X α} {calls : List (Use P W × W)}
    (made : entry.MadeBy body calls) :
    (entry.told body calls).2.1.bare = (entry.trial body).left := by
  have led := LedBy.recorded made entry.manager.fresh rfl
  have begins : Manager.begin (P := P)
      { entry.manager with attempts := entry.manager.attempts + 1 }
      ("run" ++ toString (entry.manager.attempts + 1)) =
        (entry.manager.fresh, entry.manager.beginning) := rfl
  simp only [Entry.told, Entry.allCalls, Entry.trial, trial, begins]
  generalize body entry.number entry.manager.fresh entry.manager.beginning entry.state = done at led
  rcases done with ⟨e | value, t, m, x⟩
  · simp only [lastCall] at led ⊢
    cases active : t.isActive with
    | false => simpa using led
    | true => exact recordIn_last led .abort m.world
  · exact recordIn_last led .commit m.world

omit [Participant P W] in
theorem Concludes.inactive {answer : Except Error α} {trial : Trial P α} {m' : Manager W B}
    (concludes : Concludes begun t m answer trial m') : trial.left.phase ≠ .active := by
  cases concludes with
  | committing active ends =>
      obtain ⟨visited, rfl⟩ := ends
      exact Phase.noConfusion
  | refused inactive => exact inactive
  | aborting active ends =>
      obtain ⟨visited, rfl⟩ := ends
      exact Phase.noConfusion
  | past inactive => exact inactive

/-- **How an attempt ends**: committed, with a participant's failure, or reverted. -/
theorem told_ends {entry : Entry W B X} {body : Body P W B X α} {calls : List (Use P W × W)}
    (made : entry.MadeBy body calls) :
    (entry.trial body).left.outcome = some .committed ∨
      (∃ code, (entry.trial body).left.outcome = some (.aborted (.moduleError code))) ∨
      Reverted (entry.allCalls body calls) (entry.told body calls) := by
  have left := told_left made
  obtain ⟨settled, attended⟩ :
      (Live (entry.told body calls).2.1 (entry.told body calls).2.2 ∨
        Over (entry.told body calls).2.1 (entry.told body calls).2.2) ∧
      Use.Attended ((entry.allCalls body calls).map Prod.fst) (entry.told body calls).1
        (entry.told body calls).2.1.roster (entry.told body calls).2.2 :=
    recordIn_attended (entry.allCalls body calls) (fresh (P := P) entry.manager).id
      entry.manager.config true
  have inactive : (entry.told body calls).2.1.phase ≠ .active := by
    have concludes := trial_concludes body entry.number entry.manager entry.state
    exact fun active => concludes.inactive ((congrArg Transaction.phase left).symm.trans active)
  rcases settled with live | past
  · exact absurd live.phase inactive
  · obtain ⟨-, -, outcome, -, kept, -⟩ := past.ended
    have same : (entry.trial body).left.outcome = some outcome := by
      rw [← left]
      exact kept
    have reverted {reason : AbortReason} (aborted : outcome = .aborted reason)
        (retryable : reason = .validationFailed ∨ reason = .lockFailed ∨ reason = .requested) :
        Reverted (entry.allCalls body calls) (entry.told body calls) := by
      obtain ⟨unapplied, undone⟩ := (past.truthful kept).reverted reason aborted retryable
      exact ⟨unapplied, undone, attended⟩
    cases outcome with
    | committed => exact Or.inl same
    | aborted reason =>
        cases reason with
        | moduleError code => exact Or.inr (Or.inl ⟨code, same⟩)
        | validationFailed => exact Or.inr (Or.inr (reverted rfl (Or.inl rfl)))
        | lockFailed => exact Or.inr (Or.inr (reverted rfl (Or.inr (Or.inl rfl))))
        | requested => exact Or.inr (Or.inr (reverted rfl (Or.inr (Or.inr rfl))))

/-! ## Faults -/

omit [Participant P W] in
/-- A commit that ends with a participant's failure is not contention; after an abort, or an end in
the body, the error of the body decides, whatever the outcome. -/
theorem Concludes.faulted {answer : Except Error α} {trial : Trial P α} {m' : Manager W B}
    (concludes : Concludes begun t m answer trial m') {code : Int}
    (faulted : trial.left.outcome = some (.aborted (.moduleError code))) :
    trial.contended = true ↔ ∃ e, trial.answer = .error e ∧ e.isRetryable = true := by
  cases concludes with
  | committing active ends =>
      obtain ⟨visited, rfl⟩ := ends
      obtain rfl := Option.some.inj faulted
      simp [Trial.contended, Trial.result, Attempt.contended, Trial.answer,
        AbortReason.isRetryable_toError, AbortReason.isRetryable]
  | refused => simp [Trial.contended, Trial.result, Attempt.contended, Trial.answer]
  | aborting => simp [Trial.contended, Trial.result, Attempt.contended, Trial.answer]
  | past => simp [Trial.contended, Trial.result, Attempt.contended, Trial.answer]

/-- **Retrying after a fault.**  An attempt whose transaction ended with a participant's failure is
followed by another one exactly when its body itself failed, with an error that reads as contention,
and retries are left; so never when the failure came of the commit.  In any other attempt that is
followed by another one, whatever calls its body made of its transaction, all of its participants were
undone, without a failure and with nobody applied, unless the body committed it. -/
theorem run_faulted (body : Body P W B X α) (m : Manager W B) (x : X) {before after : List (Trial P α)}
    {trial : Trial P α} (split : (retained body m x).1 = before ++ trial :: after) :
    (∀ code, trial.left.outcome = some (.aborted (.moduleError code)) →
        (after ≠ [] ↔ before.length < m.config.maxRetries ∧
          ∃ e, trial.answer = .error e ∧ e.isRetryable = true)) ∧
      ∃ entry, (entries body m x)[before.length]? = some entry ∧ entry.trial body = trial ∧
        ∀ calls, entry.MadeBy body calls →
          (entry.told body calls).2.1.bare = trial.left ∧
            (after ≠ [] →
              trial.left.outcome = some .committed ∨
                (∃ code, trial.left.outcome = some (.aborted (.moduleError code))) ∨
                Reverted (entry.allCalls body calls) (entry.told body calls)) := by
  obtain ⟨entry, here, rfl⟩ := retained_entry split
  constructor
  · intro code faulted
    have concludes := trial_concludes body entry.number entry.manager entry.state
    rw [retained_next body split]
    exact and_congr_right fun _ => concludes.faulted faulted
  · exact ⟨entry, here, rfl, fun calls made => ⟨told_left made, fun _ => told_ends made⟩⟩

/-- A participant that does nothing, and may fail to undo that. -/
inductive Brittle where
  | stuck
  | calm

instance : Participant Brittle Unit where
  domain _ := .custom 0
  lock _ g v := (.ok (), g, v)
  unlock _ g v := (g, v)
  validate _ _ _ v := (true, v)
  apply _ g v := (.ok (), g, v)
  undo _ g v :=
    match g with
    | .stuck => (.error (.of .ioError "stuck"), g, v)
    | .calm => (.ok (), g, v)
  finish _ g v := (g, v)
  release g v := (g, v)
  journal _ _ := []

/-- A body that finds the resource it wants busy twice, the first time with a participant that is stuck
and the second time with one that is not. -/
def stumble : Body Brittle Unit (Switchboard TxEvent) Unit Nat := fun k t m x =>
  match k with
  | 0 =>
      let (_, t, m) := m.through t fun t w => (Use.register Brittle.stuck).perform t w
      (.error (.busy (.named "resource")), t, m, x)
  | 1 =>
      let (_, t, m) := m.through t fun t w => (Use.register Brittle.calm).perform t w
      (.error (.busy (.named "resource")), t, m, x)
  | _ => (.ok 7, t, m, x)

/-- Another attempt follows the first, although it ended with a failure, and one follows the second, in
which the participant was undone. -/
theorem run_faulted_stumble :
    let attempts := (retained stumble (unheard ()) ()).1
    attempts.map (·.left.outcome) =
        [some (.aborted (.moduleError 1008)), some (.aborted .requested), some .committed] ∧
      (∀ first later, attempts = [] ++ first :: later →
        (later ≠ [] ↔ 0 < 8 ∧ ∃ e, first.answer = .error e ∧ e.isRetryable = true)) ∧
      ∀ first second later, attempts = [first] ++ second :: later →
        let calls : List (Use Brittle Unit × Unit) := [(.register .calm, ())]
        ∃ entry : Entry Unit (Switchboard TxEvent) Unit,
          entry.trial stumble = second ∧ entry.MadeBy stumble calls ∧
          Reverted (entry.allCalls stumble calls) (entry.told stumble calls) := by
  intro attempts
  have ends : attempts.map (·.left.outcome) =
      [some (.aborted (.moduleError 1008)), some (.aborted .requested), some .committed] := by
    decide +kernel
  refine ⟨ends, ?_, ?_⟩
  · intro first later split
    rw [split] at ends
    exact (run_faulted stumble (unheard ()) () split).1 1008 (List.cons.inj ends).1
  · intro first second later split calls
    obtain ⟨entry, here, same, reverted⟩ := (run_faulted stumble (unheard ()) () split).2
    have number : entry.number = 1 := by
      have numbers : (entries stumble (unheard ()) ())[1]?.map (·.number) = some 1 := by
        decide +kernel
      rw [show ([first] : List _).length = 1 from rfl] at here
      rw [here] at numbers
      exact Option.some.inj numbers
    have made : entry.MadeBy stumble calls := by
      rw [Entry.MadeBy, number]
      exact .use .start (.register Brittle.calm)
    rw [split] at ends
    simp only [List.cons_append, List.nil_append, List.map_cons, List.cons.injEq] at ends
    obtain ⟨-, requested, others⟩ := ends
    have followed : later ≠ [] := by
      rintro rfl
      cases others
    rcases (reverted calls made).2 followed with committed | ⟨code, fault⟩ | reverted
    · rw [requested] at committed
      cases committed
    · rw [requested] at fault
      cases fault
    · exact ⟨entry, same, made, reverted⟩

end Manager

end Transact
