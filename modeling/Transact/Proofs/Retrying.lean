/-
# Transact.Proofs.Retrying -- what a run makes of its attempts

A body `Works` if it does to its transaction only what a program can do, and leaves the books of the
manager alone.  Each attempt of such a body is `Settled`: its transaction was fresh, is released, and
was counted once when it began and once when it ended.

Main statement: `run_attempts`, for bodies that leave the commit to the run.
-/
import Transact.Participant.Builtin
import Transact.Switchboard
import Transact.Proofs.Attempts
import Transact.Proofs.Seats
import Transact.Proofs.Use

namespace Transact

set_option autoImplicit false

variable {P W B L X α : Type} [Delivery B L TxEvent] [Participant P W]

/-! ## Ends -/

namespace Transaction

/-- `left` is `t`, released with `outcome`. -/
def Ends (t : Transaction P) (outcome : Outcome) (left : Transaction P) : Prop :=
  ∃ visited, left = t.ended visited outcome

variable {t : Transaction P}

/-- Giving up undoes everybody. -/
theorem abandon_ends (active : t.phase = .active) (reason : AbortReason) (w : W) :
    ∃ reason' left w', t.undoAndRelease 0 reason w = (.ok (.aborted reason'), left, w') ∧
      t.Ends (.aborted reason') left :=
  ⟨_, _, _, undoAndRelease_eq (by rw [active]; rfl) 0 reason w, _, rfl⟩

theorem abort_ends (active : t.phase = .active) (w : W) :
    ∃ reason left w', t.abort w = (.ok (.aborted reason), left, w') ∧
      t.Ends (.aborted reason) left := by
  simp only [abort, checkActive_active active]
  exact abandon_ends active .requested w

theorem drop_ends (active : t.phase = .active) (w : W) :
    ∃ reason left w', t.drop w = (left, w') ∧ t.Ends (.aborted reason) left := by
  obtain ⟨reason, left, w', result, ends⟩ := abandon_ends active .requested w
  exact ⟨reason, left, w', by rw [drop_active active, result], ends⟩

/-- An early validation leaves the transaction as it is, or gives it up and fails. -/
theorem validateEarly_ends (active : t.phase = .active) (w : W) :
    (t.validateEarly w).2.1 = t ∨
      ∃ e reason left w', t.validateEarly w = (.error e, left, w') ∧
        t.Ends (.aborted reason) left := by
  simp only [validateEarly, checkActive_active active]
  rcases validateAll t.context .early t.members w with ⟨_ | _, w₁⟩
  · obtain ⟨reason, left, w', result, ends⟩ := abandon_ends active .validationFailed w₁
    simp only [result]
    exact Or.inr ⟨_, reason, left, w', rfl, ends⟩
  · exact Or.inl rfl

/-- A commit undoes everybody or applies everybody. -/
theorem commit_ends (active : t.phase = .active) (w : W) :
    ∃ outcome left w', t.commit w = (.ok outcome, left, w') ∧ t.Ends outcome left := by
  have forward : t.phase.canAdvance .locked = true := by rw [active]; rfl
  have further : Phase.canAdvance .locked .validating = true := rfl
  simp only [commit, checkActive_active active]
  rcases lockAll t.context t.members w with ⟨members, locked, refusal, w₁⟩
  cases refusal with
  | some e =>
      exact ⟨_, _, _, undoAndRelease_eq (t := { t with members })
        (show t.phase.canAdvance .undoing = true by rw [active]; rfl) locked (lockReason e) w₁,
        _, rfl⟩
  | none =>
      simp only [validateAndRelease, advance, forward, further, if_true, List.append_assoc,
        List.singleton_append]
      have context : ({ t with
          phase := Phase.validating
          visited := t.visited ++ [.locked, .validating], members } :
          Transaction P).context = t.context := rfl
      rw [context]
      rcases validateAll t.context .final members w₁ with ⟨_ | _, w₂⟩
      · exact ⟨_, _, _, undoAndRelease_eq rfl locked .validationFailed w₂, _, ended_onward ..⟩
      · exact ⟨_, _, _, applyAndRelease_eq rfl locked w₂, _, ended_onward ..⟩

/-! ## Uses -/

omit [Participant P W] in
theorem ensure_same {M : Type} {facet : Facet P M} {t t' : Transaction P}
    (ensured : t.ensure facet = .ok t') : ∃ members roster, t' = { t with members, roster } := by
  unfold ensure at ensured
  split at ensured
  · exact ⟨t.members, t.roster, (Except.ok.inj ensured).symm⟩
  · split at ensured
    · cases ensured
    · exact ⟨_, _, (Except.ok.inj ensured).symm⟩

omit [Participant P W] in
/-- Working through a participant leaves the rest of a transaction alone. -/
theorem withModule_same {M β : Type} (facet : Facet P M)
    (f : Context → M → W → Except Error β × M × W) (t : Transaction P) (w : W) :
    ∃ members roster, (withModule facet f t w).2.1 = { t with members, roster } := by
  unfold withModule
  rcases t.checkActive "use a module" with e | _
  · exact ⟨t.members, t.roster, rfl⟩
  · cases ensured : t.ensure facet with
    | error e => exact ⟨t.members, t.roster, rfl⟩
    | ok t' =>
        obtain ⟨members, roster, rfl⟩ := ensure_same ensured
        simp only
        rcases findFacet facet members with _ | ⟨state, put⟩
        · exact ⟨members, roster, rfl⟩
        · exact ⟨_, roster, rfl⟩

theorem register_same (t : Transaction P) (p : P) :
    ∃ members roster, (t.register p).2 = { t with members, roster } := by
  unfold register
  rcases t.checkActive "register a module" with e | _
  · exact ⟨t.members, t.roster, rfl⟩
  · exact ⟨_, _, rfl⟩

/-- `t` is `begun`, and still at work. -/
structure Still (begun t : Transaction P) : Prop where
  id : t.id = begun.id
  config : t.config = begun.config
  reports : t.reports = begun.reports
  active : t.phase = .active
  outcome : t.outcome = none

omit [Participant P W] in
theorem Still.with {begun t : Transaction P} (still : Still begun t) (members : List (Member P))
    (roster : List Domain) : Still begun { t with members, roster } :=
  ⟨still.id, still.config, still.reports, still.active, still.outcome⟩

end Transaction

/-- Whether a use is a commit. -/
def Use.isCommit : Use P W → Bool
  | .commit => true
  | _ => false

/-- A use leaves a transaction at work or ends it, and only a commit can commit it. -/
theorem Use.perform_still {begun t : Transaction P} (still : Transaction.Still begun t)
    (use : Use P W) (w : W) :
    Transaction.Still begun (use.perform t w).2.1 ∨
      ∃ outcome left w', (use.perform t w).2 = (left, w') ∧ t.Ends outcome left ∧
        (outcome = .committed → use.isCommit = true) := by
  have never {reason : AbortReason} {given : Prop} (same : Outcome.aborted reason = .committed) :
      given := by cases same
  cases use with
  | register p =>
      obtain ⟨members, roster, same⟩ := Transaction.register_same t p
      exact Or.inl (by simpa only [perform, same] using still.with members roster)
  | withModule facet f =>
      obtain ⟨members, roster, same⟩ := Transaction.withModule_same facet f t w
      exact Or.inl (by simpa only [perform, same] using still.with members roster)
  | validateEarly =>
      rcases Transaction.validateEarly_ends still.active w with
        same | ⟨e, reason, left, w', gone, ends⟩
      · exact Or.inl (by simpa only [perform, same] using still)
      · exact Or.inr ⟨_, left, w', by simp only [perform, gone], ends, never⟩
  | commit =>
      obtain ⟨outcome, left, w', gone, ends⟩ := Transaction.commit_ends still.active w
      exact Or.inr ⟨outcome, left, w', by simp only [perform, gone], ends, fun _ => rfl⟩
  | abort =>
      obtain ⟨reason, left, w', gone, ends⟩ := Transaction.abort_ends still.active w
      exact Or.inr ⟨_, left, w', by simp only [perform, gone], ends, never⟩
  | drop =>
      obtain ⟨reason, left, w', gone, ends⟩ := Transaction.drop_ends still.active w
      exact Or.inr ⟨_, left, w', by simp only [perform, gone], ends, never⟩

/-- Nothing comes of using a transaction that is released. -/
theorem Use.perform_released {t : Transaction P} (released : t.phase = .released) (use : Use P W)
    (w : W) : (use.perform t w).2 = (t, w) := by
  cases use with
  | register p => simp only [perform, Transaction.register_released released]
  | withModule facet f => simp only [perform, Transaction.withModule_released released]
  | validateEarly => simp only [perform, Transaction.validateEarly_released released]
  | commit => simp only [perform, Transaction.commit_released released]
  | abort => simp only [perform, Transaction.abort_released released]
  | drop => simp only [perform, Transaction.drop_released released]

/-! ## Bodies -/

namespace Manager

/-- What a body may come to with its transaction and the manager: it makes calls on the transaction,
commits only where `commits`, and what it does besides leaves the books of the manager alone. -/
inductive Works (commits : Bool) (begun : Transaction P) (m₀ : Manager W B) :
    Transaction P → Manager W B → Prop where
  | start : Works commits begun m₀ begun m₀
  | use {t : Transaction P} {m : Manager W B} (before : Works commits begun m₀ t m) (use : Use P W)
      (allowed : use.isCommit = true → commits = true) :
      Works commits begun m₀ (m.through t fun t w => use.perform t w).2.1
        (m.through t fun t w => use.perform t w).2.2
  | aside {t : Transaction P} {m m' : Manager W B} (before : Works commits begun m₀ t m)
      (config : m'.config = m.config) (stats : m'.stats = m.stats) (serial : m.serial ≤ m'.serial) :
      Works commits begun m₀ t m'

/-- A body that works so in every attempt. -/
def Body.Faithful (commits : Bool) (body : Body P W B X α) : Prop :=
  ∀ k begun m x, Works commits begun m (body k begun m x).2.1 (body k begun m x).2.2.1

/-- The transaction that a body was given is at work, or it ended and was counted. -/
inductive Stage (commits : Bool) (begun : Transaction P) (stats : Stats) :
    Transaction P → Stats → Prop where
  | working {t : Transaction P} (still : begun.Still t) : Stage commits begun stats t stats
  | past {t left : Transaction P} {outcome : Outcome} (still : begun.Still t)
      (ends : t.Ends outcome left) (allowed : outcome = .committed → commits = true) :
      Stage commits begun stats left (stats.recordOutcome outcome)

/-! ### The books -/

omit [Participant P W] in
theorem report_reports {t : Transaction P} (reports : t.reports = true) (m : Manager W B)
    (outcome : Outcome) :
    (m.report t outcome).config = m.config ∧ (m.report t outcome).serial = m.serial ∧
      (m.report t outcome).stats = m.stats.recordOutcome outcome := by
  simp only [report, reports, if_true, and_self]

omit [Participant P W] in
/-- A call that leaves the outcome as it was is not reported. -/
theorem reportEnd_same {t t' : Transaction P} (same : t'.outcome = t.outcome) (m : Manager W B) :
    m.reportEnd t t' = m := by
  unfold reportEnd
  rw [same]
  cases t.outcome <;> rfl

omit [Participant P W] in
/-- The end of a transaction at work is counted. -/
theorem reportEnd_ends {begun t left : Transaction P} {outcome : Outcome}
    (reports : begun.reports = true) (still : begun.Still t) (ends : t.Ends outcome left)
    (m : Manager W B) :
    (m.reportEnd t left).config = m.config ∧ (m.reportEnd t left).serial = m.serial ∧
      (m.reportEnd t left).stats = m.stats.recordOutcome outcome := by
  obtain ⟨visited, rfl⟩ := ends
  have reported : m.reportEnd t (t.ended visited outcome) =
      m.report (t.ended visited outcome) outcome := by
    rw [reportEnd, still.outcome]
    rfl
  rw [reported]
  exact report_reports (still.reports.trans reports) m outcome

omit [Participant P W] in
theorem through_eq {β : Type} (m : Manager W B) (t : Transaction P)
    (call : Transaction P → W → β × Transaction P × W) :
    m.through t call = ((call t m.world).1, (call t m.world).2.1,
      ({ m with world := (call t m.world).2.2 } : Manager W B).reportEnd t (call t m.world).2.1) :=
  rfl

/-! ### Steps -/

variable {commits : Bool} {begun t : Transaction P} {m₀ m : Manager W B} {stats : Stats}

/-- A use keeps the stage. -/
theorem stage_use (reports : begun.reports = true) {now : Stats}
    (stage : Stage commits begun stats t now) (counted : m.stats = now) (use : Use P W)
    (allowed : use.isCommit = true → commits = true) :
    let r := m.through t fun t w => use.perform t w
    Stage commits begun stats r.2.1 r.2.2.stats ∧ r.2.2.config = m.config ∧
      r.2.2.serial = m.serial := by
  simp only [through_eq]
  cases stage with
  | working still =>
      rcases use.perform_still still m.world with after | ⟨outcome, left, w', gone, ends, commit⟩
      · rw [reportEnd_same (after.outcome.trans still.outcome.symm)]
        exact ⟨counted ▸ .working after, rfl, rfl⟩
      · obtain ⟨config, serial, more⟩ :=
          reportEnd_ends reports still ends { m with world := w' }
        rw [gone]
        refine ⟨?_, config, serial⟩
        rw [more, counted]
        exact .past still ends fun committed => allowed (commit committed)
  | past still ends uncommitted =>
      obtain ⟨visited, rfl⟩ := ends
      rw [use.perform_released (t := Transaction.ended _ _ _) rfl, reportEnd_same rfl, counted]
      exact ⟨.past still ⟨visited, rfl⟩ uncommitted, rfl, rfl⟩

/-- **Whatever a body does**, its transaction is at work, or it ended and was counted once. -/
theorem Works.stage (works : Works commits begun m₀ t m) (fresh : begun.Still begun)
    (reports : begun.reports = true) :
    Stage commits begun m₀.stats t m.stats ∧ m.config = m₀.config ∧ m₀.serial ≤ m.serial := by
  induction works with
  | start => exact ⟨.working fresh, rfl, le_refl _⟩
  | use before use allowed ih =>
      obtain ⟨stage, config, serial⟩ := ih
      obtain ⟨after, sameConfig, sameSerial⟩ := stage_use reports stage rfl use allowed
      exact ⟨after, sameConfig.trans config, sameSerial ▸ serial⟩
  | aside before sameConfig sameStats further ih =>
      obtain ⟨stage, config, serial⟩ := ih
      exact ⟨sameStats ▸ stage, sameConfig.trans config, serial.trans further⟩

/-! ## Attempts -/

/-- How an attempt goes on after its body answered, and left the transaction and the manager so. -/
inductive Concludes (begun t : Transaction P) (m : Manager W B) :
    Except Error α → Trial P α → Manager W B → Prop where
  | committing {value : α} {outcome : Outcome} {left : Transaction P} {world : W}
      (active : t.phase = .active) (ends : t.Ends outcome left) :
      Concludes begun t m (.ok value) { begun, course := .finished value (.ok outcome), left }
        (({ m with world } : Manager W B).reportEnd t left)
  | refused {value : α} (inactive : t.phase ≠ .active) :
      Concludes begun t m (.ok value)
        { begun, course := .finished value (.error (Transaction.notActive "commit" t.phase)),
          left := t } m
  | aborting {e : Error} {reason : AbortReason} {left : Transaction P} {world : W}
      (active : t.phase = .active) (ends : t.Ends (.aborted reason) left) :
      Concludes begun t m (.error e)
        { begun, course := .gaveUp e (some (.ok (.aborted reason))), left }
        (({ m with world } : Manager W B).reportEnd t left)
  | past {e : Error} (inactive : t.phase ≠ .active) :
      Concludes begun t m (.error e) { begun, course := .gaveUp e none, left := t } m

/-- The transaction an attempt begins with. -/
def fresh (m : Manager W B) : Transaction P :=
  { id := { serial := m.serial + 1, label := "run" ++ toString (m.attempts + 1) }
    config := m.config }

/-- The manager once an attempt has begun. -/
def beginning (m : Manager W B) : Manager W B :=
  { m with
    attempts := m.attempts + 1
    serial := m.serial + 1
    stats := m.stats.recordStarted }

theorem trial_concludes (body : Body P W B X α) (k : Nat) (m : Manager W B) (x : X) :
    let after := body k m.fresh m.beginning x
    Concludes m.fresh after.2.1 after.2.2.1 after.1 (trial body k m x).1 (trial body k m x).2.1 := by
  intro after
  have begins : Manager.begin (P := P) { m with attempts := m.attempts + 1 }
      ("run" ++ toString (m.attempts + 1)) = (m.fresh, m.beginning) := rfl
  simp only [trial, begins, show body k m.fresh m.beginning x = after from rfl]
  rcases after with ⟨e | value, t, m', x'⟩
  · by_cases active : t.phase = .active
    · obtain ⟨reason, left, w', gone, ends⟩ := Transaction.abort_ends active m'.world
      have isActive : t.isActive = true := by simp [Transaction.isActive, active]
      simp only [isActive, if_true, Manager.abort, through, gone]
      exact .aborting active ends
    · have inactive : t.isActive = false := by simp [Transaction.isActive, active]
      simp only [inactive, Bool.false_eq_true, if_false]
      exact .past active
  · by_cases active : t.phase = .active
    · obtain ⟨outcome, left, w', gone, ends⟩ := Transaction.commit_ends active m'.world
      simp only [Manager.commit, through, gone]
      exact .committing active ends
    · have refused : t.commit m'.world =
          (.error (Transaction.notActive "commit" t.phase), t, m'.world) := by
        simp only [Transaction.commit, Transaction.checkActive_inactive active]
      simp only [Manager.commit, through, refused, reportEnd_same rfl]
      exact .refused active

/-- What an attempt of a faithful body comes to. -/
structure Settled (m : Manager W B) (trial : Trial P α) (m' : Manager W B) : Prop where
  begun : trial.begun = m.fresh
  id : trial.left.id = trial.begun.id
  released : trial.left.phase = .released
  /-- It is committed exactly if the body answered and the commit did commit. -/
  committed : trial.left.outcome = some .committed ↔
    ∃ value, trial.course = .finished value (.ok .committed)
  counted : ∃ outcome, trial.left.outcome = some outcome ∧
    m'.stats = m.stats.recordStarted.recordOutcome outcome
  /-- If the body failed, so did the attempt, with the error of the body. -/
  error : ∀ e, trial.verdict = .error e ↔ trial.error? = some e
  contention : ∀ e, trial.verdict = .error e → e.isRetryable = trial.contended
  config : m'.config = m.config
  serial : m.serial < m'.serial

omit [Participant P W] in
theorem fresh_still (m : Manager W B) : (m.fresh : Transaction P).Still m.fresh :=
  ⟨rfl, rfl, rfl, rfl, rfl⟩

omit [Participant P W] in
theorem Stage.active (stage : Stage commits begun stats t m.stats) (active : t.phase = .active) :
    begun.Still t ∧ m.stats = stats := by
  generalize m.stats = now at stage
  cases stage with
  | working still => exact ⟨still, rfl⟩
  | past still ends =>
      obtain ⟨visited, rfl⟩ := ends
      cases active

omit [Participant P W] in
theorem Stage.inactive (stage : Stage false begun stats t m.stats) (inactive : t.phase ≠ .active) :
    t.id = begun.id ∧ t.phase = .released ∧ t.outcome ≠ some .committed ∧
      ∃ outcome, t.outcome = some outcome ∧ m.stats = stats.recordOutcome outcome := by
  generalize m.stats = now at stage
  cases stage with
  | working still => exact absurd still.active inactive
  | @past t₁ _ outcome still ends uncommitted =>
      obtain ⟨visited, rfl⟩ := ends
      refine ⟨still.id, rfl, fun committed => ?_, outcome, rfl, rfl⟩
      exact absurd (uncommitted (Option.some.inj committed)) Bool.false_ne_true

omit [Participant P W] in
/-- The error of a commit on a transaction that is not active is not contention. -/
theorem notActive_isRetryable (action : String) (phase : Phase) :
    (Transaction.notActive action phase).isRetryable = false := rfl

omit [Participant P W] in
/-- The error of an attempt is that of its body or of its commit, and decides whether it failed by
contention. -/
theorem Concludes.error {answer : Except Error α} {trial : Trial P α} {m' : Manager W B}
    (concludes : Concludes begun t m answer trial m') (e : Error) :
    (trial.verdict = .error e ↔ trial.error? = some e) ∧
      (trial.verdict = .error e → e.isRetryable = trial.contended) := by
  cases concludes with
  | @committing value outcome =>
      cases outcome with
      | committed => simp [Trial.verdict, Trial.result, Trial.error?, Attempt.verdict]
      | aborted reason =>
          simp only [Trial.verdict, Trial.result, Trial.error?, Trial.contended, Attempt.verdict,
            Attempt.contended, Except.error.injEq, Option.some.injEq, true_and]
          exact fun same => congrArg Error.isRetryable same.symm
  | refused =>
      constructor
      · simp [Trial.verdict, Trial.result, Trial.error?, Attempt.verdict]
      · rintro ⟨⟩
        exact notActive_isRetryable "commit" t.phase
  | aborting =>
      simp only [Trial.verdict, Trial.result, Trial.error?, Trial.contended, Attempt.verdict,
        Attempt.contended, Except.error.injEq, Option.some.injEq, true_and]
      exact fun same => congrArg Error.isRetryable same.symm
  | past =>
      simp only [Trial.verdict, Trial.result, Trial.error?, Trial.contended, Attempt.verdict,
        Attempt.contended, Except.error.injEq, Option.some.injEq, true_and]
      exact fun same => congrArg Error.isRetryable same.symm

/-- **Every attempt of a body that leaves the commit to the run is settled.** -/
theorem trial_settled {body : Body P W B X α} (faithful : body.Faithful false) (k : Nat)
    (m : Manager W B) (x : X) : Settled m (trial body k m x).1 (trial body k m x).2.1 := by
  have concludes := trial_concludes body k m x
  obtain ⟨stage, config, serial⟩ :=
    (faithful k m.fresh m.beginning x).stage (fresh_still m) rfl
  simp only at concludes
  generalize body k m.fresh m.beginning x = after at concludes stage config serial
  rcases after with ⟨answer, t, m₁, x₁⟩
  simp only at concludes stage config serial
  generalize trial body k m x = r at concludes
  rcases r with ⟨trial, m', x'⟩
  simp only at concludes ⊢
  have error := concludes.error
  have further : m.serial < m₁.serial := Nat.lt_of_succ_le serial
  cases concludes with
  | @committing value outcome left world active ends =>
      obtain ⟨still, books⟩ := stage.active active
      obtain ⟨sameConfig, sameSerial, more⟩ :=
        reportEnd_ends rfl still ends { m₁ with world }
      obtain ⟨visited, rfl⟩ := ends
      exact ⟨rfl, still.id, rfl, by simp [Transaction.ended],
        ⟨outcome, rfl, more.trans (books ▸ rfl)⟩, fun e => (error e).1, fun e => (error e).2,
        sameConfig.trans config, lt_of_lt_of_eq further sameSerial.symm⟩
  | refused inactive =>
      obtain ⟨same, released, uncommitted, counted⟩ := stage.inactive inactive
      exact ⟨rfl, same, released, by simp [uncommitted], counted, fun e => (error e).1,
        fun e => (error e).2, config, further⟩
  | @aborting e reason left world active ends =>
      obtain ⟨still, books⟩ := stage.active active
      obtain ⟨sameConfig, sameSerial, more⟩ :=
        reportEnd_ends rfl still ends { m₁ with world }
      obtain ⟨visited, rfl⟩ := ends
      exact ⟨rfl, still.id, rfl, by simp [Transaction.ended],
        ⟨_, rfl, more.trans (books ▸ rfl)⟩, fun e => (error e).1, fun e => (error e).2,
        sameConfig.trans config, lt_of_lt_of_eq further sameSerial.symm⟩
  | past inactive =>
      obtain ⟨same, released, uncommitted, counted⟩ := stage.inactive inactive
      exact ⟨rfl, same, released, by simp [uncommitted], counted, fun e => (error e).1,
        fun e => (error e).2, config, further⟩

/-! ## Runs -/

/-- What a run comes to that made the attempts `init` and then `last`, and had `retries` retries. -/
structure Retried (retries : Nat) (m m' : Manager W B) (init : List (Trial P α)) (last : Trial P α)
    (answer : Except Error α) : Prop where
  bounded : init.length ≤ retries
  /-- Every attempt is given a new transaction, with nothing done in it yet. -/
  fresh : ∀ trial ∈ init ++ [last], ∃ id, trial.begun = { id, config := m.config }
  later : ∀ trial ∈ init ++ [last], m.serial < trial.begun.id.serial
  serials : ((init ++ [last]).map (·.begun.id.serial)).Pairwise (· < ·)
  released : ∀ trial ∈ init ++ [last],
    trial.left.id = trial.begun.id ∧ trial.left.phase = .released
  /-- The run goes on only after contention. -/
  contended : ∀ trial ∈ init, trial.left.outcome ≠ some .committed ∧
    ∃ e, trial.error? = some e ∧ e.isRetryable = true
  success : ∀ value, answer = .ok value ↔
    last.left.outcome = some .committed ∧ last.answer = .ok value
  failure : ∀ e, answer = .error e ↔ last.error? = some e
  stopped : init.length < retries →
    (∃ value, answer = .ok value) ∨ ∃ e, answer = .error e ∧ e.isRetryable = false
  started : m'.stats.started = m.stats.started + (init.length + 1)
  retried : m'.stats.retried = m.stats.retried + init.length
  ended : m'.stats.ended = m.stats.ended + (init.length + 1)
  committed : m'.stats.committed =
    m.stats.committed + if last.left.outcome = some .committed then 1 else 0

namespace Settled

variable {m' : Manager W B} {trial : Trial P α}

omit [Participant P W] in
/-- An attempt counts once as begun and once as ended, and as committed if it is. -/
theorem books (settled : Settled m trial m') :
    m'.stats.started = m.stats.started + 1 ∧ m'.stats.retried = m.stats.retried ∧
      m'.stats.ended = m.stats.ended + 1 ∧
      m'.stats.committed =
        m.stats.committed + if trial.left.outcome = some .committed then 1 else 0 := by
  obtain ⟨outcome, left, counted⟩ := settled.counted
  rw [counted, left]
  refine ⟨?_, ?_, m.stats.recordStarted.ended_recordOutcome outcome, ?_⟩ <;>
    rcases outcome with _ | _ | _ | _ | _ <;> simp [Stats.recordOutcome, Stats.recordStarted]

omit [Participant P W] in
theorem success (settled : Settled m trial m') (value : α) :
    trial.verdict = .ok value ↔
      trial.left.outcome = some .committed ∧ trial.answer = .ok value := by
  rw [Trial.verdict_eq_ok, settled.committed]
  constructor
  · intro course
    exact ⟨⟨value, course⟩, by rw [Trial.answer, course]⟩
  · rintro ⟨⟨other, course⟩, answer⟩
    rw [Trial.answer, course] at answer
    exact Except.ok.inj answer ▸ course

omit [Participant P W] in
/-- An attempt that failed by contention did not commit. -/
theorem contended (settled : Settled m trial m') (contended : trial.contended = true) :
    trial.left.outcome ≠ some .committed ∧ ∃ e, trial.error? = some e ∧ e.isRetryable = true := by
  obtain ⟨e, failed, retryable⟩ := Trial.verdict_contended contended
  refine ⟨fun committed => ?_, e, (settled.error e).1 failed, retryable⟩
  obtain ⟨value, course⟩ := settled.committed.1 committed
  rw [Trial.verdict_eq_ok.2 course] at failed
  cases failed

omit [Participant P W] in
/-- The last attempt of a run makes its answer. -/
theorem last (settled : Settled m trial m') {retries : Nat}
    (stops : retries = 0 ∨ trial.contended = false) :
    Retried retries m m' [] trial trial.verdict := by
  obtain ⟨started, retried, ended, committed⟩ := settled.books
  refine ⟨Nat.zero_le _, ?_, ?_, List.pairwise_singleton _ _, ?_,
    fun _ member => absurd member List.not_mem_nil, settled.success, settled.error, fun left => ?_,
    started, retried, ended, committed⟩
  · intro _ member
    rw [List.mem_singleton.1 member, settled.begun]
    exact ⟨_, rfl⟩
  · intro _ member
    rw [List.mem_singleton.1 member, settled.begun]
    exact Nat.lt_succ_self _
  · intro _ member
    rw [List.mem_singleton.1 member]
    exact ⟨settled.id, settled.released⟩
  · have calm := stops.resolve_left (Nat.pos_iff_ne_zero.1 left)
    cases verdict : trial.verdict with
    | ok value => exact Or.inl ⟨value, rfl⟩
    | error e => exact Or.inr ⟨e, rfl, (settled.contention e verdict).trans calm⟩

omit [Participant P W] in
/-- An attempt that failed by contention comes before those that follow. -/
theorem again (settled : Settled m trial m') (contended : trial.contended = true) {fewer : Nat}
    {m'' : Manager W B} {init : List (Trial P α)} {last : Trial P α} {answer : Except Error α}
    (rest : Retried fewer { m' with stats := m'.stats.recordRetry } m'' init last answer) :
    Retried (fewer + 1) m m'' (trial :: init) last answer := by
  obtain ⟨started, retried, ended, committed⟩ := settled.books
  have uncommitted := settled.contended contended
  rw [if_neg uncommitted.1, Nat.add_zero] at committed
  have recorded : m'.stats.recordRetry.started = m'.stats.started ∧
      m'.stats.recordRetry.retried = m'.stats.retried + 1 ∧
      m'.stats.recordRetry.ended = m'.stats.ended ∧
      m'.stats.recordRetry.committed = m'.stats.committed := ⟨rfl, rfl, rfl, rfl⟩
  have serial : trial.begun.id.serial = m.serial + 1 := by rw [settled.begun]; rfl
  have onward : ∀ other ∈ init ++ [last], trial.begun.id.serial < other.begun.id.serial := by
    intro other member
    have later := rest.later other member
    have further := settled.serial
    simp only at later
    omega
  constructor
  · exact Nat.succ_le_succ rest.bounded
  · refine List.forall_mem_cons.2 ⟨⟨_, settled.begun⟩, fun other member => ?_⟩
    rw [← settled.config]
    exact rest.fresh other member
  · refine List.forall_mem_cons.2 ⟨by omega, fun other member => ?_⟩
    have later := onward other member
    omega
  · refine List.pairwise_cons.2 ⟨?_, rest.serials⟩
    intro serial member
    obtain ⟨other, there, rfl⟩ := List.mem_map.1 member
    exact onward other there
  · exact List.forall_mem_cons.2 ⟨⟨settled.id, settled.released⟩, rest.released⟩
  · exact List.forall_mem_cons.2 ⟨uncommitted, rest.contended⟩
  · exact rest.success
  · exact rest.failure
  · intro left
    exact rest.stopped (Nat.lt_of_succ_lt_succ left)
  · rw [rest.started, recorded.1, started, List.length_cons]
    omega
  · rw [rest.retried, recorded.2.1, retried, List.length_cons]
    omega
  · rw [rest.ended, recorded.2.2.1, ended, List.length_cons]
    omega
  · rw [rest.committed, recorded.2.2.2, committed]

end Settled

theorem retainedFrom_retried {body : Body P W B X α} (faithful : body.Faithful false)
    (retries k : Nat) (m : Manager W B) (x : X) :
    let r := retainedFrom body retries k m x
    ∃ init last, r.1 = init ++ [last] ∧ Retried retries m r.2.2.1 init last r.2.1 := by
  induction retries generalizing k m x with
  | zero =>
      have settled := trial_settled faithful k m x
      rcases retainedFrom_cases body 0 k m x with ⟨stops, whole⟩ | ⟨fewer, more, -⟩
      · rw [whole]
        exact ⟨[], _, rfl, settled.last stops⟩
      · cases more
  | succ retries ih =>
      have settled := trial_settled faithful k m x
      rcases retainedFrom_cases body (retries + 1) k m x with
        ⟨stops, whole⟩ | ⟨fewer, more, contended, whole⟩
      · rw [whole]
        exact ⟨[], _, rfl, settled.last stops⟩
      · cases more
        obtain ⟨init, last, attempts, rest⟩ := ih (k + 1)
          { (trial body k m x).2.1 with stats := (trial body k m x).2.1.stats.recordRetry }
          (trial body k m x).2.2
        rw [whole]
        exact ⟨_, last, congrArg (List.cons _) attempts, settled.again contended rest⟩

/-- **The retry loop.**  The attempts of a run, for a body that leaves the commit to it: the last one
makes the answer, and there is another one only after contention and while retries are left. -/
theorem run_attempts {body : Body P W B X α} (faithful : body.Faithful false) (m : Manager W B) (x : X) :
    ∃ init last, (retained body m x).1 = init ++ [last] ∧
      Retried m.config.maxRetries m (run body m x).2.1 init last (run body m x).1 := by
  rw [← retained_run]
  exact retainedFrom_retried faithful m.config.maxRetries 0 m x

/-- A manager at the start, of which nobody is told. -/
def unheard {V : Type} (world : V) : Manager V (Switchboard TxEvent) := { world, bus := {} }

/-- A body that gives its first attempt up as contended, by an abort of its own, and then answers. -/
def secondTry : Body Builtin World (Switchboard TxEvent) Unit Nat := fun k t m x =>
  if k = 0 then
    let (_, t, m) := m.abort t
    (.error (.busy (.named "first")), t, m, x)
  else (.ok 7, t, m, x)

theorem secondTry_faithful : secondTry.Faithful false := by
  intro k begun m x
  unfold secondTry
  split
  · exact Works.start.use .abort fun commit => by cases commit
  · exact Works.start

/-- Two attempts are made, the first is given up and the second commits. -/
theorem run_attempts_secondTry :
    secondTry.Faithful false ∧
      (run secondTry (unheard ({} : World)) ()).1 = .ok 7 ∧
      (retained secondTry (unheard ({} : World)) ()).1.length = 2 ∧
      ∃ init last, (retained secondTry (unheard ({} : World)) ()).1 = init ++ [last] ∧
        Retried 8 (unheard {}) (run secondTry (unheard ({} : World)) ()).2.1 init last
          (run secondTry (unheard ({} : World)) ()).1 :=
  ⟨secondTry_faithful, by decide +kernel, by decide +kernel,
    run_attempts secondTry_faithful (unheard {}) ()⟩

end Manager

end Transact
