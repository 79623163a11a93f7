/-
# Transact.Proofs.Proceedings -- the calls that end a transaction, one operation after another

The calls on all participants and those of the coordinator, put together from the steps of each party.
Where nothing is refused a commit is `committing`, and giving up is `abandon`; what holds after a call
follows from these two (`keeps_steps`).
-/
import Transact.Proofs.Stepwise

namespace Transact.Stepwise

set_option autoImplicit false

open Procedure (ask run_pure run_ask run_bind)

variable {V : Type}

section Parties

variable {G : Type} [Participant G V] (ctx : Context)

/-! ## All participants -/

/-- Lock from the first on; with how many were locked and why no more. -/
def lockAll :
    List (Member (Party G)) → Procedure V (List (Member (Party G)) × Nat × Option Error)
  | [] => pure ([], 0, none)
  | m :: rest => do
      let r ← lock ctx m.state
      match r.1 with
      | .ok () => do
          let q ← lockAll rest
          pure ({ m with state := r.2 } :: q.1, q.2.1 + 1, q.2.2)
      | .error e => pure ({ m with state := r.2 } :: rest, 0, some e)

def validateAll (mode : Validation) : List (Member (Party G)) → Procedure V Bool
  | [] => pure true
  | m :: rest => do
      let valid ← validate ctx mode m.state
      bif valid then validateAll mode rest else pure false

def applyAll : List (Member (Party G)) → Procedure V (Option Int × List (Member (Party G)))
  | [] => pure (none, [])
  | m :: rest => do
      let r ← apply ctx m.state
      let q ← applyAll rest
      pure (match r.1 with
        | .ok () => q.1
        | .error e => some e.code, { m with state := r.2 } :: q.2)

def undoAll : List (Member (Party G)) → Procedure V (Option Int × List (Member (Party G)))
  | [] => pure (none, [])
  | m :: rest => do
      let q ← undoAll rest
      let r ← undo ctx m.state
      pure (match r.1 with
        | .ok () => q.1
        | .error e => some (q.1.getD e.code), { m with state := r.2 } :: q.2)

def finishAll : List (Member (Party G)) → Procedure V (List (Member (Party G)))
  | [] => pure []
  | m :: rest => do
      let state ← finish ctx m.state
      let members ← finishAll rest
      pure ({ m with state } :: members)

def unlockAll : List (Member (Party G)) → Procedure V (List (Member (Party G)))
  | [] => pure []
  | m :: rest => do
      let members ← unlockAll rest
      let state ← unlock ctx m.state
      pure ({ m with state } :: members)

def releaseAll : List (Member (Party G)) → Procedure V Unit
  | [] => pure ()
  | m :: rest => do
      release m.state
      releaseAll rest

variable (w : World × V) (members : List (Member (Party G)))

theorem lockAll_run :
    (lockAll ctx members).run ctx.tx w =
      let r := Transact.lockAll ctx members w
      ((r.members, r.locked, r.refusal), r.world) := by
  induction members generalizing w with
  | nil => rfl
  | cons m rest ih =>
      simp only [lockAll, Transact.lockAll, run_bind, lock_run]
      rcases Participant.lock ctx m.state w with ⟨_ | _, s, w'⟩
      · rfl
      · simp only [run_bind, ih, run_pure]

theorem validateAll_run (mode : Validation) :
    (validateAll ctx mode members).run ctx.tx w = Transact.validateAll ctx mode members w := by
  induction members generalizing w with
  | nil => rfl
  | cons m rest ih =>
      simp only [validateAll, Transact.validateAll, run_bind, validate_run]
      rcases Participant.validate ctx mode m.state w with ⟨_ | _, w'⟩
      · rfl
      · exact ih w'

theorem applyAll_run :
    (applyAll ctx members).run ctx.tx w =
      let r := Transact.applyAll ctx members w
      ((r.1, r.2.1), r.2.2) := by
  induction members generalizing w with
  | nil => rfl
  | cons m rest ih =>
      simp only [applyAll, Transact.applyAll, run_bind, apply_run, ih, run_pure]
      rcases Participant.apply ctx m.state w with ⟨_ | _, s, w'⟩ <;> rfl

theorem undoAll_run :
    (undoAll ctx members).run ctx.tx w =
      let r := Transact.undoAll ctx members w
      ((r.1, r.2.1), r.2.2) := by
  induction members with
  | nil => rfl
  | cons m rest ih =>
      simp only [undoAll, Transact.undoAll, run_bind, ih, undo_run, run_pure]
      rcases Participant.undo ctx m.state (Transact.undoAll ctx rest w).2.2 with
        ⟨_ | _, s, w'⟩ <;> rfl

theorem finishAll_run :
    (finishAll ctx members).run ctx.tx w = Transact.finishAll ctx members w := by
  induction members generalizing w with
  | nil => rfl
  | cons m rest ih => simp only [finishAll, Transact.finishAll, run_bind, finish_run, ih, run_pure]

theorem unlockAll_run :
    (unlockAll ctx members).run ctx.tx w = Transact.unlockAll ctx members w := by
  induction members with
  | nil => rfl
  | cons m rest ih => simp only [unlockAll, Transact.unlockAll, run_bind, ih, unlock_run, run_pure]

theorem releaseAll_run :
    (releaseAll members).run ctx.tx w = ((), Transact.releaseAll members w) := by
  induction members generalizing w with
  | nil => rfl
  | cons m rest ih => simp only [releaseAll, Transact.releaseAll, run_bind, release_run ctx, ih]

end Parties

/-! ## The coordinator -/

section Coordinator

variable {G : Type} [Participant G V]

/-- Finish all, unlock the first `locked`, release all. -/
def finishAndRelease (t : Transaction (Party G)) (locked : Nat) (outcome : Outcome) :
    Procedure V (Except Error Outcome × Transaction (Party G)) :=
  match t.advance .finishing with
  | .error e => pure (.error e, t)
  | .ok t => do
      let members ← finishAll t.context t.members
      let unlocked ← unlockAll t.context (members.take locked)
      releaseAll (unlocked ++ members.drop locked)
      pure (match { t with members := [] }.advance .released with
        | .error e => (.error e, { t with members := [] })
        | .ok t => (.ok outcome, { t with outcome := some outcome }))

def undoAndRelease (t : Transaction (Party G)) (locked : Nat) (reason : AbortReason) :
    Procedure V (Except Error Outcome × Transaction (Party G)) :=
  match t.advance .undoing with
  | .error e => pure (.error e, t)
  | .ok t => do
      let r ← undoAll t.context t.members
      let reason := match r.1 with
        | some code => .moduleError code
        | none => reason
      finishAndRelease { t with members := r.2 } locked (.aborted reason)

def applyAndRelease (t : Transaction (Party G)) (locked : Nat) :
    Procedure V (Except Error Outcome × Transaction (Party G)) :=
  match t.advance .applying with
  | .error e => pure (.error e, t)
  | .ok t => do
      let r ← applyAll t.context t.members
      let outcome := match r.1 with
        | some code => .aborted (.moduleError code)
        | none => .committed
      finishAndRelease { t with members := r.2 } locked outcome

def validateAndRelease (t : Transaction (Party G)) (locked : Nat) :
    Procedure V (Except Error Outcome × Transaction (Party G)) :=
  match t.advance .locked with
  | .error e => pure (.error e, t)
  | .ok t =>
      match t.advance .validating with
      | .error e => pure (.error e, t)
      | .ok t => do
          let valid ← validateAll t.context .final t.members
          bif valid then applyAndRelease t locked else undoAndRelease t locked .validationFailed

def commit (t : Transaction (Party G)) :
    Procedure V (Except Error Outcome × Transaction (Party G)) :=
  match t.checkActive "commit" with
  | .error e => pure (.error e, t)
  | .ok () => do
      let r ← lockAll t.context t.members
      match r.2.2 with
      | some e => undoAndRelease { t with members := r.1 } r.2.1 (Transaction.lockReason e)
      | none => validateAndRelease { t with members := r.1 } r.2.1

def abort (t : Transaction (Party G)) :
    Procedure V (Except Error Outcome × Transaction (Party G)) :=
  match t.checkActive "abort" with
  | .error e => pure (.error e, t)
  | .ok () => undoAndRelease t 0 .requested

def validateEarly (t : Transaction (Party G)) :
    Procedure V (Except Error Unit × Transaction (Party G)) :=
  match t.checkActive "validate" with
  | .error e => pure (.error e, t)
  | .ok () => do
      let valid ← validateAll t.context .early t.members
      bif valid then pure (.ok (), t)
      else do
        let r ← undoAndRelease t 0 .validationFailed
        pure (match r.1 with
          | .error e => (.error e, r.2)
          | .ok outcome => (.error (Transaction.earlyConflict r.2.id outcome), r.2))

def drop (t : Transaction (Party G)) : Procedure V (Transaction (Party G)) :=
  if t.isActive then do
    let r ← undoAndRelease t 0 .requested
    pure r.2
  else pure t

variable (t : Transaction (Party G)) (locked : Nat) (w : World × V)

omit [Participant G V] in
theorem advance_id {t t' : Transaction (Party G)} {next : Phase} (advanced : t.advance next = .ok t') :
    t'.id = t.id := by
  unfold Transaction.advance at advanced
  split at advanced <;> cases advanced
  rfl

theorem finishAndRelease_run (outcome : Outcome) :
    (finishAndRelease t locked outcome).run t.id w =
      let r := t.finishAndRelease locked outcome w
      ((r.1, r.2.1), r.2.2) := by
  unfold finishAndRelease Transaction.finishAndRelease
  cases advanced : t.advance .finishing with
  | error e => rfl
  | ok t' =>
      have same : t.id = t'.context.tx := (advance_id advanced).symm
      simp only [same, run_bind, finishAll_run, unlockAll_run, releaseAll_run, run_pure]
      rcases ({ t' with members := [] } : Transaction (Party G)).advance .released <;> rfl

theorem undoAndRelease_run (reason : AbortReason) :
    (undoAndRelease t locked reason).run t.id w =
      let r := t.undoAndRelease locked reason w
      ((r.1, r.2.1), r.2.2) := by
  unfold undoAndRelease Transaction.undoAndRelease
  cases advanced : t.advance .undoing with
  | error e => rfl
  | ok t' =>
      have same : t.id = t'.context.tx := (advance_id advanced).symm
      simp only [same, run_bind, undoAll_run]
      exact finishAndRelease_run { t' with members := _ } locked _ _

theorem applyAndRelease_run :
    (applyAndRelease t locked).run t.id w =
      let r := t.applyAndRelease locked w
      ((r.1, r.2.1), r.2.2) := by
  unfold applyAndRelease Transaction.applyAndRelease
  cases advanced : t.advance .applying with
  | error e => rfl
  | ok t' =>
      have same : t.id = t'.context.tx := (advance_id advanced).symm
      simp only [same, run_bind, applyAll_run]
      exact finishAndRelease_run { t' with members := _ } locked _ _

theorem validateAndRelease_run :
    (validateAndRelease t locked).run t.id w =
      let r := t.validateAndRelease locked w
      ((r.1, r.2.1), r.2.2) := by
  unfold validateAndRelease Transaction.validateAndRelease
  cases first : t.advance .locked with
  | error e => rfl
  | ok t₁ =>
      simp only
      cases second : t₁.advance .validating with
      | error e => rfl
      | ok t₂ =>
          have same : t.id = t₂.context.tx := (advance_id first).symm.trans (advance_id second).symm
          simp only [same, run_bind, validateAll_run]
          rcases Transact.validateAll t₂.context .final t₂.members w with ⟨_ | _, w'⟩
          · exact undoAndRelease_run t₂ locked w' .validationFailed
          · exact applyAndRelease_run t₂ locked w'

theorem commit_run :
    (commit t).run t.id w =
      let r := t.commit w
      ((r.1, r.2.1), r.2.2) := by
  unfold commit Transaction.commit
  rcases t.checkActive "commit" with e | _
  · rfl
  · have same : t.id = t.context.tx := rfl
    simp only [same, run_bind, lockAll_run]
    generalize Transact.lockAll t.context t.members w = r
    cases r.refusal with
    | none => exact validateAndRelease_run { t with members := r.members } r.locked r.world
    | some e =>
        exact undoAndRelease_run { t with members := r.members } r.locked r.world
          (Transaction.lockReason e)

theorem abort_run :
    (abort t).run t.id w =
      let r := t.abort w
      ((r.1, r.2.1), r.2.2) := by
  unfold abort Transaction.abort
  rcases t.checkActive "abort" with e | _
  · rfl
  · exact undoAndRelease_run t 0 w .requested

theorem validateEarly_run :
    (validateEarly t).run t.id w =
      let r := t.validateEarly w
      ((r.1, r.2.1), r.2.2) := by
  unfold validateEarly Transaction.validateEarly
  rcases t.checkActive "validate" with e | _
  · rfl
  · have same : t.id = t.context.tx := rfl
    simp only [same, run_bind, validateAll_run]
    rcases Transact.validateAll t.context .early t.members w with ⟨_ | _, w'⟩
    · simp only [cond_false, run_bind, ← same, undoAndRelease_run]
      rcases t.undoAndRelease 0 .validationFailed w' with ⟨_ | _, t', w''⟩ <;> rfl
    · rfl

theorem drop_run : (drop t).run t.id w = t.drop w := by
  unfold drop Transaction.drop
  split
  · simp only [run_bind, undoAndRelease_run, run_pure]
  · rfl

/-! ### Where nothing is refused -/

/-- Finish all, unlock the first `locked`, release all. -/
def close (ctx : Context) (members : List (Member (Party G))) (locked : Nat) : Procedure V Unit := do
  let members ← finishAll ctx members
  let unlocked ← unlockAll ctx (members.take locked)
  releaseAll (unlocked ++ members.drop locked)

/-- Undo all and close, having entered the phases `before`. -/
def abandon (t : Transaction (Party G)) (before : List Phase) (members : List (Member (Party G)))
    (locked : Nat) (reason : AbortReason) : Procedure V (Except Error Outcome × Transaction (Party G)) := do
  let r ← undoAll t.context members
  close t.context r.2 locked
  let outcome := .aborted (match r.1 with
    | some code => .moduleError code
    | none => reason)
  pure (.ok outcome, t.ended (before ++ [.undoing, .finishing, .released]) outcome)

/-- Apply all and close, all being locked and valid. -/
def perform (t : Transaction (Party G)) (members : List (Member (Party G))) (locked : Nat) :
    Procedure V (Except Error Outcome × Transaction (Party G)) := do
  let r ← applyAll t.context members
  close t.context r.2 locked
  let outcome := match r.1 with
    | some code => .aborted (.moduleError code)
    | none => .committed
  pure (.ok outcome, t.ended [.locked, .validating, .applying, .finishing, .released] outcome)

/-- A commit of an active transaction. -/
def committing (t : Transaction (Party G)) :
    Procedure V (Except Error Outcome × Transaction (Party G)) := do
  let r ← lockAll t.context t.members
  match r.2.2 with
  | some e => abandon t [] r.1 r.2.1 (Transaction.lockReason e)
  | none => do
      let valid ← validateAll t.context .final r.1
      bif valid then perform t r.1 r.2.1
      else abandon t [.locked, .validating] r.1 r.2.1 .validationFailed

section

variable {t : Transaction (Party G)} {locked : Nat}

theorem undoAndRelease_steps {phase : Phase} (before : List Phase) (members : List (Member (Party G)))
    (open_ : phase.canAdvance .undoing = true) (reason : AbortReason) :
    undoAndRelease { t with phase, visited := t.visited ++ before, members } locked reason =
      abandon t before members locked reason := by
  have last : Phase.canAdvance .undoing .finishing = true := rfl
  have end_ : Phase.canAdvance .finishing .released = true := rfl
  simp only [undoAndRelease, finishAndRelease, Transaction.advance, open_, last, end_, if_true,
    abandon, close, Transaction.ended, List.append_assoc, bind_assoc]
  rfl

theorem applyAndRelease_steps (members : List (Member (Party G))) :
    applyAndRelease
        { t with phase := .validating, visited := t.visited ++ [.locked, .validating], members }
        locked =
      perform t members locked := by
  have first : Phase.canAdvance .validating .applying = true := rfl
  have last : Phase.canAdvance .applying .finishing = true := rfl
  have end_ : Phase.canAdvance .finishing .released = true := rfl
  simp only [applyAndRelease, finishAndRelease, Transaction.advance, first, last, end_, if_true,
    perform, close, Transaction.ended, List.append_assoc, bind_assoc]
  rfl

theorem commit_steps (active : t.phase = .active) : commit t = committing t := by
  have first : Phase.canAdvance .active .locked = true := rfl
  have second : Phase.canAdvance .locked .validating = true := rfl
  have open_ : t.phase.canAdvance .undoing = true := by rw [active]; rfl
  simp only [commit, Transaction.checkActive_active active, committing]
  refine congrArg _ (funext fun r => ?_)
  cases r.2.2 with
  | some e =>
      have unvisited : ({ t with members := r.1 } : Transaction (Party G)) =
          { t with phase := t.phase, visited := t.visited ++ [], members := r.1 } := by
        rw [List.append_nil]
      simp only
      rw [unvisited]
      exact undoAndRelease_steps [] r.1 open_ _
  | none =>
      simp only [validateAndRelease, Transaction.advance, active, first, second, if_true,
        List.append_assoc]
      refine congrArg _ (funext fun valid => ?_)
      cases valid with
      | true => exact applyAndRelease_steps r.1
      | false =>
          have further : Phase.canAdvance .validating .undoing = true := rfl
          exact undoAndRelease_steps [.locked, .validating] r.1 further _

/-- Giving up in the middle of the body. -/
theorem undoAndRelease_active (active : t.phase = .active) (reason : AbortReason) :
    undoAndRelease t 0 reason = abandon t [] t.members 0 reason := by
  have open_ : t.phase.canAdvance .undoing = true := by rw [active]; rfl
  have same : undoAndRelease { t with phase := t.phase, visited := t.visited ++ [] } 0 reason =
      abandon t [] t.members 0 reason :=
    undoAndRelease_steps [] t.members open_ reason
  rw [List.append_nil] at same
  exact same

end

end Coordinator

/-! ## Calls -/

section Calls

variable {G : Type} [Participant G V]

/-- A call on a transaction that may end it, step by step; work and registration have no steps. -/
def steps (t : Transaction (Party G)) : PartyCall G → Option (Procedure V (Transaction (Party G)))
  | .work _ | .register _ => none
  | .validate => some do
      let r ← validateEarly t
      pure r.2
  | .commit => some do
      let r ← commit t
      pure r.2
  | .abort => some do
      let r ← abort t
      pure r.2
  | .drop => some (drop t)

/-- **With nobody in between the steps of a call come to the call.** -/
theorem steps_run (chunk : Nat → Nat → Nat) {t : Transaction (Party G)} {call : PartyCall G}
    {q : Procedure V (Transaction (Party G))} (taken : steps t call = some q) (w : World × V) :
    q.run t.id w = call.perform chunk t w := by
  cases call with
  | work job => cases taken
  | register g => cases taken
  | validate =>
      cases taken
      simp only [run_bind, validateEarly_run, run_pure]
      rfl
  | commit =>
      cases taken
      simp only [run_bind, commit_run, run_pure]
      rfl
  | abort =>
      cases taken
      simp only [run_bind, abort_run, run_pure]
      rfl
  | drop =>
      cases taken
      exact drop_run t w

/-- **What holds after a call**: it holds where nothing is done, after a commit, and after giving up;
validating early comes first, or alone. -/
theorem keeps_steps {σ : Type} {rules : Rules V σ} {s : σ}
    {post : Transaction (Party G) → σ → Prop} {t : Transaction (Party G)} {call : PartyCall G}
    {q : Procedure V (Transaction (Party G))} (taken : steps t call = some q) (idle : post t s)
    (commits : t.phase = .active → (committing t).Keeps rules (fun r => post r.2) s)
    (abandons : t.phase = .active → ∀ reason,
      (abandon t [] t.members 0 reason).Keeps rules (fun r => post r.2) s)
    (validates : (validateAll t.context .early t.members).Stays rules s) : q.Keeps rules post s := by
  by_cases active : t.phase = .active
  · have gives (reason : AbortReason) :
        (undoAndRelease t 0 reason).Keeps rules (fun r => post r.2) s := by
      rw [undoAndRelease_active active]
      exact abandons active reason
    cases call with
    | work job => cases taken
    | register g => cases taken
    | validate =>
        cases taken
        refine Procedure.Keeps.bind ?_
        simp only [validateEarly, Transaction.checkActive_active active]
        refine Procedure.Keeps.bind (validates.keeps fun valid => ?_)
        cases valid with
        | true => exact idle
        | false =>
            refine Procedure.Keeps.bind ((gives .validationFailed).mono fun r s' after => ?_)
            rcases r with ⟨_ | _, t'⟩ <;> exact after
    | commit =>
        cases taken
        refine Procedure.Keeps.bind ?_
        rw [commit_steps active]
        exact commits active
    | abort =>
        cases taken
        refine Procedure.Keeps.bind ?_
        simp only [abort, Transaction.checkActive_active active]
        exact gives .requested
    | drop =>
        cases taken
        have isActive : t.isActive = true := by simp [Transaction.isActive, active]
        rw [drop, if_pos isActive]
        exact Procedure.Keeps.bind (gives .requested)
  · have refused := Transaction.checkActive_inactive active
    cases call with
    | work job => cases taken
    | register g => cases taken
    | validate =>
        cases taken
        simp only [validateEarly, refused]
        exact idle
    | commit =>
        cases taken
        simp only [commit, refused]
        exact idle
    | abort =>
        cases taken
        simp only [abort, refused]
        exact idle
    | drop =>
        cases taken
        have left : ¬ t.isActive = true := by simpa [Transaction.isActive] using active
        rw [drop, if_neg left]
        exact idle

end Calls

end Transact.Stepwise
