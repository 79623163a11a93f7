/-
# Transact.Proofs.Ending -- the calls that end a transaction

There are four ways from the last call of the body to the release, and `Committing` and `Abandoning`
list the calls of each, the phases entered and the outcome.  They share the last stretch, `closing`:
everybody is finished, those that are locked are unlocked from the last to the first, everybody is
released.

`commit_calls`, `abort_calls`, `drop_calls` and `validateEarly_calls` say that these are the calls
made, whatever the participants answer.
-/
import Transact.Proofs.Recording

namespace Transact

set_option autoImplicit false

/-! ## The ways to end -/

/-- Locks granted to `ds`. -/
def granting (ds : List Domain) : Trace := ds.map fun d => ⟨d, .lock (.ok ())⟩

/-- Validations passed by `ds`. -/
def validating (ds : List Domain) : Trace := ds.map fun d => ⟨d, .validate .final true⟩

/-- Finish `ds`, unlock those of them that are locked from the last to the first, release `ds`. -/
def closing (ds locked : List Domain) : Trace :=
  ds.map (⟨·, .finish⟩) ++ locked.reverse.map (⟨·, .unlock⟩) ++ ds.map (⟨·, .release⟩)

/-- The outcome of applying: the first failure counts. -/
def applyOutcome (applies : Trace) : Outcome :=
  match applies.firstFault with
  | none => .committed
  | some e => .aborted (.moduleError e.code)

/-- The outcome of undoing for `reason`: the first failure outranks it. -/
def undoOutcome (reason : AbortReason) (undos : Trace) : Outcome :=
  match undos.firstFault with
  | none => .aborted reason
  | some e => .aborted (.moduleError e.code)

/-- What a commit does with the participants `ds`: the calls, the phases entered, the outcome. -/
inductive Committing (ds : List Domain) : Trace → List Phase → Outcome → Prop where
  /-- All are locked and valid. -/
  | applied (applies : Trace) (each : OnEach .apply ds applies) :
      Committing ds (granting ds ++ validating ds ++ applies ++ closing ds ds)
        [.locked, .validating, .applying, .finishing, .released] (applyOutcome applies)
  /-- All are locked; `d` is the first that is not valid. -/
  | invalid (before : List Domain) (d : Domain) (after : List Domain) (undos : Trace)
      (split : ds = before ++ d :: after) (each : OnEach .undo ds.reverse undos) :
      Committing ds
        (granting ds ++ (validating before ++ [⟨d, .validate .final false⟩]) ++ undos
          ++ closing ds ds)
        [.locked, .validating, .undoing, .finishing, .released]
        (undoOutcome .validationFailed undos)
  /-- `d` is the first whose lock fails. -/
  | refused (before : List Domain) (d : Domain) (after : List Domain) (e : Error) (undos : Trace)
      (split : ds = before ++ d :: after) (each : OnEach .undo ds.reverse undos) :
      Committing ds
        (granting before ++ [⟨d, .lock (.error e)⟩] ++ undos ++ closing ds before)
        [.undoing, .finishing, .released] (undoOutcome (Transaction.lockReason e) undos)

/-- What an abort for `reason` does with the participants `ds`. -/
inductive Abandoning (reason : AbortReason) (ds : List Domain) :
    Trace → List Phase → Outcome → Prop where
  | undone (undos : Trace) (each : OnEach .undo ds.reverse undos) :
      Abandoning reason ds (undos ++ closing ds []) [.undoing, .finishing, .released]
        (undoOutcome reason undos)

namespace Transaction

/-- `t` released with an outcome after entering the phases `visited`. -/
def ended {P : Type} (t : Transaction P) (visited : List Phase) (outcome : Outcome) :
    Transaction P :=
  { t with
    phase := .released
    visited := t.visited ++ visited
    members := []
    outcome := some outcome }

variable {P W : Type} [Participant P W]

/-! ## Who may call -/

omit [Participant P W] in
theorem checkActive_active {t : Transaction P} (active : t.phase = .active) (action : String) :
    t.checkActive action = .ok () :=
  if_pos active

omit [Participant P W] in
theorem checkActive_inactive {t : Transaction P} (inactive : t.phase ≠ .active) (action : String) :
    t.checkActive action = .error (notActive action t.phase) :=
  if_neg inactive

theorem abort_active {t : Transaction P} (active : t.phase = .active) (w : W) :
    t.abort w = t.undoAndRelease 0 .requested w := by
  simp only [abort, checkActive_active active]

theorem drop_active {t : Transaction P} (active : t.phase = .active) (w : W) :
    t.drop w = (t.undoAndRelease 0 .requested w).2 := by
  simp only [drop, isActive, active, beq_self_eq_true, if_true]

/-! A transaction that is released refuses every call, and nothing happens. -/

omit [Participant P W] in
theorem checkActive_released {t : Transaction P} (released : t.phase = .released) (action : String) :
    t.checkActive action = .error (notActive action .released) := by
  rw [checkActive, released]
  rfl

omit [Participant P W] in
theorem withModule_released {t : Transaction P} (released : t.phase = .released) {M α : Type}
    (facet : Facet P M) (f : Context → M → W → Except Error α × M × W) (w : W) :
    withModule facet f t w = (.error (notActive "use a module" .released), t, w) := by
  simp only [withModule, checkActive_released released]

theorem register_released {t : Transaction P} (released : t.phase = .released) (p : P) :
    t.register p = (.error (notActive "register a module" .released), t) := by
  simp only [register, checkActive_released released]

theorem validateEarly_released {t : Transaction P} (released : t.phase = .released) (w : W) :
    t.validateEarly w = (.error (notActive "validate" .released), t, w) := by
  simp only [validateEarly, checkActive_released released]

theorem commit_released {t : Transaction P} (released : t.phase = .released) (w : W) :
    t.commit w = (.error (notActive "commit" .released), t, w) := by
  simp only [commit, checkActive_released released]

theorem abort_released {t : Transaction P} (released : t.phase = .released) (w : W) :
    t.abort w = (.error (notActive "abort" .released), t, w) := by
  simp only [abort, checkActive_released released]

theorem drop_released {t : Transaction P} (released : t.phase = .released) (w : W) :
    t.drop w = (t, w) := by
  rw [drop, isActive, released]
  rfl

/-! ## The last stretch -/

theorem finishAndRelease_calls {t : Transaction (Recorded P)} {members : List (Member (Recorded P))}
    (phase : t.phase.canAdvance .finishing) (named : Named members) (locked : Nat)
    (outcome : Outcome) (w : Tape W) :
    ∃ w', ({ t with members } : Transaction _).finishAndRelease locked outcome w =
        (.ok outcome, t.ended [.finishing, .released] outcome, w') ∧
      w'.trace = w.trace ++ closing (domainsOf members) ((domainsOf members).take locked) := by
  obtain ⟨namedFinished, finished, finishes⟩ := finishAll_calls t.context members w named
  rcases first : finishAll t.context members w with ⟨after, w₁⟩
  rw [first] at namedFinished finished finishes
  have namedTake : Named (after.take locked) :=
    fun m member => namedFinished m (List.mem_of_mem_take member)
  obtain ⟨namedUnlocked, unlocked, unlocks⟩ :=
    unlockAll_calls t.context (after.take locked) w₁ namedTake
  rcases second : unlockAll t.context (after.take locked) w₁ with ⟨open_, w₂⟩
  rw [second] at namedUnlocked unlocked unlocks
  have namedAll : Named (open_ ++ after.drop locked) := by
    intro m member
    rcases List.mem_append.1 member with here | there
    · exact namedUnlocked m here
    · exact namedFinished m (List.mem_of_mem_drop there)
  have all : domainsOf (open_ ++ after.drop locked) = domainsOf members := by
    rw [← finished]
    simp only [domainsOf, List.map_append] at unlocked ⊢
    rw [unlocked, ← List.map_append, List.take_append_drop]
  refine ⟨releaseAll (open_ ++ after.drop locked) w₂, ?_, ?_⟩
  · have context : ({ t with
          members, phase := Phase.finishing, visited := t.visited ++ [Phase.finishing] } :
          Transaction (Recorded P)).context = t.context := rfl
    have last : Phase.canAdvance .finishing .released = true := rfl
    simp only [finishAndRelease, advance, phase, last, if_true, context, first, second, ended,
      List.append_assoc, List.cons_append, List.nil_append]
  · have roster : domainsOf (after.take locked) = (domainsOf members).take locked := by
      rw [← finished]
      exact List.map_take
    rw [releaseAll_calls _ _ namedAll, all, unlocks, finishes, roster]
    simp only [closing, List.append_assoc]

/-- Undoing calls everybody, whatever they answer, and closes. -/
theorem undoAndRelease_calls {t : Transaction (Recorded P)}
    {members : List (Member (Recorded P))} (phase : t.phase.canAdvance .undoing)
    (named : Named members) (locked : Nat) (reason : AbortReason) (w : Tape W) :
    ∃ undos w', OnEach .undo (domainsOf members).reverse undos ∧
      ({ t with members } : Transaction _).undoAndRelease locked reason w =
        (.ok (undoOutcome reason undos),
          t.ended [.undoing, .finishing, .released] (undoOutcome reason undos), w') ∧
      w'.trace =
        w.trace ++ undos ++ closing (domainsOf members) ((domainsOf members).take locked) := by
  obtain ⟨namedUndone, undone, undos, each, trace, fault⟩ := undoAll_calls t.context members w named
  rcases all : undoAll t.context members w with ⟨fault', after, w₁⟩
  rw [all] at namedUndone undone trace fault
  obtain rfl : fault' = _ := fault
  obtain ⟨w', result, closed⟩ :=
    finishAndRelease_calls (t := { t with phase := .undoing, visited := t.visited ++ [.undoing] })
      rfl namedUndone locked (undoOutcome reason undos) w₁
  refine ⟨undos, w', each, ?_, ?_⟩
  · have context : ({ t with
          members, phase := Phase.undoing, visited := t.visited ++ [Phase.undoing] } :
          Transaction (Recorded P)).context = t.context := rfl
    simp only [undoAndRelease, advance, phase, if_true, context, all]
    refine Eq.trans ?_ (result.trans ?_)
    · unfold undoOutcome
      cases undos.firstFault <;> rfl
    · simp only [ended, List.append_assoc, List.cons_append, List.nil_append]
  · rw [closed, show w₁.trace = _ from trace, undone]

/-- Applying calls everybody, whatever they answer, and closes. -/
theorem applyAndRelease_calls {t : Transaction (Recorded P)} (phase : t.phase.canAdvance .applying)
    (named : Named t.members) (locked : Nat) (w : Tape W) :
    ∃ applies w', OnEach .apply (domainsOf t.members) applies ∧
      t.applyAndRelease locked w =
        (.ok (applyOutcome applies),
          t.ended [.applying, .finishing, .released] (applyOutcome applies), w') ∧
      w'.trace =
        w.trace ++ applies
          ++ closing (domainsOf t.members) ((domainsOf t.members).take locked) := by
  obtain ⟨namedApplied, applied, applies, each, trace, fault⟩ :=
    applyAll_calls t.context t.members w named
  rcases all : applyAll t.context t.members w with ⟨fault', after, w₁⟩
  rw [all] at namedApplied applied trace fault
  obtain rfl : fault' = _ := fault
  obtain ⟨w', result, closed⟩ :=
    finishAndRelease_calls
      (t := { t with phase := .applying, visited := t.visited ++ [.applying] })
      rfl namedApplied locked (applyOutcome applies) w₁
  refine ⟨applies, w', each, ?_, ?_⟩
  · have context : ({ t with
          phase := Phase.applying, visited := t.visited ++ [Phase.applying] } :
          Transaction (Recorded P)).context = t.context := rfl
    simp only [applyAndRelease, advance, phase, if_true, context, all]
    refine Eq.trans ?_ (result.trans ?_)
    · unfold applyOutcome
      cases applies.firstFault <;> rfl
    · simp only [ended, List.append_assoc, List.cons_append, List.nil_append]
  · rw [closed, show w₁.trace = _ from trace, applied]

/-- Under the locks everybody is validated, then applied or undone. -/
theorem validateAndRelease_calls {t : Transaction (Recorded P)} (phase : t.phase = .active)
    (named : Named t.members) (w : Tape W) (start : Trace)
    (lockedAll : w.trace = start ++ granting (domainsOf t.members)) :
    ∃ calls visited outcome w', Committing (domainsOf t.members) calls visited outcome ∧
      t.validateAndRelease t.members.length w = (.ok outcome, t.ended visited outcome, w') ∧
      w'.trace = start ++ calls := by
  have all : (domainsOf t.members).take t.members.length = domainsOf t.members := by
    rw [List.take_of_length_le]
    simp [domainsOf]
  have lock : Phase.canAdvance .active .locked = true := rfl
  have validate : Phase.canAdvance .locked .validating = true := rfl
  simp only [validateAndRelease, advance, phase, lock, validate, if_true]
  rcases checked : validateAll t.context .final t.members w with ⟨valid, w₁⟩
  have answers := validateAll_calls t.context .final t.members w named
  rw [checked] at answers
  simp only at answers
  have context : ({ t with
        phase := Phase.validating, visited := t.visited ++ [Phase.locked] ++ [Phase.validating] } :
        Transaction (Recorded P)).context = t.context := rfl
  rcases answers with ⟨rfl, trace⟩ | ⟨before, d, after, split, rfl, trace⟩
  · obtain ⟨applies, w', each, result, closed⟩ :=
      applyAndRelease_calls
        (t := { t with
          phase := .validating, visited := t.visited ++ [Phase.locked] ++ [Phase.validating] })
        rfl named t.members.length w₁
    refine ⟨_, _, _, w', .applied applies each, ?_, ?_⟩
    · simp only [context, checked]
      refine result.trans ?_
      simp only [ended, List.append_assoc, List.cons_append, List.nil_append]
    · rw [closed, trace, lockedAll, all]
      simp only [validating, List.append_assoc]
  · obtain ⟨undos, w', each, result, closed⟩ :=
      undoAndRelease_calls
        (t := { t with
          phase := .validating, visited := t.visited ++ [Phase.locked] ++ [Phase.validating] })
        rfl named t.members.length .validationFailed w₁
    refine ⟨_, _, _, w', .invalid before d after undos split each, ?_, ?_⟩
    · simp only [context, checked]
      refine result.trans ?_
      simp only [ended, List.append_assoc, List.cons_append, List.nil_append]
    · rw [closed, trace, lockedAll, all]
      simp only [validating, List.append_assoc]

/-! ## The four ways -/

theorem commit_calls {t : Transaction (Recorded P)} (active : t.phase = .active)
    (named : Named t.members) (w : Tape W) :
    ∃ calls visited outcome w', Committing (domainsOf t.members) calls visited outcome ∧
      t.commit w = (.ok outcome, t.ended visited outcome, w') ∧
      w'.trace = w.trace ++ calls := by
  obtain ⟨named', domains, answers⟩ := lockAll_calls t.context t.members w named
  rcases taken : lockAll t.context t.members w with ⟨members, locked, refusal, w₁⟩
  rw [taken] at named' domains answers
  simp only at named' domains answers
  simp only [commit, checkActive_active active, taken]
  rcases answers with ⟨rfl, rfl, trace⟩ | ⟨before, d, after, e, split, rfl, rfl, trace⟩
  · have sameLength : t.members.length = members.length := by
      simpa [domainsOf] using (congrArg List.length domains).symm
    rw [← domains] at trace ⊢
    rw [sameLength]
    exact validateAndRelease_calls (t := { t with members }) active named' w₁ w.trace trace
  · obtain ⟨undos, w', each, result, closed⟩ :=
      undoAndRelease_calls (t := t) (by rw [active]; rfl) named' before.length (lockReason e) w₁
    rw [domains] at each closed
    refine ⟨_, _, _, w', .refused before d after e undos split each, result, ?_⟩
    rw [closed, trace, split, List.take_left]
    simp only [granting, List.append_assoc]

/-- An active transaction gives up for `reason`. -/
theorem abandon_calls {t : Transaction (Recorded P)} (active : t.phase = .active)
    (named : Named t.members) (reason : AbortReason) (w : Tape W) :
    ∃ calls visited outcome w', Abandoning reason (domainsOf t.members) calls visited outcome ∧
      t.undoAndRelease 0 reason w = (.ok outcome, t.ended visited outcome, w') ∧
      w'.trace = w.trace ++ calls := by
  obtain ⟨undos, w', each, result, closed⟩ :=
    undoAndRelease_calls (t := t) (by rw [active]; rfl) named 0 reason w
  refine ⟨_, _, _, w', .undone undos each, result, ?_⟩
  rw [closed, List.take_zero, List.append_assoc]

theorem abort_calls {t : Transaction (Recorded P)} (active : t.phase = .active)
    (named : Named t.members) (w : Tape W) :
    ∃ calls visited outcome w',
      Abandoning .requested (domainsOf t.members) calls visited outcome ∧
      t.abort w = (.ok outcome, t.ended visited outcome, w') ∧ w'.trace = w.trace ++ calls := by
  simp only [abort, checkActive_active active]
  exact abandon_calls active named .requested w

theorem drop_calls {t : Transaction (Recorded P)} (active : t.phase = .active)
    (named : Named t.members) (w : Tape W) :
    ∃ calls visited outcome w',
      Abandoning .requested (domainsOf t.members) calls visited outcome ∧
      t.drop w = (t.ended visited outcome, w') ∧ w'.trace = w.trace ++ calls := by
  obtain ⟨calls, visited, outcome, w', abandoning, result, trace⟩ :=
    abandon_calls active named .requested w
  refine ⟨calls, visited, outcome, w', abandoning, ?_, trace⟩
  rw [drop_active active, result]

/-- Validating in the body leaves the transaction as it is or ends it. -/
theorem validateEarly_calls {t : Transaction (Recorded P)} (active : t.phase = .active)
    (named : Named t.members) (w : Tape W) :
    ∃ checks, (∀ c ∈ checks, c.domain ∈ domainsOf t.members ∧ c.call.kind = .validate .early) ∧
      ((∃ w', t.validateEarly w = (.ok (), t, w') ∧ w'.trace = w.trace ++ checks) ∨
        ∃ calls visited outcome w',
          Abandoning .validationFailed (domainsOf t.members) calls visited outcome ∧
          t.validateEarly w =
            (.error (earlyConflict t.id outcome), t.ended visited outcome, w') ∧
          w'.trace = w.trace ++ checks ++ calls) := by
  have answers := validateAll_calls t.context .early t.members w named
  rcases checked : validateAll t.context .early t.members w with ⟨valid, w₁⟩
  rw [checked] at answers
  simp only at answers
  simp only [validateEarly, checkActive_active active, checked]
  rcases answers with ⟨rfl, trace⟩ | ⟨before, d, after, split, rfl, trace⟩
  · refine ⟨_, ?_, Or.inl ⟨w₁, rfl, trace⟩⟩
    rintro c member
    obtain ⟨d, here, rfl⟩ := List.mem_map.1 member
    exact ⟨here, rfl⟩
  · obtain ⟨calls, visited, outcome, w', abandoning, result, closed⟩ :=
      abandon_calls active named .validationFailed w₁
    refine ⟨before.map (fun d => ⟨d, .validate .early true⟩) ++ [⟨d, .validate .early false⟩], ?_,
      Or.inr ⟨calls, visited, outcome, w', abandoning, by simp only [result]; rfl, ?_⟩⟩
    · rintro c member
      rw [split]
      rcases List.mem_append.1 member with here | there
      · obtain ⟨d', checkedHere, rfl⟩ := List.mem_map.1 here
        exact ⟨List.mem_append_left _ checkedHere, rfl⟩
      · obtain rfl := List.mem_singleton.1 there
        exact ⟨by simp, rfl⟩
    · rw [closed, trace, List.append_assoc w.trace]

end Transaction

end Transact
