/-
# Transact.Proofs.Verdict -- an outcome says what happened

A transaction that committed had every lock granted, every validation passed and every effect
applied.  One that aborted for contention or on request has applied nothing and undone everything.
One that aborted with a number has it from the first participant that failed: of those applied, else
of those undone, else of those locked.
-/
import Mathlib.Data.List.Nodup
import Transact.Proofs.Lifecycle

namespace Transact

set_option autoImplicit false

/-! ## Numbers of errors -/

namespace Error

/-- The fault at the root carries the number of the whole chain. -/
theorem root_osCode (e : Error) : e.root.osCode = e.osCode := by
  unfold root
  cases chain : e.causes with
  | nil => rfl
  | cons fault rest =>
      have last : (fault :: rest).getLastD e.toFault ∈ e.causes := by
        rw [chain, List.getLastD_cons]
        exact List.getLastD_mem_cons
      exact e.carried _ last

/-- The number of an error is that of the system call at the root, or else that of its kind. -/
theorem code_eq_root (e : Error) : e.code = e.root.osCode.getD e.kind.code := by
  rw [root_osCode, code]

/-- A cause keeps its root. -/
theorem root_wrap (kind : ErrorKind) (message : String) (cause : Error) :
    (wrap kind message cause).root = cause.root := by
  simp only [root, wrap, List.getLastD_cons]

end Error

/-! ## First failures -/

/-- The first failure among calls in an order is before every other failure. -/
theorem firstFault_first {R : Domain → Domain → Prop} {calls : Trace}
    (ordered : (calls.map (·.domain)).Pairwise R) {e : Error} (fault : calls.firstFault = some e) :
    ∃ first ∈ calls, first.call.fault? = some e ∧
      ∀ c ∈ calls, c.call.fault? ≠ none → c = first ∨ R first.domain c.domain := by
  induction calls with
  | nil => cases fault
  | cons c rest ih =>
      obtain ⟨earlier, others⟩ := List.pairwise_cons.1 ordered
      cases here : c.call.fault? with
      | some e' =>
          have same : e' = e := by
            simpa [Trace.firstFault, here] using fault
          refine ⟨c, List.mem_cons_self, by rw [here, same], ?_⟩
          intro c' member _
          rcases List.mem_cons.1 member with rfl | there
          · exact Or.inl rfl
          · exact Or.inr (earlier _ (List.mem_map_of_mem there))
      | none =>
          have later : Trace.firstFault rest = some e := by
            simpa [Trace.firstFault, here] using fault
          obtain ⟨first, member, fails, least⟩ := ih others later
          refine ⟨first, List.mem_cons_of_mem _ member, fails, ?_⟩
          intro c' member' failed
          rcases List.mem_cons.1 member' with rfl | there
          · exact absurd here failed
          · exact least c' there failed

theorem firstFault_none {calls : Trace} (faultless : calls.firstFault = none) :
    ∀ c ∈ calls, c.call.fault? = none := by
  simpa [Trace.firstFault] using faultless

/-- `e` is the error of the first participant, in ascending order, whose apply failed. -/
def FirstFailedApply (trace : Trace) (e : Error) : Prop :=
  ∃ d, ⟨d, .apply (.error e)⟩ ∈ trace ∧
    ∀ d' e', ⟨d', .apply (.error e')⟩ ∈ trace → d' = d ∨ d.Before d'

/-- `e` is the error of the first participant, in descending order, whose undo failed. -/
def FirstFailedUndo (trace : Trace) (e : Error) : Prop :=
  ∃ d, ⟨d, .undo (.error e)⟩ ∈ trace ∧
    ∀ d' e', ⟨d', .undo (.error e')⟩ ∈ trace → d' = d ∨ d'.Before d

/-- `e` is the error of a lock that failed for another reason than contention. -/
def BrokenLock (trace : Trace) (e : Error) : Prop :=
  ∃ d, ⟨d, .lock (.error e)⟩ ∈ trace ∧ e.kind ≠ .resourceBusy

/-- An outcome says what was done to the participants `ds`. -/
structure Truthful (ds : List Domain) (trace : Trace) (outcome : Outcome) : Prop where
  /-- Contention and a request leave nothing behind. -/
  reverted : ∀ reason, outcome = .aborted reason →
    reason = .validationFailed ∨ reason = .lockFailed ∨ reason = .requested →
    trace.called .apply = [] ∧ trace.only .undo = ds.reverse.map (⟨·, .undo (.ok ())⟩)
  /-- A number comes from the first failure. -/
  failed : ∀ number, outcome = .aborted (.moduleError number) →
    ∃ e : Error, number = e.root.osCode.getD e.kind.code ∧
      (FirstFailedApply trace e ∨
        trace.called .apply = [] ∧ FirstFailedUndo trace e ∨
        trace.called .apply = [] ∧ (∀ d e', ⟨d, .undo (.error e')⟩ ∉ trace) ∧ BrokenLock trace e)

/-- A participant's calls were all granted. -/
def Favourable (trace : Trace) (d : Domain) : Prop :=
  ⟨d, .lock (.ok ())⟩ ∈ trace ∧ ⟨d, .validate .final true⟩ ∈ trace ∧ ⟨d, .apply (.ok ())⟩ ∈ trace

/-- A call that stands in the way of a commit. -/
def Call.Adverse : Call → Prop
  | .lock (.error _) => True
  | .validate _ false => True
  | .apply (.error _) => True
  | _ => False

/-! ## Endings are truthful -/

/-- An effect in the calls of an ending is one of its effects. -/
theorem Parts.mem_effects {ds locked : List Domain} {head effects : Trace} {c : Called}
    (parts : Parts ds head effects locked)
    (member : c ∈ head ++ effects ++ closing ds locked)
    (kind : c.call.kind = .apply ∨ c.call.kind = .undo) : c ∈ effects := by
  rcases List.mem_append.1 member with front | last
  · rcases List.mem_append.1 front with here | there
    · have preparing := parts.checks c here
      rcases kind with same | same <;>
        exact absurd same (preparing.ne (by decide) (by decide) (by simp))
    · exact there
  · rcases closing_kind last with same | same | same <;> rw [same] at kind <;> simp at kind

theorem Parts.effects_mem {ds locked : List Domain} {head effects : Trace} {c : Called}
    (member : c ∈ effects) : c ∈ head ++ effects ++ closing ds locked :=
  List.mem_append_left _ (List.mem_append_right _ member)

/-- Only an apply has the kind of an apply, and fails with what it answers. -/
theorem Call.apply_of_fault {call : Call} {e : Error} (kind : call.kind = .apply)
    (fault : call.fault? = some e) : call = .apply (.error e) := by
  cases call with
  | apply answer => cases answer <;> simp_all [Call.fault?]
  | _ => cases kind

theorem Call.apply_of_no_fault {call : Call} (kind : call.kind = .apply)
    (fault : call.fault? = none) : call = .apply (.ok ()) := by
  cases call with
  | apply answer => cases answer <;> simp_all [Call.fault?]
  | _ => cases kind

theorem Call.undo_of_fault {call : Call} {e : Error} (kind : call.kind = .undo)
    (fault : call.fault? = some e) : call = .undo (.error e) := by
  cases call with
  | undo answer => cases answer <;> simp_all [Call.fault?]
  | _ => cases kind

theorem Call.undo_of_no_fault {call : Call} (kind : call.kind = .undo)
    (fault : call.fault? = none) : call = .undo (.ok ()) := by
  cases call with
  | undo answer => cases answer <;> simp_all [Call.fault?]
  | _ => cases kind

variable {ds locked : List Domain} {head effects : Trace}

/-- The outcome of applying is truthful. -/
theorem Parts.truthful_applied (parts : Parts ds head effects locked) (ascending : Ascending ds)
    (each : OnEach .apply ds effects) :
    Truthful ds (head ++ effects ++ closing ds locked) (applyOutcome effects) := by
  cases fault : effects.firstFault with
  | none =>
      have outcome : applyOutcome effects = .committed := by rw [applyOutcome, fault]
      rw [outcome]
      exact ⟨fun _ aborted => by (cases aborted), fun _ aborted => by (cases aborted)⟩
  | some e =>
      have outcome : applyOutcome effects = .aborted (.moduleError e.code) := by
        rw [applyOutcome, fault]
      rw [outcome]
      constructor
      · intro reason aborted retryable
        obtain rfl := Outcome.aborted.inj aborted
        simp at retryable
      · intro number aborted
        obtain rfl := AbortReason.moduleError.inj (Outcome.aborted.inj aborted)
        obtain ⟨⟨d, call⟩, member, fails, least⟩ :=
          firstFault_first (R := Domain.Before) (by rw [each.1]; exact ascending) fault
        obtain rfl := Call.apply_of_fault (each.2 _ member) fails
        refine ⟨e, e.code_eq_root, Or.inl ⟨d, Parts.effects_mem member, fun d' e' failed => ?_⟩⟩
        rcases least _ (parts.mem_effects failed (Or.inl rfl)) (by simp [Call.fault?]) with same | later
        · exact Or.inl (congrArg Called.domain same)
        · exact Or.inr later

/-- The outcome of undoing is truthful, where a number given as the reason is that of a lock. -/
theorem Parts.truthful_undone (parts : Parts ds head effects locked) (ascending : Ascending ds)
    (each : OnEach .undo ds.reverse effects) {reason : AbortReason}
    (given : ∀ number, reason = .moduleError number →
      ∃ e : Error, number = e.code ∧ BrokenLock (head ++ effects ++ closing ds locked) e) :
    Truthful ds (head ++ effects ++ closing ds locked) (undoOutcome reason effects) := by
  have nothing : Trace.called .apply (head ++ effects ++ closing ds locked) = [] :=
    Trace.called_eq_nil fun c member same => by
      have effect := parts.mem_effects member (Or.inl same)
      rw [each.2 c effect] at same
      cases same
  have undos : Trace.only .undo (head ++ effects ++ closing ds locked) = effects := by
    have front : head.only .undo = [] :=
      Trace.only_eq_nil.2 (parts.head_called (by decide) (by decide) (by simp))
    have last : (closing ds locked).only .undo = [] :=
      Trace.only_eq_nil.2 fun c member => by
        rcases closing_kind member with same | same | same <;> rw [same] <;> decide
    rw [Trace.only_append, Trace.only_append, front, last, Trace.only_onEach each,
      List.nil_append, List.append_nil]
  cases fault : effects.firstFault with
  | none =>
      have outcome : undoOutcome reason effects = .aborted reason := by rw [undoOutcome, fault]
      have fine : ∀ c ∈ effects, c.call = .undo (.ok ()) := fun c member =>
        Call.undo_of_no_fault (each.2 c member) (firstFault_none fault c member)
      rw [outcome]
      refine ⟨fun _ _ _ => ⟨nothing, ?_⟩, fun number aborted => ?_⟩
      · rw [undos, ← each.1, List.map_map]
        conv_lhs => rw [← List.map_id effects]
        refine List.map_congr_left ?_
        intro c member
        rw [id, Function.comp, ← fine c member]
      · obtain ⟨e, rfl, broken⟩ := given number (Outcome.aborted.inj aborted)
        refine ⟨e, e.code_eq_root, Or.inr (Or.inr ⟨nothing, fun d e' failed => ?_, broken⟩)⟩
        have impossible := fine _ (parts.mem_effects failed (Or.inr rfl))
        cases impossible
  | some e =>
      have outcome : undoOutcome reason effects = .aborted (.moduleError e.code) := by
        rw [undoOutcome, fault]
      rw [outcome]
      constructor
      · intro reason aborted retryable
        obtain rfl := Outcome.aborted.inj aborted
        simp at retryable
      · intro number aborted
        obtain rfl := AbortReason.moduleError.inj (Outcome.aborted.inj aborted)
        obtain ⟨⟨d, call⟩, member, fails, least⟩ :=
          firstFault_first (R := fun a b => b.Before a)
            (by rw [each.1]; exact List.pairwise_reverse.2 ascending) fault
        obtain rfl := Call.undo_of_fault (each.2 _ member) fails
        refine ⟨e, e.code_eq_root,
          Or.inr (Or.inl ⟨nothing, d, Parts.effects_mem member, fun d' e' failed => ?_⟩)⟩
        rcases least _ (parts.mem_effects failed (Or.inr rfl)) (by simp [Call.fault?]) with same | later
        · exact Or.inl (congrArg Called.domain same)
        · exact Or.inr later

theorem Judged.truthful {outcome : Outcome} (judged : Judged ds head effects outcome)
    (parts : Parts ds head effects locked) (ascending : Ascending ds) :
    Truthful ds (head ++ effects ++ closing ds locked) outcome := by
  cases judged with
  | applied each => exact parts.truthful_applied ascending each
  | undone reason each given =>
      refine parts.truthful_undone ascending each ?_
      intro number same
      obtain ⟨d, e, member, kind, code⟩ := given number same
      exact ⟨e, code, d, List.mem_append_left _ (List.mem_append_left _ member), kind⟩

theorem Over.truthful {P : Type} {t : Transaction (Recorded P)} {trace : Trace} {outcome : Outcome}
    (past : Over t trace) (recorded : t.outcome = some outcome) :
    Truthful t.roster trace outcome := by
  obtain ⟨body, calls, outcome', rfl, ended, early, ending⟩ := past.ended
  obtain rfl : outcome' = outcome := Option.some.inj (ended.symm.trans recorded)
  obtain ⟨head, effects, locked, rfl, parts, judged⟩ := ending.parts
  have truthful := (judged.after body).truthful (parts.after early) past.ascending
  rwa [List.append_assoc, List.append_assoc, ← List.append_assoc head] at truthful

/-! ## A commit says yes exactly when everybody did -/

/-- Adverse calls are locks, validations and applies. -/
theorem Call.Adverse.kind {call : Call} (adverse : call.Adverse) :
    call.kind ≠ .undo ∧ call.kind ≠ .finish ∧ call.kind ≠ .unlock ∧ call.kind ≠ .release := by
  cases call <;> first | exact adverse.elim | simp [Call.kind]

theorem undoOutcome_ne_committed (reason : AbortReason) (undos : Trace) :
    undoOutcome reason undos ≠ .committed := by
  unfold undoOutcome
  cases undos.firstFault <;> simp

theorem applyOutcome_committed {applies : Trace} :
    applyOutcome applies = .committed ↔ applies.firstFault = none := by
  unfold applyOutcome
  cases applies.firstFault <;> simp

/-- The participant at a split of a list without repetitions is not before it. -/
theorem Ascending.not_before {before after : List Domain} {d : Domain}
    (ascending : Ascending (before ++ d :: after)) : d ∉ before := fun member =>
  ((List.pairwise_append.1 ascending).2.2 d member d List.mem_cons_self).ne rfl

/-- Where nobody failed to apply, everybody was favourable and no call stood in the way. -/
theorem favourable_of_applied {applies : Trace} (each : OnEach .apply ds applies)
    (fine : applies.firstFault = none) :
    let calls := granting ds ++ validating ds ++ applies ++ closing ds ds
    (∀ d ∈ ds, Favourable calls d) ∧ ∀ c ∈ calls, ¬ c.call.Adverse := by
  have applied : ∀ c ∈ applies, c.call = .apply (.ok ()) := fun c member =>
    Call.apply_of_no_fault (each.2 c member) (firstFault_none fine c member)
  constructor
  · intro d here
    have called : d ∈ applies.map (·.domain) := by rw [each.1]; exact here
    obtain ⟨c, member, same⟩ := List.mem_map.1 called
    have apply : (⟨d, .apply (.ok ())⟩ : Called) ∈ applies := by
      rw [← same, ← applied c member]
      exact member
    have lock : (⟨d, .lock (.ok ())⟩ : Called) ∈ granting ds := List.mem_map_of_mem here
    have valid : (⟨d, .validate .final true⟩ : Called) ∈ validating ds := List.mem_map_of_mem here
    refine ⟨?_, ?_, ?_⟩
    · exact List.mem_append_left _ (List.mem_append_left _ (List.mem_append_left _ lock))
    · exact List.mem_append_left _ (List.mem_append_left _ (List.mem_append_right _ valid))
    · exact List.mem_append_left _ (List.mem_append_right _ apply)
  · intro c member adverse
    rcases List.mem_append.1 member with front | last
    · rcases List.mem_append.1 front with checks | apply
      · rcases List.mem_append.1 checks with lock | valid
        · obtain ⟨d, -, rfl⟩ := List.mem_map.1 lock
          exact adverse
        · obtain ⟨d, -, rfl⟩ := List.mem_map.1 valid
          exact adverse
      · rw [applied c apply] at adverse
        exact adverse
    · obtain ⟨-, finish, unlock, release⟩ := adverse.kind
      rcases closing_kind last with same | same | same
      · exact finish same
      · exact unlock same
      · exact release same

/-- One call stood in the way, and whoever answered it was not favourable. -/
def Hindered (ds : List Domain) (calls : Trace) : Prop :=
  ∃ c ∈ calls, c.call.Adverse ∧ c.domain ∈ ds ∧ ¬ Favourable calls c.domain

/-- Whom it is the turn of was not asked before. -/
theorem Ascending.unasked {before after : List Domain} {d : Domain} {kind : CallKind}
    {asked : Trace} (ascending : Ascending (before ++ d :: after))
    (each : OnEach kind before asked) (call : Call) : ⟨d, call⟩ ∉ asked := by
  intro member
  have here : d ∈ before := by
    rw [← each.1]
    exact List.mem_map_of_mem member
  exact ascending.not_before here

/-- Somebody failed to apply. -/
theorem hindered_of_fault {applies : Trace} {e : Error} (each : OnEach .apply ds applies)
    (ascending : Ascending ds) (fault : applies.firstFault = some e) :
    Hindered ds (granting ds ++ validating ds ++ applies ++ closing ds ds) := by
  obtain ⟨⟨d, call⟩, member, fails, -⟩ :=
    firstFault_first (R := Domain.Before) (by rw [each.1]; exact ascending) fault
  obtain rfl := Call.apply_of_fault (each.2 _ member) fails
  have picked : Trace.only .apply (granting ds ++ validating ds ++ applies ++ closing ds ds) =
      applies := by
    simp only [Trace.only_append, Trace.only_onEach each,
      Trace.only_other (onEach_granting ds) (show CallKind.lock ≠ .apply by decide),
      Trace.only_other (onEach_validating ds) (show CallKind.validate .final ≠ .apply by decide),
      only_closing (show CallKind.apply ≠ .finish by decide) (by decide) (by decide),
      List.nil_append, List.append_nil]
  have once : (applies.map (·.domain)).Nodup := by
    rw [each.1]
    exact ascending.imp Domain.Before.ne
  have here : d ∈ ds := by
    rw [← each.1]
    exact List.mem_map_of_mem member
  refine ⟨_, List.mem_append_left _ (List.mem_append_right _ member), trivial, here, ?_⟩
  intro favourable
  have applied := Trace.mem_only favourable.2.2
  rw [Call.kind, picked] at applied
  have same := List.inj_on_of_nodup_map once applied member rfl
  cases same

/-- Somebody was found invalid. -/
theorem hindered_of_invalid {before after : List Domain} {d : Domain} {undos : Trace}
    (each : OnEach .undo (before ++ d :: after).reverse undos)
    (ascending : Ascending (before ++ d :: after)) :
    Hindered (before ++ d :: after) (granting (before ++ d :: after) ++
      (validating before ++ [⟨d, .validate .final false⟩]) ++ undos ++
        closing (before ++ d :: after) (before ++ d :: after)) := by
  have picked : Trace.only (.validate .final) (granting (before ++ d :: after) ++
      (validating before ++ [⟨d, .validate .final false⟩]) ++ undos ++
        closing (before ++ d :: after) (before ++ d :: after)) =
      validating before ++ [⟨d, .validate .final false⟩] := by
    simp only [Trace.only_append, Trace.only_onEach (onEach_validating before),
      Trace.only_other (onEach_granting _) (show CallKind.lock ≠ .validate .final by decide),
      Trace.only_other each (show CallKind.undo ≠ .validate .final by decide),
      only_closing (show CallKind.validate .final ≠ .finish by decide) (by decide) (by decide),
      List.nil_append, List.append_nil]
    rfl
  refine ⟨⟨d, .validate .final false⟩, by simp, trivial, by simp, ?_⟩
  intro favourable
  have valid := Trace.mem_only favourable.2.1
  rw [Call.kind, picked] at valid
  rcases List.mem_append.1 valid with earlier | last
  · exact ascending.unasked (onEach_validating before) _ earlier
  · cases List.mem_singleton.1 last

/-- Somebody was not locked. -/
theorem hindered_of_refused {before after : List Domain} {d : Domain} {undos : Trace} (e : Error)
    (each : OnEach .undo (before ++ d :: after).reverse undos)
    (ascending : Ascending (before ++ d :: after)) :
    Hindered (before ++ d :: after) (granting before ++ [⟨d, .lock (.error e)⟩] ++ undos ++
      closing (before ++ d :: after) before) := by
  have picked : Trace.only .lock (granting before ++ [⟨d, .lock (.error e)⟩] ++ undos ++
      closing (before ++ d :: after) before) =
      granting before ++ [⟨d, .lock (.error e)⟩] := by
    simp only [Trace.only_append, Trace.only_onEach (onEach_granting before),
      Trace.only_other each (show CallKind.undo ≠ .lock by decide),
      only_closing (show CallKind.lock ≠ .finish by decide) (by decide) (by decide),
      List.append_nil]
    rfl
  refine ⟨⟨d, .lock (.error e)⟩, by simp, trivial, by simp, ?_⟩
  intro favourable
  have granted := Trace.mem_only favourable.1
  rw [Call.kind, picked] at granted
  rcases List.mem_append.1 granted with earlier | last
  · exact ascending.unasked (onEach_granting before) _ earlier
  · cases List.mem_singleton.1 last

/-- Where the outcome is no commit, somebody stood in the way. -/
theorem Committing.hindered {calls : Trace} {visited : List Phase} {outcome : Outcome}
    (committing : Committing ds calls visited outcome) (ascending : Ascending ds)
    (aborted : outcome ≠ .committed) : Hindered ds calls := by
  cases committing with
  | applied applies each =>
      obtain ⟨e, fault⟩ := Option.ne_none_iff_exists'.1 fun faultless =>
        aborted (applyOutcome_committed.2 faultless)
      exact hindered_of_fault each ascending fault
  | invalid before d after undos split each =>
      subst split
      exact hindered_of_invalid each ascending
  | refused before d after e undos split each =>
      subst split
      exact hindered_of_refused e each ascending

theorem Committing.committed_iff {calls : Trace} {visited : List Phase} {outcome : Outcome}
    (committing : Committing ds calls visited outcome) (ascending : Ascending ds) :
    (outcome = .committed ↔ ∀ d ∈ ds, Favourable calls d) ∧
      (outcome = .committed ↔ ∀ c ∈ calls, ¬ c.call.Adverse) := by
  have yes : outcome = .committed →
      (∀ d ∈ ds, Favourable calls d) ∧ ∀ c ∈ calls, ¬ c.call.Adverse := by
    intro committed
    cases committing with
    | applied applies each => exact favourable_of_applied each (applyOutcome_committed.1 committed)
    | invalid _ _ _ undos => exact absurd committed (undoOutcome_ne_committed _ undos)
    | refused _ _ _ _ undos => exact absurd committed (undoOutcome_ne_committed _ undos)
  refine ⟨⟨fun committed => (yes committed).1, fun favourable => ?_⟩,
    ⟨fun committed => (yes committed).2, fun free => ?_⟩⟩
  · by_contra aborted
    obtain ⟨c, -, -, here, unfavourable⟩ := committing.hindered ascending aborted
    exact unfavourable (favourable c.domain here)
  · by_contra aborted
    obtain ⟨c, member, adverse, -⟩ := committing.hindered ascending aborted
    exact free c member adverse

/-! ## Any number of uses -/

section Run

variable {P W : Type} [Participant P W]

omit [Participant P W] in
/-- Whatever a body answers, its use answers with no outcome. -/
theorem Use.WorksThrough.reply {M α : Type} {facet : Facet P M}
    {body : Context → M → W → Except Error α × M × W} {t t' : Transaction (Recorded P)}
    {w w' : Tape W} {r : Reply} (through : Use.WorksThrough facet body t w r t' w') :
    r = .done ∨ ∃ e, r = .refused e := by
  cases through with
  | taken => exact Or.inr ⟨_, rfl⟩
  | gone => exact Or.inr ⟨_, rfl⟩
  | @worked _ _ m s =>
      cases (body t.context s w.world).1 with
      | ok _ => exact Or.inl rfl
      | error e => exact Or.inr ⟨e, rfl⟩

/-- The outcome that a use of an active transaction answers is the one the transaction keeps. -/
theorem live_outcome {t : Transaction (Recorded P)} {w : Tape W} (live : Live t w.trace)
    (use : Use P W) {o : Outcome} (answered : (use.recorded.perform t w).1 = .outcome o) :
    (use.recorded.perform t w).2.1.outcome = some o := by
  have answers := (live_perform live use).1
  cases use with
  | register p => cases answers.1.symm.trans answered
  | withModule facet body =>
      rcases answers.2.reply with reply | ⟨e, reply⟩ <;> cases reply.symm.trans answered
  | validateEarly =>
      rcases answers.2.2 with ⟨reply, -⟩ | ⟨_, reply, -⟩ <;> cases reply.symm.trans answered
  | commit =>
      obtain ⟨o', reply, -, kept, -⟩ := answers
      cases reply.symm.trans answered
      exact kept
  | abort =>
      obtain ⟨o', reply, -, kept, -⟩ := answers
      cases reply.symm.trans answered
      exact kept
  | drop =>
      obtain ⟨o', reply, -⟩ := answers
      cases reply.symm.trans answered

/-- **An outcome says what happened.**  After any uses of a new transaction, whatever its participants
answer, the outcome it keeps is `Truthful`, and every outcome it answers with is the one it keeps.
Where that is contention or a request, everybody whom the uses have involved was undone.  A commit
answers that it committed exactly when every participant was locked, found valid and applied, everybody
involved among them; that is, when no lock, validation or apply it called for stood in the way. -/
theorem Use.performAll_truthful (uses : List (Use P W)) (id : TxId) (config : Config)
    (reports : Bool) (w : W) :
    let run := performAll (uses.map Use.recorded)
      ({ id, config, reports } : Transaction (Recorded P)) { world := w }
    bareResult run = performAll uses { id, config, reports } w ∧
      Attended uses run.1 run.2.1.roster run.2.2.trace ∧
      (∀ o, run.2.1.outcome = some o → Truthful run.2.1.roster run.2.2.trace o) ∧
      (∀ reason, run.2.1.outcome = some (.aborted reason) →
        reason = .validationFailed ∨ reason = .lockFailed ∨ reason = .requested →
        ∀ d, Involved uses run.1 run.2.2.trace d → ⟨d, .undo (.ok ())⟩ ∈ run.2.2.trace) ∧
      (∀ (use : Use P W) (o : Outcome),
        (use.recorded.perform run.2.1 run.2.2).1 = .outcome o →
          (use.recorded.perform run.2.1 run.2.2).2.1.outcome = some o) ∧
      (run.2.1.phase = .active →
        let next := (Use.commit : Use P W).recorded.perform run.2.1 run.2.2
        ∃ o calls, next.1 = .outcome o ∧ next.2.2.trace = run.2.2.trace ++ calls ∧
          (o = .committed ↔ ∀ d ∈ run.2.1.roster, Favourable calls d) ∧
          (o = .committed → ∀ d, Involved uses run.1 run.2.2.trace d → Favourable calls d) ∧
          (o = .committed ↔ ∀ c ∈ calls, ¬ c.call.Adverse)) := by
  intro run
  have settled : Live run.2.1 run.2.2.trace ∨ Over run.2.1 run.2.2.trace :=
    (performAll_attended uses id config reports w).1
  have attended : Attended uses run.1 run.2.1.roster run.2.2.trace :=
    (performAll_attended uses id config reports w).2
  have truthful : ∀ o, run.2.1.outcome = some o → Truthful run.2.1.roster run.2.2.trace o := by
    intro o kept
    rcases settled with live | past
    · rw [live.outcome] at kept
      cases kept
    · exact past.truthful kept
  refine ⟨(performAll_recorded uses _ _).symm, attended, truthful, fun reason kept retryable d involved =>
    ?_, fun use o answered => ?_, fun active => ?_⟩
  · have undone := ((truthful _ kept).reverted reason rfl retryable).2
    have called : (⟨d, .undo (.ok ())⟩ : Called) ∈ run.2.2.trace.only .undo := by
      rw [undone]
      exact List.mem_map_of_mem (List.mem_reverse.2 (attended.everybody d involved))
    exact List.mem_of_mem_filter called
  · rcases settled with live | past
    · exact live_outcome live use answered
    · rw [over_perform past.phase use] at answered
      cases named : use.action <;> simp [named] at answered
  · rcases settled with live | past
    · obtain ⟨calls, visited, o, w', committing, result, trace⟩ :=
        Transaction.commit_calls live.phase live.named run.2.2
      rw [← live.roster] at committing
      obtain ⟨everybody, nothing⟩ := committing.committed_iff live.ascending
      simp only [Use.recorded, Use.perform, result]
      refine ⟨o, calls, rfl, trace, everybody, fun committed d involved => ?_, nothing⟩
      exact everybody.1 committed d (attended.everybody d involved)
    · rw [past.phase] at active
      cases active

end Run

end Transact
