/-
# Transact.Proofs.Seats -- the end of a transaction, as one seat sees it

At the end of a transaction the coordinator calls everybody.  Seen from one seat only its own undo or
apply matters, if the calls to all the others keep to a frame (`Manners`): a transaction that ends does
something within the frame, then undoes or applies the one in the seat, then something within the frame
again (`Ended`).

`commit_ended`, `abort_ended`, `drop_ended` and `validateEarly_ended` say so of the four calls that may
end a transaction.
-/
import Transact.Proofs.Parties

namespace Transact

set_option autoImplicit false

variable {P W M : Type}

/-! ## Sweeps -/

/-- Act on the participants from the first on. -/
def sweep (op : P → W → P × W) : List (Member P) → W → List (Member P) × W
  | [], w => ([], w)
  | m :: rest, w =>
      let here := op m.state w
      let later := sweep op rest here.2
      ({ m with state := here.1 } :: later.1, later.2)

theorem sweep_append (op : P → W → P × W) (first second : List (Member P)) (w : W) :
    sweep op (first ++ second) w =
      let r := sweep op first w
      let q := sweep op second r.2
      (r.1 ++ q.1, q.2) := by
  induction first generalizing w with
  | nil => rfl
  | cons m rest ih => simp only [List.cons_append, sweep, ih]

section Calls

variable [Participant P W]

theorem applyAll_sweep (ctx : Context) (members : List (Member P)) (w : W) :
    (applyAll ctx members w).2.2 =
      (sweep (fun p w => (Participant.apply ctx p w).2) members w).2 := by
  induction members generalizing w with
  | nil => rfl
  | cons m rest ih =>
      simp only [applyAll, sweep]
      rcases Participant.apply ctx m.state w with ⟨_ | _, s, w'⟩
      · exact ih w'
      · exact ih w'

theorem undoAll_sweep (ctx : Context) (members : List (Member P)) (w : W) :
    (undoAll ctx members w).2.2 =
      (sweep (fun p w => (Participant.undo ctx p w).2) members.reverse w).2 := by
  induction members generalizing w with
  | nil => rfl
  | cons m rest ih =>
      rw [List.reverse_cons, sweep_append, undoAll]
      simp only [sweep, ← ih]
      rcases Participant.undo ctx m.state (undoAll ctx rest w).2.2 with ⟨_ | _, s, w'⟩ <;> rfl

theorem finishAll_sweep (ctx : Context) (members : List (Member P)) (w : W) :
    (finishAll ctx members w).2 = (sweep (Participant.finish ctx) members w).2 := by
  induction members generalizing w with
  | nil => rfl
  | cons m rest ih => exact ih _

theorem unlockAll_sweep (ctx : Context) (members : List (Member P)) (w : W) :
    (unlockAll ctx members w).2 = (sweep (Participant.unlock ctx) members.reverse w).2 := by
  induction members generalizing w with
  | nil => rfl
  | cons m rest ih =>
      rw [List.reverse_cons, sweep_append, unlockAll]
      simp only [sweep, ← ih]

theorem releaseAll_sweep (members : List (Member P)) (w : W) :
    releaseAll members w = (sweep Participant.release members w).2 := by
  induction members generalizing w with
  | nil => rfl
  | cons m rest ih => exact ih _

end Calls

/-! ## Closing -/

/-- The reason of an abort after all were undone: the first failure outranks it. -/
def AbortReason.overruled (reason : AbortReason) : Option Int → AbortReason
  | some code => .moduleError code
  | none => reason

/-- The outcome once all were applied: the first failure is a fault. -/
def Outcome.ofApply : Option Int → Outcome
  | some code => .aborted (.moduleError code)
  | none => .committed

namespace Transaction

variable [Participant P W] {t : Transaction P}

omit [Participant P W] in
/-- Phases entered before the last ones. -/
theorem ended_onward (t : Transaction P) (phase : Phase) (visited : List Phase)
    (members : List (Member P)) (more : List Phase) (outcome : Outcome) :
    ({ t with phase, visited := t.visited ++ visited, members } : Transaction P).ended more outcome =
      t.ended (visited ++ more) outcome := by
  simp only [ended, List.append_assoc]

/-- The world after everybody was finished, the first `locked` were unlocked and all released. -/
def close (ctx : Context) (members : List (Member P)) (locked : Nat) (w : W) : W :=
  let r := finishAll ctx members w
  let q := unlockAll ctx (r.1.take locked) r.2
  releaseAll (q.1 ++ r.1.drop locked) q.2

theorem finishAndRelease_close (phase : t.phase.canAdvance .finishing) (locked : Nat)
    (outcome : Outcome) (w : W) :
    t.finishAndRelease locked outcome w =
      (.ok outcome, t.ended [.finishing, .released] outcome, close t.context t.members locked w) := by
  have last : Phase.canAdvance .finishing .released = true := rfl
  simp only [finishAndRelease, advance, phase, last, if_true, ended, List.append_assoc, close]
  rfl

/-- Undoing answers with what came of the undo calls. -/
theorem undoAndRelease_eq (phase : t.phase.canAdvance .undoing) (locked : Nat)
    (reason : AbortReason) (w : W) :
    let undone := undoAll t.context t.members w
    let outcome := Outcome.aborted (reason.overruled undone.1)
    t.undoAndRelease locked reason w =
      (.ok outcome, t.ended [.undoing, .finishing, .released] outcome,
        close t.context undone.2.1 locked undone.2.2) := by
  have context : ({ t with phase := Phase.undoing, visited := t.visited ++ [Phase.undoing] } :
      Transaction P).context = t.context := rfl
  simp only [undoAndRelease, advance, phase, if_true, context]
  rcases undoAll t.context t.members w with ⟨fault, members, w'⟩
  have closes (outcome : Outcome) := finishAndRelease_close
    (t := { t with phase := .undoing, visited := t.visited ++ [.undoing], members })
    rfl locked outcome w'
  cases fault <;>
    · refine (closes _).trans ?_
      simp only [ended, List.append_assoc, List.cons_append, List.nil_append, Transaction.context,
        AbortReason.overruled]

/-- Applying answers with what came of the apply calls. -/
theorem applyAndRelease_eq (phase : t.phase.canAdvance .applying) (locked : Nat) (w : W) :
    let applied := applyAll t.context t.members w
    let outcome := Outcome.ofApply applied.1
    t.applyAndRelease locked w =
      (.ok outcome, t.ended [.applying, .finishing, .released] outcome,
        close t.context applied.2.1 locked applied.2.2) := by
  have context : ({ t with phase := Phase.applying, visited := t.visited ++ [Phase.applying] } :
      Transaction P).context = t.context := rfl
  simp only [applyAndRelease, advance, phase, if_true, context]
  rcases applyAll t.context t.members w with ⟨fault, members, w'⟩
  have closes (outcome : Outcome) := finishAndRelease_close
    (t := { t with phase := .applying, visited := t.visited ++ [.applying], members })
    rfl locked outcome w'
  cases fault <;>
    · refine (closes _).trans ?_
      simp only [ended, List.append_assoc, List.cons_append, List.nil_append, Transaction.context,
        Outcome.ofApply]

theorem undoAndRelease_close (phase : t.phase.canAdvance .undoing) (locked : Nat)
    (reason : AbortReason) (w : W) :
    ∃ outcome, t.undoAndRelease locked reason w =
      (.ok outcome, t.ended [.undoing, .finishing, .released] outcome,
        close t.context (undoAll t.context t.members w).2.1 locked
          (undoAll t.context t.members w).2.2) :=
  ⟨_, undoAndRelease_eq phase locked reason w⟩

theorem applyAndRelease_close (phase : t.phase.canAdvance .applying) (locked : Nat) (w : W) :
    ∃ outcome, t.applyAndRelease locked w =
      (.ok outcome, t.ended [.applying, .finishing, .released] outcome,
        close t.context (applyAll t.context t.members w).2.1 locked
          (applyAll t.context t.members w).2.2) :=
  ⟨_, applyAndRelease_eq phase locked w⟩

end Transaction

/-! ## Frames -/

/-- What may happen aside any number of times. -/
structure Frame (F : W → W → Prop) : Prop where
  refl : ∀ w, F w w
  trans : ∀ {w w' w''}, F w w' → F w' w'' → F w w''

variable {F A : W → W → Prop}

theorem sweep_within (frame : Frame F) {op : P → W → P × W} (members : List (Member P))
    (within : ∀ m ∈ members, ∀ w, F w (op m.state w).2) (w : W) : F w (sweep op members w).2 := by
  induction members generalizing w with
  | nil => exact frame.refl w
  | cons m rest ih =>
      obtain ⟨here, later⟩ := List.forall_mem_cons.1 within
      exact frame.trans (here w) (ih later _)

theorem mem_seatsOf_none {view : P → Option M} {members : List (Member P)}
    (nobody : seatsOf view members = []) : ∀ m ∈ members, view m.state = none := by
  intro m member
  exact List.filterMap_eq_nil_iff.1 nobody m member

/-- Around the visit to the one seat of a sort a sweep keeps to the frame of the others. -/
theorem sweep_seat (frame : Frame F) {facet : Facet P M} (lawful : facet.Lawful)
    (op : P → W → P × W) (others : ∀ p, facet.view p = none → ∀ w, F w (op p w).2)
    {members : List (Member P)} {s : M} (seats : seatsOf facet.view members = [s]) (w : W) :
    ∃ w₁, F w w₁ ∧ F (op (facet.wrap s) w₁).2 (sweep op members w).2 := by
  induction members generalizing w with
  | nil => cases seats
  | cons m rest ih =>
      cases seen : facet.view m.state with
      | some s₀ =>
          rw [Transaction.seatsOf_cons_some seen] at seats
          obtain ⟨rfl, nobody⟩ := List.cons.inj seats
          refine ⟨w, frame.refl w, ?_⟩
          rw [← lawful.wrap_of_view _ _ seen]
          exact sweep_within frame rest
            (fun n member => others _ (mem_seatsOf_none nobody n member)) _
      | none =>
          rw [Transaction.seatsOf_cons_none seen] at seats
          obtain ⟨w₁, before, after⟩ := ih seats (op m.state w).2
          exact ⟨w₁, frame.trans (others _ seen w) before, after⟩

/-! ## Manners -/

variable [Participant P W]

/-- How everybody behaves at the end of a transaction, as one sort of participant sees it: all calls
keep to the frame `F`, but for the undo of this sort, and for apply, where the others keep to `A`.
Being locked changes a participant of this sort as `S` says. -/
structure Manners (facet : Facet P M) (F A : W → W → Prop) (S : M → M → Prop) (ctx : Context) :
    Prop where
  lawful : facet.Lawful
  quiet : Frame F
  busy : Frame A
  weaken : ∀ {w w'}, F w w' → A w w'
  lock : ∀ (p : P) (w : W), F w (Participant.lock ctx p w).2.2
  locked : ∀ (s : M) (w : W), ∃ s', S s s' ∧
    facet.view (Participant.lock ctx (facet.wrap s) w).2.1 = some s'
  unseen : ∀ (p : P) (w : W), facet.view p = none → facet.view (Participant.lock ctx p w).2.1 = none
  same : S facet.fresh facet.fresh
  unlock : ∀ (p : P) (w : W), F w (Participant.unlock ctx p w).2
  validate : ∀ (v : Validation) (p : P) (w : W), F w (Participant.validate ctx v p w).2
  finish : ∀ (p : P) (w : W), F w (Participant.finish ctx p w).2
  release : ∀ (p : P) (w : W), F w (Participant.release p w).2
  undo : ∀ p, facet.view p = none → ∀ (w : W), F w (Participant.undo ctx p w).2.2
  apply : ∀ p, facet.view p = none → ∀ (w : W), A w (Participant.apply ctx p w).2.2
  /-- A fresh participant has nothing to undo or to apply, and is valid. -/
  idleUndo : ∀ (w : W), (Participant.undo ctx (facet.wrap facet.fresh) w).2.2 = w
  idleApply : ∀ (w : W), (Participant.apply ctx (facet.wrap facet.fresh) w).2.2 = w
  idleValid : ∀ (v : Validation) (w : W),
    (Participant.validate ctx v (facet.wrap facet.fresh) w).1 = true

/-- How a transaction ended, as the seat of a sort sees it. -/
inductive Ended (facet : Facet P M) (F A : W → W → Prop) (S : M → M → Prop) (t : Transaction P)
    (w : W) : Transaction P → W → Prop where
  | undone (s : M) (w₁ w' : W) (visited : List Phase) (outcome : Outcome)
      (mine : t.seat facet = s ∨ S (t.seat facet) s) (before : F w w₁)
      (after : F (Participant.undo t.context (facet.wrap s) w₁).2.2 w')
      (undoing : .undoing ∈ visited) (unapplied : .applying ∉ visited) :
      Ended facet F A S t w (t.ended visited outcome) w'
  | applied (s : M) (w₁ w₂ w' : W) (visited : List Phase) (outcome : Outcome)
      (mine : S (t.seat facet) s) (before : F w w₁)
      (valid : (Participant.validate t.context .final (facet.wrap s) w₁).1 = true)
      (meanwhile : A w₁ w₂) (after : A (Participant.apply t.context (facet.wrap s) w₂).2.2 w')
      (applying : .applying ∈ visited) (kept : .undoing ∉ visited) :
      Ended facet F A S t w (t.ended visited outcome) w'

theorem Ended.released {facet : Facet P M} {S : M → M → Prop} {t t' : Transaction P} {w w' : W}
    (ended : Ended facet F A S t w t' w') : t'.phase = .released := by
  cases ended <;> rfl

namespace Manners

variable {facet : Facet P M} {S : M → M → Prop} {ctx : Context} {t : Transaction P}

/-! ### Everybody is called -/

theorem lockAll (manners : Manners facet F A S ctx) (members : List (Member P)) (w : W) :
    F w (Transact.lockAll ctx members w).world ∧
      List.Forall₂ (fun s s' => s = s' ∨ S s s') (seatsOf facet.view members)
        (seatsOf facet.view (Transact.lockAll ctx members w).members) ∧
      ((Transact.lockAll ctx members w).refusal = none →
        List.Forall₂ S (seatsOf facet.view members)
          (seatsOf facet.view (Transact.lockAll ctx members w).members)) := by
  induction members generalizing w with
  | nil => exact ⟨manners.quiet.refl w, .nil, fun _ => .nil⟩
  | cons m rest ih =>
      have within := manners.lock m.state w
      simp only [Transact.lockAll]
      rcases taken : Participant.lock ctx m.state w with ⟨e | _, p, w'⟩
      · rw [taken] at within
        refine ⟨within, ?_, fun unrefused => by cases unrefused⟩
        cases seen : facet.view m.state with
        | none =>
            have unseen := manners.unseen m.state w seen
            rw [taken] at unseen
            rw [Transaction.seatsOf_cons_none seen, Transaction.seatsOf_cons_none unseen]
            exact List.forall₂_same.2 fun s _ => Or.inl rfl
        | some s =>
            obtain ⟨s', becomes, seen'⟩ := manners.locked s w
            rw [← manners.lawful.wrap_of_view _ _ seen, taken] at seen'
            rw [Transaction.seatsOf_cons_some seen, Transaction.seatsOf_cons_some seen']
            exact .cons (Or.inr becomes) (List.forall₂_same.2 fun s _ => Or.inl rfl)
      · rw [taken] at within
        obtain ⟨later, seats, all⟩ := ih w'
        cases seen : facet.view m.state with
        | none =>
            have unseen := manners.unseen m.state w seen
            rw [taken] at unseen
            rw [Transaction.seatsOf_cons_none seen, Transaction.seatsOf_cons_none unseen]
            exact ⟨manners.quiet.trans within later, seats, all⟩
        | some s =>
            obtain ⟨s', becomes, seen'⟩ := manners.locked s w
            rw [← manners.lawful.wrap_of_view _ _ seen, taken] at seen'
            rw [Transaction.seatsOf_cons_some seen, Transaction.seatsOf_cons_some seen']
            exact ⟨manners.quiet.trans within later, .cons (Or.inr becomes) seats,
              fun unrefused => .cons becomes (all unrefused)⟩

/-- If all are valid, so is the one in the seat. -/
theorem validateAll (manners : Manners facet F A S ctx) (v : Validation)
    (members : List (Member P)) (w : W) :
    F w (Transact.validateAll ctx v members w).2 ∧
      ((Transact.validateAll ctx v members w).1 = true →
        ∀ s ∈ seatsOf facet.view members, ∃ w₁, F w w₁ ∧
          (Participant.validate ctx v (facet.wrap s) w₁).1 = true ∧
          F w₁ (Transact.validateAll ctx v members w).2) := by
  induction members generalizing w with
  | nil => exact ⟨manners.quiet.refl w, fun _ s member => absurd member List.not_mem_nil⟩
  | cons m rest ih =>
      have within := manners.validate v m.state w
      simp only [Transact.validateAll]
      rcases checked : Participant.validate ctx v m.state w with ⟨valid, w'⟩
      rw [checked] at within
      cases valid with
      | false => exact ⟨within, fun valid => by cases valid⟩
      | true =>
          obtain ⟨later, all⟩ := ih w'
          refine ⟨manners.quiet.trans within later, fun valid s member => ?_⟩
          obtain ⟨n, there, seen⟩ := List.mem_filterMap.1 member
          rcases List.mem_cons.1 there with rfl | inRest
          · refine ⟨w, manners.quiet.refl w, ?_, manners.quiet.trans within later⟩
            rw [← manners.lawful.wrap_of_view _ _ seen, checked]
          · obtain ⟨w₁, before, own, after⟩ :=
              all valid s (List.mem_filterMap.2 ⟨n, inRest, seen⟩)
            exact ⟨w₁, manners.quiet.trans within before, own, after⟩

/-- The last stretch keeps to the frame. -/
theorem close (manners : Manners facet F A S ctx) (members : List (Member P)) (locked : Nat) (w : W) :
    F w (Transaction.close ctx members locked w) := by
  have finished := sweep_within manners.quiet members
    (fun m _ => manners.finish m.state) w
  rw [← finishAll_sweep] at finished
  have unlocked := sweep_within manners.quiet
    ((finishAll ctx members w).1.take locked).reverse
    (fun m _ => manners.unlock m.state) (finishAll ctx members w).2
  rw [← unlockAll_sweep] at unlocked
  have released (members : List (Member P)) (w : W) : F w (releaseAll members w) := by
    rw [releaseAll_sweep]
    exact sweep_within manners.quiet members (fun m _ => manners.release m.state) w
  exact manners.quiet.trans (manners.quiet.trans finished unlocked) (released _ _)

/-- Undoing is the undo of the one in the seat; where nobody is, that of a fresh participant. -/
theorem undoAll (manners : Manners facet F A S ctx) {members : List (Member P)} {s : M}
    (seats : seatsOf facet.view members = [s] ∨
      seatsOf facet.view members = [] ∧ s = facet.fresh) (w : W) :
    ∃ w₁, F w w₁ ∧
      F (Participant.undo ctx (facet.wrap s) w₁).2.2 (Transact.undoAll ctx members w).2.2 := by
  rw [undoAll_sweep]
  rcases seats with seated | ⟨nobody, rfl⟩
  · refine sweep_seat manners.quiet manners.lawful
      (fun p w => (Participant.undo ctx p w).2) manners.undo ?_ w
    rw [seatsOf, List.filterMap_reverse, ← seatsOf, seated]
    rfl
  · refine ⟨w, manners.quiet.refl w, ?_⟩
    rw [manners.idleUndo]
    refine sweep_within manners.quiet _ (fun m member => manners.undo _ ?_) w
    exact mem_seatsOf_none nobody m (List.mem_reverse.1 member)

theorem applyAll (manners : Manners facet F A S ctx) {members : List (Member P)} {s : M}
    (seats : seatsOf facet.view members = [s] ∨
      seatsOf facet.view members = [] ∧ s = facet.fresh) (w : W) :
    ∃ w₁, A w w₁ ∧
      A (Participant.apply ctx (facet.wrap s) w₁).2.2 (Transact.applyAll ctx members w).2.2 := by
  rw [applyAll_sweep]
  rcases seats with seated | ⟨nobody, rfl⟩
  · exact sweep_seat manners.busy manners.lawful
      (fun p w => (Participant.apply ctx p w).2) manners.apply seated w
  · refine ⟨w, manners.busy.refl w, ?_⟩
    rw [manners.idleApply]
    exact sweep_within manners.busy members
      (fun m member => manners.apply _ (mem_seatsOf_none nobody m member)) w

/-! ### The calls that end a transaction -/

/-- Undoing and closing, seen from the seat. -/
theorem ended_undone (manners : Manners facet F A S t.context) {members : List (Member P)} {s : M}
    (mine : t.seat facet = s ∨ S (t.seat facet) s)
    (seats : seatsOf facet.view members = [s] ∨
      seatsOf facet.view members = [] ∧ s = facet.fresh) {w w₀ : W} (before : F w₀ w) (locked : Nat)
    {visited : List Phase} (undoing : .undoing ∈ visited) (unapplied : .applying ∉ visited)
    (outcome : Outcome) :
    Ended facet F A S t w₀ (t.ended visited outcome)
      (Transaction.close t.context (Transact.undoAll t.context members w).2.1 locked
        (Transact.undoAll t.context members w).2.2) := by
  obtain ⟨w₁, early, late⟩ := manners.undoAll seats w
  exact .undone s w₁ _ visited outcome mine (manners.quiet.trans before early)
    (manners.quiet.trans late (manners.close ..)) undoing unapplied

theorem seats (single : t.Single facet) :
    seatsOf facet.view t.members = [t.seat facet] ∨
      seatsOf facet.view t.members = [] ∧ t.seat facet = facet.fresh :=
  single.cases.symm

/-- Giving up undoes the one in the seat. -/
theorem abandon (manners : Manners facet F A S t.context) (single : t.Single facet)
    (phase : t.phase.canAdvance .undoing) (reason : AbortReason) {w w₀ : W} (before : F w₀ w) :
    Ended facet F A S t w₀ (t.undoAndRelease 0 reason w).2.1 (t.undoAndRelease 0 reason w).2.2 := by
  obtain ⟨outcome, ended⟩ := Transaction.undoAndRelease_close phase 0 reason w
  rw [ended]
  exact manners.ended_undone (Or.inl rfl) (seats single) before 0 (by decide) (by decide) outcome

theorem abort_ended (manners : Manners facet F A S t.context) (single : t.Single facet)
    (active : t.phase = .active) (w : W) :
    Ended facet F A S t w (t.abort w).2.1 (t.abort w).2.2 := by
  rw [Transaction.abort_active active]
  exact manners.abandon single (by rw [active]; rfl) .requested (manners.quiet.refl w)

theorem drop_ended (manners : Manners facet F A S t.context) (single : t.Single facet)
    (active : t.phase = .active) (w : W) :
    Ended facet F A S t w (t.drop w).1 (t.drop w).2 := by
  rw [Transaction.drop_active active]
  exact manners.abandon single (by rw [active]; rfl) .requested (manners.quiet.refl w)

/-- An early validation ends the transaction or does nothing to it. -/
theorem validateEarly_ended (manners : Manners facet F A S t.context) (single : t.Single facet)
    (active : t.phase = .active) (w : W) :
    (t.validateEarly w).2.1 = t ∧ F w (t.validateEarly w).2.2 ∨
      Ended facet F A S t w (t.validateEarly w).2.1 (t.validateEarly w).2.2 := by
  have within := (manners.validateAll .early t.members w).1
  simp only [Transaction.validateEarly, Transaction.checkActive_active active]
  rcases checked : Transact.validateAll t.context .early t.members w with ⟨_ | _, w'⟩
  · rw [checked] at within
    have gone := manners.abandon single (by rw [active]; rfl) .validationFailed within
    simp only
    rcases ended : t.undoAndRelease 0 .validationFailed w' with ⟨_ | _, t', w''⟩
    · rw [ended] at gone
      exact Or.inr gone
    · rw [ended] at gone
      exact Or.inr gone
  · rw [checked] at within
    exact Or.inl ⟨rfl, within⟩

omit [Participant P W] in
/-- Where the seats were changed one by one, the one in the seat was, or again nobody is in it. -/
theorem seat_after {R : M → M → Prop} (single : t.Single facet) (fresh : R facet.fresh facet.fresh)
    {members : List (Member P)}
    (related : List.Forall₂ R (seatsOf facet.view t.members) (seatsOf facet.view members)) :
    ∃ s, R (t.seat facet) s ∧ (seatsOf facet.view members = [s] ∨
      seatsOf facet.view members = [] ∧ s = facet.fresh) := by
  rcases seats single with seated | ⟨nobody, idle⟩
  · rw [seated] at related
    obtain ⟨s, rest, becomes, nobody, same⟩ := List.forall₂_cons_left_iff.1 related
    rw [List.forall₂_nil_left_iff.1 nobody] at same
    exact ⟨s, becomes, Or.inl same⟩
  · rw [nobody] at related
    refine ⟨facet.fresh, idle ▸ fresh, Or.inr ⟨?_, rfl⟩⟩
    exact List.forall₂_nil_left_iff.1 related

/-- Under the locks the one in the seat is undone, or found valid and applied. -/
theorem validateAndRelease_ended (manners : Manners facet F A S t.context)
    (active : t.phase = .active) {members : List (Member P)} {s : M} (mine : S (t.seat facet) s)
    (seated : seatsOf facet.view members = [s] ∨
      seatsOf facet.view members = [] ∧ s = facet.fresh) {w w₁ : W} (within : F w w₁) (locked : Nat) :
    Ended facet F A S t w (({ t with members }).validateAndRelease locked w₁).2.1
      (({ t with members }).validateAndRelease locked w₁).2.2 := by
  have forward : t.phase.canAdvance .locked = true := by rw [active]; rfl
  have further : Phase.canAdvance .locked .validating = true := rfl
  obtain ⟨checks, valid⟩ := manners.validateAll .final members w₁
  simp only [Transaction.validateAndRelease, Transaction.advance, forward, further, if_true]
  have context : ({ t with
      phase := Phase.validating
      visited := t.visited ++ [Phase.locked] ++ [Phase.validating], members } :
      Transaction P).context = t.context := rfl
  rw [context]
  rcases checked : Transact.validateAll t.context .final members w₁ with ⟨_ | _, w₂⟩ <;>
    rw [checked] at checks valid
  · obtain ⟨outcome, ended⟩ := Transaction.undoAndRelease_close
      (t := { t with
        phase := .validating, visited := t.visited ++ [.locked, .validating], members })
      rfl locked .validationFailed w₂
    have gone := manners.ended_undone (t := t) (Or.inr mine) seated
      (manners.quiet.trans within checks) locked
      (show .undoing ∈ [Phase.locked, .validating, .undoing, .finishing, .released] by decide)
      (by decide) outcome
    rw [Transaction.ended_onward] at ended
    simp only [List.append_assoc, List.singleton_append, ended]
    exact gone
  · obtain ⟨outcome, ended⟩ := Transaction.applyAndRelease_close
      (t := { t with
        phase := .validating, visited := t.visited ++ [.locked, .validating], members })
      rfl locked w₂
    obtain ⟨w₃, valid₃, before, meanwhile⟩ : ∃ w₃,
        (Participant.validate t.context .final (facet.wrap s) w₃).1 = true ∧ F w w₃ ∧
          F w₃ w₂ := by
      rcases seated with alone | ⟨-, rfl⟩
      · obtain ⟨w₃, before, own, rest⟩ := valid rfl s (by rw [alone]; exact List.mem_cons_self)
        exact ⟨w₃, own, manners.quiet.trans within before, rest⟩
      · exact ⟨w₂, manners.idleValid .final w₂, manners.quiet.trans within checks,
          manners.quiet.refl w₂⟩
    obtain ⟨w₄, early, late⟩ := manners.applyAll seated w₂
    have closed := manners.weaken
      (manners.close (Transact.applyAll t.context members w₂).2.1 locked
        (Transact.applyAll t.context members w₂).2.2)
    have gone : Ended facet F A S t w
        (t.ended [.locked, .validating, .applying, .finishing, .released] outcome) _ :=
      .applied s w₃ w₄ _ _ outcome mine before valid₃
        (manners.busy.trans (manners.weaken meanwhile) early)
        (manners.busy.trans late closed) (by decide) (by decide)
    rw [Transaction.ended_onward] at ended
    simp only [List.append_assoc, List.singleton_append, ended]
    exact gone

/-- **A commit undoes the one in the seat, or finds it valid and applies it.** -/
theorem commit_ended (manners : Manners facet F A S t.context) (single : t.Single facet)
    (active : t.phase = .active) (w : W) :
    Ended facet F A S t w (t.commit w).2.1 (t.commit w).2.2 := by
  obtain ⟨within, seatsAfter, seatsLocked⟩ := manners.lockAll t.members w
  simp only [Transaction.commit, Transaction.checkActive_active active]
  rcases taken : Transact.lockAll t.context t.members w with ⟨members, locked, refusal, w₁⟩
  rw [taken] at within seatsAfter seatsLocked
  simp only at within seatsAfter seatsLocked
  cases refusal with
  | some e =>
      obtain ⟨s, mine, seated⟩ := seat_after single (Or.inl rfl) seatsAfter
      obtain ⟨outcome, ended⟩ := Transaction.undoAndRelease_close (t := { t with members })
        (show t.phase.canAdvance .undoing = true by rw [active]; rfl) locked
        (Transaction.lockReason e) w₁
      simp only [ended]
      exact manners.ended_undone mine seated within locked (by decide) (by decide) outcome
  | none =>
      obtain ⟨s, mine, seated⟩ := seat_after single manners.same (seatsLocked rfl)
      exact manners.validateAndRelease_ended active mine seated within locked

end Manners

end Transact
