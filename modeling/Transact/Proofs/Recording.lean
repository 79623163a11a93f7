/-
# Transact.Proofs.Recording -- participants that write down every call

A participant may be anything, so what the coordinator does to it shows only in the calls it gets.
`Recorded P` is a participant `P` under the domain it was registered for; it passes each call on and
writes it down, with the answer, on the `Tape` that takes the place of the world.

The functions on lists of participants come first: `lockAll_calls`, `validateAll_calls`,
`applyAll_calls`, `undoAll_calls`, `finishAll_calls`, `unlockAll_calls` and `releaseAll_calls` say
which calls each of them makes and how its answer depends on theirs.
-/
import Transact.Transaction

namespace Transact

set_option autoImplicit false

/-! ## Calls and tapes -/

/-- A call on a participant, with what it answered. -/
inductive Call where
  /-- A body works through it. -/
  | work
  | lock (answer : Except Error Unit)
  | validate (occasion : Validation) (valid : Bool)
  | apply (answer : Except Error Unit)
  | undo (answer : Except Error Unit)
  | finish
  | unlock
  | release

/-- The sorts of calls. -/
inductive CallKind where
  | work
  | lock
  | validate (occasion : Validation)
  | apply
  | undo
  | finish
  | unlock
  | release
  deriving DecidableEq

def Call.kind : Call → CallKind
  | .work => .work
  | .lock _ => .lock
  | .validate occasion _ => .validate occasion
  | .apply _ => .apply
  | .undo _ => .undo
  | .finish => .finish
  | .unlock => .unlock
  | .release => .release

/-- Who was called, and how. -/
structure Called where
  domain : Domain
  call : Call

abbrev Trace : Type := List Called

/-- A world and the calls made in it, oldest first. -/
structure Tape (W : Type) where
  world : W
  trace : Trace := []

/-- The world moved on to `world` in the call `c`. -/
def Tape.note {W : Type} (t : Tape W) (world : W) (c : Called) : Tape W :=
  { world, trace := t.trace ++ [c] }

/-- A participant under the domain it speaks for. -/
structure Recorded (P : Type) where
  domain : Domain
  inner : P

namespace Recorded

variable {P W : Type} [Participant P W]

instance : Participant (Recorded P) (Tape W) where
  domain r := r.domain
  lock ctx r t :=
    let (answer, inner, w) := Participant.lock ctx r.inner t.world
    (answer, { r with inner }, t.note w ⟨r.domain, .lock answer⟩)
  unlock ctx r t :=
    let (inner, w) := Participant.unlock ctx r.inner t.world
    ({ r with inner }, t.note w ⟨r.domain, .unlock⟩)
  validate ctx v r t :=
    let (valid, w) := Participant.validate ctx v r.inner t.world
    (valid, t.note w ⟨r.domain, .validate v valid⟩)
  apply ctx r t :=
    let (answer, inner, w) := Participant.apply ctx r.inner t.world
    (answer, { r with inner }, t.note w ⟨r.domain, .apply answer⟩)
  undo ctx r t :=
    let (answer, inner, w) := Participant.undo ctx r.inner t.world
    (answer, { r with inner }, t.note w ⟨r.domain, .undo answer⟩)
  finish ctx r t :=
    let (inner, w) := Participant.finish ctx r.inner t.world
    ({ r with inner }, t.note w ⟨r.domain, .finish⟩)
  release r t :=
    let (inner, w) := Participant.release r.inner t.world
    ({ r with inner }, t.note w ⟨r.domain, .release⟩)
  journal r t := Participant.journal r.inner t.world

end Recorded

/-! ## Reading a trace -/

/-- The error of a lock, an apply or an undo that failed. -/
def Call.fault? : Call → Option Error
  | .lock (.error e) => some e
  | .apply (.error e) => some e
  | .undo (.error e) => some e
  | _ => none

/-- The error of the first call that failed. -/
def Trace.firstFault (calls : Trace) : Option Error := calls.findSome? (·.call.fault?)

theorem firstFault_append (calls more : Trace) :
    Trace.firstFault (calls ++ more) =
      (Trace.firstFault calls).or (Trace.firstFault more) := by
  simp only [Trace.firstFault, List.findSome?_append]

/-- `calls` is one call of a kind on each of `ds`, in that order, with any answers. -/
def OnEach (kind : CallKind) (ds : List Domain) (calls : Trace) : Prop :=
  calls.map (·.domain) = ds ∧ ∀ c ∈ calls, c.call.kind = kind

theorem OnEach.nil (kind : CallKind) : OnEach kind [] [] :=
  ⟨rfl, fun _ member => absurd member List.not_mem_nil⟩

theorem OnEach.append {kind : CallKind} {ds es : List Domain} {calls more : Trace}
    (first : OnEach kind ds calls) (second : OnEach kind es more) :
    OnEach kind (ds ++ es) (calls ++ more) := by
  refine ⟨by rw [List.map_append, first.1, second.1], ?_⟩
  intro c member
  rcases List.mem_append.1 member with here | there
  · exact first.2 c here
  · exact second.2 c there

theorem OnEach.single {kind : CallKind} {d : Domain} {call : Call} (same : call.kind = kind) :
    OnEach kind [d] [⟨d, call⟩] :=
  ⟨rfl, by simpa using same⟩

/-! ## Calls on all participants -/

/-- The domains of a list of participants. -/
def domainsOf {P : Type} (members : List (Member P)) : List Domain := members.map (·.domain)

/-- Every participant records under the domain it is registered for. -/
def Named {P : Type} (members : List (Member (Recorded P))) : Prop :=
  ∀ m ∈ members, m.state.domain = m.domain

theorem named_cons {P : Type} {m : Member (Recorded P)} {rest : List (Member (Recorded P))} :
    Named (m :: rest) ↔ m.state.domain = m.domain ∧ Named rest := by
  simp only [Named, List.forall_mem_cons]

section Calls

variable {P W : Type} [Participant P W]

/-- Locking goes in order, up to and including the first refusal. -/
theorem lockAll_calls (ctx : Context) (members : List (Member (Recorded P))) (t : Tape W)
    (named : Named members) :
    Named (lockAll ctx members t).members ∧
      domainsOf (lockAll ctx members t).members = domainsOf members ∧
      (((lockAll ctx members t).refusal = none ∧
          (lockAll ctx members t).locked = members.length ∧
          (lockAll ctx members t).world.trace =
            t.trace ++ (domainsOf members).map fun d => ⟨d, .lock (.ok ())⟩) ∨
        ∃ before d after e, domainsOf members = before ++ d :: after ∧
          (lockAll ctx members t).refusal = some e ∧
          (lockAll ctx members t).locked = before.length ∧
          (lockAll ctx members t).world.trace =
            t.trace ++ before.map (fun d => ⟨d, .lock (.ok ())⟩) ++ [⟨d, .lock (.error e)⟩]) := by
  induction members generalizing t with
  | nil => simp [lockAll, Named, domainsOf]
  | cons m rest ih =>
      obtain ⟨here, there⟩ := named_cons.1 named
      rcases called : Participant.lock ctx m.state.inner t.world with ⟨answer, inner, w⟩
      have step : Participant.lock ctx m.state t =
          (answer, { m.state with inner }, t.note w ⟨m.state.domain, .lock answer⟩) := by
        simp only [Participant.lock, called]
      cases answer with
      | error e =>
          simp only [lockAll, step, here]
          refine ⟨named_cons.2 ⟨rfl, there⟩, rfl, Or.inr ⟨[], m.domain, domainsOf rest, e, rfl, rfl,
            rfl, ?_⟩⟩
          simp [Tape.note]
      | ok _ =>
          obtain ⟨named', domains', cases'⟩ := ih (t.note w ⟨m.state.domain, .lock (.ok ())⟩) there
          simp only [lockAll, step]
          refine ⟨named_cons.2 ⟨here, named'⟩, ?_, ?_⟩
          · simpa [domainsOf] using domains'
          · rcases cases' with
              ⟨unrefused, locked, trace⟩ | ⟨before, d, after, e, split, refusal, locked, trace⟩
            · refine Or.inl ⟨unrefused, by simp [locked], ?_⟩
              rw [trace]
              simp [Tape.note, domainsOf, here]
            · refine Or.inr ⟨m.domain :: before, d, after, e, ?_, refusal, by simp [locked], ?_⟩
              · simpa [domainsOf] using split
              · rw [trace]
                simp [Tape.note, here]

/-- Validating goes in order, up to and including the first participant that is not valid. -/
theorem validateAll_calls (ctx : Context) (v : Validation) (members : List (Member (Recorded P)))
    (t : Tape W) (named : Named members) :
    ((validateAll ctx v members t).1 = true ∧
        (validateAll ctx v members t).2.trace =
          t.trace ++ (domainsOf members).map fun d => ⟨d, .validate v true⟩) ∨
      ∃ before d after, domainsOf members = before ++ d :: after ∧
        (validateAll ctx v members t).1 = false ∧
        (validateAll ctx v members t).2.trace =
          t.trace ++ before.map (fun d => ⟨d, .validate v true⟩) ++ [⟨d, .validate v false⟩] := by
  induction members generalizing t with
  | nil => simp [validateAll, domainsOf]
  | cons m rest ih =>
      obtain ⟨here, there⟩ := named_cons.1 named
      rcases called : Participant.validate ctx v m.state.inner t.world with ⟨valid, w⟩
      have step : Participant.validate ctx v m.state t =
          (valid, t.note w ⟨m.state.domain, .validate v valid⟩) := by
        simp only [Participant.validate, called]
      cases valid with
      | false =>
          simp only [validateAll, step, here]
          refine Or.inr ⟨[], m.domain, domainsOf rest, rfl, trivial, ?_⟩
          simp [Tape.note]
      | true =>
          simp only [validateAll, step]
          rcases ih (t.note w ⟨m.state.domain, .validate v true⟩) there with
            ⟨valid, trace⟩ | ⟨before, d, after, split, invalid, trace⟩
          · refine Or.inl ⟨valid, ?_⟩
            rw [trace]
            simp [Tape.note, domainsOf, here]
          · refine Or.inr ⟨m.domain :: before, d, after, ?_, invalid, ?_⟩
            · simpa [domainsOf] using split
            · rw [trace]
              simp [Tape.note, here]

/-- Applying calls everybody in order, and answers with the first failure. -/
theorem applyAll_calls (ctx : Context) (members : List (Member (Recorded P))) (t : Tape W)
    (named : Named members) :
    Named (applyAll ctx members t).2.1 ∧
      domainsOf (applyAll ctx members t).2.1 = domainsOf members ∧
      ∃ calls, OnEach .apply (domainsOf members) calls ∧
        (applyAll ctx members t).2.2.trace = t.trace ++ calls ∧
        (applyAll ctx members t).1 = (Trace.firstFault calls).map Error.code := by
  induction members generalizing t with
  | nil => exact ⟨named, rfl, [], .nil _, (List.append_nil _).symm, rfl⟩
  | cons m rest ih =>
      obtain ⟨here, there⟩ := named_cons.1 named
      rcases called : Participant.apply ctx m.state.inner t.world with ⟨answer, inner, w⟩
      have step : Participant.apply ctx m.state t =
          (answer, { m.state with inner }, t.note w ⟨m.state.domain, .apply answer⟩) := by
        simp only [Participant.apply, called]
      obtain ⟨named', domains', calls, applies, trace, fault⟩ :=
        ih (t.note w ⟨m.state.domain, .apply answer⟩) there
      have noted : t.trace ++ ⟨m.domain, .apply answer⟩ :: calls =
          (t.note w ⟨m.state.domain, .apply answer⟩).trace ++ calls := by
        simp [Tape.note, here]
      cases answer with
      | error e =>
          simp only [applyAll, step]
          refine ⟨named_cons.2 ⟨here, named'⟩, ?_, ⟨m.domain, .apply (.error e)⟩ :: calls,
            (OnEach.single rfl).append applies, trace.trans noted.symm, ?_⟩
          · simpa [domainsOf] using domains'
          · simp [Trace.firstFault, Call.fault?]
      | ok _ =>
          simp only [applyAll, step]
          refine ⟨named_cons.2 ⟨here, named'⟩, ?_, ⟨m.domain, .apply (.ok ())⟩ :: calls,
            (OnEach.single rfl).append applies, trace.trans noted.symm, ?_⟩
          · simpa [domainsOf] using domains'
          · simpa [Trace.firstFault, Call.fault?] using fault

/-- Undoing calls everybody from the last to the first, and answers with the first failure. -/
theorem undoAll_calls (ctx : Context) (members : List (Member (Recorded P))) (t : Tape W)
    (named : Named members) :
    Named (undoAll ctx members t).2.1 ∧
      domainsOf (undoAll ctx members t).2.1 = domainsOf members ∧
      ∃ calls, OnEach .undo (domainsOf members).reverse calls ∧
        (undoAll ctx members t).2.2.trace = t.trace ++ calls ∧
        (undoAll ctx members t).1 = (Trace.firstFault calls).map Error.code := by
  induction members generalizing t with
  | nil => exact ⟨named, rfl, [], .nil _, (List.append_nil _).symm, rfl⟩
  | cons m rest ih =>
      obtain ⟨here, there⟩ := named_cons.1 named
      obtain ⟨named', domains', calls, undoes, trace, fault⟩ := ih t there
      rcases others : undoAll ctx rest t with ⟨fault', members', t'⟩
      rw [others] at named' domains' trace fault
      rcases called : Participant.undo ctx m.state.inner t'.world with ⟨answer, inner, w⟩
      have step : Participant.undo ctx m.state t' =
          (answer, { m.state with inner }, t'.note w ⟨m.state.domain, .undo answer⟩) := by
        simp only [Participant.undo, called]
      have all : OnEach .undo (domainsOf (m :: rest)).reverse (calls ++ [⟨m.domain, .undo answer⟩]) := by
        simp only [domainsOf, List.map_cons, List.reverse_cons]
        exact undoes.append (.single rfl)
      have noted : (t'.note w ⟨m.state.domain, .undo answer⟩).trace =
          t.trace ++ (calls ++ [⟨m.domain, .undo answer⟩]) := by
        simp only at trace
        simp [Tape.note, here, trace]
      have domains : domainsOf ({ m with state := { m.state with inner } } :: members') =
          domainsOf (m :: rest) := by
        simpa [domainsOf] using domains'
      cases answer with
      | error e =>
          simp only [undoAll, others, step]
          refine ⟨named_cons.2 ⟨here, named'⟩, domains, _, all, noted, ?_⟩
          rw [show fault' = _ from fault, firstFault_append]
          cases Trace.firstFault calls <;> rfl
      | ok _ =>
          simp only [undoAll, others, step]
          refine ⟨named_cons.2 ⟨here, named'⟩, domains, _, all, noted, ?_⟩
          rw [show fault' = _ from fault, firstFault_append]
          cases Trace.firstFault calls <;> rfl

/-- Finishing calls everybody in order. -/
theorem finishAll_calls (ctx : Context) (members : List (Member (Recorded P))) (t : Tape W)
    (named : Named members) :
    Named (finishAll ctx members t).1 ∧
      domainsOf (finishAll ctx members t).1 = domainsOf members ∧
      (finishAll ctx members t).2.trace =
        t.trace ++ (domainsOf members).map fun d => ⟨d, .finish⟩ := by
  induction members generalizing t with
  | nil => simp [finishAll, Named, domainsOf]
  | cons m rest ih =>
      obtain ⟨here, there⟩ := named_cons.1 named
      obtain ⟨named', domains', trace⟩ :=
        ih (Participant.finish ctx m.state t).2 there
      simp only [finishAll]
      refine ⟨named_cons.2 ⟨here, named'⟩, ?_, ?_⟩
      · simpa [domainsOf] using domains'
      · rw [trace]
        simp [Participant.finish, Tape.note, domainsOf, here]

/-- Unlocking calls everybody from the last to the first. -/
theorem unlockAll_calls (ctx : Context) (members : List (Member (Recorded P))) (t : Tape W)
    (named : Named members) :
    Named (unlockAll ctx members t).1 ∧
      domainsOf (unlockAll ctx members t).1 = domainsOf members ∧
      (unlockAll ctx members t).2.trace =
        t.trace ++ (domainsOf members).reverse.map fun d => ⟨d, .unlock⟩ := by
  induction members generalizing t with
  | nil => simp [unlockAll, Named, domainsOf]
  | cons m rest ih =>
      obtain ⟨here, there⟩ := named_cons.1 named
      obtain ⟨named', domains', trace⟩ := ih t there
      simp only [unlockAll]
      refine ⟨named_cons.2 ⟨here, named'⟩, ?_, ?_⟩
      · simpa [domainsOf] using domains'
      · simp [Participant.unlock, Tape.note, domainsOf, here, trace]

/-- Releasing calls everybody in order. -/
theorem releaseAll_calls (members : List (Member (Recorded P))) (t : Tape W)
    (named : Named members) :
    (releaseAll members t).trace = t.trace ++ (domainsOf members).map fun d => ⟨d, .release⟩ := by
  induction members generalizing t with
  | nil => simp [releaseAll, domainsOf]
  | cons m rest ih =>
      obtain ⟨here, there⟩ := named_cons.1 named
      rw [releaseAll, ih _ there]
      simp [Participant.release, Tape.note, domainsOf, here]

end Calls

end Transact
