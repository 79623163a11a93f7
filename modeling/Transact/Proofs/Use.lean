/-
# Transact.Proofs.Use -- everything a program can do with a transaction

A `Use` is one call of a program on a transaction, and `performAll` makes such calls one after
another.  `Use.recorded` is the same call where every participant records what is done to it.

Main statement: `performAll_recorded`.  Recording changes nothing: replies, transaction and world are
those of the participants without it.  `Use.recordIn` makes calls at intervals, in which the world may
change; `recordIn_placed` has calls one after another as a case of it.
-/
import Transact.Proofs.Recording

namespace Transact

set_option autoImplicit false

/-! ## Uses -/

/-- A call of a program on a transaction. -/
inductive Use (P W : Type) : Type 1 where
  | register (p : P)
  | withModule {M α : Type} (facet : Facet P M)
      (body : Context → M → W → Except Error α × M × W)
  | validateEarly
  | commit
  | abort
  | drop

/-- What a call came to. -/
inductive Reply where
  | done
  | outcome (o : Outcome)
  | refused (e : Error)

def Reply.ofExcept {α : Type} (f : α → Reply) : Except Error α → Reply
  | .ok a => f a
  | .error e => .refused e

namespace Use

variable {P M W α : Type} [Participant P W]

/-- Make one call. -/
def perform (t : Transaction P) (w : W) : Use P W → Reply × Transaction P × W
  | .register p => let (r, t) := t.register p; (.ofExcept (fun _ => .done) r, t, w)
  | .withModule facet body =>
      let (r, t, w) := Transaction.withModule facet body t w
      (.ofExcept (fun _ => .done) r, t, w)
  | .validateEarly => let (r, t, w) := t.validateEarly w; (.ofExcept (fun _ => .done) r, t, w)
  | .commit => let (r, t, w) := t.commit w; (.ofExcept .outcome r, t, w)
  | .abort => let (r, t, w) := t.abort w; (.ofExcept .outcome r, t, w)
  | .drop => let (t, w) := t.drop w; (.done, t, w)

/-- Make calls one after another. -/
def performAll : List (Use P W) → Transaction P → W → List Reply × Transaction P × W
  | [], t, w => ([], t, w)
  | use :: rest, t, w =>
      let (reply, t, w) := use.perform t w
      let (replies, t, w) := performAll rest t w
      (reply :: replies, t, w)

end Use

/-! ## The same with recording -/

section Recording

variable {P M W α : Type}

/-- The sort of participant of `facet`, recorded. -/
def Facet.recorded (facet : Facet P M) : Facet (Recorded P) (Domain × M) where
  domain := facet.domain
  fresh := (facet.domain, facet.fresh)
  wrap m := ⟨m.1, facet.wrap m.2⟩
  view r := (facet.view r.inner).map fun m => (r.domain, m)

/-- Work through a recorded participant, which writes that down. -/
def recordedBody (body : Context → M → W → Except Error α × M × W) :
    Context → Domain × M → Tape W → Except Error α × (Domain × M) × Tape W :=
  fun ctx m t =>
    let (answer, state, w) := body ctx m.2 t.world
    (answer, (m.1, state), t.note w ⟨m.1, .work⟩)

def Use.recorded [Participant P W] : Use P W → Use (Recorded P) (Tape W)
  | .register p => .register ⟨Participant.domain p, p⟩
  | .withModule facet body => .withModule facet.recorded (recordedBody body)
  | .validateEarly => .validateEarly
  | .commit => .commit
  | .abort => .abort
  | .drop => .drop

/-- A recorded participant without the recording. -/
def Member.bare (m : Member (Recorded P)) : Member P := { domain := m.domain, state := m.state.inner }

def Transaction.bare (t : Transaction (Recorded P)) : Transaction P :=
  { id := t.id, config := t.config, reports := t.reports, phase := t.phase, visited := t.visited,
    members := t.members.map Member.bare, roster := t.roster, outcome := t.outcome }

/-- What is left of a call on a recorded transaction without the recording. -/
def bareResult {β : Type} (r : β × Transaction (Recorded P) × Tape W) : β × Transaction P × W :=
  (r.1, r.2.1.bare, r.2.2.world)

/-! ### Calls on all participants -/

section Members

variable [Participant P W]

theorem lockAll_bare (ctx : Context) (members : List (Member (Recorded P))) (t : Tape W) :
    lockAll ctx (members.map Member.bare) t.world =
      { members := (lockAll ctx members t).members.map Member.bare
        locked := (lockAll ctx members t).locked
        refusal := (lockAll ctx members t).refusal
        world := (lockAll ctx members t).world.world } := by
  induction members generalizing t with
  | nil => rfl
  | cons m rest ih =>
      rcases called : Participant.lock ctx m.state.inner t.world with ⟨answer, inner, w⟩
      cases answer with
      | error e => simp [lockAll, Participant.lock, Member.bare, called, Tape.note]
      | ok _ =>
          have others := ih (t.note w ⟨m.state.domain, .lock (.ok ())⟩)
          simp only [Tape.note] at others
          simp [lockAll, Participant.lock, Member.bare, called, Tape.note, others]

theorem validateAll_bare (ctx : Context) (v : Validation) (members : List (Member (Recorded P)))
    (t : Tape W) :
    validateAll ctx v (members.map Member.bare) t.world =
      ((validateAll ctx v members t).1, (validateAll ctx v members t).2.world) := by
  induction members generalizing t with
  | nil => rfl
  | cons m rest ih =>
      rcases called : Participant.validate ctx v m.state.inner t.world with ⟨valid, w⟩
      cases valid with
      | false => simp [validateAll, Participant.validate, Member.bare, called, Tape.note]
      | true =>
          have others := ih (t.note w ⟨m.state.domain, .validate v true⟩)
          simp only [Tape.note] at others
          simp [validateAll, Participant.validate, Member.bare, called, Tape.note, others]

theorem applyAll_bare (ctx : Context) (members : List (Member (Recorded P))) (t : Tape W) :
    applyAll ctx (members.map Member.bare) t.world =
      ((applyAll ctx members t).1, (applyAll ctx members t).2.1.map Member.bare,
        (applyAll ctx members t).2.2.world) := by
  induction members generalizing t with
  | nil => rfl
  | cons m rest ih =>
      rcases called : Participant.apply ctx m.state.inner t.world with ⟨answer, inner, w⟩
      have others := ih (t.note w ⟨m.state.domain, .apply answer⟩)
      simp only [Tape.note] at others
      cases answer <;> simp [applyAll, Participant.apply, Member.bare, called, Tape.note, others]

theorem undoAll_bare (ctx : Context) (members : List (Member (Recorded P))) (t : Tape W) :
    undoAll ctx (members.map Member.bare) t.world =
      ((undoAll ctx members t).1, (undoAll ctx members t).2.1.map Member.bare,
        (undoAll ctx members t).2.2.world) := by
  induction members generalizing t with
  | nil => rfl
  | cons m rest ih =>
      rcases called : Participant.undo ctx m.state.inner (undoAll ctx rest t).2.2.world with
        ⟨answer, inner, w⟩
      cases answer <;> simp [undoAll, Participant.undo, Member.bare, called, Tape.note, ih]

theorem finishAll_bare (ctx : Context) (members : List (Member (Recorded P))) (t : Tape W) :
    finishAll ctx (members.map Member.bare) t.world =
      ((finishAll ctx members t).1.map Member.bare, (finishAll ctx members t).2.world) := by
  induction members generalizing t with
  | nil => rfl
  | cons m rest ih =>
      have others := ih (Participant.finish ctx m.state t).2
      simp only [Participant.finish, Tape.note] at others
      simp [finishAll, Participant.finish, Member.bare, Tape.note, others]

theorem unlockAll_bare (ctx : Context) (members : List (Member (Recorded P))) (t : Tape W) :
    unlockAll ctx (members.map Member.bare) t.world =
      ((unlockAll ctx members t).1.map Member.bare, (unlockAll ctx members t).2.world) := by
  induction members generalizing t with
  | nil => rfl
  | cons m rest ih => simp [unlockAll, Participant.unlock, Member.bare, Tape.note, ih]

theorem releaseAll_bare (members : List (Member (Recorded P))) (t : Tape W) :
    releaseAll (members.map Member.bare) t.world = (releaseAll members t).world := by
  induction members generalizing t with
  | nil => rfl
  | cons m rest ih =>
      have others := ih (Participant.release m.state t).2
      simp only [Participant.release, Tape.note] at others
      simp [releaseAll, Participant.release, Member.bare, Tape.note, others]

end Members

/-! ### Endings -/

namespace Transaction

@[simp] theorem bare_context (t : Transaction (Recorded P)) : t.bare.context = t.context := rfl

@[simp] theorem bare_members (t : Transaction (Recorded P)) :
    t.bare.members = t.members.map Member.bare := rfl

@[simp] theorem bare_checkActive (t : Transaction (Recorded P)) (action : String) :
    t.bare.checkActive action = t.checkActive action := rfl

theorem bare_advance (t : Transaction (Recorded P)) (next : Phase) :
    t.bare.advance next = (t.advance next).map Transaction.bare := by
  by_cases legal : t.phase.canAdvance next <;> simp [advance, bare, legal, Except.map]

variable [Participant P W]

theorem bare_finishAndRelease (t : Transaction (Recorded P)) (locked : Nat) (outcome : Outcome)
    (w : Tape W) :
    t.bare.finishAndRelease locked outcome w.world =
      bareResult (t.finishAndRelease locked outcome w) := by
  simp only [finishAndRelease, bare_advance]
  cases t.advance .finishing with
  | error e => rfl
  | ok t =>
      simp only [Except.map, bare_context, bare_members, finishAll_bare]
      rcases finishAll t.context t.members w with ⟨members, w⟩
      simp only [← List.map_take, ← List.map_drop]
      rw [unlockAll_bare]
      rcases unlockAll t.context (members.take locked) w with ⟨unlocked, w⟩
      simp only [← List.map_append, releaseAll_bare]
      have emptied : ({ t.bare with members := [] } : Transaction P) =
          ({ t with members := [] } : Transaction (Recorded P)).bare := rfl
      rw [emptied, bare_advance]
      cases ({ t with members := [] } : Transaction (Recorded P)).advance .released <;> rfl

theorem bare_undoAndRelease (t : Transaction (Recorded P)) (locked : Nat) (reason : AbortReason)
    (w : Tape W) :
    t.bare.undoAndRelease locked reason w.world =
      bareResult (t.undoAndRelease locked reason w) := by
  simp only [undoAndRelease, bare_advance]
  cases t.advance .undoing with
  | error e => rfl
  | ok t =>
      simp only [Except.map, bare_context, bare_members, undoAll_bare]
      exact bare_finishAndRelease { t with members := (undoAll t.context t.members w).2.1 } _ _ _

theorem bare_applyAndRelease (t : Transaction (Recorded P)) (locked : Nat) (w : Tape W) :
    t.bare.applyAndRelease locked w.world = bareResult (t.applyAndRelease locked w) := by
  simp only [applyAndRelease, bare_advance]
  cases t.advance .applying with
  | error e => rfl
  | ok t =>
      simp only [Except.map, bare_context, bare_members, applyAll_bare]
      exact bare_finishAndRelease { t with members := (applyAll t.context t.members w).2.1 } _ _ _

theorem bare_validateAndRelease (t : Transaction (Recorded P)) (locked : Nat) (w : Tape W) :
    t.bare.validateAndRelease locked w.world = bareResult (t.validateAndRelease locked w) := by
  simp only [validateAndRelease, bare_advance]
  cases t.advance .locked with
  | error e => rfl
  | ok t =>
      simp only [Except.map, bare_advance]
      cases t.advance .validating with
      | error e => rfl
      | ok t =>
          simp only [bare_context, bare_members, validateAll_bare]
          rcases validateAll t.context .final t.members w with ⟨valid, w⟩
          cases valid with
          | false => exact bare_undoAndRelease t locked .validationFailed w
          | true => exact bare_applyAndRelease t locked w

theorem bare_commit (t : Transaction (Recorded P)) (w : Tape W) :
    t.bare.commit w.world = bareResult (t.commit w) := by
  simp only [commit, bare_checkActive]
  cases t.checkActive "commit" with
  | error e => rfl
  | ok _ =>
      simp only [bare_context, bare_members, lockAll_bare]
      rcases lockAll t.context t.members w with ⟨members, locked, refusal, w⟩
      cases refusal with
      | none => exact bare_validateAndRelease { t with members } locked w
      | some e => exact bare_undoAndRelease { t with members } locked (lockReason e) w

theorem bare_abort (t : Transaction (Recorded P)) (w : Tape W) :
    t.bare.abort w.world = bareResult (t.abort w) := by
  simp only [abort, bare_checkActive]
  cases t.checkActive "abort" with
  | error e => rfl
  | ok _ => exact bare_undoAndRelease t 0 .requested w

theorem bare_validateEarly (t : Transaction (Recorded P)) (w : Tape W) :
    t.bare.validateEarly w.world = bareResult (t.validateEarly w) := by
  simp only [validateEarly, bare_checkActive]
  cases t.checkActive "validate" with
  | error e => rfl
  | ok _ =>
      simp only [bare_context, bare_members, validateAll_bare]
      rcases validateAll t.context .early t.members w with ⟨valid, w⟩
      cases valid with
      | true => rfl
      | false =>
          simp only [bare_undoAndRelease, bareResult]
          rcases t.undoAndRelease 0 .validationFailed w with ⟨result, t, w⟩
          cases result <;> rfl

theorem bare_drop (t : Transaction (Recorded P)) (w : Tape W) :
    t.bare.drop w.world = ((t.drop w).1.bare, (t.drop w).2.world) := by
  simp only [drop, show t.bare.isActive = t.isActive from rfl]
  cases t.isActive with
  | false => rfl
  | true =>
      simp only [if_true, bare_undoAndRelease]
      rfl

/-! ### Participants -/

theorem bare_insertMember (m : Member (Recorded P)) (members : List (Member (Recorded P))) :
    insertMember m.bare (members.map Member.bare) = (insertMember m members).map Member.bare := by
  induction members with
  | nil => rfl
  | cons other rest ih =>
      simp only [List.map_cons, insertMember, show m.bare.domain = m.domain from rfl,
        show other.bare.domain = other.domain from rfl]
      cases m.domain.order other.domain with
      | lt => rfl
      | eq => rfl
      | gt => simp only [ih, List.map_cons]

theorem bare_insert (t : Transaction (Recorded P)) (m : Member (Recorded P)) :
    t.bare.insert m.bare = (t.insert m).bare := by
  have domains : ∀ members : List (Member (Recorded P)),
      (members.map Member.bare).map (·.domain) = members.map (·.domain) :=
    fun members => by simp [Member.bare]
  simp only [insert, bare, bare_insertMember, domains]

theorem bare_findFacet (facet : Facet P M) (members : List (Member (Recorded P))) :
    findFacet facet (members.map Member.bare) =
      (findFacet facet.recorded members).map fun found =>
        (found.1.2, fun state => (found.2 (found.1.1, state)).map Member.bare) := by
  induction members with
  | nil => rfl
  | cons m rest ih =>
      have here : facet.recorded.view m.state =
          (facet.view m.bare.state).map fun state => (m.state.domain, state) := rfl
      simp only [List.map_cons, findFacet, here, ih]
      cases facet.view m.bare.state with
      | some state => rfl
      | none =>
          simp only [Option.map_none]
          cases findFacet facet.recorded rest <;> rfl

theorem bare_module? (facet : Facet P M) (t : Transaction (Recorded P)) :
    t.bare.module? facet = (t.module? facet.recorded).map Prod.snd := by
  simp only [module?, bare_members, bare_findFacet]
  cases findFacet facet.recorded t.members <;> rfl

theorem bare_ensure (facet : Facet P M) (t : Transaction (Recorded P)) :
    t.bare.ensure facet = (t.ensure facet.recorded).map Transaction.bare := by
  have taken : t.bare.hasDomain facet.domain = t.hasDomain facet.domain := by
    simp [hasDomain, Member.bare, Function.comp_def]
  simp only [ensure, bare_module?, taken, show facet.recorded.domain = facet.domain from rfl]
  cases t.module? facet.recorded with
  | some state => rfl
  | none =>
      simp only [Option.map_none]
      cases t.hasDomain facet.domain with
      | true => rfl
      | false =>
          exact congrArg Except.ok (bare_insert t
            { domain := facet.domain, state := facet.recorded.wrap facet.recorded.fresh })

omit [Participant P W] in
theorem bare_withModule (facet : Facet P M) (body : Context → M → W → Except Error α × M × W)
    (t : Transaction (Recorded P)) (w : Tape W) :
    withModule facet body t.bare w.world =
      bareResult (withModule facet.recorded (recordedBody body) t w) := by
  simp only [withModule, bare_checkActive]
  cases t.checkActive "use a module" with
  | error e => rfl
  | ok _ =>
      simp only [bare_ensure]
      cases t.ensure facet.recorded with
      | error e => rfl
      | ok t =>
          simp only [Except.map, bare_members, bare_findFacet]
          cases findFacet facet.recorded t.members <;> rfl

theorem bare_register (t : Transaction (Recorded P)) (p : P) :
    t.bare.register p =
      ((t.register (⟨Participant.domain p, p⟩ : Recorded P)).1,
        (t.register (⟨Participant.domain p, p⟩ : Recorded P)).2.bare) := by
  simp only [register, bare_checkActive]
  cases t.checkActive "register a module" with
  | error e => rfl
  | ok _ =>
      exact congrArg (Prod.mk _) (bare_insert t
        { domain := Participant.domain p, state := ⟨Participant.domain p, p⟩ })

end Transaction

/-! ### Uses -/

variable [Participant P W]

theorem Use.perform_recorded (use : Use P W) (t : Transaction (Recorded P)) (w : Tape W) :
    use.perform t.bare w.world = bareResult (use.recorded.perform t w) := by
  cases use with
  | register p => simp only [perform, Transaction.bare_register]; rfl
  | withModule facet body => simp only [perform, Transaction.bare_withModule]; rfl
  | validateEarly => simp only [perform, Transaction.bare_validateEarly]; rfl
  | commit => simp only [perform, Transaction.bare_commit]; rfl
  | abort => simp only [perform, Transaction.bare_abort]; rfl
  | drop => simp only [perform, Transaction.bare_drop]; rfl

/-- **Recording changes nothing.** -/
theorem Use.performAll_recorded (uses : List (Use P W)) (t : Transaction (Recorded P))
    (w : Tape W) :
    performAll uses t.bare w.world = bareResult (performAll (uses.map Use.recorded) t w) := by
  induction uses generalizing t w with
  | nil => rfl
  | cons use rest ih =>
      simp only [List.map_cons, performAll, perform_recorded, bareResult]
      have others := ih (use.recorded.perform t w).2.1 (use.recorded.perform t w).2.2
      simp only [others, bareResult]

/-! ### Uses at intervals

Between two uses anything may happen to the world. -/

/-- Make calls with recording, each in a world of its own: what they answer, and what is left of the
transaction and recorded of its participants. -/
def Use.recordIn : List (Use P W × W) → Transaction (Recorded P) → Trace →
    List Reply × Transaction (Recorded P) × Trace
  | [], t, trace => ([], t, trace)
  | (use, world) :: rest, t, trace =>
      let now := use.recorded.perform t { world, trace }
      let later := recordIn rest now.2.1 now.2.2.trace
      (now.1 :: later.1, later.2)

theorem Use.recordIn_snoc (calls : List (Use P W × W)) (use : Use P W) (world : W)
    (t : Transaction (Recorded P)) (trace : Trace) :
    let before := recordIn calls t trace
    let now := use.recorded.perform before.2.1 { world, trace := before.2.2 }
    recordIn (calls ++ [(use, world)]) t trace = (before.1 ++ [now.1], now.2.1, now.2.2.trace) := by
  induction calls generalizing t trace with
  | nil => rfl
  | cons call rest ih => simp only [List.cons_append, recordIn, ih]

/-- Calls made one after another, each with the world it is made in. -/
def Use.placed : List (Use P W) → Transaction (Recorded P) → Tape W → List (Use P W × W)
  | [], _, _ => []
  | use :: rest, t, w =>
      let now := use.recorded.perform t w
      (use, w.world) :: placed rest now.2.1 now.2.2

theorem Use.placed_uses (uses : List (Use P W)) (t : Transaction (Recorded P)) (w : Tape W) :
    (placed uses t w).map Prod.fst = uses := by
  induction uses generalizing t w with
  | nil => rfl
  | cons use rest ih => simp only [placed, List.map_cons, ih]

/-- Making calls one after another is making each in the world the last one left. -/
theorem Use.recordIn_placed (uses : List (Use P W)) (t : Transaction (Recorded P)) (w : Tape W) :
    let run := performAll (uses.map Use.recorded) t w
    recordIn (placed uses t w) t w.trace = (run.1, run.2.1, run.2.2.trace) := by
  induction uses generalizing t w with
  | nil => rfl
  | cons use rest ih => simp only [placed, recordIn, List.map_cons, performAll, ih]

end Recording

end Transact
