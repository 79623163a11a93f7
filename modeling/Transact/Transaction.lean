/-
# Transact.Transaction -- one unit of work and its two-phase end

While a transaction is active its body registers participants and works through them.  `commit`
locks all of them in the order of their domains, validates them, and applies them if all are valid;
`abort` undoes them from the last domain to the first.  Either way every participant is finished,
unlocked if its lock had succeeded, and released, and the transaction keeps its outcome and the list
of domains that took part.

The calls on the list of participants come first; each answers what the coordinator has to know.
-/
import Transact.Outcome
import Transact.Participant
import Transact.Phase

namespace Transact

set_option autoImplicit false

/-- A participant under the domain it was registered for. -/
structure Member (P : Type) where
  domain : Domain
  state : P

/-! ## Calls on all participants -/

/-- What came of locking participants one after another. -/
structure Locking (P W : Type) where
  members : List (Member P)
  /-- How many, from the first on, were locked. -/
  locked : Nat
  refusal : Option Error
  world : W

section Calls

variable {P W : Type} [Participant P W]

/-- Lock from the first on; the first refusal ends it. -/
def lockAll (ctx : Context) : List (Member P) → W → Locking P W
  | [], w => { members := [], locked := 0, refusal := none, world := w }
  | m :: rest, w =>
      match Participant.lock ctx m.state w with
      | (.ok (), s, w) =>
          let r := lockAll ctx rest w
          { r with members := { m with state := s } :: r.members, locked := r.locked + 1 }
      | (.error e, s, w) =>
          { members := { m with state := s } :: rest, locked := 0, refusal := some e, world := w }

/-- Validate from the first on; the first that is not valid ends it. -/
def validateAll (ctx : Context) (v : Validation) : List (Member P) → W → Bool × W
  | [], w => (true, w)
  | m :: rest, w =>
      match Participant.validate ctx v m.state w with
      | (true, w) => validateAll ctx v rest w
      | (false, w) => (false, w)

/-- Apply all from the first on.  The answer is the number of the first failure. -/
def applyAll (ctx : Context) : List (Member P) → W → Option Int × List (Member P) × W
  | [], w => (none, [], w)
  | m :: rest, w =>
      match Participant.apply ctx m.state w with
      | (.ok (), s, w) =>
          let (fault, members, w) := applyAll ctx rest w
          (fault, { m with state := s } :: members, w)
      | (.error e, s, w) =>
          let (_, members, w) := applyAll ctx rest w
          (some e.code, { m with state := s } :: members, w)

/-- Undo all from the last on.  The answer is the number of the first failure. -/
def undoAll (ctx : Context) : List (Member P) → W → Option Int × List (Member P) × W
  | [], w => (none, [], w)
  | m :: rest, w =>
      let (fault, members, w) := undoAll ctx rest w
      match Participant.undo ctx m.state w with
      | (.ok (), s, w) => (fault, { m with state := s } :: members, w)
      | (.error e, s, w) => (some (fault.getD e.code), { m with state := s } :: members, w)

/-- Finish all from the first on. -/
def finishAll (ctx : Context) : List (Member P) → W → List (Member P) × W
  | [], w => ([], w)
  | m :: rest, w =>
      let (s, w) := Participant.finish ctx m.state w
      let (members, w) := finishAll ctx rest w
      ({ m with state := s } :: members, w)

/-- Unlock all from the last on. -/
def unlockAll (ctx : Context) : List (Member P) → W → List (Member P) × W
  | [], w => ([], w)
  | m :: rest, w =>
      let (members, w) := unlockAll ctx rest w
      let (s, w) := Participant.unlock ctx m.state w
      ({ m with state := s } :: members, w)

/-- Release all from the first on. -/
def releaseAll : List (Member P) → W → W
  | [], w => w
  | m :: rest, w => releaseAll rest (Participant.release m.state w).2

/-- The lines of all, from the first on. -/
def journalAll (members : List (Member P)) (w : W) : List String :=
  members.flatMap fun m => Participant.journal m.state w

end Calls

/-! ## Transactions -/

structure Transaction (P : Type) where
  id : TxId
  config : Config
  /-- Whether a manager counts and announces it. -/
  reports : Bool := true
  phase : Phase := .active
  /-- The phases it entered since it was active, oldest first. -/
  visited : List Phase := []
  /-- In ascending order of domain, one per domain. -/
  members : List (Member P) := []
  /-- The domains that take part, or took part. -/
  roster : List Domain := []
  outcome : Option Outcome := none

namespace Transaction

variable {P M W α : Type}

def isActive (t : Transaction P) : Bool := t.phase == .active

def context (t : Transaction P) : Context := { tx := t.id, config := t.config }

/-! ### Errors -/

def notActive (action : String) (phase : Phase) : Error :=
  .of .invalidOperation ("Cannot " ++ action ++ " in phase " ++ phase.render)

def illegalStep (source target : Phase) : Error :=
  .of .internalError
    ("Illegal transition from " ++ source.render ++ " to " ++ target.render)

def domainTaken (domain : Domain) : Error :=
  .of .invalidOperation
    ("Module kind " ++ domain.render ++ " is already taken by another module type")

def disappeared : Error := .of .internalError "Registered module disappeared"

def earlyConflict (id : TxId) (outcome : Outcome) : Error :=
  .of .validationConflict ("Transaction " ++ id.render ++ " " ++ outcome.render)

/-- Only an active transaction can do anything. -/
def checkActive (t : Transaction P) (action : String) : Except Error Unit :=
  if t.phase = .active then .ok () else .error (notActive action t.phase)

/-- Go on to another phase. -/
def advance (t : Transaction P) (next : Phase) : Except Error (Transaction P) :=
  if t.phase.canAdvance next then .ok { t with phase := next, visited := t.visited ++ [next] }
  else .error (illegalStep t.phase next)

/-! ### Participants -/

/-- Put a participant in its place, unless its domain is taken. -/
def insertMember (m : Member P) : List (Member P) → List (Member P)
  | [] => [m]
  | other :: rest =>
      match m.domain.order other.domain with
      | .lt => m :: other :: rest
      | .eq => other :: rest
      | .gt => other :: insertMember m rest

def hasDomain (t : Transaction P) (domain : Domain) : Bool :=
  t.members.any fun m => m.domain == domain

def insert (t : Transaction P) (m : Member P) : Transaction P :=
  let members := insertMember m t.members
  { t with members, roster := members.map (·.domain) }

/-- Add a participant.  Where its domain has one already, that one is kept and this one dropped. -/
def register [Participant P W] (t : Transaction P) (p : P) :
    Except Error Domain × Transaction P :=
  match t.checkActive "register a module" with
  | .error e => (.error e, t)
  | .ok () =>
      let domain := Participant.domain p
      (.ok domain, t.insert { domain, state := p })

/-- The first participant of a sort, with the way to put it back changed. -/
def findFacet (facet : Facet P M) : List (Member P) → Option (M × (M → List (Member P)))
  | [] => none
  | m :: rest =>
      match facet.view m.state with
      | some state =>
          some (state, fun state => { m with state := facet.wrap state } :: rest)
      | none => (findFacet facet rest).map fun (state, put) => (state, fun s => m :: put s)

/-- The first participant of a sort. -/
def module? (t : Transaction P) (facet : Facet P M) : Option M :=
  (findFacet facet t.members).map Prod.fst

/-- Make sure that there is a participant of a sort. -/
def ensure (t : Transaction P) (facet : Facet P M) : Except Error (Transaction P) :=
  match t.module? facet with
  | some _ => .ok t
  | none =>
      if t.hasDomain facet.domain then .error (domainTaken facet.domain)
      else .ok (t.insert { domain := facet.domain, state := facet.wrap facet.fresh })

/-- Work through the participant of a sort, which is registered if there is none. -/
def withModule (facet : Facet P M)
    (f : Context → M → W → Except Error α × M × W) (t : Transaction P) (w : W) :
    Except Error α × Transaction P × W :=
  match t.checkActive "use a module" with
  | .error e => (.error e, t, w)
  | .ok () =>
      match t.ensure facet with
      | .error e => (.error e, t, w)
      | .ok t =>
          match findFacet facet t.members with
          | none => (.error disappeared, t, w)
          | some (state, put) =>
              let (result, state, w) := f t.context state w
              (result, { t with members := put state }, w)

/-! ### Ending -/

section Ending

variable [Participant P W]

def journal (t : Transaction P) (w : W) : List String := journalAll t.members w

/-- Finish all, unlock the first `locked`, release all. -/
def finishAndRelease (t : Transaction P) (locked : Nat) (outcome : Outcome) (w : W) :
    Except Error Outcome × Transaction P × W :=
  match t.advance .finishing with
  | .error e => (.error e, t, w)
  | .ok t =>
      let (members, w) := finishAll t.context t.members w
      let (unlocked, w) := unlockAll t.context (members.take locked) w
      let w := releaseAll (unlocked ++ members.drop locked) w
      match { t with members := [] }.advance .released with
      | .error e => (.error e, { t with members := [] }, w)
      | .ok t => (.ok outcome, { t with outcome := some outcome }, w)

/-- Undo all and end with `reason`, or with the number of the first undo that failed. -/
def undoAndRelease (t : Transaction P) (locked : Nat) (reason : AbortReason) (w : W) :
    Except Error Outcome × Transaction P × W :=
  match t.advance .undoing with
  | .error e => (.error e, t, w)
  | .ok t =>
      let (fault, members, w) := undoAll t.context t.members w
      let reason := match fault with
        | some code => .moduleError code
        | none => reason
      { t with members }.finishAndRelease locked (.aborted reason) w

/-- What a refused lock means: contention, or a participant's failure. -/
def lockReason (e : Error) : AbortReason :=
  if e.kind = .resourceBusy then .lockFailed else .moduleError e.code

/-- Perform all and end. -/
def applyAndRelease (t : Transaction P) (locked : Nat) (w : W) :
    Except Error Outcome × Transaction P × W :=
  match t.advance .applying with
  | .error e => (.error e, t, w)
  | .ok t =>
      let (fault, members, w) := applyAll t.context t.members w
      let outcome := match fault with
        | some code => .aborted (.moduleError code)
        | none => .committed
      { t with members }.finishAndRelease locked outcome w

/-- Validate under the locks, then apply or undo. -/
def validateAndRelease (t : Transaction P) (locked : Nat) (w : W) :
    Except Error Outcome × Transaction P × W :=
  match t.advance .locked with
  | .error e => (.error e, t, w)
  | .ok t =>
      match t.advance .validating with
      | .error e => (.error e, t, w)
      | .ok t =>
          match validateAll t.context .final t.members w with
          | (true, w) => t.applyAndRelease locked w
          | (false, w) => t.undoAndRelease locked .validationFailed w

/-- Commit.  Contention and failures show in the outcome; the call itself fails only on a
transaction that is not active. -/
def commit (t : Transaction P) (w : W) : Except Error Outcome × Transaction P × W :=
  match t.checkActive "commit" with
  | .error e => (.error e, t, w)
  | .ok () =>
      let r := lockAll t.context t.members w
      let t := { t with members := r.members }
      match r.refusal with
      | some e => t.undoAndRelease r.locked (lockReason e) r.world
      | none => t.validateAndRelease r.locked r.world

/-- Revert every effect and end. -/
def abort (t : Transaction P) (w : W) : Except Error Outcome × Transaction P × W :=
  match t.checkActive "abort" with
  | .error e => (.error e, t, w)
  | .ok () => t.undoAndRelease 0 .requested w

/-- Validate in the middle of the body.  A conflict aborts the transaction at once. -/
def validateEarly (t : Transaction P) (w : W) : Except Error Unit × Transaction P × W :=
  match t.checkActive "validate" with
  | .error e => (.error e, t, w)
  | .ok () =>
      match validateAll t.context .early t.members w with
      | (true, w) => (.ok (), t, w)
      | (false, w) =>
          match t.undoAndRelease 0 .validationFailed w with
          | (.error e, t, w) => (.error e, t, w)
          | (.ok outcome, t, w) => (.error (earlyConflict t.id outcome), t, w)

/-- Let go of a transaction: an active one aborts. -/
def drop (t : Transaction P) (w : W) : Transaction P × W :=
  if t.isActive then (t.undoAndRelease 0 .requested w).2 else (t, w)

end Ending

/-- The debugging form of a transaction. -/
def render (t : Transaction P) : String :=
  "Transaction \x7b id: TransactionId(" ++ t.id.render ++ "), phase: " ++ t.phase.term
    ++ ", participants: [" ++ String.intercalate ", " (t.roster.map Domain.term)
    ++ "], outcome: "
    ++ (match t.outcome with
      | some outcome => "Some(" ++ outcome.term ++ ")"
      | none => "None")
    ++ " \x7d"

end Transaction

end Transact
