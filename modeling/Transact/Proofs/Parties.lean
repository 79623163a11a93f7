/-
# Transact.Proofs.Parties -- any number of transactions with all their participants

A `Party` is a built-in participant, or a guest that an application brings, with a world of its own.
An `Assembly` is the shared world with all transactions on it; `Assembly.run` makes the calls of a
schedule in its order, each one step.

A transaction has one seat for each sort of built-in participant.  Work goes to the one in the seat
and leaves the other seats as they are (`withModule_seat`); a guest takes no seat (`register_seats`).
-/
import Transact.Proofs.FileCalls
import Transact.Proofs.Lifecycle

namespace Transact

set_option autoImplicit false

/-! ## Parties -/

/-- A built-in participant, or one that an application brings. -/
inductive Party (G : Type) where
  | builtin (b : Builtin)
  | guest (g : G)

namespace Party

variable {G V M : Type}

/-- Built-in participants act on the world, guests on their own. -/
instance [Participant G V] : Participant (Party G) (World × V) where
  domain
    | .builtin b => Participant.domain b
    | .guest g => Participant.domain g
  lock
    | ctx, .builtin b, (w, v) => let r := Participant.lock ctx b w; (r.1, .builtin r.2.1, r.2.2, v)
    | ctx, .guest g, (w, v) => let r := Participant.lock ctx g v; (r.1, .guest r.2.1, w, r.2.2)
  unlock
    | ctx, .builtin b, (w, v) => let r := Participant.unlock ctx b w; (.builtin r.1, r.2, v)
    | ctx, .guest g, (w, v) => let r := Participant.unlock ctx g v; (.guest r.1, w, r.2)
  validate
    | ctx, m, .builtin b, (w, v) => let r := Participant.validate ctx m b w; (r.1, r.2, v)
    | ctx, m, .guest g, (w, v) => let r := Participant.validate ctx m g v; (r.1, w, r.2)
  apply
    | ctx, .builtin b, (w, v) => let r := Participant.apply ctx b w; (r.1, .builtin r.2.1, r.2.2, v)
    | ctx, .guest g, (w, v) => let r := Participant.apply ctx g v; (r.1, .guest r.2.1, w, r.2.2)
  undo
    | ctx, .builtin b, (w, v) => let r := Participant.undo ctx b w; (r.1, .builtin r.2.1, r.2.2, v)
    | ctx, .guest g, (w, v) => let r := Participant.undo ctx g v; (r.1, .guest r.2.1, w, r.2.2)
  finish
    | ctx, .builtin b, (w, v) => let r := Participant.finish ctx b w; (.builtin r.1, r.2, v)
    | ctx, .guest g, (w, v) => let r := Participant.finish ctx g v; (.guest r.1, w, r.2)
  release
    | .builtin b, (w, v) => let r := Participant.release b w; (.builtin r.1, r.2, v)
    | .guest g, (w, v) => let r := Participant.release g v; (.guest r.1, w, r.2)
  journal
    | .builtin b, (w, _) => Participant.journal b w
    | .guest g, (_, v) => Participant.journal g v

/-- A sort of built-in participant among parties. -/
def facet (of_ : Facet Builtin M) : Facet (Party G) M where
  domain := of_.domain
  fresh := of_.fresh
  wrap m := .builtin (of_.wrap m)
  view
    | .builtin b => of_.view b
    | .guest _ => none

def files : Facet (Party G) Files := facet Builtin.filesFacet

def pipes : Facet (Party G) Pipes := facet Builtin.pipesFacet

def threads : Facet (Party G) Threads := facet Builtin.threadsFacet

def yields : Facet (Party G) Yields := facet Builtin.yieldsFacet

end Party

/-! ## Calls -/

/-- Work on files, with what creates, adopts and removes. -/
inductive Filing where
  | plain (job : FileWork)
  | adopt (descriptor : Nat) (path : String)
  | remove (path : String)

def Filing.perform (s : Files) (w : World) : Filing → Except Error FileValue × Files × World
  | .plain job => job.perform s w
  | .adopt descriptor path => let r := s.adopt descriptor path w; (r.1.map .handle, r.2)
  | .remove path => let r := s.remove path w; (r.1.map fun _ => .done, r.2)

/-- Work through the built-in participants. -/
inductive Work where
  | files (job : Filing)
  | readPipe (pipe max : Nat)
  | writePipe (pipe : Nat) (bytes : Bytes)
  | spawn (name : Option String) (task : ThreadTask)
  | yieldOnce

/-- A call on a transaction. -/
inductive PartyCall (G : Type) where
  | work (job : Work)
  | register (g : G)
  | validate
  | commit
  | abort
  | drop

section Calls

variable {G V M α : Type}

/-- Work of a built-in participant next to the world of the guests. -/
def onWorld (f : M → World → Except Error α × M × World) (_ : Context) (s : M) (w : World × V) :
    Except Error α × M × World × V :=
  let r := f s w.1
  (r.1, r.2.1, r.2.2, w.2)

/-- Do the work.  `chunk pipe n` is the size of pull number `n` from a pipe. -/
def Work.perform (chunk : Nat → Nat → Nat) (t : Transaction (Party G)) (w : World × V) :
    Work → Transaction (Party G) × World × V
  | .files job =>
      (Transaction.withModule Party.files (onWorld fun s w => job.perform s w) t w).2
  | .readPipe pipe max =>
      (Transaction.withModule Party.pipes (onWorld (Pipes.read (chunk pipe) pipe max)) t w).2
  | .writePipe pipe bytes =>
      (Transaction.withModule Party.pipes (onWorld (Pipes.write pipe bytes)) t w).2
  | .spawn name task =>
      (Transaction.withModule Party.threads
        (onWorld fun s w => let r := s.spawn name task w; (.ok r.1, r.2)) t w).2
  | .yieldOnce =>
      (Transaction.withModule Party.yields (onWorld fun s w => (.ok (), s.yieldOnce, w)) t w).2

variable [Participant G V]

/-- Make a call. -/
def PartyCall.perform (chunk : Nat → Nat → Nat) (t : Transaction (Party G)) (w : World × V) :
    PartyCall G → Transaction (Party G) × World × V
  | .work job => job.perform chunk t w
  | .register g => ((t.register (Party.guest g)).2, w)
  | .validate => (t.validateEarly w).2
  | .commit => (t.commit w).2
  | .abort => (t.abort w).2
  | .drop => t.drop w

end Calls

/-! ## Assemblies -/

/-- Transactions at work on one world, which their guests share another one besides. -/
structure Assembly (G V : Type) where
  world : World × V
  transactions : TxId → Transaction (Party G)

namespace Assembly

variable {G V : Type}

def start (config : TxId → Config) (w : World × V) : Assembly G V where
  world := w
  transactions who := { id := who, config := config who }

variable [Participant G V]

/-- Let one transaction make a call. -/
def step (chunk : Nat → Nat → Nat) (s : Assembly G V) (entry : TxId × PartyCall G) :
    Assembly G V :=
  let r := entry.2.perform chunk (s.transactions entry.1) s.world
  { world := r.2
    transactions := fun other => if other = entry.1 then r.1 else s.transactions other }

@[simp] theorem step_self (chunk : Nat → Nat → Nat) (s : Assembly G V) (who : TxId)
    (call : PartyCall G) :
    (s.step chunk (who, call)).transactions who =
      (call.perform chunk (s.transactions who) s.world).1 :=
  if_pos rfl

theorem step_other (chunk : Nat → Nat → Nat) (s : Assembly G V) {entry : TxId × PartyCall G}
    {other : TxId} (others : other ≠ entry.1) :
    (s.step chunk entry).transactions other = s.transactions other :=
  if_neg others

/-- Make the calls of a schedule in its order. -/
def run (chunk : Nat → Nat → Nat) (s : Assembly G V) (schedule : List (TxId × PartyCall G)) :
    Assembly G V :=
  schedule.foldl (step chunk) s

theorem run_append (chunk : Nat → Nat → Nat) (s : Assembly G V)
    (first second : List (TxId × PartyCall G)) :
    s.run chunk (first ++ second) = (s.run chunk first).run chunk second :=
  List.foldl_append

theorem run_snoc (chunk : Nat → Nat → Nat) (s : Assembly G V)
    (schedule : List (TxId × PartyCall G)) (entry : TxId × PartyCall G) :
    s.run chunk (schedule ++ [entry]) = (s.run chunk schedule).step chunk entry := by
  rw [run_append]
  rfl

end Assembly

/-! ## Seats -/

/-- Participants of a facet are told from the others. -/
structure Facet.Lawful {P M : Type} (facet : Facet P M) : Prop where
  view_wrap : ∀ m, facet.view (facet.wrap m) = some m
  wrap_of_view : ∀ p m, facet.view p = some m → p = facet.wrap m

/-- The participants that `view` finds, in their order. -/
def seatsOf {P M : Type} (view : P → Option M) (members : List (Member P)) : List M :=
  members.filterMap fun m => view m.state

namespace Transaction

variable {P W M N α : Type}

/-- At most one participant is of the facet's sort. -/
def Single (facet : Facet P M) (t : Transaction P) : Prop :=
  (seatsOf facet.view t.members).length ≤ 1

/-- The participant of the facet's sort; a fresh one if there is none yet. -/
def seat (facet : Facet P M) (t : Transaction P) : M :=
  (seatsOf facet.view t.members).headD facet.fresh

theorem Single.cases {facet : Facet P M} {t : Transaction P} (single : t.Single facet) :
    seatsOf facet.view t.members = [] ∧ t.seat facet = facet.fresh ∨
      seatsOf facet.view t.members = [t.seat facet] := by
  unfold Single at single
  unfold seat
  cases seats : seatsOf facet.view t.members with
  | nil => exact Or.inl ⟨rfl, rfl⟩
  | cons s rest =>
      rw [seats, List.length_cons] at single
      have nobody : rest = [] := List.length_eq_zero_iff.1 (by omega)
      exact Or.inr (by rw [nobody]; rfl)

theorem seatsOf_append (view : P → Option M) (first second : List (Member P)) :
    seatsOf view (first ++ second) = seatsOf view first ++ seatsOf view second :=
  List.filterMap_append

theorem seatsOf_cons_none {view : P → Option M} {m : Member P} (unseen : view m.state = none)
    (rest : List (Member P)) : seatsOf view (m :: rest) = seatsOf view rest :=
  List.filterMap_cons_none unseen

theorem seatsOf_cons_some {view : P → Option M} {m : Member P} {s : M}
    (seen : view m.state = some s) (rest : List (Member P)) :
    seatsOf view (m :: rest) = s :: seatsOf view rest :=
  List.filterMap_cons_some seen

/-- A participant that a sort does not know leaves its seats as they are. -/
theorem seatsOf_insert (view : P → Option M) {m : Member P} (unseen : view m.state = none)
    (members : List (Member P)) :
    seatsOf view (insertMember m members) = seatsOf view members := by
  rcases insertMember_cases m members with ⟨same, -⟩ | ⟨before, after, split, inserted⟩
  · rw [same]
  · rw [inserted, split, seatsOf_append, seatsOf_append, seatsOf_cons_none unseen]

/-- Registering takes no seat of another sort. -/
theorem register_seats [Participant P W] {t : Transaction P} {p : P} :
    (t.register p).2 = t ∨ ∃ members roster, (t.register p).2 = { t with members, roster } ∧
      ∀ {N : Type} (other : Facet P N), other.view p = none →
        seatsOf other.view members = seatsOf other.view t.members := by
  unfold register
  by_cases active : t.phase = .active
  · rw [checkActive, if_pos active]
    exact Or.inr ⟨_, _, rfl, fun other unseen => seatsOf_insert other.view unseen t.members⟩
  · rw [checkActive, if_neg active]
    exact Or.inl rfl

/-! ### Work through a seat -/

/-- Where there is one participant of a sort, it is found and can be put back changed. -/
theorem findFacet_seat {facet : Facet P M} (lawful : facet.Lawful) {members : List (Member P)}
    {s : M} (seats : seatsOf facet.view members = [s]) :
    ∃ put, findFacet facet members = some (s, put) ∧
      (∀ s', seatsOf facet.view (put s') = [s']) ∧
      ∀ {N : Type} (other : Facet P N), (∀ m, other.view (facet.wrap m) = none) →
        ∀ s', seatsOf other.view (put s') = seatsOf other.view members := by
  induction members with
  | nil => cases seats
  | cons m rest ih =>
      cases seen : facet.view m.state with
      | some s₀ =>
          rw [seatsOf_cons_some seen] at seats
          obtain ⟨rfl, nobody⟩ := List.cons.inj seats
          refine ⟨fun s' => { m with state := facet.wrap s' } :: rest, ?_, fun s' => ?_,
            fun other foreign s' => ?_⟩
          · simp only [findFacet, seen]
          · rw [seatsOf_cons_some (lawful.view_wrap s'), nobody]
          · have unseen := foreign s₀
            rw [← lawful.wrap_of_view _ _ seen] at unseen
            rw [seatsOf_cons_none (foreign s'), seatsOf_cons_none unseen]
      | none =>
          rw [seatsOf_cons_none seen] at seats
          obtain ⟨put, found, own, others⟩ := ih seats
          refine ⟨fun s' => m :: put s', ?_, fun s' => ?_, fun other foreign s' => ?_⟩
          · simp only [findFacet, seen, found, Option.map_some]
          · rw [seatsOf_cons_none seen, own]
          · have same := others other foreign s'
            unfold seatsOf at same ⊢
            rw [List.filterMap_cons, List.filterMap_cons, same]

theorem findFacet_none {facet : Facet P M} {members : List (Member P)}
    (nobody : seatsOf facet.view members = []) : findFacet facet members = none := by
  induction members with
  | nil => rfl
  | cons m rest ih =>
      cases seen : facet.view m.state with
      | some s =>
          rw [seatsOf_cons_some seen] at nobody
          cases nobody
      | none =>
          rw [seatsOf_cons_none seen] at nobody
          simp only [findFacet, seen, ih nobody, Option.map_none]

/-- The seat is taken by a fresh participant if it was empty, unless its domain is taken. -/
theorem ensure_seat {facet : Facet P M} (lawful : facet.Lawful) {t : Transaction P}
    (single : t.Single facet) :
    (∃ e, t.ensure facet = .error e) ∨ ∃ members roster,
      t.ensure facet = .ok { t with members, roster } ∧
        seatsOf facet.view members = [t.seat facet] ∧
        ∀ {N : Type} (other : Facet P N), (∀ m, other.view (facet.wrap m) = none) →
          seatsOf other.view members = seatsOf other.view t.members := by
  rcases single.cases with ⟨nobody, fresh⟩ | seats
  · have module : t.module? facet = none := by rw [module?, findFacet_none nobody, Option.map_none]
    cases taken : t.hasDomain facet.domain with
    | true => exact Or.inl ⟨_, by rw [ensure, module, taken]; rfl⟩
    | false =>
        have free : facet.domain ∉ t.members.map (·.domain) := by
          intro member
          obtain ⟨other, there, same⟩ := List.mem_map.1 member
          simp only [hasDomain, List.any_eq_false] at taken
          exact taken other there (by simpa using same)
        let new : Member P := { domain := facet.domain, state := facet.wrap facet.fresh }
        refine Or.inr ⟨insertMember new t.members,
          (insertMember new t.members).map (·.domain), ?_, ?_, fun other foreign => ?_⟩
        · rw [ensure, module, taken]
          rfl
        · rcases insertMember_cases new t.members with ⟨-, clash⟩ | ⟨before, after, split, inserted⟩
          · exact absurd clash free
          · rw [split, seatsOf_append] at nobody
            obtain ⟨left, right⟩ := List.append_eq_nil_iff.1 nobody
            rw [inserted, seatsOf_append, seatsOf_cons_some (lawful.view_wrap facet.fresh), left,
              right, fresh, List.nil_append]
        · exact seatsOf_insert other.view (foreign facet.fresh) t.members
  · obtain ⟨put, found, -⟩ := findFacet_seat lawful seats
    exact Or.inr ⟨t.members, t.roster, by rw [ensure, module?, found]; rfl, seats, fun _ _ => rfl⟩

/-- **Work goes to the one in the seat**, who is seated at the first piece of work, and leaves the
other seats as they are.  A refused call changes nothing. -/
theorem withModule_seat {facet : Facet P M} (lawful : facet.Lawful) {t : Transaction P}
    (single : t.Single facet) (f : Context → M → W → Except Error α × M × W) (w : W) :
    (∃ e, withModule facet f t w = (.error e, t, w)) ∨ t.phase = .active ∧ ∃ members roster,
      withModule facet f t w =
          ((f t.context (t.seat facet) w).1, { t with members, roster },
            (f t.context (t.seat facet) w).2.2) ∧
        seatsOf facet.view members = [(f t.context (t.seat facet) w).2.1] ∧
        ∀ {N : Type} (other : Facet P N), (∀ m, other.view (facet.wrap m) = none) →
          seatsOf other.view members = seatsOf other.view t.members := by
  by_cases active : t.phase = .active
  · rcases ensure_seat lawful single with ⟨e, refused⟩ | ⟨members, roster, ensured, seats, others⟩
    · exact Or.inl ⟨e, by simp only [withModule, checkActive_active active, refused]⟩
    · obtain ⟨put, found, own, kept⟩ := findFacet_seat lawful seats
      refine Or.inr ⟨active, put (f t.context (t.seat facet) w).2.1, roster, ?_, own _,
        fun other foreign => ?_⟩
      · simp only [withModule, checkActive_active active, ensured, found, context]
      · rw [kept other foreign, others other foreign]
  · exact Or.inl ⟨_, by simp only [withModule, checkActive, if_neg active]; rfl⟩

end Transaction

namespace Party

variable {G M : Type}

theorem lawful_facet {of_ : Facet Builtin M} (lawful : of_.Lawful) :
    (facet of_ : Facet (Party G) M).Lawful where
  view_wrap := lawful.view_wrap
  wrap_of_view
    | .builtin b, m, seen => congrArg Party.builtin (lawful.wrap_of_view b m seen)
    | .guest _, _, seen => by cases seen

theorem lawful_files : (files : Facet (Party G) Files).Lawful :=
  lawful_facet ⟨fun _ => rfl, fun p m seen => by cases p <;> cases seen; rfl⟩

theorem lawful_pipes : (pipes : Facet (Party G) Pipes).Lawful :=
  lawful_facet ⟨fun _ => rfl, fun p m seen => by cases p <;> cases seen; rfl⟩

theorem lawful_threads : (threads : Facet (Party G) Threads).Lawful :=
  lawful_facet ⟨fun _ => rfl, fun p m seen => by cases p <;> cases seen; rfl⟩

theorem lawful_yields : (yields : Facet (Party G) Yields).Lawful :=
  lawful_facet ⟨fun _ => rfl, fun p m seen => by cases p <;> cases seen; rfl⟩

end Party

end Transact
