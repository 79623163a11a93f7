/-
# Transact.Proofs.Lifecycle -- what happens to every participant

`Orderly` says in which order, how often and on whom a transaction has made its calls, and
`Use.Attended` that these are the participants its uses have asked for: none is lost on the way.  Both
hold after every sequence of uses, whatever the participants answer.

A transaction is either `Live`, with nothing done to its participants but early validations, or
`Over`, with one ending behind it.  Every use keeps that (`live_perform`, `over_perform`), and both
make it `Orderly` (`Live.orderly`, `Over.orderly`).
-/
import Mathlib.Data.List.Chain
import Transact.Proofs.Ending
import Transact.Proofs.Use

namespace Transact

set_option autoImplicit false

/-! ## The order of domains -/

namespace Domain

/-- `a` comes before `b`. -/
def Before (a b : Domain) : Prop := a.order b = .lt

theorem before_iff {a b : Domain} :
    a.Before b ↔ a.rank.1 < b.rank.1 ∨ a.rank.1 = b.rank.1 ∧ a.rank.2 < b.rank.2 := by
  simp only [Before, order, Ordering.then_eq_lt, Nat.compare_eq_lt, Nat.compare_eq_eq]

theorem rank_inj {a b : Domain} (same : a.rank = b.rank) : a = b := by
  cases a <;> cases b <;> simp_all [rank]

theorem eq_of_order {a b : Domain} (same : a.order b = .eq) : a = b := by
  simp only [order, Ordering.then_eq_eq, Nat.compare_eq_eq] at same
  exact rank_inj (Prod.ext same.1 same.2)

theorem before_of_order {a b : Domain} (later : a.order b = .gt) : b.Before a := by
  simp only [order, Ordering.then_eq_gt, Nat.compare_eq_gt, Nat.compare_eq_eq] at later
  rw [before_iff]
  omega

theorem Before.trans {a b c : Domain} (first : a.Before b) (second : b.Before c) : a.Before c := by
  rw [before_iff] at first second ⊢
  omega

theorem Before.ne {a b : Domain} (before : a.Before b) : a ≠ b := by
  rintro rfl
  rw [before_iff] at before
  omega

/-- Files come first. -/
theorem not_before_file (d : Domain) : ¬ d.Before .file := by
  rw [before_iff]
  simp [rank]

end Domain

/-- One domain after another, each once. -/
abbrev Ascending (ds : List Domain) : Prop := ds.Pairwise Domain.Before

/-! ## Participants of a transaction -/

namespace Transaction

variable {P M : Type}

/-- A participant is put in between, or its domain was taken. -/
theorem insertMember_cases (m : Member P) (members : List (Member P)) :
    insertMember m members = members ∧ m.domain ∈ members.map (·.domain) ∨
      ∃ before after, members = before ++ after ∧
        insertMember m members = before ++ m :: after := by
  induction members with
  | nil => exact Or.inr ⟨[], [], rfl, rfl⟩
  | cons other rest ih =>
      simp only [insertMember]
      cases place : m.domain.order other.domain with
      | lt => exact Or.inr ⟨[], other :: rest, rfl, rfl⟩
      | eq =>
          refine Or.inl ⟨rfl, ?_⟩
          rw [Domain.eq_of_order place]
          exact List.mem_cons_self
      | gt =>
          rcases ih with ⟨same, taken⟩ | ⟨before, after, split, inserted⟩
          · exact Or.inl ⟨congrArg (other :: ·) same, List.mem_cons_of_mem _ taken⟩
          · refine Or.inr ⟨other :: before, after, congrArg (other :: ·) split, ?_⟩
            exact congrArg (other :: ·) inserted

theorem mem_insertMember {m other : Member P} {members : List (Member P)}
    (member : other ∈ insertMember m members) : other = m ∨ other ∈ members := by
  rcases insertMember_cases m members with ⟨same, -⟩ | ⟨before, after, rfl, inserted⟩
  · rw [same] at member
    exact Or.inr member
  · rw [inserted] at member
    simpa [or_left_comm] using member

/-- Whoever is there stays. -/
theorem mem_insertMember_of_mem {m other : Member P} {members : List (Member P)}
    (member : other ∈ members) : other ∈ insertMember m members := by
  rcases insertMember_cases m members with ⟨same, -⟩ | ⟨before, after, rfl, inserted⟩
  · rwa [same]
  · rw [inserted]
    rcases List.mem_append.1 member with first | last
    · exact List.mem_append_left _ first
    · exact List.mem_append_right _ (List.mem_cons_of_mem _ last)

/-- Where its domain is free a participant is put in. -/
theorem mem_insertMember_of_free {m : Member P} {members : List (Member P)}
    (free : m.domain ∉ domainsOf members) : m ∈ insertMember m members := by
  rcases insertMember_cases m members with ⟨-, taken⟩ | ⟨before, after, -, inserted⟩
  · exact absurd taken free
  · rw [inserted]
    exact List.mem_append_right _ List.mem_cons_self

theorem insertMember_domain (m : Member P) (members : List (Member P)) :
    m.domain ∈ domainsOf (insertMember m members) := by
  induction members with
  | nil => exact List.mem_singleton_self _
  | cons first rest ih =>
      simp only [insertMember]
      cases place : m.domain.order first.domain with
      | lt => exact List.mem_cons_self
      | eq =>
          rw [Domain.eq_of_order place]
          exact List.mem_cons_self
      | gt => exact List.mem_cons_of_mem _ ih

theorem insertMember_ascending {m : Member P} {members : List (Member P)}
    (ascending : Ascending (domainsOf members)) : Ascending (domainsOf (insertMember m members)) := by
  induction members with
  | nil => exact List.pairwise_singleton _ _
  | cons first rest ih =>
      obtain ⟨least, others⟩ := List.pairwise_cons.1 ascending
      simp only [insertMember]
      cases place : m.domain.order first.domain with
      | lt =>
          refine List.pairwise_cons.2 ⟨fun d member => ?_, ascending⟩
          rcases List.mem_cons.1 member with rfl | there
          · exact place
          · exact Domain.Before.trans place (least d there)
      | eq => exact ascending
      | gt =>
          refine List.pairwise_cons.2 ⟨fun d member => ?_, ih others⟩
          obtain ⟨other, inserted, rfl⟩ := List.mem_map.1 member
          rcases mem_insertMember inserted with rfl | there
          · exact Domain.before_of_order place
          · exact least _ (List.mem_map_of_mem there)

theorem insertMember_named {m : Member (Recorded P)} {members : List (Member (Recorded P))}
    (here : m.state.domain = m.domain) (named : Named members) : Named (insertMember m members) := by
  intro other member
  rcases mem_insertMember member with rfl | there
  · exact here
  · exact named other there

/-- A participant that is found stands somewhere in the list, and is put back there. -/
theorem findFacet_split {facet : Facet P M} {members : List (Member P)} {s : M}
    {put : M → List (Member P)} (found : findFacet facet members = some (s, put)) :
    ∃ before m after, members = before ++ m :: after ∧ facet.view m.state = some s ∧
      ∀ s', put s' = before ++ { m with state := facet.wrap s' } :: after := by
  induction members generalizing put with
  | nil => cases found
  | cons m rest ih =>
      cases seen : facet.view m.state with
      | some s₀ =>
          simp only [findFacet, seen, Option.some.injEq, Prod.mk.injEq] at found
          obtain ⟨rfl, rfl⟩ := found
          exact ⟨[], m, rest, rfl, seen, fun _ => rfl⟩
      | none =>
          simp only [findFacet, seen, Option.map_eq_some_iff, Prod.mk.injEq, Prod.exists] at found
          obtain ⟨s₀, put₀, found₀, rfl, rfl⟩ := found
          obtain ⟨before, m₀, after, split, seen₀, back⟩ := ih found₀
          exact ⟨m :: before, m₀, after, congrArg (m :: ·) split, seen₀,
            fun s' => congrArg (m :: ·) (back s')⟩

theorem findFacet_of_seen {facet : Facet P M} {members : List (Member P)} {m : Member P} {s : M}
    (member : m ∈ members) (seen : facet.view m.state = some s) : findFacet facet members ≠ none := by
  induction members with
  | nil => cases member
  | cons other rest ih =>
      unfold findFacet
      cases here : facet.view other.state with
      | some s' => exact Option.some_ne_none _
      | none =>
          rcases List.mem_cons.1 member with rfl | later
          · rw [here] at seen
            cases seen
          · intro missing
            exact ih later (Option.map_eq_none_iff.1 missing)

end Transaction

/-! ## Reading a trace by kind -/

namespace Trace

/-- The calls of one kind. -/
def only (kind : CallKind) (trace : Trace) : Trace := trace.filter (·.call.kind = kind)

/-- On whom the calls of one kind were made. -/
def called (kind : CallKind) (trace : Trace) : List Domain := (trace.only kind).map (·.domain)

/-- Who granted its locks. -/
def granted (trace : Trace) : List Domain :=
  (trace.filter fun c => match c.call with
    | .lock (.ok _) => true
    | _ => false).map (·.domain)

theorem only_append (kind : CallKind) (first second : Trace) :
    only kind (first ++ second) = only kind first ++ only kind second :=
  List.filter_append ..

theorem called_append (kind : CallKind) (first second : Trace) :
    called kind (first ++ second) = called kind first ++ called kind second := by
  simp only [called, only_append, List.map_append]

theorem granted_append (first second : Trace) :
    granted (first ++ second) = granted first ++ granted second := by
  simp only [granted, List.filter_append, List.map_append]

theorem only_eq_nil {kind : CallKind} {trace : Trace} :
    only kind trace = [] ↔ ∀ c ∈ trace, c.call.kind ≠ kind := by
  simp only [only, List.filter_eq_nil_iff, decide_eq_true_eq, ne_eq]

theorem mem_only {c : Called} {trace : Trace} (member : c ∈ trace) : c ∈ trace.only c.call.kind :=
  List.mem_filter.2 ⟨member, decide_eq_true rfl⟩

theorem called_eq_nil {kind : CallKind} {trace : Trace} (without : ∀ c ∈ trace, c.call.kind ≠ kind) :
    called kind trace = [] := by
  rw [called, only_eq_nil.2 without, List.map_nil]

theorem granted_eq_nil {trace : Trace} (without : ∀ c ∈ trace, c.call.kind ≠ .lock) :
    granted trace = [] := by
  have refused : ∀ c ∈ trace, ¬ (match c.call with
      | .lock (.ok _) => true
      | _ => false) = true := by
    intro c member
    have other := without c member
    rcases c with ⟨d, call⟩
    cases call <;> simp_all [Call.kind]
  rw [granted, List.filter_eq_nil_iff.2 refused, List.map_nil]

theorem only_onEach {kind : CallKind} {ds : List Domain} {calls : Trace}
    (each : OnEach kind ds calls) : only kind calls = calls :=
  List.filter_eq_self.2 fun c member => decide_eq_true (each.2 c member)

theorem only_other {kind other : CallKind} {ds : List Domain} {calls : Trace}
    (each : OnEach other ds calls) (ne : other ≠ kind) : only kind calls = [] :=
  only_eq_nil.2 fun c member => by rw [each.2 c member]; exact ne

theorem called_onEach {kind : CallKind} {ds : List Domain} {calls : Trace}
    (each : OnEach kind ds calls) : called kind calls = ds := by
  rw [called, only_onEach each, each.1]

theorem called_other {kind other : CallKind} {ds : List Domain} {calls : Trace}
    (each : OnEach other ds calls) (ne : other ≠ kind) : called kind calls = [] := by
  rw [called, only_other each ne, List.map_nil]

/-- Only `ds` were called. -/
def Within (ds : List Domain) (trace : Trace) : Prop := ∀ c ∈ trace, c.domain ∈ ds

theorem Within.append {ds : List Domain} {first second : Trace} (here : first.Within ds)
    (there : second.Within ds) : Within ds (first ++ second) :=
  fun c member => (List.mem_append.1 member).elim (here c) (there c)

theorem Within.mono {ds es : List Domain} {trace : Trace} (within : trace.Within ds)
    (more : ds ⊆ es) : trace.Within es :=
  fun c member => more (within c member)

theorem within_onEach {kind : CallKind} {ds : List Domain} {calls : Trace}
    (each : OnEach kind ds calls) : calls.Within ds := by
  intro c member
  rw [← each.1]
  exact List.mem_map_of_mem member

theorem within_single {ds : List Domain} {d : Domain} (here : d ∈ ds) (call : Call) :
    Within ds [⟨d, call⟩] := by
  intro c member
  rw [List.mem_singleton.1 member]
  exact here

end Trace

theorem onEach_map {kind : CallKind} {call : Call} (same : call.kind = kind) (ds : List Domain) :
    OnEach kind ds (ds.map (⟨·, call⟩)) := by
  refine ⟨by simp [Function.comp_def], ?_⟩
  intro c member
  obtain ⟨d, -, rfl⟩ := List.mem_map.1 member
  exact same

theorem onEach_granting (ds : List Domain) : OnEach .lock ds (granting ds) := onEach_map rfl ds

theorem onEach_validating (ds : List Domain) : OnEach (.validate .final) ds (validating ds) :=
  onEach_map rfl ds

theorem granted_granting (ds : List Domain) : (granting ds).granted = ds := by
  induction ds with
  | nil => rfl
  | cons d rest ih => exact congrArg (List.cons d) ih

/-! ## Orderly transactions -/

/-- What a body does to a participant: it works through it, or has it validated. -/
def CallKind.InBody (kind : CallKind) : Prop := kind = .work ∨ kind = .validate .early

/-- What comes before the effects: the body, locks and validations. -/
def CallKind.Preparing (kind : CallKind) : Prop :=
  kind = .work ∨ kind = .lock ∨ ∃ occasion, kind = .validate occasion

theorem CallKind.InBody.ne {kind other : CallKind} (inBody : kind.InBody) (work : other ≠ .work)
    (early : other ≠ .validate .early) : kind ≠ other := by
  rcases inBody with rfl | rfl
  · exact work.symm
  · exact early.symm

theorem CallKind.InBody.preparing {kind : CallKind} (inBody : kind.InBody) : kind.Preparing :=
  inBody.imp_right fun early => Or.inr ⟨.early, early⟩

theorem CallKind.Preparing.ne {kind other : CallKind} (preparing : kind.Preparing)
    (work : other ≠ .work) (lock : other ≠ .lock) (validate : ∀ occasion, other ≠ .validate occasion) :
    kind ≠ other := by
  rcases preparing with rfl | rfl | ⟨occasion, rfl⟩
  · exact work.symm
  · exact lock.symm
  · exact (validate occasion).symm

/-- The locks of `ds` from the first on, up to and including the first that fails. -/
inductive LocksInOrder (ds : List Domain) : Trace → Prop where
  | all : LocksInOrder ds (granting ds)
  | upTo (before : List Domain) (d : Domain) (after : List Domain) (e : Error)
      (split : ds = before ++ d :: after) :
      LocksInOrder ds (granting before ++ [⟨d, .lock (.error e)⟩])

/-- Everything is behind a transaction whose participants were `ds`. -/
structure Complete (ds : List Domain) (trace : Trace) : Prop where
  effects : trace.called .apply = ds ∧ trace.called .undo = [] ∨
    trace.called .apply = [] ∧ trace.called .undo = ds.reverse
  finished : trace.called .finish = ds
  unlocked : trace.called .unlock = trace.granted.reverse
  released : trace.called .release = ds

/-- What a transaction has done to its participants, and in which order. -/
structure Orderly {P : Type} (t : Transaction P) (trace : Trace) : Prop where
  /-- At most one participant a domain. -/
  roster : Ascending t.roster
  present : t.phase = .active → domainsOf t.members = t.roster
  /-- A body does no more than work and validate. -/
  body : t.phase = .active → ∀ c ∈ trace, c.call.kind.InBody
  path : (Phase.active :: t.visited).IsChain fun a b => a.canAdvance b
  phase : t.phase = t.visited.getLastD .active
  settled : t.phase = .active ∨ t.phase = .released
  locks : trace.only .lock = [] ∨ LocksInOrder t.roster (trace.only .lock)
  complete : t.phase = .released → Complete t.roster trace
  /-- Nobody is finished after somebody was unlocked. -/
  finishFirst : trace.Pairwise fun a b => a.call.kind = .unlock → b.call.kind ≠ .finish
  /-- Nobody is called or worked through after its release. -/
  silent : trace.Pairwise fun a b => a.call.kind = .release → b.domain ≠ a.domain

/-! ### Endings by their parts -/

/-- The calls of an ending, `head ++ effects ++ closing ds locked`: what prepares for the effects, then
the effects, then the last stretch. -/
structure Parts (ds : List Domain) (head effects : Trace) (locked : List Domain) : Prop where
  checks : ∀ c ∈ head, c.call.kind.Preparing
  locks : head.only .lock = [] ∨ LocksInOrder ds (head.only .lock)
  granted : head.granted = locked
  effects : OnEach .apply ds effects ∨ OnEach .undo ds.reverse effects

/-- How an outcome comes from the effects: by applying, or by undoing for a reason, which is a number
only where a lock failed with it. -/
inductive Judged (ds : List Domain) (head effects : Trace) : Outcome → Prop where
  | applied (each : OnEach .apply ds effects) : Judged ds head effects (applyOutcome effects)
  | undone (reason : AbortReason) (each : OnEach .undo ds.reverse effects)
      (given : ∀ number, reason = .moduleError number → ∃ d e,
        ⟨d, .lock (.error e)⟩ ∈ head ∧ e.kind ≠ .resourceBusy ∧ number = e.code) :
      Judged ds head effects (undoOutcome reason effects)

theorem Transaction.lockReason_number {e : Error} {number : Int}
    (reason : lockReason e = .moduleError number) :
    e.kind ≠ .resourceBusy ∧ number = e.code := by
  unfold lockReason at reason
  split at reason
  · cases reason
  · exact ⟨‹_›, (AbortReason.moduleError.inj reason).symm⟩

/-- More checks before do not change the judgement. -/
theorem Judged.after {ds : List Domain} {head effects : Trace} {outcome : Outcome}
    (judged : Judged ds head effects outcome) (body : Trace) :
    Judged ds (body ++ head) effects outcome := by
  cases judged with
  | applied each => exact .applied each
  | undone reason each given =>
      refine .undone reason each ?_
      intro number same
      obtain ⟨d, e, member, kind, code⟩ := given number same
      exact ⟨d, e, List.mem_append_right _ member, kind, code⟩

namespace Parts

variable {ds locked : List Domain} {head effects : Trace}

/-- What was done in the body comes first. -/
theorem after (parts : Parts ds head effects locked) {body : Trace}
    (inBody : ∀ c ∈ body, c.call.kind.InBody) : Parts ds (body ++ head) effects locked := by
  have locks : body.only .lock = [] :=
    Trace.only_eq_nil.2 fun c member => (inBody c member).ne (by decide) (by decide)
  have granted : body.granted = [] :=
    Trace.granted_eq_nil fun c member => (inBody c member).ne (by decide) (by decide)
  refine ⟨fun c member => ?_, ?_, ?_, parts.effects⟩
  · rcases List.mem_append.1 member with here | there
    · exact (inBody c here).preparing
    · exact parts.checks c there
  · rw [Trace.only_append, locks, List.nil_append]
    exact parts.locks
  · rw [Trace.granted_append, granted, List.nil_append, parts.granted]

/-- The head has no calls of a kind that does not prepare. -/
theorem head_called (parts : Parts ds head effects locked) {kind : CallKind} (work : kind ≠ .work)
    (lock : kind ≠ .lock) (validate : ∀ occasion, kind ≠ .validate occasion) :
    ∀ c ∈ head, c.call.kind ≠ kind :=
  fun c member => (parts.checks c member).ne work lock validate

theorem effects_kind (parts : Parts ds head effects locked) {c : Called} (member : c ∈ effects) :
    c.call.kind = .apply ∨ c.call.kind = .undo :=
  parts.effects.imp (·.2 c member) (·.2 c member)

end Parts

theorem closing_kind {ds locked : List Domain} {c : Called} (member : c ∈ closing ds locked) :
    c.call.kind = .finish ∨ c.call.kind = .unlock ∨ c.call.kind = .release := by
  rcases List.mem_append.1 member with front | releases
  · rcases List.mem_append.1 front with finishes | unlocks
    · exact Or.inl ((onEach_map rfl ds).2 c finishes)
    · exact Or.inr (Or.inl ((onEach_map rfl locked.reverse).2 c unlocks))
  · exact Or.inr (Or.inr ((onEach_map rfl ds).2 c releases))

theorem within_closing {ds locked : List Domain} (known : locked ⊆ ds) :
    (closing ds locked).Within ds := by
  have finishes : Trace.Within ds (ds.map (⟨·, .finish⟩)) := Trace.within_onEach (onEach_map rfl ds)
  have unlocks : Trace.Within locked.reverse (locked.reverse.map (⟨·, .unlock⟩)) :=
    Trace.within_onEach (onEach_map rfl locked.reverse)
  have releases : Trace.Within ds (ds.map (⟨·, .release⟩)) := Trace.within_onEach (onEach_map rfl ds)
  exact (finishes.append (unlocks.mono fun d member => known (List.mem_reverse.1 member))).append
    releases

/-- The last stretch has no calls but its own. -/
theorem only_closing {kind : CallKind} (finish : kind ≠ .finish) (unlock : kind ≠ .unlock)
    (release : kind ≠ .release) (ds locked : List Domain) : (closing ds locked).only kind = [] :=
  Trace.only_eq_nil.2 fun c member => by
    rcases closing_kind member with same | same | same <;> rw [same]
    · exact finish.symm
    · exact unlock.symm
    · exact release.symm

theorem called_closing {kind : CallKind} (ds locked : List Domain) :
    (closing ds locked).called kind =
      match kind with
      | .finish => ds
      | .unlock => locked.reverse
      | .release => ds
      | _ => [] := by
  have finishes : OnEach .finish ds (ds.map (⟨·, .finish⟩)) := onEach_map rfl ds
  have unlocks : OnEach .unlock locked.reverse (locked.reverse.map (⟨·, .unlock⟩)) :=
    onEach_map rfl locked.reverse
  have releases : OnEach .release ds (ds.map (⟨·, .release⟩)) := onEach_map rfl ds
  simp only [closing, Trace.called_append]
  cases kind with
  | finish =>
      rw [Trace.called_onEach finishes, Trace.called_other unlocks (by decide),
        Trace.called_other releases (by decide), List.append_nil, List.append_nil]
  | unlock =>
      rw [Trace.called_other finishes (by decide), Trace.called_onEach unlocks,
        Trace.called_other releases (by decide), List.append_nil, List.nil_append]
  | release =>
      rw [Trace.called_other finishes (by decide), Trace.called_other unlocks (by decide),
        Trace.called_onEach releases, List.append_nil, List.nil_append]
  | work | lock | validate _ | apply | undo =>
      rw [Trace.called_other finishes (by simp), Trace.called_other unlocks (by simp),
        Trace.called_other releases (by simp), List.append_nil, List.append_nil]

namespace Parts

variable {ds locked : List Domain} {head effects : Trace}

theorem locks_all (parts : Parts ds head effects locked) :
    (head ++ effects ++ closing ds locked).only .lock = head.only .lock := by
  have fromEffects : effects.only .lock = [] :=
    Trace.only_eq_nil.2 fun c member => by
      rcases parts.effects_kind member with same | same <;> rw [same] <;> decide
  rw [Trace.only_append, Trace.only_append, fromEffects,
    only_closing (by decide) (by decide) (by decide), List.append_nil, List.append_nil]

theorem granted_all (parts : Parts ds head effects locked) :
    (head ++ effects ++ closing ds locked).granted = locked := by
  have fromEffects : effects.granted = [] :=
    Trace.granted_eq_nil fun c member => by
      rcases parts.effects_kind member with same | same <;> rw [same] <;> decide
  have fromClosing : (closing ds locked).granted = [] :=
    Trace.granted_eq_nil fun c member => by
      rcases closing_kind member with same | same | same <;> rw [same] <;> decide
  rw [Trace.granted_append, Trace.granted_append, fromEffects, fromClosing, List.append_nil,
    List.append_nil, parts.granted]

/-- Every participant gets its effect, its finish and its release, the locked ones their unlock. -/
theorem complete (parts : Parts ds head effects locked) :
    Complete ds (head ++ effects ++ closing ds locked) := by
  have fromHead : ∀ kind : CallKind, kind ≠ .work → kind ≠ .lock →
      (∀ occasion, kind ≠ .validate occasion) → head.called kind = [] :=
    fun kind work lock validate => Trace.called_eq_nil (parts.head_called work lock validate)
  have quiet : ∀ kind : CallKind, kind ≠ .apply → kind ≠ .undo → effects.called kind = [] := by
    intro kind apply undo
    rcases parts.effects with each | each
    · exact Trace.called_other each (Ne.symm apply)
    · exact Trace.called_other each (Ne.symm undo)
  refine ⟨?_, ?_, ?_, ?_⟩
  · simp only [Trace.called_append, called_closing, fromHead .apply (by decide) (by decide) (by simp),
      fromHead .undo (by decide) (by decide) (by simp), List.append_nil, List.nil_append]
    rcases parts.effects with each | each
    · exact Or.inl ⟨Trace.called_onEach each, Trace.called_other each (by decide)⟩
    · exact Or.inr ⟨Trace.called_other each (by decide), Trace.called_onEach each⟩
  · simp only [Trace.called_append, called_closing, fromHead .finish (by decide) (by decide) (by simp),
      quiet .finish (by decide) (by decide), List.nil_append]
  · rw [parts.granted_all]
    simp only [Trace.called_append, called_closing, fromHead .unlock (by decide) (by decide) (by simp),
      quiet .unlock (by decide) (by decide), List.nil_append]
  · simp only [Trace.called_append, called_closing, fromHead .release (by decide) (by decide) (by simp),
      quiet .release (by decide) (by decide), List.nil_append]

/-- Calls before the last stretch neither finish nor unlock nor release. -/
theorem front (parts : Parts ds head effects locked) {c : Called} (member : c ∈ head ++ effects) :
    c.call.kind ≠ .finish ∧ c.call.kind ≠ .unlock ∧ c.call.kind ≠ .release := by
  rcases List.mem_append.1 member with here | there
  · have preparing := parts.checks c here
    exact ⟨preparing.ne (by decide) (by decide) (by simp),
      preparing.ne (by decide) (by decide) (by simp), preparing.ne (by decide) (by decide) (by simp)⟩
  · rcases parts.effects_kind there with same | same <;> rw [same] <;> simp

theorem finishFirst (parts : Parts ds head effects locked) :
    (head ++ effects ++ closing ds locked).Pairwise
      fun a b => a.call.kind = .unlock → b.call.kind ≠ .finish := by
  -- no unlock up to the finishes, no finish after them
  have split : head ++ effects ++ closing ds locked =
      (head ++ effects ++ ds.map (⟨·, .finish⟩)) ++
        (locked.reverse.map (⟨·, .unlock⟩) ++ ds.map (⟨·, .release⟩)) := by
    simp only [closing, List.append_assoc]
  have before : ∀ a ∈ head ++ effects ++ ds.map (⟨·, .finish⟩), a.call.kind ≠ .unlock := by
    intro a member
    rcases List.mem_append.1 member with here | there
    · exact (parts.front here).2.1
    · rw [(onEach_map rfl ds).2 a there]
      decide
  have behind : ∀ b ∈ (locked.reverse.map (⟨·, .unlock⟩) ++ ds.map (⟨·, .release⟩) : Trace),
      b.call.kind ≠ .finish := by
    intro b member
    rcases List.mem_append.1 member with here | there
    · rw [(onEach_map rfl locked.reverse).2 b here]
      decide
    · rw [(onEach_map rfl ds).2 b there]
      decide
  rw [split, List.pairwise_append]
  refine ⟨?_, ?_, fun a here b there _ => behind b there⟩
  · exact List.pairwise_of_forall_mem_list fun a here b _ unlock => absurd unlock (before a here)
  · exact List.pairwise_of_forall_mem_list fun a _ b there _ => behind b there

theorem silent (parts : Parts ds head effects locked) (ascending : Ascending ds) :
    (head ++ effects ++ closing ds locked).Pairwise
      fun a b => a.call.kind = .release → b.domain ≠ a.domain := by
  -- no release up to the releases, which are of different domains
  have split : head ++ effects ++ closing ds locked =
      (head ++ effects ++ (ds.map (⟨·, .finish⟩) ++ locked.reverse.map (⟨·, .unlock⟩))) ++
        ds.map (⟨·, .release⟩) := by
    simp only [closing, List.append_assoc]
  have before : ∀ a ∈ head ++ effects ++
      (ds.map (⟨·, .finish⟩) ++ locked.reverse.map (⟨·, .unlock⟩)), a.call.kind ≠ .release := by
    intro a member
    rcases List.mem_append.1 member with here | there
    · exact (parts.front here).2.2
    · rcases List.mem_append.1 there with finishes | unlocks
      · rw [(onEach_map rfl ds).2 a finishes]
        decide
      · rw [(onEach_map rfl locked.reverse).2 a unlocks]
        decide
  rw [split, List.pairwise_append]
  refine ⟨?_, ?_, fun a here b _ release => absurd release (before a here)⟩
  · exact List.pairwise_of_forall_mem_list fun a here b _ release => absurd release (before a here)
  · exact List.pairwise_map.2 (ascending.imp fun earlier _ => earlier.ne.symm)

end Parts

/-- What a commit calls before the effects: the locks in order, of which `locked` were granted, and
validations. -/
structure Checking (ds : List Domain) (head : Trace) (locked : List Domain) : Prop where
  checks : ∀ c ∈ head, c.call.kind.Preparing
  order : LocksInOrder ds (head.only .lock)
  granted : head.granted = locked

namespace Checking

variable {ds locked : List Domain} {head : Trace}

theorem all (ds : List Domain) : Checking ds (granting ds) ds where
  checks c member := Or.inr (Or.inl ((onEach_granting ds).2 c member))
  order := by
    rw [Trace.only_onEach (onEach_granting ds)]
    exact .all
  granted := granted_granting ds

theorem refused {before after : List Domain} {d : Domain} (split : ds = before ++ d :: after)
    (e : Error) : Checking ds (granting before ++ [⟨d, .lock (.error e)⟩]) before where
  checks c member := by
    rcases List.mem_append.1 member with granted | last
    · exact Or.inr (Or.inl ((onEach_granting before).2 c granted))
    · obtain rfl := List.mem_singleton.1 last
      exact Or.inr (Or.inl rfl)
  order := by
    rw [Trace.only_append, Trace.only_onEach (onEach_granting before)]
    exact .upTo before d after e split
  granted := by
    rw [Trace.granted_append, granted_granting]
    exact List.append_nil before

/-- Validations lock nothing. -/
theorem validated (checking : Checking ds head locked) {more : Trace}
    (validations : ∀ c ∈ more, c.call.kind = .validate .final) :
    Checking ds (head ++ more) locked where
  checks c member := by
    rcases List.mem_append.1 member with here | there
    · exact checking.checks c here
    · exact Or.inr (Or.inr ⟨.final, validations c there⟩)
  order := by
    have lockless : more.only .lock = [] := Trace.only_eq_nil.2 fun c member => by
      rw [validations c member]
      decide
    rw [Trace.only_append, lockless, List.append_nil]
    exact checking.order
  granted := by
    have grantless : more.granted = [] := Trace.granted_eq_nil fun c member => by
      rw [validations c member]
      decide
    rw [Trace.granted_append, grantless, List.append_nil]
    exact checking.granted

theorem parts (checking : Checking ds head locked) {effects : Trace}
    (each : OnEach .apply ds effects ∨ OnEach .undo ds.reverse effects) :
    Parts ds head effects locked where
  checks := checking.checks
  locks := Or.inr checking.order
  granted := checking.granted
  effects := each

end Checking

theorem Committing.parts {ds : List Domain} {calls : Trace} {visited : List Phase}
    {outcome : Outcome} (committing : Committing ds calls visited outcome) :
    ∃ head effects locked, calls = head ++ effects ++ closing ds locked ∧
      Parts ds head effects locked ∧ LocksInOrder ds (head.only .lock) ∧
      Judged ds head effects outcome := by
  cases committing with
  | applied applies each =>
      have checking := (Checking.all ds).validated (onEach_validating ds).2
      exact ⟨_, applies, ds, rfl, checking.parts (Or.inl each), checking.order, .applied each⟩
  | invalid before d after undos split each =>
      have validations : ∀ c ∈ validating before ++ [⟨d, .validate .final false⟩],
          c.call.kind = .validate .final := by
        intro c member
        rcases List.mem_append.1 member with valid | invalid
        · exact (onEach_validating before).2 c valid
        · obtain rfl := List.mem_singleton.1 invalid
          rfl
      have checking := (Checking.all ds).validated validations
      refine ⟨_, undos, ds, rfl, checking.parts (Or.inr each), checking.order, .undone _ each ?_⟩
      intro _ number
      cases number
  | refused before d after e undos split each =>
      have checking := Checking.refused split e
      refine ⟨_, undos, before, rfl, checking.parts (Or.inr each), checking.order,
        .undone _ each ?_⟩
      intro number reason
      exact ⟨d, e, List.mem_append_right _ List.mem_cons_self,
        Transaction.lockReason_number reason⟩

theorem Abandoning.parts {reason : AbortReason} {ds : List Domain} {calls : Trace}
    {visited : List Phase} {outcome : Outcome}
    (abandoning : Abandoning reason ds calls visited outcome) :
    ∃ effects, calls = [] ++ effects ++ closing ds [] ∧ Parts ds [] effects [] ∧
      OnEach .undo ds.reverse effects ∧ outcome = undoOutcome reason effects := by
  cases abandoning with
  | undone undos each =>
      exact ⟨undos, rfl, ⟨fun _ member => absurd member List.not_mem_nil, Or.inl rfl, rfl,
        Or.inr each⟩, each, rfl⟩

/-! ## What a transaction keeps to -/

/-- The calls, phases and outcome of an ending: a commit, a requested abort or a conflict found in the
body. -/
def Ending (ds : List Domain) (calls : Trace) (visited : List Phase) (outcome : Outcome) : Prop :=
  Committing ds calls visited outcome ∨
    ∃ reason, (reason = .requested ∨ reason = .validationFailed) ∧
      Abandoning reason ds calls visited outcome

/-- The phases of an ending lead from the active one to the last. -/
theorem Ending.path {ds : List Domain} {calls : Trace} {visited : List Phase} {outcome : Outcome}
    (ending : Ending ds calls visited outcome) :
    ((Phase.active :: visited).IsChain fun a b => a.canAdvance b) ∧
      visited.getLastD .active = .released := by
  rcases ending with committing | ⟨reason, -, abandoning⟩
  · cases committing <;> exact ⟨by decide, rfl⟩
  · cases abandoning
    exact ⟨by decide, rfl⟩

/-- An ending calls those who take part, and nobody else. -/
theorem Ending.within {ds : List Domain} {calls : Trace} {visited : List Phase} {outcome : Outcome}
    (ending : Ending ds calls visited outcome) : calls.Within ds := by
  have undone {undos : Trace} (each : OnEach .undo ds.reverse undos) : undos.Within ds :=
    (Trace.within_onEach each).mono fun d member => List.mem_reverse.1 member
  rcases ending with committing | ⟨reason, -, abandoning⟩
  · have locks := Trace.within_onEach (onEach_granting ds)
    cases committing with
    | applied applies each =>
        exact ((locks.append (Trace.within_onEach (onEach_validating ds))).append
          (Trace.within_onEach each)).append (within_closing fun _ member => member)
    | invalid before d after undos split each =>
        have asked : before ⊆ ds := split ▸ List.subset_append_left ..
        have here : d ∈ ds := split ▸ List.mem_append_right _ List.mem_cons_self
        have checks := ((Trace.within_onEach (onEach_validating before)).mono asked).append
          (Trace.within_single here (.validate .final false))
        exact ((locks.append checks).append (undone each)).append
          (within_closing fun _ member => member)
    | refused before d after e undos split each =>
        have asked : before ⊆ ds := split ▸ List.subset_append_left ..
        have here : d ∈ ds := split ▸ List.mem_append_right _ List.mem_cons_self
        have granted := (Trace.within_onEach (onEach_granting before)).mono asked
        exact ((granted.append (Trace.within_single here (.lock (.error e)))).append
          (undone each)).append (within_closing asked)
  · cases abandoning with
    | undone undos each => exact (undone each).append (within_closing (List.nil_subset ds))

theorem Ending.parts {ds : List Domain} {calls : Trace} {visited : List Phase} {outcome : Outcome}
    (ending : Ending ds calls visited outcome) :
    ∃ head effects locked, calls = head ++ effects ++ closing ds locked ∧
      Parts ds head effects locked ∧ Judged ds head effects outcome := by
  rcases ending with committing | ⟨reason, allowed, abandoning⟩
  · obtain ⟨head, effects, locked, shape, parts, -, judged⟩ := committing.parts
    exact ⟨head, effects, locked, shape, parts, judged⟩
  · obtain ⟨effects, shape, parts, each, rfl⟩ := abandoning.parts
    refine ⟨[], effects, [], shape, parts, .undone reason each fun number same => ?_⟩
    rcases allowed with rfl | rfl <;> cases same

/-- The body runs. -/
structure Live {P : Type} (t : Transaction (Recorded P)) (trace : Trace) : Prop where
  phase : t.phase = .active
  visited : t.visited = []
  outcome : t.outcome = none
  named : Named t.members
  roster : t.roster = domainsOf t.members
  ascending : Ascending t.roster
  body : ∀ c ∈ trace, c.call.kind.InBody
  within : trace.Within t.roster

/-- One ending is behind it. -/
structure Over {P : Type} (t : Transaction (Recorded P)) (trace : Trace) : Prop where
  phase : t.phase = .released
  members : t.members = []
  ascending : Ascending t.roster
  within : trace.Within t.roster
  ended : ∃ body calls outcome, trace = body ++ calls ∧ t.outcome = some outcome ∧
    (∀ c ∈ body, c.call.kind.InBody) ∧ Ending t.roster calls t.visited outcome

theorem Live.orderly {P : Type} {t : Transaction (Recorded P)} {trace : Trace}
    (live : Live t trace) : Orderly t trace where
  roster := live.ascending
  present _ := live.roster.symm
  body _ := live.body
  path := by rw [live.visited]; exact .singleton _
  phase := by rw [live.visited, live.phase]; rfl
  settled := Or.inl live.phase
  locks := Or.inl (Trace.only_eq_nil.2 fun c member => (live.body c member).ne (by decide) (by decide))
  complete released := by rw [live.phase] at released; cases released
  finishFirst := List.pairwise_of_forall_mem_list fun a here b _ unlock =>
    absurd unlock ((live.body a here).ne (by decide) (by decide))
  silent := List.pairwise_of_forall_mem_list fun a here b _ release =>
    absurd release ((live.body a here).ne (by decide) (by decide))

theorem Over.orderly {P : Type} {t : Transaction (Recorded P)} {trace : Trace}
    (past : Over t trace) : Orderly t trace := by
  obtain ⟨body, calls, outcome, rfl, -, early, ending⟩ := past.ended
  obtain ⟨head, effects, locked, rfl, parts, -⟩ := ending.parts
  have whole := parts.after early
  have active : t.phase ≠ .active := by rw [past.phase]; decide
  rw [← List.append_assoc, ← List.append_assoc]
  exact {
    roster := past.ascending
    present := fun phase => absurd phase active
    body := fun phase => absurd phase active
    path := ending.path.1
    phase := past.phase.trans ending.path.2.symm
    settled := Or.inr past.phase
    locks := by rw [whole.locks_all]; exact whole.locks
    complete := fun _ => whole.complete
    finishFirst := whole.finishFirst
    silent := whole.silent past.ascending }

/-! ## Who takes part -/

namespace Transaction

variable {P M : Type}

/-- `m` takes part in `t'` beside those of `t`, unless its domain is taken. -/
structure Joined (t : Transaction P) (m : Member P) (t' : Transaction P) : Prop where
  stay : ∀ other ∈ t.members, other ∈ t'.members
  grows : t.roster ⊆ t'.roster
  seated : m.domain ∈ t'.roster
  free : m.domain ∉ t.roster → m ∈ t'.members
  nobodyElse : ∀ d ∈ t'.roster, d ∈ t.roster ∨ m.domain = d

theorem insert_joined {t : Transaction P} (roster : t.roster = domainsOf t.members) (m : Member P) :
    t.Joined m (t.insert m) where
  stay _ member := mem_insertMember_of_mem member
  grows d member := by
    obtain ⟨other, there, rfl⟩ := List.mem_map.1 (roster ▸ member)
    exact List.mem_map_of_mem (mem_insertMember_of_mem there)
  seated := insertMember_domain m t.members
  free absent := mem_insertMember_of_free (roster ▸ absent)
  nobodyElse d member := by
    obtain ⟨other, there, rfl⟩ := List.mem_map.1 member
    rcases mem_insertMember there with rfl | before
    · exact Or.inr rfl
    · exact Or.inl (roster ▸ List.mem_map_of_mem before)

/-- A participant of a sort takes part in `t'`: one that did already, or a fresh one if none did. -/
inductive Provided (facet : Facet P M) (t : Transaction P) : Transaction P → Prop where
  | already {m : Member P} {s : M} (member : m ∈ t.members) (seen : facet.view m.state = some s) :
      Provided facet t t
  | fresh {t' : Transaction P} (unseen : ∀ m ∈ t.members, facet.view m.state = none)
      (free : facet.domain ∉ t.roster)
      (joined : t.Joined ⟨facet.domain, facet.wrap facet.fresh⟩ t') : Provided facet t t'

end Transaction

/-! ## One use -/

section Step

variable {P M W α : Type} [Participant P W]

/-- What a transaction that is not active says it cannot do. -/
def Use.action : Use P W → Option String
  | .register _ => some "register a module"
  | .withModule _ _ => some "use a module"
  | .validateEarly => some "validate"
  | .commit => some "commit"
  | .abort => some "abort"
  | .drop => none

/-- Whom a use asks to take part. -/
def Use.domain? : Use P W → Option Domain
  | .register p => some (Participant.domain p)
  | .withModule facet _ => some facet.domain
  | _ => none

/-- How a body works through the participant of a sort in an active transaction. -/
inductive Use.WorksThrough (facet : Facet P M) (body : Context → M → W → Except Error α × M × W)
    (t : Transaction (Recorded P)) (w : Tape W) :
    Reply → Transaction (Recorded P) → Tape W → Prop where
  /-- Nobody is of the sort, and its domain belongs to somebody else. -/
  | taken (unseen : ∀ m ∈ t.members, facet.view m.state.inner = none)
      (owned : facet.domain ∈ t.roster) :
      WorksThrough facet body t w (.refused (Transaction.domainTaken facet.domain)) t w
  /-- Not even the fresh participant is of the sort. -/
  | gone {t' : Transaction (Recorded P)} (provided : t.Provided facet.recorded t')
      (unseen : ∀ m ∈ t'.members, facet.view m.state.inner = none) :
      WorksThrough facet body t w (.refused Transaction.disappeared) t' w
  /-- One of the sort is worked on.  The others are as they were. -/
  | worked {now t' : Transaction (Recorded P)} {m : Member (Recorded P)} {s : M}
      (provided : t.Provided facet.recorded now) (member : m ∈ now.members)
      (seen : facet.view m.state.inner = some s)
      (changed : { m with
        state := { m.state with inner := facet.wrap (body t.context s w.world).2.1 } } ∈ t'.members)
      (others : ∀ other ∈ now.members, other.domain ≠ m.domain → other ∈ t'.members)
      (roster : t'.roster = now.roster) :
      WorksThrough facet body t w (.ofExcept (fun _ => .done) (body t.context s w.world).1) t'
        (w.note (body t.context s w.world).2.2 ⟨m.domain, .work⟩)

/-- What a use of an active transaction answers, and what it leaves. -/
def Use.Answers (t : Transaction (Recorded P)) (w : Tape W) :
    Use P W → Reply → Transaction (Recorded P) → Tape W → Prop
  | .register p, reply, t', w' =>
      reply = .done ∧ t'.phase = .active ∧ w' = w ∧
        t.Joined ⟨Participant.domain p, ⟨Participant.domain p, p⟩⟩ t'
  | .withModule facet body, reply, t', w' =>
      t'.phase = .active ∧ Use.WorksThrough facet body t w reply t' w'
  | .validateEarly, reply, t', w' =>
      t'.roster = t.roster ∧ w'.trace.only .lock = [] ∧
        (reply = .done ∧ t' = t ∨
          ∃ o, reply = .refused (Transaction.earlyConflict t.id o) ∧ t'.phase = .released ∧
            t'.outcome = some o)
  | .commit, reply, t', w' =>
      ∃ o, reply = .outcome o ∧ t'.phase = .released ∧ t'.outcome = some o ∧ t'.roster = t.roster ∧
        LocksInOrder t.roster (w'.trace.only .lock)
  | .abort, reply, t', w' =>
      ∃ o, reply = .outcome o ∧ t'.phase = .released ∧ t'.outcome = some o ∧ t'.roster = t.roster ∧
        w'.trace.only .lock = []
  | .drop, reply, t', w' =>
      ∃ o, reply = .done ∧ t'.phase = .released ∧ t'.outcome = some o ∧ t'.roster = t.roster ∧
        w'.trace.only .lock = []

theorem Live.insert {t : Transaction (Recorded P)} {trace : Trace} (live : Live t trace)
    {m : Member (Recorded P)} (here : m.state.domain = m.domain) : Live (t.insert m) trace where
  phase := live.phase
  visited := live.visited
  outcome := live.outcome
  named := Transaction.insertMember_named here live.named
  roster := rfl
  ascending := Transaction.insertMember_ascending (live.roster ▸ live.ascending)
  body := live.body
  within := live.within.mono (Transaction.insert_joined live.roster m).grows

/-- A transaction that makes sure of a participant of a sort goes on, and one takes part. -/
theorem Live.ensure {t t' : Transaction (Recorded P)} {trace : Trace} (live : Live t trace)
    {facet : Facet P M} (ensured : t.ensure facet.recorded = .ok t') :
    Live t' trace ∧ t.Provided facet.recorded t' ∧ t'.context = t.context := by
  unfold Transaction.ensure Transaction.module? at ensured
  rcases found : Transaction.findFacet facet.recorded t.members with _ | ⟨state, put⟩
  · have unseen : ∀ m ∈ t.members, facet.recorded.view m.state = none := by
      intro m member
      by_contra seen
      obtain ⟨s, seen⟩ := Option.ne_none_iff_exists'.1 seen
      exact Transaction.findFacet_of_seen member seen found
    rw [found] at ensured
    simp only [Option.map_none] at ensured
    split at ensured
    · cases ensured
    · next absent =>
      obtain rfl := Except.ok.inj ensured
      have free : facet.domain ∉ t.roster := by
        rw [live.roster]
        intro owned
        obtain ⟨other, there, same⟩ := List.mem_map.1 owned
        exact absent (List.any_eq_true.2 ⟨other, there, beq_iff_eq.2 same⟩)
      exact ⟨live.insert rfl, .fresh unseen free (Transaction.insert_joined live.roster _), rfl⟩
  · obtain ⟨before, m, after, split, seen, -⟩ := Transaction.findFacet_split found
    rw [found] at ensured
    obtain rfl := Except.ok.inj ensured
    have member : m ∈ t.members := split ▸ List.mem_append_right _ List.mem_cons_self
    exact ⟨live, .already member seen, rfl⟩

/-- The transaction after an ending. -/
theorem Live.ended {t : Transaction (Recorded P)} {trace body calls : Trace} {visited : List Phase}
    {outcome : Outcome} (live : Live t trace)
    (inBody : ∀ c ∈ body, c.domain ∈ domainsOf t.members ∧ c.call.kind.InBody)
    (ending : Ending (domainsOf t.members) calls visited outcome) :
    Over (t.ended visited outcome) (trace ++ body ++ calls) := by
  have checks : body.Within t.roster := fun c member => live.roster ▸ (inBody c member).1
  have all : (trace ++ body ++ calls).Within t.roster :=
    (live.within.append checks).append (live.roster ▸ ending.within)
  refine ⟨rfl, rfl, live.ascending, all, trace ++ body, calls, outcome, rfl, rfl, ?_, ?_⟩
  · intro c member
    rcases List.mem_append.1 member with here | there
    · exact live.body c here
    · exact (inBody c there).2
  · have path : (t.ended visited outcome).visited = visited := by
      simp only [Transaction.ended, live.visited, List.nil_append]
    have domains : (t.ended visited outcome).roster = domainsOf t.members := live.roster
    rw [path, domains]
    exact ending

/-- The same where nothing is called before the ending. -/
theorem Live.endedAtOnce {t : Transaction (Recorded P)} {trace calls : Trace} {visited : List Phase}
    {outcome : Outcome} (live : Live t trace)
    (ending : Ending (domainsOf t.members) calls visited outcome) :
    Over (t.ended visited outcome) (trace ++ calls) := by
  have past := live.ended (fun _ member => absurd member List.not_mem_nil) ending
  rwa [List.append_nil] at past

/-- The locks of a whole trace are those of its last part, where a body comes first. -/
theorem only_lock_body {body : Trace} (inBody : ∀ c ∈ body, c.call.kind.InBody) (calls : Trace) :
    (body ++ calls).only .lock = calls.only .lock := by
  have nothing : body.only .lock = [] :=
    Trace.only_eq_nil.2 fun c member => (inBody c member).ne (by decide) (by decide)
  rw [Trace.only_append, nothing, List.nil_append]

theorem Committing.locks {ds : List Domain} {calls : Trace} {visited : List Phase}
    {outcome : Outcome} (committing : Committing ds calls visited outcome) :
    LocksInOrder ds (calls.only .lock) := by
  obtain ⟨head, effects, locked, rfl, parts, locks, -⟩ := committing.parts
  rw [parts.locks_all]
  exact locks

theorem Abandoning.locks {reason : AbortReason} {ds : List Domain} {calls : Trace}
    {visited : List Phase} {outcome : Outcome}
    (abandoning : Abandoning reason ds calls visited outcome) : calls.only .lock = [] := by
  obtain ⟨effects, rfl, parts, -⟩ := abandoning.parts
  rw [parts.locks_all]
  rfl

/-- One participant is worked on. -/
theorem Live.work {t : Transaction (Recorded P)} {trace : Trace} (live : Live t trace)
    {before after : List (Member (Recorded P))} {m : Member (Recorded P)}
    (split : t.members = before ++ m :: after) (inner : P) :
    Live { t with members := before ++ { m with state := { m.state with inner } } :: after }
      (trace ++ [⟨m.state.domain, .work⟩]) where
  phase := live.phase
  visited := live.visited
  outcome := live.outcome
  named other member := by
    have named := live.named
    rw [split] at named
    rcases List.mem_append.1 member with first | last
    · exact named other (List.mem_append_left _ first)
    · rcases List.mem_cons.1 last with rfl | later
      · exact named m (List.mem_append_right _ List.mem_cons_self)
      · exact named other (List.mem_append_right _ (List.mem_cons_of_mem _ later))
  roster := by simpa [domainsOf, split] using live.roster
  ascending := live.ascending
  body c member := by
    rcases List.mem_append.1 member with earlier | now
    · exact live.body c earlier
    · rw [List.mem_singleton.1 now]
      exact Or.inl rfl
  within := by
    have member : m ∈ t.members := split ▸ List.mem_append_right _ List.mem_cons_self
    have here : m.state.domain ∈ t.roster := by
      rw [live.roster, live.named m member]
      exact List.mem_map_of_mem member
    exact live.within.append (Trace.within_single here .work)

theorem live_withModule {t : Transaction (Recorded P)} {w : Tape W} (live : Live t w.trace)
    (facet : Facet P M) (body : Context → M → W → Except Error α × M × W) :
    let r := (Use.withModule facet body : Use P W).recorded.perform t w
    (Use.withModule facet body : Use P W).Answers t w r.1 r.2.1 r.2.2 ∧
      Live r.2.1 r.2.2.trace := by
  have unseen {members : List (Member (Recorded P))}
      (absent : Transaction.findFacet facet.recorded members = none) :
      ∀ m ∈ members, facet.view m.state.inner = none := by
    intro m member
    by_contra seen
    obtain ⟨s, seen⟩ := Option.ne_none_iff_exists'.1 seen
    refine Transaction.findFacet_of_seen (s := (m.state.domain, s)) member ?_ absent
    simp only [Facet.recorded, seen, Option.map_some]
  simp only [Use.recorded, Use.perform, Transaction.withModule,
    Transaction.checkActive_active live.phase]
  cases ensured : t.ensure facet.recorded with
  | error e =>
      unfold Transaction.ensure Transaction.module? at ensured
      rcases found : Transaction.findFacet facet.recorded t.members with _ | ⟨state, put⟩
      · rw [found] at ensured
        simp only [Option.map_none] at ensured
        split at ensured
        · next clash =>
          obtain rfl := Except.error.inj ensured
          obtain ⟨other, there, same⟩ := List.any_eq_true.1 clash
          have same : other.domain = facet.domain := beq_iff_eq.1 same
          have owned : facet.domain ∈ t.roster := by
            rw [live.roster, ← same]
            exact List.mem_map_of_mem there
          exact ⟨⟨live.phase, .taken (unseen found) owned⟩, live⟩
        · cases ensured
      · rw [found] at ensured
        cases ensured
  | ok now =>
      obtain ⟨live', provided, context⟩ := live.ensure ensured
      rcases found : Transaction.findFacet facet.recorded now.members with _ | ⟨⟨d, s⟩, put⟩
      · simp only [found]
        exact ⟨⟨live'.phase, .gone provided (unseen found)⟩, live'⟩
      · obtain ⟨before, m, after, split, view, back⟩ := Transaction.findFacet_split found
        obtain ⟨s', seen, same⟩ := Option.map_eq_some_iff.1 view
        obtain ⟨rfl, rfl⟩ := Prod.mk.inj same
        have member : m ∈ now.members := split ▸ List.mem_append_right _ List.mem_cons_self
        have named := live'.named m member
        simp only [found, recordedBody, back, context]
        refine ⟨⟨live'.phase, ?_⟩, live'.work split _⟩
        rw [named]
        refine .worked (m := m) provided member seen ?_ (fun other there ne => ?_) rfl
        · exact List.mem_append_right _ (named ▸ List.mem_cons_self)
        · rw [split] at there
          rcases List.mem_append.1 there with first | last
          · exact List.mem_append_left _ first
          · rcases List.mem_cons.1 last with rfl | later
            · exact absurd rfl ne
            · exact List.mem_append_right _ (List.mem_cons_of_mem _ later)

theorem live_validateEarly {t : Transaction (Recorded P)} {w : Tape W} (live : Live t w.trace) :
    let r := (Use.validateEarly : Use P W).recorded.perform t w
    (Use.validateEarly : Use P W).Answers t w r.1 r.2.1 r.2.2 ∧
      (Live r.2.1 r.2.2.trace ∨ Over r.2.1 r.2.2.trace) := by
  obtain ⟨checks, early, ending⟩ := Transaction.validateEarly_calls live.phase live.named w
  have checked : ∀ c ∈ checks, c.domain ∈ domainsOf t.members ∧ c.call.kind.InBody :=
    fun c member => (early c member).imp_right Or.inr
  rcases ending with ⟨w', result, trace⟩ |
    ⟨calls, visited, outcome, w', abandoning, result, trace⟩
  · have body : ∀ c ∈ w'.trace, c.call.kind.InBody := by
      intro c member
      rw [trace] at member
      rcases List.mem_append.1 member with here | there
      · exact live.body c here
      · exact (checked c there).2
    have within : w'.trace.Within t.roster := by
      rw [trace]
      exact live.within.append fun c member => live.roster ▸ (checked c member).1
    simp only [Use.recorded, Use.perform, result]
    refine ⟨⟨rfl, ?_, Or.inl ⟨rfl, rfl⟩⟩, Or.inl { live with body := body, within := within }⟩
    exact Trace.only_eq_nil.2 fun c member => (body c member).ne (by decide) (by decide)
  · simp only [Use.recorded, Use.perform, result, trace]
    refine ⟨⟨rfl, ?_, Or.inr ⟨outcome, rfl, rfl, rfl⟩⟩, Or.inr ?_⟩
    · rw [trace, List.append_assoc, only_lock_body live.body,
        only_lock_body fun c member => (checked c member).2, abandoning.locks]
    · exact live.ended checked (Or.inr ⟨_, Or.inr rfl, abandoning⟩)

/-- A use of an active transaction goes on with it or ends it. -/
theorem live_perform {t : Transaction (Recorded P)} {w : Tape W} (live : Live t w.trace)
    (use : Use P W) :
    let r := use.recorded.perform t w
    use.Answers t w r.1 r.2.1 r.2.2 ∧ (Live r.2.1 r.2.2.trace ∨ Over r.2.1 r.2.2.trace) := by
  cases use with
  | register p =>
      simp only [Use.recorded, Use.perform, Transaction.register,
        Transaction.checkActive_active live.phase]
      exact ⟨⟨rfl, live.phase, rfl, Transaction.insert_joined live.roster _⟩,
        Or.inl (live.insert rfl)⟩
  | withModule facet body => exact (live_withModule live facet body).imp_right Or.inl
  | validateEarly => exact live_validateEarly live
  | commit =>
      obtain ⟨calls, visited, outcome, w', committing, result, trace⟩ :=
        Transaction.commit_calls live.phase live.named w
      simp only [Use.recorded, Use.perform, result, trace]
      refine ⟨⟨outcome, rfl, rfl, rfl, rfl, ?_⟩, Or.inr (live.endedAtOnce (Or.inl committing))⟩
      rw [trace, only_lock_body live.body, live.roster]
      exact committing.locks
  | abort =>
      obtain ⟨calls, visited, outcome, w', abandoning, result, trace⟩ :=
        Transaction.abort_calls live.phase live.named w
      have past := live.endedAtOnce (Or.inr ⟨_, Or.inl rfl, abandoning⟩)
      simp only [Use.recorded, Use.perform, result, trace]
      refine ⟨⟨outcome, rfl, rfl, rfl, rfl, ?_⟩, Or.inr past⟩
      rw [trace, only_lock_body live.body, abandoning.locks]
  | drop =>
      obtain ⟨calls, visited, outcome, w', abandoning, result, trace⟩ :=
        Transaction.drop_calls live.phase live.named w
      have past := live.endedAtOnce (Or.inr ⟨_, Or.inl rfl, abandoning⟩)
      simp only [Use.recorded, Use.perform, result, trace]
      refine ⟨⟨outcome, rfl, rfl, rfl, rfl, ?_⟩, Or.inr past⟩
      rw [trace, only_lock_body live.body, abandoning.locks]

/-- A use of a transaction that is over is refused and does nothing. -/
theorem over_perform {t : Transaction (Recorded P)} {w : Tape W} (released : t.phase = .released)
    (use : Use P W) :
    use.recorded.perform t w =
      ((match use.action with
        | some action => .refused (Transaction.notActive action .released)
        | none => .done), t, w) := by
  cases use with
  | register p => simp only [Use.recorded, Use.perform, Transaction.register_released released]; rfl
  | withModule facet body =>
      simp only [Use.recorded, Use.perform, Transaction.withModule_released released]; rfl
  | validateEarly =>
      simp only [Use.recorded, Use.perform, Transaction.validateEarly_released released]; rfl
  | commit => simp only [Use.recorded, Use.perform, Transaction.commit_released released]; rfl
  | abort => simp only [Use.recorded, Use.perform, Transaction.abort_released released]; rfl
  | drop => simp only [Use.recorded, Use.perform, Transaction.drop_released released]; rfl

/-- Whoever takes part where a participant of a sort is provided did before, or is of its domain. -/
theorem Transaction.Provided.roster {t t' : Transaction P} {facet : Facet P M}
    (provided : t.Provided facet t') :
    t.roster ⊆ t'.roster ∧ ∀ d ∈ t'.roster, d ∈ t.roster ∨ facet.domain = d := by
  cases provided with
  | already => exact ⟨fun _ member => member, fun _ member => Or.inl member⟩
  | fresh unseen free joined => exact ⟨joined.grows, joined.nobodyElse⟩

/-- A use keeps everybody, and brings nobody but whom it asks for. -/
theorem Use.Answers.roster {t t' : Transaction (Recorded P)} {w w' : Tape W} {use : Use P W}
    {reply : Reply} (answers : use.Answers t w reply t' w') :
    t.roster ⊆ t'.roster ∧ ∀ d ∈ t'.roster, d ∈ t.roster ∨ use.domain? = some d := by
  have same (roster : t'.roster = t.roster) :
      t.roster ⊆ t'.roster ∧ ∀ d ∈ t'.roster, d ∈ t.roster ∨ use.domain? = some d :=
    ⟨fun _ member => roster ▸ member, fun _ member => Or.inl (roster ▸ member)⟩
  cases use with
  | register p =>
      obtain ⟨-, -, -, joined⟩ := answers
      exact ⟨joined.grows, fun d member => (joined.nobodyElse d member).imp_right (congrArg some)⟩
  | withModule facet body =>
      have asked {now : Transaction (Recorded P)} (provided : t.Provided facet.recorded now) :
          t.roster ⊆ now.roster ∧
            ∀ d ∈ now.roster, d ∈ t.roster ∨ (withModule facet body : Use P W).domain? = some d :=
        ⟨provided.roster.1, fun d member => (provided.roster.2 d member).imp_right (congrArg some)⟩
      cases answers.2 with
      | taken => exact same rfl
      | gone provided => exact asked provided
      | worked provided _ _ _ _ roster => exact roster ▸ asked provided
  | validateEarly => exact same answers.1
  | commit =>
      obtain ⟨o, -, -, -, roster, -⟩ := answers
      exact same roster
  | abort =>
      obtain ⟨o, -, -, -, roster, -⟩ := answers
      exact same roster
  | drop =>
      obtain ⟨o, -, -, -, roster, -⟩ := answers
      exact same roster

end Step

/-! ## Any number of uses -/

section Run

variable {P W : Type} [Participant P W]

theorem live_new {P : Type} (id : TxId) (config : Config) (reports : Bool) :
    Live ({ id, config, reports } : Transaction (Recorded P)) [] where
  phase := rfl
  visited := rfl
  outcome := rfl
  named _ member := absurd member List.not_mem_nil
  roster := rfl
  ascending := .nil
  body _ member := absurd member List.not_mem_nil
  within _ member := absurd member List.not_mem_nil

/-- Somebody of `d` was registered, or worked through or called. -/
def Use.Involved (uses : List (Use P W)) (replies : List Reply) (trace : Trace) (d : Domain) : Prop :=
  (∃ p, (register p, Reply.done) ∈ uses.zip replies ∧ Participant.domain p = d) ∨
    ∃ c ∈ trace, c.domain = d

/-- Whom uses involve takes part to the end, and nobody takes part whom they did not ask for. -/
structure Use.Attended (uses : List (Use P W)) (replies : List Reply) (roster : List Domain)
    (trace : Trace) : Prop where
  everybody : ∀ d, Involved uses replies trace d → d ∈ roster
  nobodyElse : ∀ d ∈ roster, ∃ use ∈ uses, use.domain? = some d

/-- One use keeps a transaction live or over, and everybody who takes part; a registered participant gets
its seat, and nobody is new but whom the use asks for. -/
theorem perform_settled {t : Transaction (Recorded P)} {w : Tape W}
    (settled : Live t w.trace ∨ Over t w.trace) (use : Use P W) :
    let r := use.recorded.perform t w
    (Live r.2.1 r.2.2.trace ∨ Over r.2.1 r.2.2.trace) ∧ t.roster ⊆ r.2.1.roster ∧
      (∀ d ∈ r.2.1.roster, d ∈ t.roster ∨ use.domain? = some d) ∧
      ∀ p, use = .register p → r.1 = .done → Participant.domain p ∈ r.2.1.roster := by
  rcases settled with live | past
  · obtain ⟨answers, after⟩ := live_perform live use
    refine ⟨after, answers.roster.1, answers.roster.2, ?_⟩
    rintro p rfl -
    obtain ⟨-, -, -, joined⟩ := answers
    exact joined.seated
  · rw [over_perform past.phase use]
    refine ⟨Or.inr past, fun _ member => member, fun _ member => Or.inl member, ?_⟩
    rintro p rfl refused
    cases refused

/-- The same for any number of uses, whatever happens to the world between them. -/
theorem recordIn_settled (calls : List (Use P W × W)) (t : Transaction (Recorded P)) (trace : Trace)
    (settled : Live t trace ∨ Over t trace) :
    let r := Use.recordIn calls t trace
    (Live r.2.1 r.2.2 ∨ Over r.2.1 r.2.2) ∧ t.roster ⊆ r.2.1.roster ∧
      (∀ d ∈ r.2.1.roster, d ∈ t.roster ∨ ∃ call ∈ calls, call.1.domain? = some d) ∧
      ∀ p, (Use.register p, Reply.done) ∈ (calls.map Prod.fst).zip r.1 →
        Participant.domain p ∈ r.2.1.roster := by
  induction calls generalizing t trace with
  | nil =>
      exact ⟨settled, fun _ member => member, fun _ member => Or.inl member,
        fun _ done => absurd done List.not_mem_nil⟩
  | cons call rest ih =>
      obtain ⟨use, world⟩ := call
      obtain ⟨after, kept, asked, seat⟩ :=
        perform_settled (w := { world, trace }) settled use
      obtain ⟨last, keptLater, askedLater, seatLater⟩ := ih _ _ after
      refine ⟨last, fun _ member => keptLater (kept member), fun d member => ?_, fun p done => ?_⟩
      · rcases askedLater d member with before | ⟨asking, there, asks⟩
        · exact (asked d before).imp_right fun asks => ⟨_, List.mem_cons_self, asks⟩
        · exact Or.inr ⟨asking, List.mem_cons_of_mem _ there, asks⟩
      · rcases List.mem_cons.1 done with same | later
        · obtain ⟨same, reply⟩ := Prod.mk.inj same
          exact keptLater (seat p same.symm reply.symm)
        · exact seatLater p later

/-- **Everybody whom the uses of a new transaction involve takes part to the end.** -/
theorem recordIn_attended (calls : List (Use P W × W)) (id : TxId) (config : Config)
    (reports : Bool) :
    let r := Use.recordIn calls ({ id, config, reports } : Transaction (Recorded P)) []
    (Live r.2.1 r.2.2 ∨ Over r.2.1 r.2.2) ∧
      Use.Attended (calls.map Prod.fst) r.1 r.2.1.roster r.2.2 := by
  intro r
  obtain ⟨settled, -, asked, seated⟩ :=
    recordIn_settled calls _ [] (Or.inl (live_new (P := P) id config reports))
  refine ⟨settled, ?_, fun d member => ?_⟩
  · rintro d (⟨p, registered, rfl⟩ | ⟨c, called, rfl⟩)
    · exact seated p registered
    · exact settled.elim Live.within Over.within c called
  · obtain ⟨call, there, asks⟩ := (asked d member).resolve_left List.not_mem_nil
    exact ⟨call.1, List.mem_map_of_mem there, asks⟩

/-- The same for uses one after another. -/
theorem performAll_attended (uses : List (Use P W)) (id : TxId) (config : Config) (reports : Bool)
    (w : W) :
    let run := Use.performAll (uses.map Use.recorded)
      ({ id, config, reports } : Transaction (Recorded P)) { world := w }
    (Live run.2.1 run.2.2.trace ∨ Over run.2.1 run.2.2.trace) ∧
      Use.Attended uses run.1 run.2.1.roster run.2.2.trace := by
  have attended := recordIn_attended
    (Use.placed uses { id, config, reports } { world := w }) id config reports
  rwa [Use.placed_uses, Use.recordIn_placed] at attended

/-- **The life of every participant.**  After any uses of a new transaction, whatever its participants
answer, it is `Orderly`, and everybody the uses involved is on its roster.  The next use answers as
`Use.Answers` says while the transaction is active, and everybody who takes part stays; once it is
released the use is refused as an invalid operation and does nothing. -/
theorem Use.performAll_orderly (uses : List (Use P W)) (id : TxId) (config : Config)
    (reports : Bool) (w : W) :
    let run := performAll (uses.map Use.recorded)
      ({ id, config, reports } : Transaction (Recorded P)) { world := w }
    bareResult run = performAll uses { id, config, reports } w ∧
      Orderly run.2.1 run.2.2.trace ∧
      Attended uses run.1 run.2.1.roster run.2.2.trace ∧
      ∀ use : Use P W,
        let next := use.recorded.perform run.2.1 run.2.2
        (run.2.1.phase = .active → use.Answers run.2.1 run.2.2 next.1 next.2.1 next.2.2) ∧
          (run.2.1.phase = .released → next.2 = run.2 ∧
            ∀ action, use.action = some action →
              ∃ e, e.kind = .invalidOperation ∧ e = Transaction.notActive action .released ∧
                next.1 = .refused e) := by
  intro run
  obtain ⟨settled, attended⟩ := performAll_attended uses id config reports w
  refine ⟨(performAll_recorded uses _ _).symm, settled.elim Live.orderly Over.orderly, attended, ?_⟩
  intro use
  constructor
  · intro active
    rcases settled with live | past
    · exact (live_perform live use).1
    · rw [past.phase] at active
      cases active
  · intro released
    rw [over_perform released use]
    refine ⟨rfl, ?_⟩
    intro action named
    refine ⟨_, rfl, rfl, ?_⟩
    simp only [named]

end Run

end Transact
