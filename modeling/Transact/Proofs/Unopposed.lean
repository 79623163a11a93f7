/-
# Transact.Proofs.Unopposed -- a commit that nobody stands in the way of

Where nobody else holds what they ask for all built-in participants are locked (`lockAll_open`), and the
locks they have in hand make no difference to whether they are valid and to what they apply
(`Party.withHeld`).  So if all are valid as well, a commit answers with what came of applying
(`commit_unopposed`).

Files come first and leave pipes and threads alone.  Where the pipes can be applied and the system
starts every thread, the answer is that of the files (`applyAll_fault`).
-/
import Mathlib.Logic.IsEmpty.Basic
import Transact.Proofs.Readiness

namespace Transact

set_option autoImplicit false

/-! ## Locks -/

/-- Where nobody else holds what is asked for a request is granted, and all of it is in hand then. -/
theorem HeldLocks.acquireEach_granted {owner : TxId} (ids : List ResourceId) {h : HeldLocks}
    {t : LockTable} (open_ : ∀ id ∈ ids, t.Open owner id.key) :
    (acquireEach owner ids h t).1 = .ok () ∧
      ∀ k, k ∈ h.keys ∨ k ∈ ids.map ResourceId.key → k ∈ (acquireEach owner ids h t).2.1.keys := by
  have answered := acquireEach_answered owner ids h t
  generalize acquireEach owner ids h t = r at answered ⊢
  cases answered with
  | granted _ keys => exact ⟨rfl, fun k own => (keys k).2 own⟩
  | refused before id after split _ _ barred =>
      obtain ⟨other, holder, stranger⟩ := barred
      have asked : id ∈ ids := by
        rw [split]
        exact List.mem_append_right _ List.mem_cons_self
      rw [LockTable.holder_eq] at holder
      rcases open_ id asked with free | own
      · rw [free] at holder
        cases holder
      · rw [own] at holder
        exact absurd (Option.some.inj holder).symm stranger

section Parties

variable {G V : Type} [Participant G V] {ctx : Context} {w : World × V}

namespace Party

omit [Participant G V] in
/-- The participant with other locks in hand; those of a guest are its own affair. -/
def withHeld (held : HeldLocks) : Party G → Party G
  | .builtin (.files s) => .builtin (.files { s with held })
  | .builtin (.pipes s) => .builtin (.pipes { s with held })
  | p => p

/-- What a built-in participant saw still holds. -/
def Valid (w : World) : Party G → Prop
  | .builtin (.files s) => s.validate w = true
  | .builtin (.pipes s) => s.validate w = true
  | _ => True

variable [IsEmpty G]

omit [Participant G V] [IsEmpty G] in
/-- The resources that are asked for when the participant is locked. -/
def asked (p : Party G) : List ResourceKey := p.access.observedIds.map ResourceId.key

/-- A built-in participant is locked where nobody else holds what it asks for, and has that in hand. -/
theorem lock_open (p : Party G) (open_ : ∀ k ∈ p.asked, w.1.locks.Open ctx.tx k) :
    ∃ held locks, Participant.lock ctx p w = (.ok (), p.withHeld held, { w.1 with locks }, w.2) ∧
      (∀ k ∈ p.asked, k ∈ held.keys) ∧
        ∀ k, w.1.locks.Open ctx.tx k → LockTable.Open locks ctx.tx k := by
  have requested (h : HeldLocks) (ids : List ResourceId)
      (free : ∀ k ∈ ids.map ResourceId.key, w.1.locks.Open ctx.tx k) :
      ∃ held locks, h.acquireAll ids ctx.tx w.1.locks = (.ok (), held, locks) ∧
        (∀ k ∈ ids.map ResourceId.key, k ∈ held.keys) ∧
          ∀ k, w.1.locks.Open ctx.tx k → LockTable.Open locks ctx.tx k := by
    have each : ∀ id ∈ ResourceId.canonical ids, w.1.locks.Open ctx.tx id.key := fun id member =>
      free _ ((ResourceId.mem_keys_canonical ids _).1 (List.mem_map_of_mem member))
    obtain ⟨granted, covered⟩ := HeldLocks.acquireEach_granted (ResourceId.canonical ids) (h := h) each
    have after (k : ResourceKey) (before : w.1.locks.Open ctx.tx k) :=
      HeldLocks.open_acquireEach (ResourceId.canonical ids) h before
    rcases came : h.acquireAll ids ctx.tx w.1.locks with ⟨answer, held, locks⟩
    rw [HeldLocks.acquireAll] at came
    rw [came] at granted covered after
    cases granted
    exact ⟨held, locks, rfl, fun k member =>
      covered k (Or.inr ((ResourceId.mem_keys_canonical ids k).2 member)), after⟩
  rcases p with (s | s | s | s) | g
  · obtain ⟨held, locks, came, all⟩ := requested s.held s.access.observedIds open_
    refine ⟨held, locks, ?_, all⟩
    simp only [Participant.lock, Builtin.withState, Files.lock, came]
    rfl
  · obtain ⟨held, locks, came, all⟩ := requested s.held s.access.observedIds open_
    refine ⟨held, locks, ?_, all⟩
    simp only [Participant.lock, Builtin.withState, Pipes.lock, came]
    rfl
  · exact ⟨{}, w.1.locks, rfl, fun _ member => absurd member List.not_mem_nil, fun _ free => free⟩
  · exact ⟨{}, w.1.locks, rfl, fun _ member => absurd member List.not_mem_nil, fun _ free => free⟩
  · exact isEmptyElim g

theorem validate_valid {p : Party G} (v : Validation) (held : HeldLocks) (valid : p.Valid w.1) :
    Participant.validate ctx v (p.withHeld held) w = (true, w) := by
  rcases p with (s | s | s | s) | g
  · exact Prod.ext valid rfl
  · exact Prod.ext valid rfl
  · rfl
  · rfl
  · exact isEmptyElim g

theorem apply_withHeld (ctx : Context) (p : Party G) (held : HeldLocks) (w : World × V) :
    (Participant.apply ctx (p.withHeld held) w).1 = (Participant.apply ctx p w).1 ∧
      (Participant.apply ctx (p.withHeld held) w).2.2 = (Participant.apply ctx p w).2.2 := by
  rcases p with (s | s | s | s) | g
  · exact ⟨rfl, rfl⟩
  · exact ⟨rfl, rfl⟩
  · exact ⟨rfl, rfl⟩
  · exact ⟨rfl, rfl⟩
  · exact isEmptyElim g

end Party

/-! ## All participants -/

/-- The same participants with other locks in hand. -/
def Rearmed (members members' : List (Member (Party G))) : Prop :=
  List.Forall₂ (fun m m' => ∃ held, m' = { m with state := m.state.withHeld held }) members members'

/-- The same participants with the locks in hand that they ask for. -/
def Armed (members members' : List (Member (Party G))) : Prop :=
  List.Forall₂ (fun m m' => ∃ held, m' = { m with state := m.state.withHeld held } ∧
    ∀ k ∈ m.state.asked, k ∈ held.keys) members members'

omit [Participant G V] in
theorem Armed.rearmed {members members' : List (Member (Party G))} (armed : Armed members members') :
    Rearmed members members' :=
  armed.imp fun _ _ ⟨held, same, _⟩ => ⟨held, same⟩

variable [IsEmpty G] {members members' : List (Member (Party G))}

theorem lockAll_open (ctx : Context) (members : List (Member (Party G)))
    (open_ : ∀ m ∈ members, ∀ k ∈ m.state.asked, w.1.locks.Open ctx.tx k) :
    (lockAll ctx members w).refusal = none ∧ Armed members (lockAll ctx members w).members ∧
      ∃ locks, (lockAll ctx members w).world = ({ w.1 with locks }, w.2) := by
  induction members generalizing w with
  | nil => exact ⟨rfl, .nil, w.1.locks, rfl⟩
  | cons m rest ih =>
      obtain ⟨held, locks, taken, covers, after⟩ := m.state.lock_open (open_ m List.mem_cons_self)
      obtain ⟨granted, armed, locks', world⟩ := ih (w := ({ w.1 with locks }, w.2))
        fun other member k needed => after k (open_ other (List.mem_cons_of_mem _ member) k needed)
      simp only [lockAll, taken]
      exact ⟨granted, .cons ⟨held, rfl, covers⟩ armed, locks', world⟩

theorem Rearmed.validateAll (ctx : Context) (rearmed : Rearmed members members') (v : Validation)
    (valid : ∀ m ∈ members, m.state.Valid w.1) :
    Transact.validateAll ctx v members' w = (true, w) := by
  induction rearmed with
  | nil => rfl
  | cons here _ ih =>
      obtain ⟨held, rfl⟩ := here
      obtain ⟨first, others⟩ := List.forall_mem_cons.1 valid
      simp only [Transact.validateAll, Party.validate_valid v held first]
      exact ih others

/-- Which locks are in hand makes no difference to what fails. -/
theorem Rearmed.applyAll (rearmed : Rearmed members members') (w : World × V) :
    (Transact.applyAll ctx members' w).1 = (Transact.applyAll ctx members w).1 := by
  induction rearmed generalizing w with
  | nil => rfl
  | @cons m _ rest rest' here _ ih =>
      obtain ⟨held, rfl⟩ := here
      obtain ⟨answer, world⟩ := m.state.apply_withHeld ctx held w
      simp only [Transact.applyAll]
      rcases own : Participant.apply ctx m.state w with ⟨e | _, p, w'⟩ <;>
        rcases other : Participant.apply ctx (m.state.withHeld held) w with ⟨e' | _, p', w''⟩ <;>
        rw [own, other] at answer world <;> cases answer <;> cases world
      · rfl
      · exact ih w'

namespace Transaction

variable {t : Transaction (Party G)}

/-- **A commit that nobody stands in the way of answers with what came of applying.** -/
theorem commit_unopposed (active : t.phase = .active) (free : w.1.locks.Free)
    (valid : ∀ m ∈ t.members, m.state.Valid w.1) :
    ∃ locks, (t.commit w).1 =
      .ok (.ofApply (applyAll t.context t.members ({ w.1 with locks }, w.2)).1) := by
  obtain ⟨granted, armed, locks, world⟩ :=
    lockAll_open t.context t.members fun _ _ k _ => Or.inl (free k)
  have rearmed := armed.rearmed
  have forward : t.phase.canAdvance .locked = true := by rw [active]; rfl
  have further : Phase.canAdvance .locked .validating = true := rfl
  refine ⟨locks, ?_⟩
  simp only [commit, checkActive_active active]
  rcases taken : lockAll t.context t.members w with ⟨members, locked, refusal, w₁⟩
  rw [taken] at granted rearmed world
  simp only at granted rearmed world
  subst granted world
  have checked := rearmed.validateAll t.context (w := ({ w.1 with locks }, w.2)) .final valid
  have context : ({ t with
      phase := Phase.validating
      visited := t.visited ++ [Phase.locked] ++ [Phase.validating], members } :
      Transaction (Party G)).context = t.context := rfl
  simp only [validateAndRelease, advance, forward, further, if_true, context, checked]
  rw [applyAndRelease_eq rfl, context, rearmed.applyAll]

end Transaction

end Parties

/-! ## Applying -/

/-- The system starts every thread it is asked for. -/
def ThreadTable.Willing (t : ThreadTable) : Prop := ∀ refused ∈ t.refusals, refused = false

theorem World.refusals_runThread (w : World) (id : Nat) :
    (w.runThread id).threads.refusals = w.threads.refusals := by
  unfold World.runThread
  split
  · simp only
    split
    · rfl
    · split
      · rfl
      · split
        · rfl
        · split <;> rfl
  · rfl

theorem World.startThread_willing {w : World} (willing : w.threads.Willing) (id : Nat) :
    (w.startThread id).1 = .ok () ∧ (w.startThread id).2.threads.Willing := by
  unfold World.startThread ThreadTable.start
  split
  · next threads started =>
    split at started
    · cases started
    · cases started
      refine ⟨rfl, ?_⟩
      rw [ThreadTable.Willing, refusals_runThread]
      exact fun refused member => willing refused (List.mem_of_mem_tail member)
  · next threads refused =>
    split at refused
    · next rest refusals =>
      have agreed := willing true (by rw [refusals]; exact List.mem_cons_self)
      cases agreed
    · cases refused

/-- The system's answers decide whether threads can be applied. -/
theorem Threads.apply_willing {s : Threads} {w : World} (willing : w.threads.Willing) :
    (s.apply w).1 = .ok () ∧ (s.apply w).2.2.threads.Willing := by
  have each (rs : List (Record SpawnRequest)) {w : World} (willing : w.threads.Willing) :
      (DeferredLog.applyEach applyRecord rs w).1 = .ok () ∧
        (DeferredLog.applyEach applyRecord rs w).2.threads.Willing := by
    induction rs generalizing w with
    | nil => exact ⟨rfl, willing⟩
    | cons r rest ih =>
        obtain ⟨answer, after⟩ := World.startThread_willing willing r.payload.thread
        simp only [DeferredLog.applyEach, applyRecord]
        rcases started : w.startThread r.payload.thread with ⟨_ | _, w'⟩ <;>
          rw [started] at answer after <;> cases answer
        exact ih after
  obtain ⟨answer, after⟩ := each s.log.records willing
  simp only [apply, DeferredLog.applyAll]
  rcases done : DeferredLog.applyEach applyRecord s.log.records w with ⟨_ | _, w'⟩ <;>
    rw [done] at answer after <;> cases answer
  exact ⟨rfl, after⟩

theorem Pipes.apply_threads (s : Pipes) (w : World) : (s.apply w).2.2.threads = w.threads := by
  have record (r : Record PipeEffect) (w : World) : (s.applyRecord r w).2.threads = w.threads := by
    unfold applyRecord
    split
    · rfl
    · simp only
      split <;> rfl
  have each (rs : List (Record PipeEffect)) (w : World) :
      (DeferredLog.applyEach s.applyRecord rs w).2.threads = w.threads := by
    induction rs generalizing w with
    | nil => rfl
    | cons r rest ih =>
        have here := record r w
        simp only [DeferredLog.applyEach]
        rcases done : s.applyRecord r w with ⟨_ | _, w'⟩ <;> rw [done] at here
        · exact here
        · exact (ih w').trans here
  have all := each s.log.records w
  simp only [apply, DeferredLog.applyAll]
  rcases done : DeferredLog.applyEach s.applyRecord s.log.records w with ⟨_ | _, w'⟩ <;>
    rw [done] at all <;> exact all

/-- The pipes can be applied, as far as the pipes of the world matter. -/
def Pipes.Appliable (w : World) (s : Pipes) : Prop :=
  ∀ w' : World, w'.pipes = w.pipes → (s.apply w').1 = .ok ()

section Parties

variable {G V : Type} [Participant G V] [IsEmpty G] {ctx : Context} {w : World × V}

/-- After the files nothing fails: no pipes come after threads, and there is one of each. -/
theorem applyAll_later (ctx : Context) {members : List (Member (Party G))}
    (ascending : Ascending (domainsOf members))
    (placed : ∀ m ∈ members, ∀ b, m.state = .builtin b → m.domain = Participant.domain b)
    (later : ∀ m ∈ members, Party.files.view m.state = none)
    (pipes : ∀ m ∈ members, ∀ s, m.state = .builtin (.pipes s) → s.Appliable w.1)
    (willing : w.1.threads.Willing) : (applyAll ctx members w).1 = none := by
  induction members generalizing w with
  | nil => rfl
  | cons m rest ih =>
      obtain ⟨first, ascending⟩ := List.pairwise_cons.1 ascending
      obtain ⟨place, placed⟩ := List.forall_mem_cons.1 placed
      obtain ⟨here, later⟩ := List.forall_mem_cons.1 later
      obtain ⟨own, others⟩ := List.forall_mem_cons.1 pipes
      have past {w : World} (last : ¬ m.domain.Before .pipe) :
          ∀ m' ∈ rest, ∀ s, m'.state = .builtin (.pipes s) → s.Appliable w := by
        intro m' member s state
        have before := first m'.domain (List.mem_map_of_mem member)
        rw [placed m' member _ state] at before
        exact absurd before last
      rcases state : m.state with (s | s | s | s) | g
      · rw [state] at here
        cases here
      · have answer := own s state w.1 rfl
        have same := s.apply_threads w.1
        rcases done : s.apply w.1 with ⟨_ | _, s', w'⟩ <;> rw [done] at answer same <;> cases answer
        have next := ih (w := (w', w.2)) ascending placed later
          (past (by rw [place _ state]; exact fun before => before.ne rfl))
          (show w'.threads.Willing from same ▸ willing)
        simp only [applyAll, state, Participant.apply, Builtin.withState, done]
        exact next
      · have last : ¬ Domain.thread.Before .pipe := by simp [Domain.before_iff, Domain.rank]
        obtain ⟨answer, after⟩ := s.apply_willing willing
        rcases done : s.apply w.1 with ⟨_ | _, s', w'⟩ <;> rw [done] at answer after <;> cases answer
        have next := ih (w := (w', w.2)) ascending placed later
          (past (by rw [place _ state]; exact last)) after
        simp only [applyAll, state, Participant.apply, Builtin.withState, done]
        exact next
      · have next := ih (w := w) ascending placed later others willing
        simp only [applyAll, state, Participant.apply, Builtin.withState]
        exact next
      · exact isEmptyElim g

/-- **Applying fails where the files do**, if the pipes can be applied and every thread is started. -/
theorem Transaction.applyAll_fault (ctx : Context) {t : Transaction (Party G)} (ready : t.Ready)
    (pipes : ∀ m ∈ t.members, ∀ s, m.state = .builtin (.pipes s) → s.Appliable w.1)
    (willing : w.1.threads.Willing) :
    (applyAll ctx t.members w).1 = none ↔ ((t.seat Party.files).apply w.1).1 = .ok () := by
  have placed (m : Member (Party G)) (member : m ∈ t.members) := (ready.members m member).1.place
  have ascending := ready.ascending
  unfold seat
  generalize t.members = members at *
  rcases members with _ | ⟨m, rest⟩
  · exact iff_of_true rfl rfl
  · obtain ⟨first, ascending'⟩ := List.pairwise_cons.1 ascending
    -- Nothing comes before files, so they are the first or there are none.
    have later (m' : Member (Party G)) (member : m' ∈ rest) : Party.files.view m'.state = none := by
      have before := first m'.domain (List.mem_map_of_mem member)
      rcases state : m'.state with (s | s | s | s) | g
      · rw [placed m' (List.mem_cons_of_mem _ member) _ state] at before
        exact absurd before m.domain.not_before_file
      all_goals rfl
    cases seen : Party.files.view m.state with
    | none =>
        have all : ∀ m' ∈ m :: rest, Party.files.view m'.state = none :=
          List.forall_mem_cons.2 ⟨seen, later⟩
        have nobody : seatsOf Party.files.view (m :: rest) = [] :=
          List.filterMap_eq_nil_iff.2 all
        rw [nobody]
        exact iff_of_true (applyAll_later ctx ascending placed all pipes willing) rfl
    | some s =>
        have state := Party.lawful_files.wrap_of_view _ _ seen
        rw [seatsOf_cons_some seen, List.headD_cons]
        obtain ⟨files, versions, same⟩ := s.apply_rest w.1
        rcases done : s.apply w.1 with ⟨e | _, s', w'⟩ <;> rw [done] at same <;> cases same
        · simp only [applyAll, state, Participant.apply, Party.files, Party.facet,
            Builtin.filesFacet, Builtin.withState, done, reduceCtorEq]
        · have next := applyAll_later ctx
            (w := ({ w.1 with files, versions }, w.2)) ascending'
            (fun m' member => placed m' (List.mem_cons_of_mem _ member)) later
            (fun m' member => pipes m' (List.mem_cons_of_mem _ member)) willing
          simp only [applyAll, state, Participant.apply, Party.files, Party.facet,
            Builtin.filesFacet, Builtin.withState, done, iff_true]
          exact next

end Parties

end Transact
