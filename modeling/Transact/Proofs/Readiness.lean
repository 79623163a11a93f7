/-
# Transact.Proofs.Readiness -- what a transaction has ready for its end

Work touches every resource before it writes anything down about it.  So while a transaction is active,
all that apply and undo of its files and pipes will act on is among the resources they touched, which
are those its commit locks (`Files.Ready`, `Pipes.Ready`).  Files touch paths and pipes touch their
ends, and no participant holds a lock yet (`Ready`).

Work and registration keep it so, whatever the world is like (`Work.perform_ready`,
`Transaction.register_ready`).
-/
import Transact.Proofs.PipeFlow
import Transact.Proofs.Procedure
import Transact.Proofs.Unlocking

namespace Transact

set_option autoImplicit false

/-! ## Files -/

/-- Every record and every handle is about a path that was touched. -/
structure Files.Ready (s : Files) : Prop where
  keyed : s.access.Keyed
  paths : ∀ k ∈ s.access.observed.keys, k.sort = 0
  opened : ∀ n f, s.handles.get? n = some f → f.id.key ∈ s.access.observed.keys
  records : ∀ r ∈ s.log.records, r.resource.key ∈ s.access.observed.keys

namespace Files.Ready

variable {s : Files}

theorem fresh : ({} : Files).Ready where
  keyed := .empty
  paths _ member := absurd member List.not_mem_nil
  opened _ _ found := by cases found
  records _ member := absurd member List.not_mem_nil

theorem observe (ready : s.Ready) (v : VersionTable) {id : ResourceId} (path : id.key.sort = 0) :
    ({ s with access := s.access.observe v id } : Files).Ready where
  keyed := ready.keyed.observe v id
  paths k member :=
    ((AccessSet.mem_keys_observe ..).1 member).elim (ready.paths k) fun same => same ▸ path
  opened n f found := (AccessSet.mem_keys_observe ..).2 (Or.inl (ready.opened n f found))
  records r member := (AccessSet.mem_keys_observe ..).2 (Or.inl (ready.records r member))

theorem write (ready : s.Ready) (v : VersionTable) {id : ResourceId} (path : id.key.sort = 0) :
    ({ s with access := s.access.write v id } : Files).Ready := by
  have seen := ready.observe v path
  refine ⟨ready.keyed.write v id, ?_, ?_, ?_⟩
  · rw [AccessSet.observed_write]
    exact seen.paths
  · rw [AccessSet.observed_write]
    exact seen.opened
  · rw [AccessSet.observed_write]
    exact seen.records

theorem append (ready : s.Ready) {r : Record FileEffect}
    (touched : r.resource.key ∈ s.access.observed.keys) :
    ({ s with log := s.log.append r } : Files).Ready where
  keyed := ready.keyed
  paths := ready.paths
  opened := ready.opened
  records q member := by
    rcases List.mem_append.1 member with before | new
    · exact ready.records q before
    · rw [List.mem_singleton.1 new]
      exact touched

theorem addHandle (ready : s.Ready) {f : OpenFile} (touched : f.id.key ∈ s.access.observed.keys) :
    (s.addHandle f).2.Ready where
  keyed := ready.keyed
  paths := ready.paths
  opened n f' found := by
    by_cases new : n = s.nextHandle
    · have same : (s.handles.set s.nextHandle f).get? n = some f' := found
      rw [new, Table.get?_set_self] at same
      cases same
      exact touched
    · have same : (s.handles.set s.nextHandle f).get? n = some f' := found
      rw [Table.get?_set_of_ne _ _ new] at same
      exact ready.opened n f' same
  records := ready.records

/-- A handle may change in all but its resource. -/
theorem modify (ready : s.Ready) (n : Nat) {change : OpenFile → OpenFile}
    (same : ∀ f, (change f).id = f.id) :
    ({ s with handles := s.handles.modify n change } : Files).Ready where
  keyed := ready.keyed
  paths := ready.paths
  opened m f found := by
    have changed : (s.handles.modify n change).get? m = some f := found
    rw [Table.get?_modify] at changed
    split at changed
    · obtain ⟨f', before, rfl⟩ := Option.map_eq_some_iff.1 changed
      rw [same]
      exact ready.opened n f' before
    · exact ready.opened m f changed
  records := ready.records

theorem setOffset (ready : s.Ready) (h : FileHandle) (offset : Nat) : (s.setOffset h offset).Ready :=
  ready.modify h.number fun _ => rfl

/-- What is removed, held or numbered next does not matter. -/
theorem aside (ready : s.Ready) (nextHandle : Nat) (removed : List ResourceKey) (held : HeldLocks) :
    ({ s with nextHandle, removed, held } : Files).Ready :=
  ⟨ready.keyed, ready.paths, ready.opened, ready.records⟩

/-- What a record acts on was touched. -/
theorem targets (ready : s.Ready) {r : Record FileEffect} (member : r ∈ s.log.records)
    {id : ResourceId} (target : id ∈ Files.targets s.handles r) : id.key ∈ s.access.observed.keys := by
  unfold Files.targets at target
  split at target
  · cases target
  · cases target
  · rcases List.mem_cons.1 target with rfl | other
    · exact ready.records r member
    · obtain ⟨f, found, rfl⟩ := Option.map_eq_some_iff.1 (Option.mem_toList.1 other)
      exact ready.opened _ f found
  · rw [List.mem_singleton.1 target]
    exact ready.records r member

end Files.Ready

namespace Files

theorem sort_resource (fs : Filesystem) (path : String) : (resource fs path).key.sort = 0 := rfl

variable {s : Files} {w : World}

theorem openPath_ready (ready : s.Ready) (path : String) (flags : OpenFlags) :
    (s.openPath path flags w).2.1.Ready := by
  rcases s.openPath_cases w path flags with same | ⟨fd, created, files, made, done⟩
  · rw [same]
    exact ready
  · rw [done]
    have place := sort_resource w.files path
    have touched (a : AccessSet) :
        (resource w.files path).key ∈ (a.observe w.versions (resource w.files path)).observed.keys :=
      (AccessSet.mem_keys_observe ..).2 (Or.inr rfl)
    cases created with
    | true =>
        have written := ready.write w.versions place
        have known : (resource w.files path).key ∈
            (s.access.write w.versions (resource w.files path)).observed.keys := by
          rw [AccessSet.observed_write]
          exact touched s.access
        exact (written.append known).addHandle known
    | false => exact (ready.observe w.versions place).addHandle (touched s.access)

theorem adopt_ready (ready : s.Ready) (descriptor : Nat) (path : String) :
    (s.adopt descriptor path w).2.1.Ready := by
  simp only [Files.adopt]
  rcases s.checkNotRemoved (resource w.files path) with e | _
  · exact ready
  · have touched : (resource w.files path).key ∈
        (s.access.observe w.versions (resource w.files path)).observed.keys :=
      (AccessSet.mem_keys_observe ..).2 (Or.inr rfl)
    exact ((ready.observe w.versions (sort_resource w.files path)).addHandle touched).append touched

theorem read_ready (ready : s.Ready) (h : FileHandle) (len : Nat) :
    (s.read h len w).2.1.Ready := by
  unfold Files.read
  cases allowed : s.checkReadable h with
  | error e => exact ready
  | ok f =>
      have touched := ready.opened h.number f (handle_of_open (open_of_readable allowed))
      have seen := ready.observe w.versions (ready.paths _ touched)
      simp only
      rcases w.files.readAt f.descriptor f.offset len with ⟨e | window, files⟩
      · exact seen
      · exact seen.setOffset h _

theorem write_ready (ready : s.Ready) (h : FileHandle) (bytes : Bytes) :
    (s.write h bytes w).2.1.Ready := by
  unfold Files.write
  cases allowed : s.checkWritable h with
  | error e => exact ready
  | ok f =>
      have touched := ready.opened h.number f (handle_of_open (open_of_writable allowed))
      have written := ready.write w.versions (ready.paths _ touched)
      refine Ready.setOffset (written.append ?_) h _
      rw [AccessSet.observed_write]
      exact (AccessSet.mem_keys_observe ..).2 (Or.inr rfl)

theorem seek_ready (ready : s.Ready) (h : FileHandle) (pos : SeekFrom) :
    (s.seek h pos w).2.1.Ready := by
  unfold Files.seek
  rcases s.openFile h with e | f
  · exact ready
  · simp only
    rcases s.seekTarget f w.files pos with _ | offset
    · exact ready
    · exact ready.setOffset h offset

theorem close_ready (ready : s.Ready) (h : FileHandle) : (s.close h w).2.1.Ready := by
  unfold Files.close
  rcases s.openFile h with e | f
  · exact ready
  · exact ready.modify h.number fun _ => rfl

theorem remove_ready (ready : s.Ready) (path : String) : (s.remove path w).2.1.Ready := by
  simp only [Files.remove]
  rcases s.checkNotRemoved (resource w.files path) with e | _
  · exact ready
  · cases w.files.names path with
    | false => exact ready
    | true =>
        have written := ready.write w.versions (sort_resource w.files path)
        refine Ready.aside (written.append ?_) _ _ _
        rw [AccessSet.observed_write]
        exact (AccessSet.mem_keys_observe ..).2 (Or.inr rfl)

end Files

/-- A job on files touches what it writes down, and locks nothing. -/
theorem Filing.perform_ready {s : Files} (ready : s.Ready) (w : World) (job : Filing) :
    (job.perform s w).2.1.Ready := by
  cases job with
  | adopt descriptor path => exact Files.adopt_ready ready descriptor path
  | remove path => exact Files.remove_ready ready path
  | plain job =>
      cases job with
      | openPath path flags => exact Files.openPath_ready ready path flags
      | read h len => exact Files.read_ready ready h len
      | write h bytes => exact Files.write_ready ready h bytes
      | seek h pos => exact Files.seek_ready ready h pos
      | tell h => exact ready
      | close h => exact Files.close_ready ready h

theorem Files.Filed.held {s s' : Files} {w w' : World} (filed : Filed w s w' s') :
    s'.held = s.held := by
  cases filed with
  | found at_ => rfl
  | created at_ => rfl
  | adopted fd id => rfl
  | quiet moved touched => exact touched.held

/-- A job on files takes no lock. -/
theorem Filing.perform_held (s : Files) (w : World) (job : Filing) :
    (job.perform s w).2.1.held = s.held := by
  cases job with
  | adopt descriptor path =>
      simp only [perform, Files.adopt]
      rcases s.checkNotRemoved (Files.resource w.files path) with e | _ <;> rfl
  | remove path =>
      simp only [perform, Files.remove]
      rcases s.checkNotRemoved (Files.resource w.files path) with e | _
      · rfl
      · cases w.files.names path <;> rfl
  | plain job =>
      cases job with
      | openPath path flags =>
          simp only [perform, FileWork.perform]
          rcases s.openPath_cases w path flags with same | ⟨fd, created, files, -, done⟩
          · rw [same]
          · rw [done]
            rfl
      | read h len => exact (Files.read_filed h len).held
      | write h bytes => exact (Files.write_filed h bytes).held
      | seek h pos => exact (Files.seek_filed h pos).held
      | tell h => rfl
      | close h => exact (Files.close_filed h).held

/-! ## Pipes -/

/-- Every record is about ends of pipes that were touched. -/
structure Pipes.Ready (s : Pipes) : Prop where
  keyed : s.access.Keyed
  ends : ∀ k ∈ s.access.observed.keys, k.sort = 1 ∨ k.sort = 2
  records : ∀ r ∈ s.log.records, ∀ id ∈ Pipes.targets r, id.key ∈ s.access.observed.keys

namespace Pipes.Ready

variable {s : Pipes}

theorem fresh : ({} : Pipes).Ready where
  keyed := .empty
  ends _ member := absurd member List.not_mem_nil
  records _ member := absurd member List.not_mem_nil

theorem write (ready : s.Ready) (v : VersionTable) {id : ResourceId}
    (end_ : id.key.sort = 1 ∨ id.key.sort = 2) (cursors : Table Nat ReadCursor) (tracked : List Nat) :
    ({ s with access := s.access.write v id, cursors, tracked } : Pipes).Ready := by
  refine ⟨ready.keyed.write v id, ?_, ?_⟩
  · rw [AccessSet.observed_write]
    intro k member
    rcases (AccessSet.mem_keys_observe ..).1 member with before | rfl
    · exact ready.ends k before
    · exact end_
  · rw [AccessSet.observed_write]
    intro r member id' target
    exact (AccessSet.mem_keys_observe ..).2 (Or.inl (ready.records r member id' target))

theorem append (ready : s.Ready) {r : Record PipeEffect}
    (touched : ∀ id ∈ Pipes.targets r, id.key ∈ s.access.observed.keys) :
    ({ s with log := s.log.append r } : Pipes).Ready where
  keyed := ready.keyed
  ends := ready.ends
  records q member := by
    rcases List.mem_append.1 member with before | new
    · exact ready.records q before
    · rw [List.mem_singleton.1 new]
      exact touched

/-- Where reads go on, and what is held, does not matter. -/
theorem aside (ready : s.Ready) (cursors : Table Nat ReadCursor) (held : HeldLocks) :
    ({ s with cursors, held } : Pipes).Ready :=
  ⟨ready.keyed, ready.ends, ready.records⟩

end Pipes.Ready

namespace Pipes

variable {s : Pipes} {w : World}

theorem track_eq (s : Pipes) (pipe : Nat) : ∃ tracked, s.track pipe = { s with tracked } := by
  unfold track
  split
  · exact ⟨_, rfl⟩
  · exact ⟨_, rfl⟩

theorem write_ready (ready : s.Ready) (pipe : Nat) (bytes : Bytes) :
    (s.write pipe bytes w).2.1.Ready := by
  obtain ⟨tracked, same⟩ := s.track_eq pipe
  unfold Pipes.write
  cases w.pipes.get? pipe with
  | none => exact ready
  | some p =>
      simp only
      split
      · rw [same]
        have written := ready.write w.versions (Or.inr rfl : p.writeId.key.sort = 1 ∨ _) s.cursors tracked
        refine written.append fun id target => ?_
        have here : id = p.writeId := by
          rcases List.mem_cons.1 target with same | rest
          · exact same
          · exact List.mem_singleton.1 rest
        rw [here, AccessSet.observed_write]
        exact (AccessSet.mem_keys_observe ..).2 (Or.inr rfl)
      · exact ready

theorem read_ready (ready : s.Ready) (chunk : Nat → Nat) (pipe max : Nat) :
    (s.read chunk pipe max w).2.1.Ready := by
  obtain ⟨tracked, same⟩ := s.track_eq pipe
  unfold Pipes.read
  cases w.pipes.get? pipe with
  | none => exact ready
  | some p =>
      simp only [same]
      have seen (cursors : Table Nat ReadCursor) :=
        ready.write w.versions (Or.inl rfl : p.readId.key.sort = 1 ∨ _) cursors tracked
      generalize (s.cursors.get? pipe).getD { start := p.front, next := p.front } = cursor
      rcases looked : p.peekAt chunk cursor.next max with ⟨reading, p'⟩
      have known : p'.readId = p.readId := congrArg ResourceId.pipeRead (Pipe.peekAt_flows looked).1.id
      simp only [known]
      cases reading with
      | failed e => exact seen _
      | waits => exact seen _
      | bytes content =>
        simp only
        split
        · exact (seen s.cursors).aside _ _
        · refine ((seen s.cursors).aside _ _).append fun id target => ?_
          have here : id = p.readId := by
            rcases List.mem_cons.1 target with same | rest
            · exact same
            · exact List.mem_singleton.1 rest
          rw [here, AccessSet.observed_write]
          exact (AccessSet.mem_keys_observe ..).2 (Or.inr rfl)

theorem write_held (s : Pipes) (w : World) (pipe : Nat) (bytes : Bytes) :
    (s.write pipe bytes w).2.1.held = s.held := by
  obtain ⟨tracked, same⟩ := s.track_eq pipe
  unfold Pipes.write
  cases w.pipes.get? pipe with
  | none => rfl
  | some p =>
      simp only [same]
      split <;> rfl

theorem read_held (s : Pipes) (w : World) (chunk : Nat → Nat) (pipe max : Nat) :
    (s.read chunk pipe max w).2.1.held = s.held := by
  obtain ⟨tracked, same⟩ := s.track_eq pipe
  unfold Pipes.read
  cases w.pipes.get? pipe with
  | none => rfl
  | some p =>
      simp only [same]
      split
      · rfl
      · rfl
      · split <;> rfl

end Pipes

/-! ## Participants of a transaction -/

namespace Transaction

variable {P W M α : Type} (facet : Facet P M) {t t' : Transaction P}

/-- A transaction that makes sure of a participant is as it was, or has a fresh one more. -/
inductive Ensured (facet : Facet P M) (t : Transaction P) : Transaction P → Prop where
  | same : Ensured facet t t
  | fresh : Ensured facet t (t.insert { domain := facet.domain, state := facet.wrap facet.fresh })

theorem ensure_ensured {facet : Facet P M} (ensured : t.ensure facet = .ok t') : Ensured facet t t' := by
  unfold ensure at ensured
  split at ensured
  · cases ensured
    exact .same
  · split at ensured <;> cases ensured
    exact .fresh

theorem Ensured.context {facet : Facet P M} (ensured : Ensured facet t t') :
    t'.context = t.context := by
  cases ensured <;> rfl

/-- The participant that work goes to, if it gets that far. -/
def reach (facet : Facet P M) (t : Transaction P) : Option M :=
  match t.checkActive "use a module" with
  | .error _ => none
  | .ok () =>
      match t.ensure facet with
      | .error _ => none
      | .ok t => t.module? facet

/-- What becomes of a transaction and the world by work. -/
inductive Worked (facet : Facet P M) (f : Context → M → W → Except Error α × M × W)
    (t : Transaction P) (w : W) : Transaction P × W → Prop where
  | idle {t' : Transaction P} (ensured : Ensured facet t t') (unreached : t.reach facet = none) :
      Worked facet f t w (t', w)
  | done {t' : Transaction P} {before after : List (Member P)} {m : Member P} {s : M}
      (ensured : Ensured facet t t') (members : t'.members = before ++ m :: after)
      (seen : facet.view m.state = some s) (reached : t.reach facet = some s) :
      Worked facet f t w
        ({ t' with
          members := before ++ { m with state := facet.wrap (f t.context s w).2.1 } :: after },
        (f t.context s w).2.2)

/-- **Work changes the participant that it goes to**, and no other. -/
theorem withModule_worked (facet : Facet P M) (f : Context → M → W → Except Error α × M × W)
    (t : Transaction P) (w : W) : Worked facet f t w (withModule facet f t w).2 := by
  unfold withModule
  rcases active : t.checkActive "use a module" with e | _
  · exact .idle .same (by simp only [reach, active])
  · cases ensured : t.ensure facet with
    | error e => exact .idle .same (by simp only [reach, active, ensured])
    | ok t' =>
        have grown := ensure_ensured ensured
        cases found : findFacet facet t'.members with
        | none =>
            simp only [found]
            exact .idle grown (by simp only [reach, active, ensured, module?, found]; rfl)
        | some both =>
            obtain ⟨s, put⟩ := both
            obtain ⟨before, m, after, split, seen, back⟩ := findFacet_split found
            simp only [found, back, grown.context]
            exact .done grown split seen
              (by simp only [reach, active, ensured, module?, found]; rfl)

/-- **Work keeps what holds of every participant** if that holds of a fresh one and is kept by what is
done, and leaves the domains in their order. -/
theorem withModule_keeps {Q : Member P → Prop} {f : Context → M → W → Except Error α × M × W} {w : W}
    (fresh : Q { domain := facet.domain, state := facet.wrap facet.fresh })
    (kept : ∀ m s, facet.view m.state = some s → Q m →
      Q { m with state := facet.wrap (f t.context s w).2.1 })
    (ascending : Ascending (domainsOf t.members)) (all : ∀ m ∈ t.members, Q m) :
    Ascending (domainsOf (withModule facet f t w).2.1.members) ∧
      ∀ m ∈ (withModule facet f t w).2.1.members, Q m := by
  have grown {t' : Transaction P} (ensured : Ensured facet t t') :
      Ascending (domainsOf t'.members) ∧ ∀ m ∈ t'.members, Q m := by
    cases ensured with
    | same => exact ⟨ascending, all⟩
    | fresh =>
        refine ⟨insertMember_ascending ascending, fun m member => ?_⟩
        rcases mem_insertMember member with rfl | there
        · exact fresh
        · exact all m there
  generalize (withModule facet f t w).2 = r, withModule_worked facet f t w = worked
  cases worked with
  | idle ensured _ => exact grown ensured
  | @done t' before after m s ensured members seen _ =>
      obtain ⟨ascending', all'⟩ := grown ensured
      rw [members] at ascending' all'
      refine ⟨?_, fun m' member => ?_⟩
      · simp only [domainsOf, List.map_append, List.map_cons] at ascending' ⊢
        exact ascending'
      · rcases List.mem_append.1 member with left | right
        · exact all' m' (List.mem_append_left _ left)
        · rcases List.mem_cons.1 right with rfl | later
          · exact kept m s seen (all' m (List.mem_append_right _ List.mem_cons_self))
          · exact all' m' (List.mem_append_right _ (List.mem_cons_of_mem _ later))

theorem withModule_frame (f : Context → M → W → Except Error α × M × W) (t : Transaction P) (w : W) :
    ∃ members roster, (withModule facet f t w).2.1 = { t with members, roster } := by
  have grown {t' : Transaction P} (ensured : Ensured facet t t') :
      ∃ members roster, t' = { t with members, roster } := by
    cases ensured with
    | same => exact ⟨_, _, rfl⟩
    | fresh => exact ⟨_, _, rfl⟩
  generalize (withModule facet f t w).2 = r, withModule_worked facet f t w = worked
  cases worked with
  | idle ensured _ => exact grown ensured
  | done ensured _ _ _ =>
      obtain ⟨members, roster, rfl⟩ := grown ensured
      exact ⟨_, roster, rfl⟩

end Transaction

section Parties

variable {G V M α : Type}

/-- What a participant touched. -/
def Party.access : Party G → AccessSet
  | .builtin (.files s) => s.access
  | .builtin (.pipes s) => s.access
  | _ => {}

/-- The resources that are locked for a participant. -/
def Party.needs (p : Party G) : List ResourceKey := p.access.observed.keys

def Party.Ready : Party G → Prop
  | .builtin (.files s) => s.Ready
  | .builtin (.pipes s) => s.Ready
  | _ => True

theorem Party.Ready.keyed {p : Party G} (ready : p.Ready) : p.access.Keyed := by
  rcases p with (s | s | s | s) | g
  · exact Files.Ready.keyed ready
  · exact Pipes.Ready.keyed ready
  all_goals exact .empty

/-- Built-in participants stand under their own domains. -/
structure Member.Ready (m : Member (Party G)) : Prop where
  place : ∀ b, m.state = .builtin b → m.domain = Participant.domain b
  ready : m.state.Ready

/-- What a transaction needs for its end was touched, and it holds no lock. -/
structure Transaction.Ready (t : Transaction (Party G)) : Prop where
  ascending : Ascending (domainsOf t.members)
  members : ∀ m ∈ t.members, m.Ready ∧ m.state.held = {}

namespace Transaction

variable {t : Transaction (Party G)}

theorem Ready.fresh (who : TxId) (config : Config) :
    ({ id := who, config } : Transaction (Party G)).Ready where
  ascending := .nil
  members _ member := absurd member List.not_mem_nil

/-- Who has left has nothing to end. -/
theorem Ready.ended (visited : List Phase) (outcome : Outcome) : (t.ended visited outcome).Ready where
  ascending := .nil
  members _ member := absurd member List.not_mem_nil

/-- Work of a built-in participant that keeps it ready. -/
theorem withModule_ready (ready : t.Ready) {of_ : Facet Builtin M}
    (lawful : (Party.facet of_ : Facet (Party G) M).Lawful)
    (place : ∀ s, Participant.domain (of_.wrap s) = of_.domain)
    {f : M → World → Except Error α × M × World} {w : World × V}
    (fresh : (Party.builtin (of_.wrap of_.fresh) : Party G).Ready ∧
      (Party.builtin (of_.wrap of_.fresh) : Party G).held = {})
    (kept : ∀ s, (Party.builtin (of_.wrap s) : Party G).Ready →
      (Party.builtin (of_.wrap s) : Party G).held = {} →
      (Party.builtin (of_.wrap (f s w.1).2.1) : Party G).Ready ∧
        (Party.builtin (of_.wrap (f s w.1).2.1) : Party G).held = {}) :
    (withModule (Party.facet of_) (onWorld f) t w).2.1.Ready := by
  have all := withModule_keeps (Party.facet of_) (t := t) (w := w)
    (Q := fun m => m.Ready ∧ m.state.held = {}) (f := onWorld f)
    ⟨⟨fun b same => ?_, fresh.1⟩, fresh.2⟩ (fun m s seen held => ?_) ready.ascending ready.members
  · exact ⟨all.1, all.2⟩
  · cases same
    exact (place of_.fresh).symm
  · have here := lawful.wrap_of_view _ _ seen
    obtain ⟨⟨placed, sound⟩, free⟩ := held
    rw [here] at sound free
    obtain ⟨sound', free'⟩ := kept s sound free
    refine ⟨⟨fun b same => ?_, sound'⟩, free'⟩
    cases same
    exact (placed _ here).trans ((place s).trans (place _).symm)

theorem register_ready [Participant G V] (ready : t.Ready) (g : G) :
    (t.register (Party.guest g)).2.Ready := by
  unfold register
  rcases t.checkActive "register a module" with e | _
  · exact ready
  · refine ⟨insertMember_ascending ready.ascending, fun m member => ?_⟩
    rcases mem_insertMember member with rfl | there
    · refine ⟨⟨fun b same => ?_, trivial⟩, rfl⟩
      cases same
    · exact ready.members m there

theorem register_id [Participant G V] (t : Transaction (Party G)) (g : G) :
    (t.register (Party.guest g)).2.id = t.id := by
  unfold register
  rcases t.checkActive "register a module" with e | _ <;> rfl

end Transaction

/-- **Work keeps a transaction ready for its end**, whatever the world is like. -/
theorem Work.perform_ready (chunk : Nat → Nat → Nat) {t : Transaction (Party G)} (ready : t.Ready)
    (w : World × V) (work : Work) : (work.perform chunk t w).1.Ready := by
  cases work with
  | files job =>
      refine Transaction.withModule_ready ready Party.lawful_files (fun _ => rfl) ⟨.fresh, rfl⟩
        fun s sound free => ⟨job.perform_ready sound w.1, ?_⟩
      exact (job.perform_held s w.1).trans free
  | readPipe pipe max =>
      refine Transaction.withModule_ready ready Party.lawful_pipes (fun _ => rfl) ⟨.fresh, rfl⟩
        fun s sound free => ⟨Pipes.read_ready sound (chunk pipe) pipe max, ?_⟩
      exact (Pipes.read_held s w.1 (chunk pipe) pipe max).trans free
  | writePipe pipe bytes =>
      refine Transaction.withModule_ready ready Party.lawful_pipes (fun _ => rfl) ⟨.fresh, rfl⟩
        fun s sound free => ⟨Pipes.write_ready sound pipe bytes, ?_⟩
      exact (Pipes.write_held s w.1 pipe bytes).trans free
  | spawn name task =>
      exact Transaction.withModule_ready ready Party.lawful_threads (fun _ => rfl) ⟨trivial, rfl⟩
        fun _ _ _ => ⟨trivial, rfl⟩
  | yieldOnce =>
      exact Transaction.withModule_ready ready Party.lawful_yields (fun _ => rfl) ⟨trivial, rfl⟩
        fun _ _ _ => ⟨trivial, rfl⟩

/-- Work changes participants alone. -/
theorem Work.perform_frame (chunk : Nat → Nat → Nat) (t : Transaction (Party G)) (w : World × V)
    (work : Work) : ∃ members roster, (work.perform chunk t w).1 = { t with members, roster } := by
  cases work <;> exact Transaction.withModule_frame ..

theorem Work.perform_phase (chunk : Nat → Nat → Nat) (t : Transaction (Party G)) (w : World × V)
    (work : Work) : (work.perform chunk t w).1.phase = t.phase := by
  obtain ⟨members, roster, same⟩ := work.perform_frame chunk t w
  rw [same]

theorem Work.perform_visited (chunk : Nat → Nat → Nat) (t : Transaction (Party G)) (w : World × V)
    (work : Work) : (work.perform chunk t w).1.visited = t.visited := by
  obtain ⟨members, roster, same⟩ := work.perform_frame chunk t w
  rw [same]

theorem Work.perform_id (chunk : Nat → Nat → Nat) (t : Transaction (Party G)) (w : World × V)
    (work : Work) : (work.perform chunk t w).1.id = t.id := by
  obtain ⟨members, roster, same⟩ := work.perform_frame chunk t w
  rw [same]

theorem Pipes.read_unshared (s : Pipes) (w : World) (chunk : Nat → Nat) (pipe max : Nat) :
    Unshared w (s.read chunk pipe max w).2.2 := by
  unfold Pipes.read
  cases w.pipes.get? pipe with
  | none => exact ⟨rfl, rfl⟩
  | some p =>
      simp only
      split
      · exact ⟨rfl, rfl⟩
      · exact ⟨rfl, rfl⟩
      · split <;> exact ⟨rfl, rfl⟩

theorem Pipes.write_unshared (s : Pipes) (w : World) (pipe : Nat) (bytes : Bytes) :
    Unshared w (s.write pipe bytes w).2.2 := by
  unfold Pipes.write
  cases w.pipes.get? pipe with
  | none => exact ⟨rfl, rfl⟩
  | some p =>
      simp only
      split <;> exact ⟨rfl, rfl⟩

/-- **Work takes no lock and publishes nothing.** -/
theorem Work.perform_unshared (chunk : Nat → Nat → Nat) (t : Transaction (Party G)) (w : World × V)
    (work : Work) : Unshared w.1 (work.perform chunk t w).2.1 := by
  rcases work.perform_world chunk t w with
    ⟨files, threads, same⟩ | ⟨s, pipe, max, same⟩ | ⟨s, pipe, bytes, same⟩ <;> rw [same]
  · exact ⟨rfl, rfl⟩
  · exact s.read_unshared w.1 (chunk pipe) pipe max
  · exact s.write_unshared w.1 pipe bytes

end Parties

end Transact
