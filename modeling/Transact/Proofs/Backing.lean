/-
# Transact.Proofs.Backing -- what is written down has its backing

Work writes a record down when it has what apply will ask for: a file that was opened, a pipe that is
tracked, bytes that were pulled.  `Files.Backed` and `Pipes.Backed` say that it is still there.

A record of the file log is about a path, and a write goes through a handle in the table, closed or not.
A record of the pipe log is about a pipe that is tracked and open, and the bytes that were read were
pulled from it; both stay so while others go on with the pipe (`Pipes.Backing.mono`).  All work keeps
what is written down backed (`Work.perform_backed`).
-/
import Transact.Proofs.Pulling
import Transact.Proofs.UntouchedPipes

namespace Transact

set_option autoImplicit false

/-! ## Files -/

/-- Handles and records are about paths, and writes go through handles that are there. -/
structure Files.Backed (s : Files) : Prop where
  opened : ∀ n f, s.handles.get? n = some f → ∃ path, f.id = .path path
  paths : ∀ r ∈ s.log.records, ∃ path, r.resource = .path path
  handles : ∀ r ∈ s.log.records, ∀ h offset bytes, r.payload = .write h offset bytes →
    s.handles.get? h.number ≠ none

namespace Files.Backed

variable {s : Files}

theorem fresh : ({} : Files).Backed where
  opened _ _ found := by cases found
  paths _ member := absurd member List.not_mem_nil
  handles _ member := absurd member List.not_mem_nil

/-- What was touched, removed or locked does not matter. -/
theorem aside (backed : s.Backed) (removed : List ResourceKey) (access : AccessSet) (held : HeldLocks) :
    ({ s with removed, access, held } : Files).Backed :=
  ⟨backed.opened, backed.paths, backed.handles⟩

theorem append (backed : s.Backed) (r : Record FileEffect) (path : ∃ path, r.resource = .path path)
    (handle : ∀ h offset bytes, r.payload = .write h offset bytes → s.handles.get? h.number ≠ none) :
    ({ s with log := s.log.append r } : Files).Backed where
  opened := backed.opened
  paths q member := by
    rcases List.mem_append.1 member with before | new
    · exact backed.paths q before
    · rw [List.mem_singleton.1 new]
      exact path
  handles q member h offset bytes write := by
    rcases List.mem_append.1 member with before | new
    · exact backed.handles q before h offset bytes write
    · rw [List.mem_singleton.1 new] at write
      exact handle h offset bytes write

theorem addHandle (backed : s.Backed) (f : OpenFile) (path : ∃ path, f.id = .path path) :
    (s.addHandle f).2.Backed where
  opened n f' found := by
    have found : (s.handles.set s.nextHandle f).get? n = some f' := found
    by_cases new : n = s.nextHandle
    · rw [new, Table.get?_set_self] at found
      cases found
      exact path
    · rw [Table.get?_set_of_ne _ _ new] at found
      exact backed.opened n f' found
  paths := backed.paths
  handles r member h offset bytes write := by
    show (s.handles.set s.nextHandle f).get? h.number ≠ none
    by_cases new : h.number = s.nextHandle
    · rw [new, Table.get?_set_self]
      exact Option.some_ne_none f
    · rw [Table.get?_set_of_ne _ _ new]
      exact backed.handles r member h offset bytes write

/-- A handle may change in all but its resource; it stays in the table. -/
theorem modify (backed : s.Backed) (n : Nat) {change : OpenFile → OpenFile}
    (same : ∀ f, (change f).id = f.id) :
    ({ s with handles := s.handles.modify n change } : Files).Backed where
  opened m f found := by
    have found : (s.handles.modify n change).get? m = some f := found
    rw [Table.get?_modify] at found
    split at found
    · obtain ⟨f', before, rfl⟩ := Option.map_eq_some_iff.1 found
      rw [same]
      exact backed.opened n f' before
    · exact backed.opened m f found
  paths := backed.paths
  handles r member h offset bytes write := by
    have there := backed.handles r member h offset bytes write
    show (s.handles.modify n change).get? h.number ≠ none
    rw [Table.get?_modify]
    split
    · next here =>
      rw [here] at there
      exact fun gone => there (Option.map_eq_none_iff.1 gone)
    · exact there

end Files.Backed

namespace Files

variable {s : Files} {w : World}

theorem openPath_backed (backed : s.Backed) (path : String) (flags : OpenFlags) :
    (s.openPath path flags w).2.1.Backed := by
  rcases s.openPath_cases w path flags with same | ⟨fd, created, files, -, done⟩
  · rw [same]
    exact backed
  · rw [done]
    have place : ∃ path', resource w.files path = .path path' := ⟨_, rfl⟩
    cases created with
    | true =>
        have written := backed.append (.eager (resource w.files path) .absent .create) place
          fun _ _ _ write => by cases write
        exact Backed.addHandle (written.aside s.removed _ s.held) _ place
    | false =>
        have touched := backed.aside s.removed (s.access.observe w.versions (resource w.files path)) s.held
        exact touched.addHandle { id := resource w.files path, descriptor := fd, offset := 0, flags } place

theorem adopt_backed (backed : s.Backed) (descriptor : Nat) (path : String) :
    (s.adopt descriptor path w).2.1.Backed := by
  simp only [Files.adopt]
  rcases s.checkNotRemoved (resource w.files path) with e | _
  · exact backed
  · refine Backed.append (Backed.addHandle (backed.aside s.removed _ s.held) _ ?_) _ ?_
      fun _ _ _ write => by cases write
    · exact ⟨_, rfl⟩
    · exact ⟨_, rfl⟩

theorem read_backed (backed : s.Backed) (h : FileHandle) (len : Nat) : (s.read h len w).2.1.Backed := by
  unfold Files.read
  rcases s.checkReadable h with e | f
  · exact backed
  · simp only
    rcases w.files.readAt f.descriptor f.offset len with ⟨e | window, files⟩
    · exact backed.aside s.removed _ s.held
    · exact Backed.modify (backed.aside s.removed _ s.held) h.number fun _ => rfl

/-- A write is written down under the path its file was opened at. -/
theorem write_backed (backed : s.Backed) (h : FileHandle) (bytes : Bytes) :
    (s.write h bytes w).2.1.Backed := by
  unfold Files.write
  cases allowed : s.checkWritable h with
  | error e => exact backed
  | ok f =>
      have found := handle_of_open (open_of_writable allowed)
      have touched := backed.aside s.removed (s.access.write w.versions f.id) s.held
      refine Backed.modify (touched.append (.deferred f.id (.write h _ bytes)) ?_ ?_) h.number
        fun _ => rfl
      · exact backed.opened h.number f found
      · intro h' offset content write
        cases write
        show s.handles.get? h.number ≠ none
        rw [found]
        exact Option.some_ne_none f

theorem seek_backed (backed : s.Backed) (h : FileHandle) (pos : SeekFrom) :
    (s.seek h pos w).2.1.Backed := by
  unfold Files.seek
  rcases s.openFile h with e | f
  · exact backed
  · simp only
    rcases s.seekTarget f w.files pos with _ | offset
    · exact backed
    · exact backed.modify h.number fun _ => rfl

theorem close_backed (backed : s.Backed) (h : FileHandle) : (s.close h w).2.1.Backed := by
  unfold Files.close
  rcases s.openFile h with e | f
  · exact backed
  · exact backed.modify h.number fun _ => rfl

theorem remove_backed (backed : s.Backed) (path : String) : (s.remove path w).2.1.Backed := by
  simp only [Files.remove]
  rcases s.checkNotRemoved (resource w.files path) with e | _
  · exact backed
  · cases w.files.names path with
    | false => exact backed
    | true =>
        have written := backed.append (.deferred (resource w.files path) .remove) ⟨_, rfl⟩
          fun _ _ _ write => by cases write
        exact written.aside _ _ s.held

end Files

/-- **A job on files keeps what is written down backed**, whatever the file system is like. -/
theorem Filing.perform_backed {s : Files} (backed : s.Backed) (w : World) (job : Filing) :
    (job.perform s w).2.1.Backed := by
  cases job with
  | adopt descriptor path => exact Files.adopt_backed backed descriptor path
  | remove path => exact Files.remove_backed backed path
  | plain job =>
      cases job with
      | openPath path flags => exact Files.openPath_backed backed path flags
      | read h len => exact Files.read_backed backed h len
      | write h bytes => exact Files.write_backed backed h bytes
      | seek h pos => exact Files.seek_backed backed h pos
      | tell h => exact backed
      | close h => exact Files.close_backed backed h

/-! ## Pipes -/

namespace Pipes

/-- A record about a pipe that is tracked and there; what was read was pulled. -/
inductive Backing (tracked : List Nat) (t : PipeTable) : Record PipeEffect → Prop where
  | write {pipe : Nat} {p : Pipe} (bytes : Bytes) (known : pipe ∈ tracked)
      (there : t.get? pipe = some p) : Backing tracked t (.deferred (.pipeWrite pipe) (.write bytes))
  | read {pipe : Nat} {p : Pipe} (offset : Nat) (bytes : Bytes) (known : pipe ∈ tracked)
      (there : t.get? pipe = some p) (pulled : offset + bytes.length ≤ p.reach) :
      Backing tracked t (.deferred (.pipeRead pipe) (.read offset bytes))

/-- Every record has its backing. -/
def Backed (t : PipeTable) (s : Pipes) : Prop := ∀ r ∈ s.log.records, Backing s.tracked t r

variable {tracked tracked' : List Nat} {t t' : PipeTable} {s : Pipes} {w : World}
  {r : Record PipeEffect}

/-- **The backing stays**, whatever others do to the pipe. -/
theorem Backing.mono (backing : Backing tracked t r) (within : ∀ pipe ∈ tracked, pipe ∈ tracked')
    (grows : t.Grows t') : Backing tracked' t' r := by
  cases backing with
  | write bytes known there =>
      obtain ⟨p', there', -⟩ := grows.pipes _ _ there
      exact .write bytes (within _ known) there'
  | read offset bytes known there pulled =>
      obtain ⟨p', there', further⟩ := grows.pipes _ _ there
      exact .read offset bytes (within _ known) there' (Nat.le_trans pulled further)

theorem Backed.fresh (t : PipeTable) : Backed t {} := fun _ member => absurd member List.not_mem_nil

theorem Backed.mono (backed : s.Backed t) (grows : t.Grows t') : s.Backed t' :=
  fun r member => (backed r member).mono (fun _ known => known) grows

/-- More is tracked, and one record more is written down. -/
theorem Backed.append (backed : s.Backed t) (within : ∀ pipe ∈ s.tracked, pipe ∈ tracked)
    (grows : t.Grows t') (new : Backing tracked t' r) (cursors : Table Nat ReadCursor)
    (access : AccessSet) :
    Backed t' { s with tracked, cursors, access, log := s.log.append r } := by
  intro q member
  rcases List.mem_append.1 member with before | last
  · exact (backed q before).mono within grows
  · rw [List.mem_singleton.1 last]
    exact new

/-- More is tracked, and nothing is written down. -/
theorem Backed.aside (backed : s.Backed t) (within : ∀ pipe ∈ s.tracked, pipe ∈ tracked)
    (grows : t.Grows t') (cursors : Table Nat ReadCursor) (access : AccessSet) :
    Backed t' { s with tracked, cursors, access } :=
  fun q member => (backed q member).mono within grows

theorem track_within (s : Pipes) (pipe : Nat) :
    ∃ tracked, s.track pipe = { s with tracked } ∧ (∀ other ∈ s.tracked, other ∈ tracked) ∧
      pipe ∈ tracked := by
  obtain ⟨tracked, same⟩ := s.track_eq pipe
  have member (other : Nat) : other ∈ tracked ↔ other ∈ s.tracked ∨ other = pipe := by
    have all : other ∈ (s.track pipe).tracked ↔ other ∈ s.tracked ∨ other = pipe := mem_tracked_track
    rwa [same] at all
  exact ⟨tracked, same, fun other known => (member other).2 (Or.inl known), (member pipe).2 (Or.inr rfl)⟩

theorem write_backed (backed : s.Backed w.pipes) (sound : w.pipes.Sound) (pipe : Nat) (bytes : Bytes) :
    (s.write pipe bytes w).2.1.Backed w.pipes := by
  obtain ⟨tracked, same, within, known⟩ := s.track_within pipe
  unfold Pipes.write
  cases found : w.pipes.get? pipe with
  | none => exact backed
  | some p =>
      simp only
      split
      · rw [same, Pipe.writeId, sound.named pipe p found]
        exact backed.append within (.refl sound) (.write bytes known found) _ _
      · exact backed

/-- **A read writes down what it pulled.** -/
theorem read_backed (backed : s.Backed w.pipes) (sound : w.pipes.Sound) (chunk : Nat → Nat)
    (pipe max : Nat) :
    (s.read chunk pipe max w).2.1.Backed (s.read chunk pipe max w).2.2.pipes := by
  obtain ⟨tracked, same, within, known⟩ := s.track_within pipe
  have grows := s.read_grows sound chunk pipe max
  unfold Pipes.read at grows ⊢
  cases found : w.pipes.get? pipe with
  | none => exact backed
  | some p =>
      simp only [found, same] at grows ⊢
      generalize (s.cursors.get? pipe).getD { start := p.front, next := p.front } = cursor at grows ⊢
      rcases made : p.peekAt chunk cursor.next max with ⟨reading, p'⟩
      simp only [made] at grows ⊢
      cases reading with
      | failed e => exact backed.aside within grows _ _
      | waits => exact backed.aside within grows _ _
      | bytes content =>
          simp only at grows ⊢
          split
          · next nothing =>
            rw [if_pos nothing] at grows
            exact backed.aside within grows _ _
          · next something =>
            rw [if_neg something] at grows
            have number : p'.id = pipe :=
              (Pipe.peekAt_flows made).1.id.trans (sound.named pipe p found)
            have there : (w.pipes.set p').get? pipe = some p' := by
              rw [PipeTable.get?_set, if_pos number.symm]
            have pulled := (Pipe.shown_within_reach made).resolve_left something
            rw [Pipe.readId, number]
            exact backed.append within grows (.read _ _ known there pulled) _ _

end Pipes

/-! ## Transactions -/

section Transactions

variable {G V M α : Type} {t t' : PipeTable}

/-- What a participant has written down is backed. -/
def Party.Backed (t : PipeTable) : Party G → Prop
  | .builtin (.files s) => s.Backed
  | .builtin (.pipes s) => s.Backed t
  | _ => True

theorem Party.Backed.mono {p : Party G} (backed : p.Backed t) (grows : t.Grows t') : p.Backed t' := by
  rcases p with (s | s | s | s) | g
  · exact backed
  · exact Pipes.Backed.mono backed grows
  all_goals trivial

namespace Transaction

/-- What a transaction has written down is backed. -/
structure Backed (pipes : PipeTable) (t : Transaction (Party G)) : Prop where
  ascending : Ascending (domainsOf t.members)
  members : ∀ m ∈ t.members, m.state.Backed pipes

namespace Backed

variable {x : Transaction (Party G)} {w : World × V}

theorem fresh (pipes : PipeTable) (who : TxId) (config : Config) :
    ({ id := who, config } : Transaction (Party G)).Backed pipes :=
  ⟨.nil, fun _ member => absurd member List.not_mem_nil⟩

/-- Who has left has nothing written down. -/
theorem ended (pipes : PipeTable) (visited : List Phase) (outcome : Outcome) :
    (x.ended visited outcome).Backed pipes :=
  ⟨.nil, fun _ member => absurd member List.not_mem_nil⟩

theorem mono (backed : x.Backed t) (grows : t.Grows t') : x.Backed t' :=
  ⟨backed.ascending, fun m member => (backed.members m member).mono grows⟩

theorem register [Participant G V] (backed : x.Backed t) (g : G) :
    (x.register (Party.guest g)).2.Backed t := by
  unfold Transaction.register
  rcases x.checkActive "register a module" with e | _
  · exact backed
  · refine ⟨insertMember_ascending backed.ascending, fun m member => ?_⟩
    rcases mem_insertMember member with rfl | there
    · trivial
    · exact backed.members m there

/-- Work of a built-in participant that keeps what it has written down backed. -/
theorem withModule (backed : x.Backed w.1.pipes) {of_ : Facet Builtin M}
    (lawful : (Party.facet of_ : Facet (Party G) M).Lawful)
    {f : M → World → Except Error α × M × World}
    (grows : w.1.pipes.Grows
      (Transaction.withModule (Party.facet of_) (onWorld f) x w).2.2.1.pipes)
    (fresh : (Party.builtin (of_.wrap of_.fresh) : Party G).Backed w.1.pipes)
    (kept : ∀ s, (Party.builtin (of_.wrap s) : Party G).Backed w.1.pipes →
      (Party.builtin (of_.wrap (f s w.1).2.1) : Party G).Backed (f s w.1).2.2.pipes) :
    (Transaction.withModule (Party.facet of_) (onWorld f) x w).2.1.Backed
      (Transaction.withModule (Party.facet of_) (onWorld f) x w).2.2.1.pipes := by
  have ascending := (withModule_keeps (Party.facet of_) (t := x) (w := w) (f := onWorld f)
    (Q := fun _ => True) trivial (fun _ _ _ _ => trivial) backed.ascending fun _ _ => trivial).1
  have all {x' : Transaction (Party G)} (ensured : Ensured (Party.facet of_) x x') :
      ∀ m ∈ x'.members, m.state.Backed w.1.pipes := by
    cases ensured with
    | same => exact backed.members
    | fresh =>
        intro m member
        rcases mem_insertMember member with rfl | there
        · exact fresh
        · exact backed.members m there
  refine ⟨ascending, ?_⟩
  clear ascending
  generalize (Transaction.withModule (Party.facet of_) (onWorld f) x w).2 = r,
    withModule_worked (Party.facet of_) (onWorld f) x w = worked at grows
  cases worked with
  | idle ensured _ => exact all ensured
  | done ensured members seen _ =>
      have before := all ensured
      rw [members] at before
      intro m' member
      rcases List.mem_append.1 member with left | right
      · exact (before m' (List.mem_append_left _ left)).mono grows
      · rcases List.mem_cons.1 right with rfl | later
        · have mine := before _ (List.mem_append_right _ List.mem_cons_self)
          rw [lawful.wrap_of_view _ _ seen] at mine
          exact kept _ mine
        · exact (before m' (List.mem_append_right _ (List.mem_cons_of_mem _ later))).mono grows

end Backed

end Transaction

/-- **Work keeps what is written down backed.** -/
theorem Work.perform_backed (chunk : Nat → Nat → Nat) {x : Transaction (Party G)} {w : World × V}
    (backed : x.Backed w.1.pipes) (sound : w.1.pipes.Sound) (work : Work) :
    (work.perform chunk x w).1.Backed (work.perform chunk x w).2.1.pipes := by
  have grows := work.perform_grows chunk x sound
  cases work with
  | files job =>
      exact backed.withModule Party.lawful_files grows Files.Backed.fresh fun s mine =>
        job.perform_backed mine w.1
  | readPipe pipe max =>
      exact backed.withModule Party.lawful_pipes grows (Pipes.Backed.fresh _) fun s mine =>
        Pipes.read_backed mine sound (chunk pipe) pipe max
  | writePipe pipe bytes =>
      refine backed.withModule Party.lawful_pipes grows (Pipes.Backed.fresh _) fun s mine => ?_
      exact Pipes.Backed.mono (Pipes.write_backed mine sound pipe bytes)
        (s.write_grows sound pipe bytes)
  | spawn name task =>
      exact backed.withModule Party.lawful_threads grows trivial fun _ _ => trivial
  | yieldOnce => exact backed.withModule Party.lawful_yields grows trivial fun _ _ => trivial

end Transactions

end Transact
