/-
# Transact.Proofs.Marking -- what work marks as changed

A resource is marked as changed by a write to a file or a pipe and by a removal that are accepted, by the
creation of a file, and by a read of a pipe.  `Work.marks` says so by the call and its answer alone; what
a transaction goes on to publish are the resources marked by its work, no more and no less
(`Work.perform_marked`), each once (`Transaction.Ready.marked_once`).
-/
import Mathlib.Data.List.Nodup
import Transact.Proofs.Custody

namespace Transact

set_option autoImplicit false

/-! ## Jobs -/

/-- The resources that a job on files marks: that of an accepted write or removal, and that of a file it
creates. -/
def Filing.marks (s : Files) (w : World) : Filing → List ResourceKey
  | .plain (.openPath path flags) =>
      match (s.openPath path flags w).1, Files.openOrCreate w.files path flags with
      | .ok _, .ok (_, true, _) => [(Files.resource w.files path).key]
      | _, _ => []
  | .plain (.write h bytes) =>
      match (s.write h bytes w).1, s.handles.get? h.number with
      | .ok _, some f => [f.id.key]
      | _, _ => []
  | .remove path =>
      match (s.remove path w).1 with
      | .ok _ => [(Files.resource w.files path).key]
      | .error _ => []
  | _ => []

namespace Pipes

/-- The resource that an accepted write marks. -/
def writeMarks (pipe : Nat) (bytes : Bytes) (s : Pipes) (w : World) : List ResourceKey :=
  match (s.write pipe bytes w).1, w.pipes.get? pipe with
  | .ok _, some p => [p.writeId.key]
  | _, _ => []

/-- The resource that a read marks, whatever there is to read. -/
def readMarks (pipe : Nat) (w : World) : List ResourceKey :=
  (w.pipes.get? pipe).elim [] fun p => [p.readId.key]

theorem write_marked (s : Pipes) (w : World) (pipe : Nat) (bytes : Bytes) (k : ResourceKey) :
    k ∈ (s.write pipe bytes w).2.1.access.written.keys ↔
      k ∈ s.access.written.keys ∨ k ∈ s.writeMarks pipe bytes w := by
  obtain ⟨tracked, same⟩ := s.track_eq pipe
  unfold writeMarks Pipes.write
  cases w.pipes.get? pipe with
  | none => simp
  | some p =>
      simp only [same]
      split
      · rw [AccessSet.mem_keys_write, List.mem_singleton]
      · simp

theorem read_marked (s : Pipes) (w : World) (chunk : Nat → Nat) (pipe max : Nat) (k : ResourceKey) :
    k ∈ (s.read chunk pipe max w).2.1.access.written.keys ↔
      k ∈ s.access.written.keys ∨ k ∈ readMarks pipe w := by
  obtain ⟨tracked, same⟩ := s.track_eq pipe
  unfold readMarks Pipes.read
  cases w.pipes.get? pipe with
  | none => simp
  | some p =>
      have marked : k ∈ (s.access.write w.versions p.readId).written.keys ↔
          k ∈ s.access.written.keys ∨ k ∈ [p.readId.key] := by
        rw [AccessSet.mem_keys_write, List.mem_singleton]
      simp only [same]
      split
      · exact marked
      · exact marked
      · split <;> exact marked

end Pipes

/-- **A job on files marks what it says**, and keeps the marks there are. -/
theorem Filing.perform_marked (s : Files) (w : World) (job : Filing) (k : ResourceKey) :
    k ∈ (job.perform s w).2.1.access.written.keys ↔
      k ∈ s.access.written.keys ∨ k ∈ job.marks s w := by
  have unmarked : k ∈ s.access.written.keys ↔ k ∈ s.access.written.keys ∨ k ∈ ([] : List ResourceKey) := by
    simp
  cases job with
  | adopt descriptor path =>
      simp only [perform, marks, Files.adopt]
      rcases s.checkNotRemoved (Files.resource w.files path) with e | _
      · exact unmarked
      · simp only [Files.addHandle, AccessSet.written_observe]
        exact unmarked
  | remove path =>
      simp only [perform, marks, Files.remove]
      rcases s.checkNotRemoved (Files.resource w.files path) with e | _
      · exact unmarked
      · cases w.files.names path with
        | false => exact unmarked
        | true => simp only [if_true, AccessSet.mem_keys_write, List.mem_singleton]
  | plain job =>
      cases job with
      | openPath path flags =>
          simp only [perform, FileWork.perform, marks, Files.openPath]
          rcases s.checkNotRemoved (Files.resource w.files path) with e | _
          · exact unmarked
          · rcases Files.openOrCreate w.files path flags with e | ⟨fd, created, files⟩
            · exact unmarked
            · cases created with
              | true => simp [Files.addHandle, AccessSet.mem_keys_write]
              | false => simp [Files.addHandle]
      | read h len =>
          simp only [perform, FileWork.perform, marks, Files.read]
          cases s.checkReadable h with
          | error e => exact unmarked
          | ok f =>
              simp only
              rcases w.files.readAt f.descriptor f.offset len with ⟨e | window, files⟩ <;>
                simp [Files.setOffset]
      | write h bytes =>
          simp only [perform, FileWork.perform, marks, Files.write]
          cases allowed : s.checkWritable h with
          | error e => exact unmarked
          | ok f =>
              simp only [Files.handle_of_open (Files.open_of_writable allowed), Files.setOffset,
                AccessSet.mem_keys_write, List.mem_singleton]
      | seek h pos =>
          simp only [perform, FileWork.perform, marks, Files.seek]
          rcases s.openFile h with e | f
          · exact unmarked
          · simp only
            rcases s.seekTarget f w.files pos with _ | offset <;> exact unmarked
      | tell h => exact unmarked
      | close h =>
          simp only [perform, FileWork.perform, marks, Files.close]
          rcases s.openFile h with e | f <;> exact unmarked

/-! ## Transactions -/

section Parties

variable {G V M α : Type}

/-- The resources that a participant marked. -/
def Party.marked (p : Party G) : List ResourceKey := p.access.written.keys

/-- The resources that a transaction marked. -/
def Transaction.marked (t : Transaction (Party G)) : List ResourceKey :=
  t.members.flatMap fun m => m.state.marked

/-- The resources that work marks. -/
def Work.marks (t : Transaction (Party G)) (w : World) : Work → List ResourceKey
  | .files job => (t.reach Party.files).elim [] fun s => job.marks s w
  | .readPipe pipe _ => (t.reach Party.pipes).elim [] fun _ => Pipes.readMarks pipe w
  | .writePipe pipe bytes => (t.reach Party.pipes).elim [] fun s => s.writeMarks pipe bytes w
  | .spawn .. | .yieldOnce => []

namespace Transaction

variable {t t' : Transaction (Party G)}

/-- A participant without marks adds none. -/
theorem marked_insert {m : Member (Party G)} (unmarked : m.state.marked = []) :
    (t.insert m).marked = t.marked := by
  simp only [marked, insert]
  rcases insertMember_cases m t.members with ⟨same, -⟩ | ⟨before, after, split, inserted⟩
  · rw [same]
  · rw [inserted, split, List.flatMap_append, List.flatMap_append, List.flatMap_cons, unmarked,
      List.nil_append]

theorem marked_register [Participant G V] (t : Transaction (Party G)) (g : G) :
    (t.register (Party.guest g)).2.marked = t.marked := by
  unfold register
  rcases t.checkActive "register a module" with e | _
  · rfl
  · exact marked_insert rfl

/-- Work marks what the participant marks that it goes to. -/
theorem withModule_marked {of_ : Facet Builtin M}
    (lawful : (Party.facet of_ : Facet (Party G) M).Lawful)
    (fresh : (Party.builtin (of_.wrap of_.fresh) : Party G).marked = [])
    {f : M → World → Except Error α × M × World} {w : World × V} {k : ResourceKey}
    {marks : M → List ResourceKey}
    (marked : ∀ s, k ∈ (Party.builtin (of_.wrap (f s w.1).2.1) : Party G).marked ↔
      k ∈ (Party.builtin (of_.wrap s) : Party G).marked ∨ k ∈ marks s) :
    k ∈ (withModule (Party.facet of_) (onWorld f) t w).2.1.marked ↔
      k ∈ t.marked ∨ k ∈ (t.reach (Party.facet of_)).elim [] marks := by
  have grown {t' : Transaction (Party G)} (ensured : Ensured (Party.facet of_) t t') :
      t'.marked = t.marked := by
    cases ensured with
    | same => rfl
    | fresh => exact marked_insert fresh
  generalize (withModule (Party.facet of_) (onWorld f) t w).2 = r,
    withModule_worked (Party.facet of_) (onWorld f) t w = worked
  cases worked with
  | idle ensured unreached => simp [grown ensured, unreached]
  | done ensured members seen reached =>
      have here := lawful.wrap_of_view _ _ seen
      rw [← grown ensured, Transaction.marked, Transaction.marked, members, reached]
      simp only [List.flatMap_append, List.flatMap_cons, List.mem_append, Option.elim_some]
      rw [here]
      have changed := marked
      simp only [onWorld, Party.facet] at changed ⊢
      rw [changed]
      tauto

end Transaction

/-- **Work marks what it says**, and keeps the marks there are. -/
theorem Work.perform_marked (chunk : Nat → Nat → Nat) (t : Transaction (Party G)) (w : World × V)
    (work : Work) (k : ResourceKey) :
    k ∈ (work.perform chunk t w).1.marked ↔ k ∈ t.marked ∨ k ∈ work.marks t w.1 := by
  have idle : k ∈ ([] : List ResourceKey) ↔ k ∈ [] ∨ k ∈ [] := (or_iff_left List.not_mem_nil).symm
  have unchanged {M : Type} {s : Option M} :
      k ∈ t.marked ∨ k ∈ s.elim [] (fun _ => ([] : List ResourceKey)) ↔ k ∈ t.marked ∨ k ∈ [] := by
    cases s <;> exact Iff.rfl
  cases work with
  | files job =>
      exact Transaction.withModule_marked Party.lawful_files rfl fun s => job.perform_marked s w.1 k
  | readPipe pipe max =>
      exact Transaction.withModule_marked Party.lawful_pipes rfl
        fun s => s.read_marked w.1 (chunk pipe) pipe max k
  | writePipe pipe bytes =>
      exact Transaction.withModule_marked Party.lawful_pipes rfl
        fun s => s.write_marked w.1 pipe bytes k
  | spawn name task =>
      exact (Transaction.withModule_marked Party.lawful_threads rfl fun _ => idle).trans unchanged
  | yieldOnce =>
      exact (Transaction.withModule_marked Party.lawful_yields rfl fun _ => idle).trans unchanged

/-! ## Once -/

/-- **A transaction marks a resource once**, however often it touches it. -/
theorem Transaction.Ready.marked_once {t : Transaction (Party G)} (ready : t.Ready) :
    t.marked.Nodup := by
  refine List.nodup_flatMap.2 ⟨fun m member => (ready.members m member).1.ready.keyed.writtenOnce, ?_⟩
  refine ready.queued.apart.imp_of_mem fun {m m'} here there apart => ?_
  intro k mine others
  have mine := (ready.members m here).1.ready.keyed.within k mine
  have others := (ready.members m' there).1.ready.keyed.within k others
  exact ResourceKey.Below.irrefl k (apart k mine k others)

end Parties

end Transact
