/-
# Transact.Proofs.Fruitless -- work that fails

Work on files and pipes that fails leaves the transaction as it was (`Work.perform_fruitless`).  Most of
it fails before it writes anything down; a read notes what it reads first, but its file is open and its
pipe was read before, so that was noted long ago (`Files.Ready`, `Pipes.Pointed`).

The world is as it was, too, but for one thing: a read of a file goes to the offset of its handle before
the system refuses it, and the descriptor stays there (`Leaves.moved`).  What happens afterwards, a
commit above all, comes to the same as without the call, unless it looks where that descriptor stands
(`Assembly.proceed_fruitless`).

A read of a pipe that has to wait has not failed.  It is made anew when there is more to see, and what
it noted before it waited stays noted, whatever becomes of it then.
-/
import Transact.Proofs.Backing
import Transact.Proofs.Granting
import Transact.Proofs.Positions
import Transact.Proofs.Reaching

namespace Transact

set_option autoImplicit false

/-- What is made of an answer fails where the answer does. -/
theorem failed_of_map {α β : Type} {r : Except Error α} {f : α → β} {e : Error}
    (failed : r.map f = .error e) : r = .error e := by
  cases r <;> cases failed
  rfl

/-! ## Files -/

/-- What changes was touched, so what is noted to change can be noted again to no effect. -/
theorem AccessSet.Keyed.write_written {a : AccessSet} (keyed : a.Keyed) {id : ResourceId}
    (written : id.key ∈ a.written.keys) (v : VersionTable) : a.write v id = a := by
  rw [write_known ((Table.contains_iff ..).2 written),
    observe_known ((Table.contains_iff ..).2 (keyed.within id.key written))]

/-- A read that is refused has gone to its offset, unless the system refused that. -/
theorem Filesystem.readAt_refused {fs : Filesystem} {fd offset len : Nat} {e : Errno}
    (refused : (fs.readAt fd offset len).1 = .error e) :
    (fs.readAt fd offset len).2 = fs ∨
      offset ≤ fs.positionLimit fd ∧ (fs.readAt fd offset len).2 = fs.setPosition fd offset := by
  unfold readAt at refused ⊢
  by_cases far : fs.positionLimit fd < offset
  · exact Or.inl (by rw [seek, if_pos far])
  · refine Or.inr ⟨Nat.not_lt.1 far, ?_⟩
    rw [seek, if_neg far] at refused ⊢
    simp only at refused ⊢
    cases done : (fs.setPosition fd offset).read fd len transferLimit with
    | error e => rfl
    | ok result => rw [done] at refused; cases refused

/-- What a job on files that fails leaves of the world: all of it, or all but the position of the
descriptor that it was to read from. -/
inductive Filing.Leaves (s : Files) (w : World) : Filing → World → Prop where
  | nothing (job : Filing) : Leaves s w job w
  | moved {h : FileHandle} {f : OpenFile} (len : Nat) (opened : s.openFile h = .ok f)
      (within : f.offset ≤ w.files.positionLimit f.descriptor) :
      Leaves s w (.plain (.read h len))
        { w with files := w.files.setPosition f.descriptor f.offset }

namespace Files

variable {s : Files} {w : World} {e : Error}

theorem openPath_failed {path : String} {flags : OpenFlags}
    (failed : (s.openPath path flags w).1 = .error e) : (s.openPath path flags w).2 = (s, w) := by
  unfold openPath at failed ⊢
  simp only at failed ⊢
  cases allowed : s.checkNotRemoved (resource w.files path) with
  | error e => rfl
  | ok _ =>
      rw [allowed] at failed
      cases opened : openOrCreate w.files path flags with
      | error e => rfl
      | ok result => rw [opened] at failed; cases failed

theorem adopt_failed {descriptor : Nat} {path : String}
    (failed : (s.adopt descriptor path w).1 = .error e) :
    (s.adopt descriptor path w).2 = (s, w) := by
  unfold adopt at failed ⊢
  simp only at failed ⊢
  cases allowed : s.checkNotRemoved (resource w.files path) with
  | error e => rfl
  | ok _ => rw [allowed] at failed; cases failed

theorem remove_failed {path : String} (failed : (s.remove path w).1 = .error e) :
    (s.remove path w).2 = (s, w) := by
  unfold remove at failed ⊢
  simp only at failed ⊢
  cases allowed : s.checkNotRemoved (resource w.files path) with
  | error e => rfl
  | ok _ =>
      rw [allowed] at failed
      cases there : w.files.names path with
      | false => rfl
      | true => rw [there] at failed; cases failed

theorem write_failed {h : FileHandle} {bytes : Bytes} (failed : (s.write h bytes w).1 = .error e) :
    (s.write h bytes w).2 = (s, w) := by
  unfold write at failed ⊢
  cases allowed : s.checkWritable h with
  | error e => rfl
  | ok f => rw [allowed] at failed; cases failed

theorem seek_failed {h : FileHandle} {pos : SeekFrom} (failed : (s.seek h pos w).1 = .error e) :
    (s.seek h pos w).2 = (s, w) := by
  unfold seek at failed ⊢
  cases opened : s.openFile h with
  | error e => rfl
  | ok f =>
      simp only [opened] at failed ⊢
      cases target : s.seekTarget f w.files pos with
      | none => rfl
      | some offset => rw [target] at failed; cases failed

theorem close_failed {h : FileHandle} (failed : (s.close h w).1 = .error e) :
    (s.close h w).2 = (s, w) := by
  unfold close at failed ⊢
  cases opened : s.openFile h with
  | error e => rfl
  | ok f => rw [opened] at failed; cases failed

/-- The file that is read from is open, so its version was noted before. -/
theorem read_failed (ready : s.Ready) {h : FileHandle} {len : Nat}
    (failed : (s.read h len w).1 = .error e) :
    (s.read h len w).2.1 = s ∧ Filing.Leaves s w (.plain (.read h len)) (s.read h len w).2.2 := by
  unfold read at failed ⊢
  cases allowed : s.checkReadable h with
  | error e => exact ⟨rfl, .nothing _⟩
  | ok f =>
      have opened := open_of_readable allowed
      have noted := (Table.contains_iff ..).2 (ready.opened _ f (handle_of_open opened))
      simp only [allowed, AccessSet.observe_known noted] at failed ⊢
      have refused {e : Errno} (refused : (w.files.readAt f.descriptor f.offset len).1 = .error e) :=
        Filesystem.readAt_refused refused
      rcases done : w.files.readAt f.descriptor f.offset len with ⟨e' | bytes, files⟩
      · rw [done] at refused
        rcases refused rfl with same | ⟨within, same⟩
        · rw [show files = w.files from same]
          exact ⟨rfl, .nothing _⟩
        · rw [show files = _ from same]
          exact ⟨rfl, .moved len opened within⟩
      · rw [done] at failed
        cases failed

end Files

/-- **A job on files that fails leaves the files of the transaction as they were**, and the world too but
for a descriptor that a read has moved. -/
theorem Filing.perform_failed {s : Files} (ready : s.Ready) {w : World} {job : Filing} {e : Error}
    (failed : (job.perform s w).1 = .error e) :
    (job.perform s w).2.1 = s ∧ job.Leaves s w (job.perform s w).2.2 := by
  have untouched {r : Except Error FileValue × Files × World} (same : r.2 = (s, w)) :
      r.2.1 = s ∧ job.Leaves s w r.2.2 := by
    rw [same]
    exact ⟨rfl, .nothing job⟩
  cases job with
  | adopt descriptor path => exact untouched (Files.adopt_failed (failed_of_map failed))
  | remove path => exact untouched (Files.remove_failed (failed_of_map failed))
  | plain job =>
      cases job with
      | openPath path flags => exact untouched (Files.openPath_failed (failed_of_map failed))
      | read h len => exact Files.read_failed ready (failed_of_map failed)
      | write h bytes => exact untouched (Files.write_failed (failed_of_map failed))
      | seek h pos => exact untouched (Files.seek_failed (failed_of_map failed))
      | tell h => exact untouched rfl
      | close h => exact untouched (Files.close_failed (failed_of_map failed))

/-! ## Pipes -/

/-- A look at a pipe fails only where the bytes are gone, and then it pulls nothing. -/
theorem Pipe.peekAt_failed {p : Pipe} {chunk : Nat → Nat} {offset max : Nat} {e : Error}
    (failed : (p.peekAt chunk offset max).1 = .failed e) :
    offset < p.front ∧ (p.peekAt chunk offset max).2 = p := by
  unfold peekAt at failed ⊢
  generalize p.channel.length + 2 = fuel at failed ⊢
  induction fuel generalizing p with
  | zero => cases failed
  | succ fuel ih =>
      unfold peekWithin at failed ⊢
      by_cases behind : offset < p.front
      · rw [if_pos behind]
        exact ⟨behind, rfl⟩
      · rw [if_neg behind] at failed ⊢
        -- Whatever is pulled, the front stays where it is.
        have ahead {p' : Pipe} (pulled : p.pull chunk = some p') : ¬ offset < p'.front := by
          unfold pull at pulled
          split at pulled
          · split at pulled <;> cases pulled
            exact behind
          · cases pulled
            exact behind
        split at failed
        · cases failed
        · split at failed
          · cases failed
          · split at failed
            · cases failed
            · split at failed
              · cases failed
              · next p' pulled => exact absurd (ih failed).1 (ahead pulled)

namespace Pipes

/-- Of every pipe that was read the read end was touched, to be changed. -/
def Pointed (s : Pipes) : Prop :=
  ∀ pipe cursor, s.cursors.get? pipe = some cursor →
    pipe ∈ s.tracked ∧ (ResourceId.pipeRead pipe).key ∈ s.access.written.keys

variable {s : Pipes} {w : World}

theorem Pointed.fresh : ({} : Pipes).Pointed := fun _ _ found => by cases found

/-- More is tracked and touched, and reads go on elsewhere. -/
theorem Pointed.grow (pointed : s.Pointed) {s' : Pipes}
    (tracked : ∀ pipe ∈ s.tracked, pipe ∈ s'.tracked)
    (written : ∀ k ∈ s.access.written.keys, k ∈ s'.access.written.keys)
    (cursors : ∀ pipe, (s'.cursors.get? pipe).isSome → (s.cursors.get? pipe).isSome ∨
      pipe ∈ s'.tracked ∧ (ResourceId.pipeRead pipe).key ∈ s'.access.written.keys) : s'.Pointed := by
  intro pipe cursor found
  rcases cursors pipe (Option.isSome_iff_exists.2 ⟨cursor, found⟩) with old | new
  · obtain ⟨before, found⟩ := Option.isSome_iff_exists.1 old
    exact (pointed pipe before found).imp (tracked pipe) (written _)
  · exact new

theorem write_pointed (pointed : s.Pointed) (pipe : Nat) (bytes : Bytes) :
    (s.write pipe bytes w).2.1.Pointed := by
  obtain ⟨tracked, same, within, -⟩ := s.track_within pipe
  unfold Pipes.write
  cases w.pipes.get? pipe with
  | none => exact pointed
  | some p =>
      simp only [same]
      split
      · refine pointed.grow within (fun k member => ?_) fun _ => Or.inl
        exact (AccessSet.mem_keys_write ..).2 (Or.inl member)
      · exact pointed

theorem read_pointed (pointed : s.Pointed) (sound : w.pipes.Sound) (chunk : Nat → Nat)
    (pipe max : Nat) : (s.read chunk pipe max w).2.1.Pointed := by
  obtain ⟨tracked, same, within, known⟩ := s.track_within pipe
  unfold Pipes.read
  cases found : w.pipes.get? pipe with
  | none => exact pointed
  | some p =>
      have number : p.readId = .pipeRead pipe := by rw [Pipe.readId, sound.named pipe p found]
      have goes (cursors : Table Nat ReadCursor) (log : DeferredLog PipeEffect)
          (others : ∀ other, other ≠ pipe → cursors.get? other = s.cursors.get? other) :
          Pointed { s with
            tracked, cursors, log, access := s.access.write w.versions (.pipeRead pipe) } := by
        refine pointed.grow within (fun k member => (AccessSet.mem_keys_write ..).2 (Or.inl member))
          fun other there => ?_
        by_cases here : other = pipe
        · exact Or.inr ⟨here ▸ known, (AccessSet.mem_keys_write ..).2 (Or.inr (here ▸ rfl))⟩
        · exact Or.inl ((congrArg Option.isSome (others other here)).symm.trans there)
      simp only [same, number]
      generalize (s.cursors.get? pipe).getD { start := p.front, next := p.front } = cursor
      have once (other : Nat) (ne : other ≠ pipe) :
          (s.cursors.set pipe cursor).get? other = s.cursors.get? other :=
        Table.get?_set_of_ne _ _ ne
      have twice (next : ReadCursor) (other : Nat) (ne : other ≠ pipe) :
          ((s.cursors.set pipe cursor).set pipe next).get? other = s.cursors.get? other :=
        (Table.get?_set_of_ne _ _ ne).trans (once other ne)
      split
      · exact goes _ _ once
      · exact goes _ _ once
      · split <;> exact goes _ _ (twice _)

theorem write_failed {pipe : Nat} {bytes : Bytes} {e : Error}
    (failed : (s.write pipe bytes w).1 = .error e) : (s.write pipe bytes w).2 = (s, w) := by
  unfold Pipes.write at failed ⊢
  cases found : w.pipes.get? pipe with
  | none => rfl
  | some p =>
      simp only [found] at failed ⊢
      cases open_ : p.writerOpen with
      | false => rfl
      | true => rw [open_] at failed; cases failed

/-- What was read of the pipe is gone, so it was read before, and everything is noted. -/
theorem read_failed (keyed : s.access.Keyed) (pointed : s.Pointed) (sound : w.pipes.Sound)
    {chunk : Nat → Nat} {pipe max : Nat} {e : Error}
    (failed : (s.read chunk pipe max w).1 = .error e) : (s.read chunk pipe max w).2 = (s, w) := by
  unfold Pipes.read at failed ⊢
  cases found : w.pipes.get? pipe with
  | none => rfl
  | some p =>
      have number := sound.named pipe p found
      simp only [found, cursors_track] at failed ⊢
      rcases done : p.peekAt chunk
        ((s.cursors.get? pipe).getD { start := p.front, next := p.front }).next max with
        ⟨content | _ | e', p'⟩
      · simp only [done] at failed
        split at failed <;> cases failed
      · rw [done] at failed
        cases failed
      · obtain ⟨behind, idle⟩ := Pipe.peekAt_failed (congrArg Prod.fst done)
        rw [done] at idle
        cases cursor : s.cursors.get? pipe with
        | none =>
            rw [cursor] at behind
            exact absurd behind (Nat.lt_irrefl _)
        | some c =>
            obtain ⟨tracked, written⟩ := pointed pipe c cursor
            have known : s.track pipe = s := if_pos (List.contains_iff_mem.2 tracked)
            have noted : s.access.write w.versions p.readId = s.access := by
              rw [Pipe.readId, number]
              exact keyed.write_written written w.versions
            have stays : s.cursors.set pipe c = s.cursors :=
              congrArg Table.mk (Table.put_find cursor)
            have pipes : w.pipes.set p = w.pipes := by
              rw [PipeTable.set, number]
              exact congrArg (fun pipes => { w.pipes with pipes })
                (congrArg Table.mk (Table.put_find found))
            simp only [cursor, Option.getD_some] at done
            simp only [Option.getD_some, show p' = p from idle, known, noted, stays, pipes]

end Pipes

/-! ## Transactions -/

namespace Transaction

variable {P M W α : Type}

/-- Work that fails was refused before it got to the participant, which is there, or comes back from it
as it is. -/
theorem withModule_failed {facet : Facet P M} (lawful : facet.Lawful) {t : Transaction P}
    (present : t.hasDomain facet.domain = true) {f : Context → M → W → Except Error α × M × W} {w : W}
    {e : Error} (failed : (withModule facet f t w).1 = .error e) :
    (withModule facet f t w).2 = (t, w) ∨
      ∃ s, t.module? facet = some s ∧ (∃ m ∈ t.members, m.state = facet.wrap s) ∧
        (f t.context s w).1 = .error e ∧
        ((f t.context s w).2.1 = s → (withModule facet f t w).2 = (t, (f t.context s w).2.2)) := by
  unfold withModule at failed ⊢
  rcases active : t.checkActive "use a module" with e' | _
  · exact Or.inl rfl
  · cases found : findFacet facet t.members with
    | none =>
        have refused : t.ensure facet = .error (domainTaken facet.domain) := by
          simp only [ensure, module?, found, Option.map_none, present, if_true]
        exact Or.inl (by simp only [refused])
    | some both =>
        obtain ⟨s, put⟩ := both
        have here : t.module? facet = some s := by rw [module?, found, Option.map_some]
        have ensured : t.ensure facet = .ok t := by rw [ensure, here]
        obtain ⟨before, m, after, split, seen, back⟩ := findFacet_split found
        have state := lawful.wrap_of_view _ _ seen
        simp only [active, ensured, found] at failed ⊢
        refine Or.inr ⟨s, here, ⟨m, ?_, state⟩, failed, fun same => ?_⟩
        · rw [split]
          exact List.mem_append_right _ List.mem_cons_self
        · rw [same, back, ← state, ← split]

end Transaction

section Transactions

variable {G V : Type}

/-- Of every pipe that the participant read the read end was touched. -/
def Party.Pointed : Party G → Prop
  | .builtin (.pipes s) => s.Pointed
  | _ => True

/-- All that work of a transaction will note again was noted. -/
structure Transaction.Composed (t : Transaction (Party G)) : Prop where
  ready : t.Ready
  pointed : ∀ m ∈ t.members, m.state.Pointed

variable {t : Transaction (Party G)} {w : World × V}

theorem Work.perform_pointed (chunk : Nat → Nat → Nat) (composed : t.Composed)
    (sound : w.1.pipes.Sound) (work : Work) :
    ∀ m ∈ (work.perform chunk t w).1.members, m.state.Pointed := by
  have keeps {M α : Type} {of_ : Facet Builtin M}
      (lawful : (Party.facet of_ : Facet (Party G) M).Lawful)
      {f : M → World → Except Error α × M × World}
      (fresh : (Party.builtin (of_.wrap of_.fresh) : Party G).Pointed)
      (kept : ∀ s, (Party.builtin (of_.wrap s) : Party G).Pointed →
        (Party.builtin (of_.wrap (f s w.1).2.1) : Party G).Pointed) :
      ∀ m ∈ (Transaction.withModule (Party.facet of_) (onWorld f) t w).2.1.members,
        m.state.Pointed := by
    refine (Transaction.withModule_keeps (Party.facet of_) (Q := fun m => m.state.Pointed)
      (f := onWorld f) fresh (fun m s seen before => ?_) composed.ready.ascending composed.pointed).2
    rw [lawful.wrap_of_view _ _ seen] at before
    exact kept s before
  cases work with
  | files job => exact keeps Party.lawful_files trivial fun _ _ => trivial
  | readPipe pipe max =>
      exact keeps Party.lawful_pipes Pipes.Pointed.fresh fun s pointed =>
        Pipes.read_pointed pointed sound (chunk pipe) pipe max
  | writePipe pipe bytes =>
      exact keeps Party.lawful_pipes Pipes.Pointed.fresh fun s pointed =>
        Pipes.write_pointed pointed pipe bytes
  | spawn name task => exact keeps Party.lawful_threads trivial fun _ _ => trivial
  | yieldOnce => exact keeps Party.lawful_yields trivial fun _ _ => trivial

/-- **Every call keeps a transaction composed**, if the pipes are in order. -/
theorem PartyCall.perform_composed [Participant G V] (chunk : Nat → Nat → Nat) (composed : t.Composed)
    (sound : w.1.pipes.Sound) (call : PartyCall G) : (call.perform chunk t w).1.Composed := by
  have made := call.perform_made chunk t w
  refine ⟨made.ready composed.ready, ?_⟩
  generalize (call.perform chunk t w).1 = t' at made ⊢
  cases made with
  | kept => exact composed.pointed
  | worked job => exact job.perform_pointed chunk composed sound
  | registered g =>
      unfold Transaction.register
      rcases t.checkActive "register a module" with e | _
      · exact composed.pointed
      · intro m member
        rcases Transaction.mem_insertMember member with rfl | there
        · trivial
        · exact composed.pointed m there
  | ended => exact fun _ member => absurd member List.not_mem_nil

theorem Procedure.run_grows {α : Type} (q : Procedure V α) (tx : TxId) (sound : w.1.pipes.Sound) :
    w.1.pipes.Grows (q.run tx w).2.1.pipes := by
  induction q generalizing w with
  | done a => exact .refl sound
  | act p next ih =>
      have grows := p.perform_grows tx sound
      exact grows.trans (ih _ grows.sound)

/-- **No call takes a pipe back.** -/
theorem PartyCall.perform_grows [Participant G V] (chunk : Nat → Nat → Nat)
    (t : Transaction (Party G)) (sound : w.1.pipes.Sound) (call : PartyCall G) :
    w.1.pipes.Grows (call.perform chunk t w).2.1.pipes := by
  cases taken : Stepwise.steps t call with
  | some q =>
      rw [← Stepwise.steps_run chunk taken w]
      exact q.run_grows t.id sound
  | none =>
      cases call with
      | work work => exact work.perform_grows chunk t sound
      | register g => exact .refl sound
      | _ => cases taken

/-! ### Failures -/

/-- The domain of the participant that does the work. -/
def Work.domain : Work → Domain
  | .files _ => .file
  | .readPipe .. | .writePipe .. => .pipe
  | .spawn .. => .thread
  | .yieldOnce => .scheduler

/-- Whether the work was done, or why not. -/
def Work.answer (chunk : Nat → Nat → Nat) (t : Transaction (Party G)) (w : World × V) :
    Work → Except Error Unit
  | .files job => (job.answer t w).map fun _ => ()
  | .readPipe pipe max =>
      (Transaction.withModule Party.pipes (onWorld (Pipes.read (chunk pipe) pipe max)) t w).1.map
        fun _ => ()
  | .writePipe pipe bytes =>
      (Transaction.withModule Party.pipes (onWorld (Pipes.write pipe bytes)) t w).1.map fun _ => ()
  | .spawn name task =>
      (Transaction.withModule Party.threads
        (onWorld fun s w => let r := s.spawn name task w; (.ok r.1, r.2)) t w).1.map fun _ => ()
  | .yieldOnce =>
      (Transaction.withModule Party.yields (onWorld fun s w => (.ok (), s.yieldOnce, w)) t w).1.map
        fun _ => ()

/-- What work that fails leaves of the world: all of it, or what a job on files leaves. -/
inductive Work.Leaves (t : Transaction (Party G)) (w : World × V) : Work → World × V → Prop where
  | nothing (work : Work) : Leaves t w work w
  | filed {s : Files} {job : Filing} {left : World} (mine : t.module? Party.files = some s)
      (leaves : job.Leaves s w.1 left) : Leaves t w (.files job) (left, w.2)

/-- **Work that fails leaves the transaction as it was**, and the world too but for a descriptor that a
read has moved. -/
theorem Work.perform_fruitless (chunk : Nat → Nat → Nat) (composed : t.Composed)
    (sound : w.1.pipes.Sound) {work : Work} (present : t.hasDomain work.domain = true) {e : Error}
    (failed : work.answer chunk t w = .error e) :
    (work.perform chunk t w).1 = t ∧ work.Leaves t w (work.perform chunk t w).2 := by
  have untouched {r : Transaction (Party G) × World × V} (same : r = (t, w)) :
      r.1 = t ∧ work.Leaves t w r.2 := by
    rw [same]
    exact ⟨rfl, .nothing work⟩
  cases work with
  | files job =>
      rcases Transaction.withModule_failed Party.lawful_files present (failed_of_map failed) with
        same | ⟨s, mine, ⟨m, member, state⟩, failed, back⟩
      · exact untouched same
      · have ready : m.state.Ready := (composed.ready.members m member).1.ready
        rw [state] at ready
        obtain ⟨same, leaves⟩ := Filing.perform_failed ready failed
        have done : (Work.files job).perform chunk t w = (t, (job.perform s w.1).2.2, w.2) :=
          back same
        rw [done]
        exact ⟨rfl, .filed mine leaves⟩
  | readPipe pipe max =>
      rcases Transaction.withModule_failed Party.lawful_pipes present (failed_of_map failed) with
        same | ⟨s, -, ⟨m, member, state⟩, failed, back⟩
      · exact untouched same
      · have ready : m.state.Ready := (composed.ready.members m member).1.ready
        have pointed := composed.pointed m member
        rw [state] at ready pointed
        have idle := Pipes.read_failed (Pipes.Ready.keyed ready) pointed sound failed
        refine untouched ((back (congrArg Prod.fst idle)).trans ?_)
        exact congrArg (fun left => (t, left, w.2)) (congrArg Prod.snd idle)
  | writePipe pipe bytes =>
      rcases Transaction.withModule_failed Party.lawful_pipes present (failed_of_map failed) with
        same | ⟨s, -, -, failed, back⟩
      · exact untouched same
      · have idle := Pipes.write_failed failed
        refine untouched ((back (congrArg Prod.fst idle)).trans ?_)
        exact congrArg (fun left => (t, left, w.2)) (congrArg Prod.snd idle)
  | spawn name task =>
      rcases Transaction.withModule_failed Party.lawful_threads present (failed_of_map failed) with
        same | ⟨s, -, -, failed, -⟩
      · exact untouched same
      · cases failed
  | yieldOnce =>
      rcases Transaction.withModule_failed Party.lawful_yields present (failed_of_map failed) with
        same | ⟨s, -, -, failed, -⟩
      · exact untouched same
      · cases failed

end Transactions

/-! ## Sessions -/

/-- What happens while transactions are at work. -/
inductive Occurrence (G V : Type) where
  | call (who : TxId) (call : PartyCall G)
  /-- The rest of the world changes. -/
  | meanwhile (change : World × V → World × V)

namespace Occurrence

variable {G V : Type}

/-- It keeps the pipes in order. -/
def Orderly : Occurrence G V → Prop
  | .call .. => True
  | .meanwhile change => ∀ w, w.1.pipes.Sound → (change w).1.pipes.Sound

/-- It does not look where `fd` stands. -/
def Blind (fd : Nat) : Occurrence G V → Prop
  | .call _ asked => ¬ asked.Adopts fd
  | .meanwhile change => ∀ w w', Repositioned fd w w' → Repositioned fd (change w) (change w')

end Occurrence

namespace Assembly

variable {G V : Type} [Participant G V] (chunk : Nat → Nat → Nat)

def occur (s : Assembly G V) : Occurrence G V → Assembly G V
  | .call who call => s.step chunk (who, call)
  | .meanwhile change => { s with world := change s.world }

def proceed (s : Assembly G V) (occurrences : List (Occurrence G V)) : Assembly G V :=
  occurrences.foldl (occur chunk) s

/-- The pipes are in order, and every transaction is composed. -/
structure Composed (s : Assembly G V) : Prop where
  sound : s.world.1.pipes.Sound
  each : ∀ who, (s.transactions who).Composed

variable {chunk} {s s' : Assembly G V} {fd : Nat}

omit [Participant G V] in
theorem composed_start (config : TxId → Config) {w : World × V} (sound : w.1.pipes.Sound) :
    (start config w : Assembly G V).Composed :=
  ⟨sound, fun who => ⟨.fresh who (config who), fun _ member => absurd member List.not_mem_nil⟩⟩

theorem Composed.occur (composed : s.Composed) {o : Occurrence G V} (orderly : o.Orderly) :
    (s.occur chunk o).Composed := by
  cases o with
  | meanwhile change => exact ⟨orderly s.world composed.sound, composed.each⟩
  | call who call =>
      refine ⟨(call.perform_grows chunk _ composed.sound).sound, fun other => ?_⟩
      by_cases own : other = who
      · rw [own]
        exact (s.step_self chunk who call).symm ▸
          call.perform_composed chunk (composed.each who) composed.sound
      · have still : (s.occur chunk (.call who call)).transactions other = s.transactions other :=
          s.step_other chunk own
        rw [still]
        exact composed.each other

theorem Composed.proceed (composed : s.Composed) {occurrences : List (Occurrence G V)}
    (orderly : ∀ o ∈ occurrences, o.Orderly) : (s.proceed chunk occurrences).Composed := by
  induction occurrences generalizing s with
  | nil => exact composed
  | cons o rest ih =>
      obtain ⟨first, others⟩ := List.forall_mem_cons.1 orderly
      exact ih (composed.occur first) others

/-- The same transactions are at work on two worlds that differ in where `fd` stands. -/
structure Twin (fd : Nat) (s s' : Assembly G V) : Prop where
  transactions : s'.transactions = s.transactions
  moved : Repositioned fd s.world s'.world

theorem Twin.occur (twin : Twin fd s s') {o : Occurrence G V} (blind : o.Blind fd) :
    Twin fd (s.occur chunk o) (s'.occur chunk o) := by
  obtain ⟨same, moved⟩ := twin
  cases o with
  | meanwhile change => exact ⟨same, blind _ _ moved⟩
  | call who call =>
      obtain ⟨answer, left⟩ := call.perform_repositioned chunk (s.transactions who) moved blind
      rw [← same] at answer left
      refine ⟨funext fun other => ?_, ?_⟩
      · simp only [Assembly.occur, step, same] at answer ⊢
        rw [answer]
      · simp only [Assembly.occur, step]
        rw [same] at left ⊢
        exact left

/-- **Two sessions that differ in where a descriptor stands go on alike** while nobody looks there. -/
theorem Twin.proceed (twin : Twin fd s s') {occurrences : List (Occurrence G V)}
    (blind : ∀ o ∈ occurrences, o.Blind fd) :
    Twin fd (s.proceed chunk occurrences) (s'.proceed chunk occurrences) := by
  induction occurrences generalizing s s' with
  | nil => exact twin
  | cons o rest ih =>
      obtain ⟨first, others⟩ := List.forall_mem_cons.1 blind
      exact ih (twin.occur first) others

/-- **Work on files and pipes that fails has changed nothing but the position of a descriptor**, which a
read had moved before it was refused.  Whatever happens then without a look at that position, a commit
above all, comes to the same as without the call; and a commit that succeeds where the descriptor was
adopted leaves no trace of it.

The participant was registered before: the first work through it registers it, and it stays when that work
fails.  A read of a pipe that waits is no failure, and may have noted what it is about to read. -/
theorem proceed_fruitless (chunk : Nat → Nat → Nat) (config : TxId → Config) {w : World × V}
    (sound : w.1.pipes.Sound) {history : List (Occurrence G V)}
    (orderly : ∀ o ∈ history, o.Orderly) (who : TxId) (work : Work) {e : Error} :
    let s := (start config w : Assembly G V).proceed chunk history
    let t := s.transactions who
    let s' := s.occur chunk (.call who (.work work))
    t.hasDomain work.domain = true → work.answer chunk t s.world = .error e →
      s'.transactions = s.transactions ∧ work.Leaves t s.world s'.world ∧
      ∀ fd, Repositioned fd s.world s'.world →
        (∀ sequel, (∀ o ∈ sequel, o.Blind fd) →
          (s'.proceed chunk sequel).transactions = (s.proceed chunk sequel).transactions ∧
          Repositioned fd (s.proceed chunk sequel).world (s'.proceed chunk sequel).world) ∧
        ((∃ m ∈ t.members, m.state.Settles fd) → (t.commit s.world).1 = .ok .committed →
          s'.occur chunk (.call who .commit) = s.occur chunk (.call who .commit)) := by
  intro s t s' present failed
  have composed : s.Composed := (composed_start config sound).proceed orderly
  obtain ⟨same, leaves⟩ := work.perform_fruitless chunk (composed.each who) composed.sound present failed
  have transactions : s'.transactions = s.transactions := by
    funext other
    by_cases own : other = who
    · rw [own]
      exact (s.step_self chunk who (.work work)).trans same
    · exact s.step_other chunk own
  refine ⟨transactions, leaves, fun fd moved => ⟨fun sequel blind => ?_, fun settles done => ?_⟩⟩
  · have twin : Twin fd s s' := ⟨transactions, moved⟩
    have later : Twin fd (s.proceed chunk sequel) (s'.proceed chunk sequel) := twin.proceed blind
    exact ⟨later.transactions, later.moved⟩
  · have meets := Transaction.commit_meets settles moved done
    have ends : PartyCall.commit.perform chunk (s'.transactions who) s'.world =
        PartyCall.commit.perform chunk (s.transactions who) s.world := by
      rw [transactions]
      exact congrArg Prod.snd meets
    simp only [Assembly.occur, step, ends]
    rw [transactions]

/-- A descriptor at the beginning of a file that it cannot read. -/
def writeOnly : World :=
  { files :=
      { entries := ⟨[(["f"], .file 0)]⟩
        contents := ⟨[(0, .ofBytes [1, 2, 3, 4, 5, 6])]⟩
        nextInode := 1
        descriptors := ⟨[(0, { inode := some 0, readable := false, writable := true })]⟩
        nextDescriptor := 1 } }

/-- The descriptor is adopted, and its handle goes to 5. -/
def adoptsAndSeeks : List (Occurrence Yields World) :=
  [.call ⟨1, "first"⟩ (.work (.files (.adopt 0 "/f"))),
    .call ⟨1, "first"⟩ (.work (.files (.plain (.seek ⟨0⟩ (.start 5)))))]

/-- A read is refused and leaves the descriptor at 5.  A commit comes to the same as without the read; to
adopt the descriptor once more does not. -/
theorem proceed_fruitless_refusedRead :
    let first : TxId := ⟨1, "first"⟩
    let s : Assembly Yields World :=
      (start (fun _ => {}) (writeOnly, {})).proceed (fun _ _ => 1) adoptsAndSeeks
    let s' := s.occur (fun _ _ => 1) (.call first (.work (.files (.plain (.read ⟨0⟩ 3)))))
    let again (s : Assembly Yields World) : Option Nat :=
      ((((s.occur (fun _ _ => 1) (.call first (.work (.files (.adopt 0 "/f"))))).transactions
        first).seat Party.files).handles.get? 1).map OpenFile.offset
    s'.transactions = s.transactions ∧
      (s.world.1.files.position 0 = 0 ∧ s'.world.1.files.position 0 = 5) ∧
      s'.occur (fun _ _ => 1) (.call first .commit) = s.occur (fun _ _ => 1) (.call first .commit) ∧
      (again s = some 0 ∧ again s' = some 5) := by
  intro first s s' again
  have sound : writeOnly.pipes.Sound := PipeTable.sound_empty
  have orderly : ∀ o ∈ adoptsAndSeeks, o.Orderly := by
    simp [adoptsAndSeeks, Occurrence.Orderly]
  obtain ⟨transactions, -, later⟩ := proceed_fruitless (fun _ _ => 1) (fun _ => {})
    (w := (writeOnly, ({} : World))) (e := (IoFault.os .badDescriptor).toError) sound orderly first
    (.files (.plain (.read ⟨0⟩ 3))) (by decide +kernel) (by rfl)
  have moved : Repositioned 0 s.world s'.world :=
    ⟨⟨s.world.1.files.setPosition 0 5, ⟨5, rfl⟩, by decide +kernel⟩, by decide +kernel⟩
  have settles : ∃ m ∈ (s.transactions first).members, m.state.Settles 0 :=
    ⟨_, List.mem_cons_self, _, List.mem_cons_self, rfl, rfl⟩
  exact ⟨transactions, by decide +kernel, (later 0 moved).2 settles (by decide +kernel),
    by decide +kernel⟩

end Assembly

end Transact
