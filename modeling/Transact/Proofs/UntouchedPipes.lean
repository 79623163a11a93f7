/-
# Transact.Proofs.UntouchedPipes -- pipes that nobody else touches

While nobody else takes from the pipes of a transaction and no writer is closed, all that is written
down about them can be carried out (`Carried`): the reads of each pipe begin at its front and go on
without a gap, and a write finds its writer open.  Work keeps it so (`Poised.write`, `Poised.read`), so
the pipes are valid (`Poised.valid`) and can be applied (`Poised.appliable`).
-/
import Transact.Proofs.Unopposed
import Transact.Proofs.Withholding

namespace Transact

set_option autoImplicit false

/-! ## Writers -/

namespace Pipe

variable {chunk : Nat → Nat} {p p' : Pipe}

theorem writerOpen_pull (made : p.pull chunk = some p') : p'.writerOpen = p.writerOpen := by
  unfold pull at made
  split at made
  · split at made <;> cases made
    rfl
  · cases made
    rfl

theorem writerOpen_peekWithin (offset max fuel : Nat) (p : Pipe) :
    (p.peekWithin chunk offset max fuel).2.writerOpen = p.writerOpen := by
  induction fuel generalizing p with
  | zero => rfl
  | succ fuel ih =>
      unfold peekWithin
      split
      · rfl
      split
      · rfl
      split
      · rfl
      split
      · rfl
      split
      · rfl
      · next q pulled => exact (ih q).trans (writerOpen_pull pulled)

theorem writerOpen_peekAt (chunk : Nat → Nat) (offset max : Nat) (p : Pipe) :
    (p.peekAt chunk offset max).2.writerOpen = p.writerOpen :=
  writerOpen_peekWithin ..

end Pipe

/-- Whether the writer of a pipe is open; `none` where there is no pipe. -/
def PipeTable.writer? (t : PipeTable) (pipe : Nat) : Option Bool :=
  (t.get? pipe).map Pipe.writerOpen

/-- A pipe takes the place of its former state, with its writer as it was. -/
theorem PipeTable.writer?_set {t : PipeTable} (sound : t.Sound) {pipe : Nat} {p p' : Pipe}
    (found : t.get? pipe = some p) (same : p'.id = p.id) (writer : p'.writerOpen = p.writerOpen)
    (n : Nat) : (t.set p').writer? n = t.writer? n := by
  rw [writer?, writer?, get?_set]
  split
  · next here =>
    rw [here, same, sound.named pipe p found, found, Option.map_some, Option.map_some, writer]
  · rfl

/-! ## Records -/

namespace Pipes

/-- A record about a pipe that is tracked and there; a write finds its writer open. -/
inductive Carried (tracked : List Nat) (t : PipeTable) : Record PipeEffect → Prop where
  | write {pipe : Nat} (bytes : Bytes) (known : pipe ∈ tracked) (open_ : t.writer? pipe = some true) :
      Carried tracked t (.deferred (.pipeWrite pipe) (.write bytes))
  | read {pipe : Nat} (offset : Nat) (bytes : Bytes) (known : pipe ∈ tracked)
      (there : t.writer? pipe ≠ none) :
      Carried tracked t (.deferred (.pipeRead pipe) (.read offset bytes))

variable {tracked tracked' : List Nat} {t t' : PipeTable} {s : Pipes} {w w' : World}
  {r : Record PipeEffect} {rs : List (Record PipeEffect)}

theorem Carried.mono (carried : Carried tracked t r) (within : ∀ pipe ∈ tracked, pipe ∈ tracked')
    (writers : ∀ n, t'.writer? n = t.writer? n) : Carried tracked' t' r := by
  cases carried with
  | write bytes known open_ => exact .write bytes (within _ known) ((writers _).trans open_)
  | read offset bytes known there =>
      exact .read offset bytes (within _ known) (by rwa [writers])

theorem Carried.plain (carried : Carried tracked t r) : IsRecord r := by
  cases carried with
  | write bytes => exact .write _ bytes
  | read offset bytes => exact .read _ offset bytes

/-- **A record that is carried is performed** if the reads go on from the front, and leaves the writers
as they are. -/
theorem Carried.applyRecord (carried : Carried s.tracked w.pipes r) (sound : w.pipes.Sound)
    (goes : ∀ pipe, goOn pipe (w.pipes.standing pipe).front r ≠ none)
    (ready : ∀ pipe, readsOf (deedIn pipe r).toList <+: (w.pipes.standing pipe).buffer) :
    ∃ w', s.applyRecord r w = (.ok (), w') ∧ ∀ n, w'.pipes.writer? n = w.pipes.writer? n := by
  cases carried with
  | @write pipe bytes known open_ =>
      obtain ⟨p, found, writable⟩ := Option.map_eq_some_iff.1 open_
      have tracked : s.tracked.contains pipe = true := List.contains_iff_mem.2 known
      refine ⟨{ w with pipes := w.pipes.set { p with channel := p.channel ++ bytes } }, ?_,
        PipeTable.writer?_set sound found rfl rfl⟩
      simp only [Pipes.applyRecord, Record.deferred, pipeOf, tracked, found, Pipe.writeAll, writable,
        if_true]
  | @read pipe offset bytes known there =>
      obtain ⟨open_, writer⟩ := Option.ne_none_iff_exists'.1 there
      obtain ⟨p, found, -⟩ := Option.map_eq_some_iff.1 writer
      have tracked : s.tracked.contains pipe = true := List.contains_iff_mem.2 known
      have here := PipeTable.standing_of_get? found
      have next := goes pipe
      have shown := (ready pipe).length_le
      rw [here] at next shown
      simp only [goOn, deedIn, Record.deferred, if_true, Option.toList_some, readsOf,
        List.flatMap_singleton] at next shown
      have front : p.front = offset := by
        by_contra other
        exact next (if_neg fun same => other same.symm)
      let p' : Pipe :=
        { p with buffer := p.buffer.drop bytes.length, front := offset + bytes.length }
      have kept : ∀ n, (w.pipes.set p').writer? n = w.pipes.writer? n :=
        PipeTable.writer?_set sound found rfl rfl
      refine ⟨{ w with pipes := w.pipes.set p' }, ?_, kept⟩
      simp only [Pipes.applyRecord, Record.deferred, pipeOf, tracked, found, Pipe.consumeAt, front,
        ne_eq, not_true_eq_false, if_false, Nat.not_lt.2 shown]
      rfl

/-- **Records that are carried are all performed**, the reads of each pipe one after another. -/
theorem applyEach_carried (sound : w.pipes.Sound) (carried : ∀ r ∈ rs, Carried s.tracked w.pipes r)
    (goes : ∀ pipe, endOfReads pipe (w.pipes.standing pipe).front rs ≠ none)
    (ready : ∀ pipe, readsOf (deedsIn pipe rs) <+: (w.pipes.standing pipe).buffer) :
    (DeferredLog.applyEach s.applyRecord rs w).1 = .ok () := by
  induction rs generalizing w with
  | nil => rfl
  | cons r rest ih =>
      obtain ⟨here, later⟩ := List.forall_mem_cons.1 carried
      have split (pipe : Nat) : ∃ next, goOn pipe (w.pipes.standing pipe).front r = some next ∧
          endOfReads pipe next rest ≠ none := by
        have all := goes pipe
        rw [endOfReads_cons] at all
        obtain ⟨stop, reached⟩ := Option.ne_none_iff_exists'.1 all
        obtain ⟨next, first, others⟩ := Option.bind_eq_some_iff.1 reached
        exact ⟨next, first, by rw [others]; exact Option.some_ne_none stop⟩
      have shown (pipe : Nat) : readsOf (deedIn pipe r).toList ++ readsOf (deedsIn pipe rest) <+:
          (w.pipes.standing pipe).buffer := by
        have all := ready pipe
        rwa [deedsIn_cons, readsOf_append] at all
      obtain ⟨w', done, writers⟩ := here.applyRecord sound
        (fun pipe => by
          obtain ⟨next, first, -⟩ := split pipe
          rw [first]
          exact Option.some_ne_none next)
        fun pipe => (List.prefix_append _ _).trans (shown pipe)
      have flows (pipe : Nat) : w'.pipes.Sound ∧
          endOfReads pipe (w'.pipes.standing pipe).front rest ≠ none ∧
          readsOf (deedsIn pipe rest) <+: (w'.pipes.standing pipe).buffer := by
        obtain ⟨next, first, others⟩ := split pipe
        obtain ⟨sound', moved, left⟩ :=
          applyRecord_flows sound here.plain first (shown pipe) done
        have front : next = (w'.pipes.standing pipe).front := by
          rw [goOn_length here.plain first, moved.front]
        exact ⟨sound', front ▸ others, left⟩
      simp only [DeferredLog.applyEach, done]
      exact ih (flows 0).1 (fun r member => (later r member).mono (fun _ known => known) writers)
        (fun pipe => (flows pipe).2.1) fun pipe => (flows pipe).2.2

/-! ## Work -/

/-- Nobody else took from the pipes of the transaction or closed a writer, and no version went up. -/
structure Poised (w : World) (s : Pipes) : Prop where
  notes : ∀ id seen, s.access.snapshot id = some seen → w.versions.current id = seen
  engaged : ∀ pipe, ∃ deeds, Engaged pipe deeds s (w.pipes.standing pipe)
  cursors : ∀ e ∈ s.cursors.entries,
    e.1 ∈ s.tracked ∧ (w.pipes.get? e.1).map Pipe.front = some e.2.start
  carried : ∀ r ∈ s.log.records, Carried s.tracked w.pipes r

theorem mem_tracked_track {s : Pipes} {pipe other : Nat} :
    other ∈ (s.track pipe).tracked ↔ other ∈ s.tracked ∨ other = pipe := by
  unfold track
  split
  · next known =>
    refine ⟨Or.inl, fun either => either.elim id ?_⟩
    rintro rfl
    exact List.contains_iff_mem.1 known
  · rw [List.mem_append, List.mem_singleton]

@[simp] theorem access_track (s : Pipes) (pipe : Nat) : (s.track pipe).access = s.access := by
  unfold track
  split <;> rfl

/-- What a read does, whatever it comes to. -/
theorem read_done (s : Pipes) {p : Pipe} (chunk : Nat → Nat) (pipe max : Nat)
    (found : w.pipes.get? pipe = some p) :
    ∃ p' cursors new, (Pipes.read chunk pipe max s w).2 =
        ({ s.track pipe with
            access := s.access.write w.versions p.readId, cursors, log := ⟨s.log.records ++ new⟩ },
          { w with pipes := w.pipes.set p' }) ∧
      p'.id = p.id ∧ p'.writerOpen = p.writerOpen ∧
      (∀ e ∈ cursors.entries, e ∈ s.cursors.entries ∨ e.1 = pipe ∧
        e.2.start = ((s.cursors.get? pipe).getD { start := p.front, next := p.front }).start) ∧
      ∀ r ∈ new, ∃ offset bytes, r = .deferred (.pipeRead p.id) (.read offset bytes) := by
  unfold Pipes.read
  simp only [found, cursors_track, access_track]
  generalize (s.cursors.get? pipe).getD { start := p.front, next := p.front } = cursor
  rcases made : p.peekAt chunk cursor.next max with ⟨reading, p'⟩
  have id : p'.id = p.id := (Pipe.peekAt_flows made).1.id
  have writer := p.writerOpen_peekAt chunk cursor.next max
  rw [made] at writer
  have log : (s.track pipe).log = ⟨s.log.records ++ []⟩ := by rw [log_track, List.append_nil]
  have begun (e : Nat × ReadCursor) (member : e ∈ (s.cursors.set pipe cursor).entries) :
      e ∈ s.cursors.entries ∨ e.1 = pipe ∧ e.2.start = cursor.start :=
    (Table.mem_entries_set member).imp_right fun same => by rw [same]; exact ⟨rfl, rfl⟩
  have gone {next : Nat} (e : Nat × ReadCursor)
      (member : e ∈ ((s.cursors.set pipe cursor).set pipe { cursor with next }).entries) :
      e ∈ s.cursors.entries ∨ e.1 = pipe ∧ e.2.start = cursor.start := by
    rcases Table.mem_entries_set member with before | same
    · exact begun e before
    · rw [same]
      exact Or.inr ⟨rfl, rfl⟩
  have nothing (r : Record PipeEffect) (member : r ∈ ([] : List (Record PipeEffect))) :
      ∃ offset bytes, r = .deferred (.pipeRead p.id) (.read offset bytes) :=
    absurd member List.not_mem_nil
  cases reading with
  | failed e => exact ⟨p', _, [], by rw [← log], id, writer, begun, nothing⟩
  | waits => exact ⟨p', _, [], by rw [← log], id, writer, begun, nothing⟩
  | bytes content =>
      by_cases empty : content = []
      · refine ⟨p', (s.cursors.set pipe cursor).set pipe
          { cursor with next := cursor.next + content.length }, [], ?_, id, writer, gone, nothing⟩
        rw [← log]
        simp only [empty, if_true]
      · refine ⟨p', (s.cursors.set pipe cursor).set pipe
          { cursor with next := cursor.next + content.length },
          [.deferred p'.readId (.read cursor.next content)], ?_, id, writer, gone,
          fun r member => ?_⟩
        · simp only [empty, if_false, log_track]
          rfl
        · exact ⟨_, _, by rw [List.mem_singleton.1 member, Pipe.readId, id]⟩

namespace Poised

theorem fresh (w : World) : Poised w {} where
  notes _ _ noted := by cases noted
  engaged pipe := ⟨[], .fresh pipe _⟩
  cursors _ member := absurd member List.not_mem_nil
  carried _ member := absurd member List.not_mem_nil

/-- It depends on pipes and versions. -/
theorem congr (poised : Poised w s) (pipes : w'.pipes = w.pipes) (versions : w'.versions = w.versions) :
    Poised w' s where
  notes := versions ▸ poised.notes
  engaged := pipes ▸ poised.engaged
  cursors := pipes ▸ poised.cursors
  carried := pipes ▸ poised.carried

theorem write (poised : Poised w s) (sound : w.pipes.Sound) (pipe : Nat) (bytes : Bytes) :
    Poised w (Pipes.write pipe bytes s w).2.1 := by
  have engaged (n : Nat) : ∃ deeds,
      Engaged n deeds (Pipes.write pipe bytes s w).2.1 (w.pipes.standing n) := by
    obtain ⟨deeds, before⟩ := poised.engaged n
    exact ⟨_, (before.write sound ⟨0, ""⟩ pipe bytes).2⟩
  unfold Pipes.write at engaged ⊢
  cases found : w.pipes.get? pipe with
  | none => exact poised
  | some p =>
      cases writable : p.writerOpen with
      | false => simpa only [writable, Bool.false_eq_true, if_false] using poised
      | true =>
          simp only [found, writable, if_true] at engaged ⊢
          refine ⟨fun id seen noted => ?_, engaged, fun e member => ?_, fun r member => ?_⟩
          · rw [access_track] at noted
            exact ((AccessSet.grown_write w.versions s.access p.writeId).new id seen noted).elim
              (poised.notes id seen) fun now => now
          · rw [cursors_track] at member
            obtain ⟨known, front⟩ := poised.cursors e member
            exact ⟨mem_tracked_track.2 (Or.inl known), front⟩
          · rw [log_track] at member
            rcases List.mem_append.1 member with before | new
            · exact (poised.carried r before).mono (fun _ known => mem_tracked_track.2 (Or.inl known))
                fun _ => rfl
            · rw [List.mem_singleton.1 new, Pipe.writeId, sound.named pipe p found]
              refine .write bytes (mem_tracked_track.2 (Or.inr rfl)) ?_
              rw [PipeTable.writer?, found, Option.map_some, writable]

theorem read (poised : Poised w s) (sound : w.pipes.Sound) (chunk : Nat → Nat) (pipe max : Nat) :
    Poised (Pipes.read chunk pipe max s w).2.2 (Pipes.read chunk pipe max s w).2.1 := by
  cases found : w.pipes.get? pipe with
  | none =>
      rw [Pipes.read, found]
      exact poised
  | some p =>
      have engaged (n : Nat) : ∃ deeds, Engaged n deeds (Pipes.read chunk pipe max s w).2.1
          ((Pipes.read chunk pipe max s w).2.2.pipes.standing n) := by
        obtain ⟨deeds, before⟩ := poised.engaged n
        exact ⟨_, (before.read sound chunk ⟨0, ""⟩ pipe max).2.2⟩
      have pulled := pulled_read chunk pipe max s w
      obtain ⟨p', cursors, new, done, id, writer, begun, read⟩ :=
        s.read_done (w := w) chunk pipe max found
      rw [done] at engaged pulled ⊢
      have fronts := pulled.fronts sound
      have writers := PipeTable.writer?_set sound found id writer
      refine ⟨fun id seen noted => ?_, engaged, fun e member => ?_, fun r member => ?_⟩
      · exact ((AccessSet.grown_write w.versions s.access p.readId).new id seen noted).elim
          (poised.notes id seen) fun now => now
      · rcases begun e member with before | ⟨here, start⟩
        · obtain ⟨known, front⟩ := poised.cursors e before
          exact ⟨mem_tracked_track.2 (Or.inl known), (fronts e.1).trans front⟩
        · refine ⟨mem_tracked_track.2 (Or.inr here), (fronts e.1).trans ?_⟩
          rw [here, start]
          cases last : s.cursors.get? pipe with
          | none => rw [found]; rfl
          | some cursor => exact (poised.cursors _ (Table.mem_of_get? last)).2
      · rcases List.mem_append.1 member with before | last
        · exact (poised.carried r before).mono
            (fun _ known => mem_tracked_track.2 (Or.inl known)) writers
        · obtain ⟨offset, bytes, rfl⟩ := read r last
          rw [sound.named pipe p found]
          refine .read offset bytes (mem_tracked_track.2 (Or.inr rfl)) ?_
          rw [writers, PipeTable.writer?, found]
          exact Option.some_ne_none _

/-! ## The end -/

/-- The pipes are valid. -/
theorem valid (poised : Poised w s) (keyed : s.access.Keyed) : s.validate w = true := by
  rw [Pipes.validate, (AccessSet.validate_iff keyed w.versions).2 poised.notes, Bool.true_and]
  refine List.all_eq_true.2 fun e member => ?_
  obtain ⟨known, front⟩ := poised.cursors e member
  obtain ⟨p, found, start⟩ := Option.map_eq_some_iff.1 front
  simp only [List.contains_iff_mem.2 known, found, start, beq_self_eq_true, Bool.and_true]

/-- **The pipes can be applied.** -/
theorem appliable (poised : Poised w s) (keyed : s.access.Keyed) (sound : w.pipes.Sound) :
    s.Appliable w := by
  intro w' same
  have unmoved : s.frontsUnmoved w = true := (Bool.and_eq_true_iff.1 (poised.valid keyed)).2
  have ready (pipe : Nat) :
      (∃ stop, endOfReads pipe (w.pipes.standing pipe).front s.log.records = some stop) ∧
        readsOf (deedsIn pipe s.log.records) <+: (w.pipes.standing pipe).buffer := by
    obtain ⟨deeds, engaged⟩ := poised.engaged pipe
    have both := engaged.ready unmoved
    rw [← engaged.recorded] at both
    exact both
  have all : (DeferredLog.applyEach s.applyRecord s.log.records w').1 = .ok () := by
    refine applyEach_carried (same ▸ sound) (same ▸ poised.carried) (fun pipe => ?_) fun pipe => ?_
    · obtain ⟨stop, reached⟩ := (ready pipe).1
      rw [same, reached]
      exact Option.some_ne_none stop
    · rw [same]
      exact (ready pipe).2
  simp only [apply, DeferredLog.applyAll]
  rcases done : DeferredLog.applyEach s.applyRecord s.log.records w' with ⟨_ | _, w''⟩ <;>
    rw [done] at all <;> cases all
  rfl

end Poised

end Pipes

end Transact
