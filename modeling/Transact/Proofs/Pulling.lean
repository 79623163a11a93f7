/-
# Transact.Proofs.Pulling -- pipes are pulled on, and never back

The *reach* of a pipe is the offset up to which its stream was pulled from the channel.  Bytes are
consumed at the front of the buffer and pulled to its end, so no operation on a pipe takes the reach
back, whoever it is done for and in whatever order.  A pipe that was opened stays in its table.

`PipeTable.Grows t t'` says so of all pipes of a table.  Every primitive of a transaction
(`Primitive.perform_grows`), all its work (`Work.perform_grows`), every call past transactions
(`RawCall.perform_grows`) and every thread (`World.runThread_grows`) makes the table grow.
-/
import Transact.Proofs.PipeEnding
import Transact.Proofs.Readiness

namespace Transact

set_option autoImplicit false

/-! ## One pipe -/

namespace Pipe

/-- How far the stream was pulled. -/
def reach (p : Pipe) : Nat := p.front + p.buffer.length

variable {chunk : Nat → Nat} {p p' : Pipe}

theorem reach_drain (p : Pipe) (n : Nat) : (p.drain n).reach = p.reach := by
  simp only [reach, drain, List.length_drop]
  omega

theorem reach_pull (made : p.pull chunk = some p') : p.reach ≤ p'.reach := by
  unfold pull at made
  split at made
  · split at made <;> cases made
    exact Nat.le_refl _
  · cases made
    simp only [reach, List.length_append]
    omega

theorem reach_writeAll {bytes : Bytes} (made : p.writeAll bytes = .ok p') : p'.reach = p.reach := by
  unfold writeAll at made
  split at made <;> cases made
  rfl

/-- What is consumed was pulled before. -/
theorem reach_consumeAt {offset len : Nat} (made : p.consumeAt offset len = .ok p') :
    p'.reach = p.reach := by
  unfold consumeAt at made
  split at made
  · cases made
  · split at made
    · cases made
    · next enough =>
      cases made
      simp only [reach, List.length_drop]
      omega

theorem reach_read (chunk : Nat → Nat) (max : Nat) (p : Pipe) : p.reach ≤ (p.read chunk max).2.reach := by
  unfold read
  split
  · exact Nat.le_refl _
  · split
    · exact Nat.le_of_eq (reach_drain p max).symm
    · split
      · exact Nat.le_refl _
      · split
        · exact Nat.le_refl _
        · next q pulled =>
          rw [reach_drain]
          exact reach_pull pulled

theorem reach_peekWithin (chunk : Nat → Nat) (offset max fuel : Nat) (p : Pipe) :
    p.reach ≤ (p.peekWithin chunk offset max fuel).2.reach := by
  induction fuel generalizing p with
  | zero => exact Nat.le_refl _
  | succ fuel ih =>
      unfold peekWithin
      split
      · exact Nat.le_refl _
      split
      · exact Nat.le_refl _
      split
      · exact Nat.le_refl _
      split
      · exact Nat.le_refl _
      split
      · exact Nat.le_refl _
      · next q pulled => exact Nat.le_trans (reach_pull pulled) (ih q)

theorem reach_peekAt (chunk : Nat → Nat) (offset max : Nat) (p : Pipe) :
    p.reach ≤ (p.peekAt chunk offset max).2.reach :=
  reach_peekWithin ..

/-- **What a look shows was pulled.** -/
theorem shown_within_reach {offset max : Nat} {content : Bytes}
    (made : p.peekAt chunk offset max = (.bytes content, p')) :
    content = [] ∨ offset + content.length ≤ p'.reach := by
  obtain ⟨flows, shown⟩ := peekAt_flows made
  have front : p'.front = p.front := flows.front
  obtain ⟨ahead, nothing | part⟩ := shown content rfl
  · exact Or.inl nothing
  · by_cases nothing : content = []
    · exact Or.inl nothing
    · have filled := List.length_pos_iff.2 nothing
      have within := part.length_le
      rw [List.length_drop] at within
      rw [reach, front]
      omega

end Pipe

/-! ## All pipes -/

/-- Every pipe of `t` is in `t'` and was pulled no less far, and `t'` is in order. -/
structure PipeTable.Grows (t t' : PipeTable) : Prop where
  sound : t'.Sound
  pipes : ∀ pipe p, t.get? pipe = some p → ∃ p', t'.get? pipe = some p' ∧ p.reach ≤ p'.reach

namespace PipeTable

variable {t t' t'' : PipeTable} {pipe : Nat} {p p' : Pipe}

namespace Grows

theorem refl (sound : t.Sound) : t.Grows t := ⟨sound, fun _ p found => ⟨p, found, Nat.le_refl _⟩⟩

theorem trans (first : t.Grows t') (second : t'.Grows t'') : t.Grows t'' where
  sound := second.sound
  pipes pipe p found := by
    obtain ⟨p', found', further⟩ := first.pipes pipe p found
    obtain ⟨p'', found'', andFurther⟩ := second.pipes pipe p' found'
    exact ⟨p'', found'', Nat.le_trans further andFurther⟩

end Grows

/-- A pipe takes the place of its former state, pulled no less far. -/
theorem Sound.grows_set (sound : t.Sound) (found : t.get? pipe = some p) (same : p'.id = p.id)
    (further : p.reach ≤ p'.reach) : t.Grows (t.set p') := by
  refine ⟨sound.set found same, fun other q there => ?_⟩
  rw [get?_set]
  split
  · next here =>
    rw [here, same, sound.named pipe p found, found] at there
    cases there
    exact ⟨p', rfl, further⟩
  · exact ⟨q, there, Nat.le_refl _⟩

/-- A new pipe gets a number of its own. -/
theorem Sound.grows_openPipe (sound : t.Sound) : t.Grows t.openPipe.2 := by
  refine ⟨sound.openPipe.1, fun pipe p found => ⟨p, ?_, Nat.le_refl _⟩⟩
  have other : pipe ≠ t.next := Nat.ne_of_lt (sound.given pipe p found)
  exact (Table.get?_set_of_ne t.pipes _ other).trans found

/-- A pipe that is forgotten goes on where it is in use. -/
theorem Sound.grows_forget (sound : t.Sound) (pipe : Nat) : t.Grows (t.forget pipe).2 :=
  ⟨⟨sound.named, sound.given⟩, fun _ p found => ⟨p, found, Nat.le_refl _⟩⟩

end PipeTable

/-! ## Calls past transactions -/

namespace RawCall

/-- A raw call takes no pipe back. -/
theorem onPipe_reach (chunk : Nat → Nat) (p : Pipe) (call : RawCall) :
    (call.onPipe chunk p).2.id = p.id ∧ p.reach ≤ (call.onPipe chunk p).2.reach := by
  cases call with
  | openPipe => exact ⟨rfl, Nat.le_refl _⟩
  | read pipe max => exact ⟨(Pipe.read_flows rfl).1.id, p.reach_read chunk max⟩
  | peekAt pipe offset max => exact ⟨(Pipe.peekAt_flows rfl).1.id, p.reach_peekAt chunk offset max⟩
  | consumeAt pipe offset len =>
      simp only [onPipe]
      cases made : p.consumeAt offset len with
      | error e => exact ⟨rfl, Nat.le_refl _⟩
      | ok p' => exact ⟨(Pipe.consumeAt_flows made).1.id, Nat.le_of_eq (Pipe.reach_consumeAt made).symm⟩
  | writeAll pipe bytes =>
      simp only [onPipe]
      cases made : p.writeAll bytes with
      | error e => exact ⟨rfl, Nat.le_refl _⟩
      | ok p' => exact ⟨(Pipe.writeAll_flows made).1.id, Nat.le_of_eq (Pipe.reach_writeAll made).symm⟩
  | closeWriter pipe => exact ⟨rfl, Nat.le_refl _⟩

theorem perform_grows (chunk : Nat → Nat → Nat) {t : PipeTable} (sound : t.Sound) (call : RawCall) :
    t.Grows (call.perform chunk t).2 := by
  unfold perform
  split
  · exact sound.grows_openPipe
  · next pipe _ =>
    split
    · exact .refl sound
    · next p found =>
      obtain ⟨same, further⟩ := call.onPipe_reach (chunk pipe) p
      exact sound.grows_set found same further

end RawCall

/-! ## Threads -/

namespace World

variable {w : World}

/-- The body of a thread reads from a pipe at most. -/
theorem runThread_grows (sound : w.pipes.Sound) (id : Nat) : w.pipes.Grows (w.runThread id).pipes := by
  unfold runThread
  split
  · next name task _ =>
    simp only
    split
    · exact .refl sound
    · split
      · exact .refl sound
      · split
        · exact .refl sound
        · next pipe max _ _ p found =>
          have grows : w.pipes.Grows (w.pipes.set (p.read Pipe.fullChunks max).2) :=
            sound.grows_set found (Pipe.read_flows rfl).1.id (p.reach_read _ max)
          split <;> exact grows
  · exact .refl sound

theorem startThread_grows (sound : w.pipes.Sound) (id : Nat) :
    w.pipes.Grows (w.startThread id).2.pipes := by
  unfold startThread
  rcases w.threads.start id with ⟨_ | _, threads⟩
  · exact .refl sound
  · exact runThread_grows (w := { w with threads }) sound id

theorem joinThread_grows (sound : w.pipes.Sound) (id : Nat) :
    w.pipes.Grows (w.joinThread id).2.pipes := by
  have grows := w.runThread_grows sound id
  unfold joinThread
  simp only
  split
  · exact grows
  · split
    · exact grows
    · split <;> exact grows
    · exact grows

end World

/-! ## Transactions -/

/-- To perform a record of the pipe log writes to a pipe or consumes from it. -/
theorem Pipes.applyRecord_grows {w : World} (sound : w.pipes.Sound) (s : Pipes)
    (r : Record PipeEffect) : w.pipes.Grows (s.applyRecord r w).2.pipes := by
  unfold applyRecord
  cases looked : s.pipeOf r.resource w with
  | error e => exact .refl sound
  | ok p =>
      obtain ⟨pipe, found⟩ : ∃ pipe, w.pipes.get? pipe = some p := by
        unfold pipeOf at looked
        simp only at looked
        split at looked
        · split at looked <;> cases looked
          exact ⟨_, ‹_›⟩
        · split at looked <;> cases looked
          exact ⟨_, ‹_›⟩
        · cases looked
      cases payload : r.payload with
      | write bytes =>
          simp only
          cases made : p.writeAll bytes with
          | error e => exact .refl sound
          | ok p' =>
              exact sound.grows_set found (Pipe.writeAll_flows made).1.id
                (Nat.le_of_eq (Pipe.reach_writeAll made).symm)
      | read offset bytes =>
          simp only
          cases made : p.consumeAt offset bytes.length with
          | error e => exact .refl sound
          | ok p' =>
              exact sound.grows_set found (Pipe.consumeAt_flows made).1.id
                (Nat.le_of_eq (Pipe.reach_consumeAt made).symm)

/-- **No primitive takes a pipe back.** -/
theorem Primitive.perform_grows {V β : Type} (p : Primitive V β) (tx : TxId) {w : World × V}
    (sound : w.1.pipes.Sound) : w.1.pipes.Grows (p.perform tx w).2.1.pipes := by
  cases p with
  | performFile handles r =>
      simp only [perform, Files.applyRecord_files handles r w.1]
      exact .refl sound
  | performPipe s r => exact s.applyRecord_grows sound r
  | startThread r =>
      have grows := w.1.startThread_grows sound r.payload.thread
      simp only [perform, Threads.applyRecord]
      rcases started : w.1.startThread r.payload.thread with ⟨_ | _, w'⟩ <;> rw [started] at grows <;>
        exact grows
  | seek descriptor offset =>
      simp only [perform]
      split <;> exact .refl sound
  | uncreate id path =>
      simp only [perform]
      split <;> exact .refl sound
  | _ => exact .refl sound

/-- A transaction's read looks at what it pulls, and consumes nothing. -/
theorem Pipes.read_grows {w : World} (sound : w.pipes.Sound) (s : Pipes) (chunk : Nat → Nat)
    (pipe max : Nat) : w.pipes.Grows (s.read chunk pipe max w).2.2.pipes := by
  unfold Pipes.read
  cases found : w.pipes.get? pipe with
  | none => exact .refl sound
  | some p =>
      simp only
      generalize ((s.track pipe).cursors.get? pipe).getD { start := p.front, next := p.front } = cursor
      have grows : w.pipes.Grows (w.pipes.set (p.peekAt chunk cursor.next max).2) :=
        sound.grows_set found (Pipe.peekAt_flows rfl).1.id (p.reach_peekAt chunk cursor.next max)
      split
      · exact grows
      · exact grows
      · split <;> exact grows

theorem Pipes.write_grows {w : World} (sound : w.pipes.Sound) (s : Pipes) (pipe : Nat) (bytes : Bytes) :
    w.pipes.Grows (s.write pipe bytes w).2.2.pipes := by
  unfold Pipes.write
  split
  · exact .refl sound
  · split <;> exact .refl sound

/-- **No work takes a pipe back.** -/
theorem Work.perform_grows {G V : Type} (chunk : Nat → Nat → Nat) (t : Transaction (Party G))
    {w : World × V} (sound : w.1.pipes.Sound) (work : Work) :
    w.1.pipes.Grows (work.perform chunk t w).2.1.pipes := by
  rcases work.perform_world chunk t w with
    ⟨files, threads, same⟩ | ⟨s, pipe, max, same⟩ | ⟨s, pipe, bytes, same⟩ <;> rw [same]
  · exact .refl sound
  · exact s.read_grows sound (chunk pipe) pipe max
  · exact s.write_grows sound pipe bytes

end Transact
