/-
# Transact.Proofs.PipeBuffer -- a pipe is a plain stream, however its bytes arrive

A `PlainStream` knows all bytes that were written, how far they were consumed and how many of them were
pulled, and says what each call on it may come to (`PlainStream.Answers`): looking and reading show a
beginning of what was written from their offset on, if there is any.  Nothing in this depends on the
sizes of the pulls.

A pipe is seen as such a stream (`Pipe.seen`) once the bytes written are known.  `Pipe.Carries` is what
every call keeps, and each call is answered as the stream says (`RawCall.onPipe_answers`).  A look pulls
until it can answer; every pull leaves less to pull (`Pipe.pull_left`), so it comes to an end.

Main statement: `run_refines`.
-/
import Transact.Proofs.PipeCalls

namespace Transact

set_option autoImplicit false

/-! ## Streams -/

/-- A stream of which all bytes are known. -/
structure PlainStream where
  written : Bytes
  /-- The offset of the first byte not consumed. -/
  front : Nat
  /-- How many bytes were pulled and not consumed. -/
  buffered : Nat
  isOpen : Bool

namespace PlainStream

/-- A beginning of what was written from `offset` on: at least one byte, at most `max`. -/
structure Shows (s : PlainStream) (offset max : Nat) (content : Bytes) : Prop where
  nonempty : content ≠ []
  start : content <+: s.written.drop offset
  short : content.length ≤ max

/-- Nothing happened but pulls. -/
structure Pulls (s s' : PlainStream) : Prop where
  written : s'.written = s.written
  front : s'.front = s.front
  isOpen : s'.isOpen = s.isOpen
  buffered : s.buffered ≤ s'.buffered

/-- What comes where nothing was written: the end, or the writer is waited for. -/
def atEnd (s : PlainStream) : Pipe.Reading := if s.isOpen then .waits else .bytes []

/-- Looking at most `max` bytes from `offset` on. -/
def Peeks (s : PlainStream) (offset max : Nat) (reading : Pipe.Reading) (s' : PlainStream) : Prop :=
  if offset < s.front then (∃ e, reading = .failed e ∧ e.kind = .validationConflict) ∧ s' = s
  else s.Pulls s' ∧
    if max = 0 then reading = .bytes []
    else if offset < s.written.length then ∃ content, reading = .bytes content ∧ s.Shows offset max content
    else reading = s.atEnd

/-- Taking at most `max` bytes from the front. -/
def Reads (s : PlainStream) (max : Nat) (reading : Pipe.Reading) (s' : PlainStream) : Prop :=
  if max = 0 then reading = .bytes [] ∧ s' = s
  else if s.front < s.written.length then
    ∃ content, reading = .bytes content ∧ s.Shows s.front max content ∧
      s' = { s with front := s.front + content.length, buffered := s'.buffered } ∧
      s.buffered ≤ s'.buffered + content.length
  else reading = s.atEnd ∧ s' = s

/-- Consuming `len` bytes that start at `offset`. -/
def Consumes (s : PlainStream) (offset len : Nat) (result : Except Error Bytes) (s' : PlainStream) :
    Prop :=
  if offset = s.front ∧ len ≤ s.buffered then
    result = .ok (s.written.slice offset len) ∧
      s' = { s with front := s.front + len, buffered := s.buffered - len }
  else (∃ e, result = .error e) ∧ s' = s

/-- Writing at the end. -/
def Writes (s : PlainStream) (bytes : Bytes) (result : Except Error Nat) (s' : PlainStream) : Prop :=
  if s.isOpen then result = .ok bytes.length ∧ s' = { s with written := s.written ++ bytes }
  else (∃ e, result = .error e ∧ e.kind = .invalidOperation) ∧ s' = s

/-- What a call may come to, and the stream after it. -/
def Answers (s : PlainStream) : RawCall → PipeAnswer → PlainStream → Prop
  | .peekAt _ offset max, .looked reading, s' => s.Peeks offset max reading s'
  | .read _ max, .looked reading, s' => s.Reads max reading s'
  | .consumeAt _ offset len, .consumed result, s' => s.Consumes offset len result s'
  | .writeAll _ bytes, .wrote result, s' => s.Writes bytes result s'
  | .closeWriter _, .done, s' => s' = { s with isOpen := false }
  | .openPipe, .done, s' => s' = s
  | _, _, _ => False

theorem Pulls.refl (s : PlainStream) : s.Pulls s := ⟨rfl, rfl, rfl, Nat.le_refl _⟩

theorem Pulls.trans {s s₁ s' : PlainStream} (first : s.Pulls s₁) (second : s₁.Pulls s') : s.Pulls s' where
  written := second.written.trans first.written
  front := second.front.trans first.front
  isOpen := second.isOpen.trans first.isOpen
  buffered := Nat.le_trans first.buffered second.buffered

theorem Pulls.shows {s s₁ : PlainStream} (pulled : s.Pulls s₁) {offset max : Nat} {content : Bytes} :
    s₁.Shows offset max content ↔ s.Shows offset max content :=
  ⟨fun ⟨asked, start, short⟩ => ⟨asked, by rwa [pulled.written] at start, short⟩,
    fun ⟨asked, start, short⟩ => ⟨asked, by rwa [pulled.written], short⟩⟩

section Peeks

variable {s s' : PlainStream} {offset max : Nat}

theorem Peeks.behind {e : Error} (behind : offset < s.front) (kind : e.kind = .validationConflict) :
    s.Peeks offset max (.failed e) s := by
  rw [Peeks, if_pos behind]
  exact ⟨⟨e, rfl, kind⟩, rfl⟩

theorem Peeks.nothing (ahead : ¬ offset < s.front) (unasked : max = 0) (pulled : s.Pulls s') :
    s.Peeks offset max (.bytes []) s' := by
  rw [Peeks, if_neg ahead, if_pos unasked]
  exact ⟨pulled, rfl⟩

theorem Peeks.some {content : Bytes} (ahead : ¬ offset < s.front) (pulled : s.Pulls s')
    (shown : s.Shows offset max content) : s.Peeks offset max (.bytes content) s' := by
  have length := shown.start.length_le
  have written := List.length_pos_iff.2 shown.nonempty
  have short := shown.short
  rw [List.length_drop] at length
  rw [Peeks, if_neg ahead, if_neg (by omega), if_pos (by omega)]
  exact ⟨pulled, content, rfl, shown⟩

theorem Peeks.past {reading : Pipe.Reading} (ahead : ¬ offset < s.front) (asked : max ≠ 0)
    (past : ¬ offset < s.written.length) (pulled : s.Pulls s') (comes : reading = s.atEnd) :
    s.Peeks offset max reading s' := by
  rw [Peeks, if_neg ahead, if_neg asked, if_neg past]
  exact ⟨pulled, comes⟩

/-- A look that fails is behind the front. -/
theorem Peeks.of_failed {e : Error} (peeks : s.Peeks offset max (.failed e) s') : offset < s.front := by
  refine Decidable.by_contra fun ahead => ?_
  rw [Peeks, if_neg ahead, atEnd] at peeks
  obtain ⟨-, comes⟩ := peeks
  split at comes
  · cases comes
  split at comes
  · obtain ⟨content, bytes, -⟩ := comes
    cases bytes
  split at comes <;> cases comes

end Peeks

section Reads

variable {s s' : PlainStream} {max : Nat}

theorem Reads.nothing (unasked : max = 0) : s.Reads max (.bytes []) s := by
  rw [Reads, if_pos unasked]
  exact ⟨rfl, rfl⟩

theorem Reads.some {s₁ : PlainStream} {content : Bytes} (pulled : s.Pulls s₁) (asked : max ≠ 0)
    (shown : s₁.Shows s₁.front max content)
    (after : s' = { s₁ with front := s₁.front + content.length, buffered := s'.buffered })
    (kept : s₁.buffered ≤ s'.buffered + content.length) : s.Reads max (.bytes content) s' := by
  have length := shown.start.length_le
  have written := List.length_pos_iff.2 shown.nonempty
  have grown := pulled.buffered
  rw [List.length_drop, pulled.written, pulled.front] at length
  rw [Reads, if_neg asked, if_pos (by omega)]
  rw [pulled.written, pulled.front, pulled.isOpen] at after
  exact ⟨content, rfl, pulled.shows.1 (pulled.front ▸ shown), after, by omega⟩

theorem Reads.past {reading : Pipe.Reading} (asked : max ≠ 0) (past : ¬ s.front < s.written.length)
    (comes : reading = s.atEnd) : s.Reads max reading s := by
  rw [Reads, if_neg asked, if_neg past]
  exact ⟨comes, rfl⟩

/-- A read does not fail. -/
theorem Reads.not_failed {e : Error} : ¬ s.Reads max (.failed e) s' := by
  intro reads
  rw [Reads, atEnd] at reads
  split at reads
  · cases reads.1
  split at reads
  · obtain ⟨content, bytes, -⟩ := reads
    cases bytes
  · obtain ⟨comes, -⟩ := reads
    split at comes <;> cases comes

end Reads

/-- What is looked at after a pull could be looked at before. -/
theorem Peeks.of_pulls {s s₁ s' : PlainStream} {offset max : Nat} {reading : Pipe.Reading}
    (pulled : s.Pulls s₁) (ahead : ¬ offset < s.front) (peeks : s₁.Peeks offset max reading s') :
    s.Peeks offset max reading s' := by
  simp only [Peeks, atEnd, pulled.written, pulled.front, pulled.isOpen, pulled.shows, if_neg ahead]
    at peeks ⊢
  exact peeks.imp_left pulled.trans

end PlainStream

/-! ## Pipes -/

namespace Pipe

variable {chunk : Nat → Nat} {p q : Pipe} {written : Bytes}

/-- A pipe as a stream to which these bytes were written. -/
def seen (p : Pipe) (written : Bytes) : PlainStream where
  written := written
  front := p.front
  buffered := p.buffer.length
  isOpen := p.writerOpen

/-- A pipe holds of what was written all that was not consumed, and has ended only behind the last byte
of a closed writer. -/
structure Carries (p : Pipe) (written : Bytes) : Prop where
  within : p.front ≤ written.length
  stock : written.drop p.front = p.stock
  closed : p.ended = true → p.channel = [] ∧ p.writerOpen = false

theorem Carries.length (carries : p.Carries written) :
    written.length = p.front + p.buffer.length + p.channel.length := by
  have rest := congrArg List.length carries.stock
  have within := carries.within
  rw [List.length_drop, Pipe.stock, List.length_append] at rest
  omega

/-- **The buffer is what was written from the front on.** -/
theorem Carries.buffer (carries : p.Carries written) :
    p.buffer = written.slice p.front p.buffer.length := by
  rw [Bytes.slice, carries.stock, Pipe.stock, List.take_left]

/-- What comes in is written at the end, and what was taken is gone from the front. -/
theorem Carries.flows (carries : p.Carries written) {entered taken : Bytes}
    (flows : p.Flows entered taken q) (part : taken.length ≤ p.stock.length)
    (closed : q.ended = true → q.channel = [] ∧ q.writerOpen = false) :
    q.Carries (written ++ entered) where
  within := by
    have within := carries.within
    have length := congrArg List.length carries.stock
    rw [List.length_drop] at length
    rw [flows.front, List.length_append]
    omega
  stock := by
    rw [flows.front, ← List.drop_drop, List.drop_append_of_le_length carries.within, carries.stock,
      flows.stock, List.drop_left]
  closed := closed

/-- How often a pipe can be pulled from at most, and once more. -/
def left (p : Pipe) : Nat := p.channel.length + if p.ended then 1 else 2

theorem pull_left (going : p.ended = false) (pulled : p.pull chunk = some q) : q.left < p.left := by
  unfold pull at pulled
  split at pulled
  · split at pulled
    · cases pulled
    · cases pulled
      simp [left, going]
  · next nonempty =>
    cases pulled
    have size : 0 < p.nextChunk chunk := Nat.lt_of_lt_of_le Nat.one_pos (Nat.le_max_left ..)
    have filled : 0 < p.channel.length := List.length_pos_iff.2 nonempty
    simp only [left, going, List.length_drop]
    omega

/-- **A pull moves bytes into the buffer** and nothing else. -/
theorem Carries.pull (carries : p.Carries written) (pulled : p.pull chunk = some q) :
    q.Carries written ∧ (p.seen written).Pulls (q.seen written) := by
  have flows := pull_flows pulled
  have front : q.front = p.front := flows.front
  have grown := (flows.stays front).length_le
  have writer : q.writerOpen = p.writerOpen ∧
      (q.ended = true → q.channel = [] ∧ q.writerOpen = false) := by
    unfold Pipe.pull at pulled
    split at pulled
    · next drained =>
      split at pulled
      · cases pulled
      · next shut =>
        cases pulled
        exact ⟨rfl, fun _ => ⟨drained, Bool.not_eq_true _ ▸ shut⟩⟩
    · next filled =>
      cases pulled
      exact ⟨rfl, fun ended => absurd (carries.closed ended).1 filled⟩
  exact ⟨List.append_nil written ▸ carries.flows flows (Nat.zero_le _) writer.2,
    ⟨rfl, front, writer.1, grown⟩⟩

theorem pull_eq_none (dry : p.pull chunk = none) : p.channel = [] ∧ p.writerOpen = true := by
  unfold pull at dry
  split at dry
  · next drained =>
    split at dry
    · next writer => exact ⟨drained, writer⟩
    · cases dry
  · cases dry

/-- What the buffer has from an offset on, the stream shows. -/
theorem Carries.shows (carries : p.Carries written) {offset max : Nat} (ahead : p.front ≤ offset)
    (asked : max ≠ 0) (within : offset - p.front < p.buffer.length) :
    (p.seen written).Shows offset max (p.buffer.slice (offset - p.front) max) := by
  have rest : written.drop offset = p.buffer.drop (offset - p.front) ++ p.channel := by
    rw [← List.drop_append_of_le_length (Nat.le_of_lt within), ← Pipe.stock, ← carries.stock, List.drop_drop,
      Nat.add_sub_cancel' ahead]
  refine ⟨List.ne_nil_of_length_pos ?_, ?_, List.length_take_le ..⟩
  · rw [Bytes.slice, List.length_take, List.length_drop]
    omega
  · show _ <+: written.drop offset
    rw [rest]
    exact (List.take_prefix ..).trans (List.prefix_append ..)

/-- Where nothing more was written, the buffer shows nothing. -/
theorem Carries.dry (carries : p.Carries written) (drained : p.channel = [])
    {offset : Nat} (past : p.front + p.buffer.length ≤ offset) : ¬ offset < written.length := by
  rw [carries.length, drained, List.length_nil]
  omega

/-! ## Looking -/

/-- **Looking shows the stream** from its offset on, if it may pull as often as there is something left.
The induction is on the number of looks into the buffer; each pull that was needed leaves less. -/
theorem Carries.peekWithin (carries : p.Carries written) (chunk : Nat → Nat) (offset max : Nat)
    {fuel : Nat} (enough : p.left ≤ fuel) :
    let r := p.peekWithin chunk offset max fuel
    r.2.Carries written ∧ (p.seen written).Peeks offset max r.1 (r.2.seen written) ∧
      (offset < p.front → r.2 = p) := by
  induction fuel generalizing p with
  | zero =>
      unfold left at enough
      split at enough <;> omega
  | succ fuel ih =>
      have same := PlainStream.Pulls.refl (p.seen written)
      unfold Pipe.peekWithin
      split
      · next behind => exact ⟨carries, .behind behind rfl, fun _ => rfl⟩
      next ahead =>
      split
      · next unasked => exact ⟨carries, .nothing ahead unasked same, fun _ => rfl⟩
      next asked =>
      split
      · next within =>
        have shown := carries.shows (Nat.le_of_not_lt ahead) asked within
        exact ⟨carries, .some ahead same shown, fun _ => rfl⟩
      next past =>
      split
      · next ended =>
        obtain ⟨drained, shut⟩ := carries.closed ended
        refine ⟨carries, .past ahead asked (carries.dry drained (by omega)) same ?_, fun _ => rfl⟩
        exact (if_neg (Bool.not_eq_true _ ▸ shut)).symm
      next going =>
      split
      · next dry =>
        obtain ⟨drained, writer⟩ := pull_eq_none dry
        refine ⟨carries, .past ahead asked (carries.dry drained (by omega)) same ?_, fun _ => rfl⟩
        exact (if_pos writer).symm
      · next q pulled =>
        obtain ⟨carries', pulls⟩ := carries.pull pulled
        have less := pull_left (Bool.not_eq_true _ ▸ going) pulled
        obtain ⟨kept, peeks, -⟩ := ih carries' (by omega)
        exact ⟨kept, peeks.of_pulls pulls ahead, fun behind => absurd behind ahead⟩

/-- Once it may pull that often, how often it may pull does not matter. -/
theorem peekWithin_fuel {offset max fuel fuel' : Nat} (enough : p.left ≤ fuel) (enough' : p.left ≤ fuel') :
    p.peekWithin chunk offset max fuel = p.peekWithin chunk offset max fuel' := by
  have remaining : 0 < p.left := by
    unfold left
    split <;> omega
  induction fuel generalizing p fuel' with
  | zero => omega
  | succ fuel ih =>
      obtain ⟨fuel', rfl⟩ :=
        Nat.exists_eq_succ_of_ne_zero (Nat.ne_of_gt (Nat.lt_of_lt_of_le remaining enough'))
      unfold Pipe.peekWithin
      split
      · rfl
      split
      · rfl
      split
      · rfl
      split
      · rfl
      next going =>
      split
      · rfl
      · next q pulled =>
        have less := pull_left (Bool.not_eq_true _ ▸ going) pulled
        refine ih (by omega) (by omega) ?_
        unfold left
        split <;> omega

theorem left_le (p : Pipe) : p.left ≤ p.channel.length + 2 := by
  unfold left
  split <;> omega

/-! ## Reading -/

/-- A pull that leaves the buffer empty found the end. -/
theorem pull_empty (pulled : p.pull chunk = some q) (empty : q.buffer = []) :
    p.channel = [] ∧ p.writerOpen = false := by
  unfold Pipe.pull at pulled
  split at pulled
  · next drained =>
    split at pulled
    · cases pulled
    · next shut => exact ⟨drained, Bool.not_eq_true _ ▸ shut⟩
  · next nonempty =>
    cases pulled
    have size : 0 < p.nextChunk chunk := Nat.lt_of_lt_of_le Nat.one_pos (Nat.le_max_left ..)
    have filled : 0 < p.channel.length := List.length_pos_iff.2 nonempty
    have empty := congrArg List.length empty
    simp only [List.length_append, List.length_take, List.length_nil] at empty
    omega

theorem drain_empty (empty : p.buffer = []) (n : Nat) : p.drain n = p := by
  rcases p with ⟨id, front, buffer, ended, channel, writerOpen, pulls⟩
  obtain rfl : buffer = [] := empty
  simp [Pipe.drain]

/-- Taking from a buffer that has something takes what the stream has at its front, also if it was
pulled only now. -/
theorem Carries.drain (carries : p.Carries written) {s : PlainStream} (pulled : s.Pulls (p.seen written))
    {max : Nat} (asked : max ≠ 0) (there : p.buffer ≠ []) :
    (p.drain max).Carries written ∧
      s.Reads max (.bytes (p.buffer.take max)) ((p.drain max).seen written) := by
  have buffered := List.length_pos_iff.2 there
  have drained := carries.flows (drain_flows p max) (take_le_stock p max) carries.closed
  have shown : (p.seen written).Shows p.front max (p.buffer.take max) := by
    simpa [Bytes.slice] using carries.shows (Nat.le_refl p.front) asked (by omega)
  refine ⟨List.append_nil written ▸ drained, .some pulled asked shown ?_ ?_⟩
  · simp only [seen, Pipe.drain, List.length_take]
  · simp only [seen, Pipe.drain, List.length_take, List.length_drop]
    omega

/-- **Reading takes what the stream has at its front.** -/
theorem Carries.read (carries : p.Carries written) (chunk : Nat → Nat) (max : Nat) :
    let r := p.read chunk max
    r.2.Carries written ∧ (p.seen written).Reads max r.1 (r.2.seen written) := by
  unfold Pipe.read
  split
  · next unasked => exact ⟨carries, .nothing unasked⟩
  next asked =>
  split
  · next there => exact carries.drain (.refl _) asked there
  next empty =>
  have empty : p.buffer = [] := Decidable.not_not.1 empty
  have past (drained : p.channel = []) : ¬ p.front < written.length :=
    carries.dry drained (by rw [empty]; exact Nat.le_refl _)
  split
  · next ended =>
    obtain ⟨drained, shut⟩ := carries.closed ended
    exact ⟨carries, .past asked (past drained) (if_neg (Bool.not_eq_true _ ▸ shut)).symm⟩
  split
  · next dry =>
    obtain ⟨drained, writer⟩ := pull_eq_none dry
    exact ⟨carries, .past asked (past drained) (if_pos writer).symm⟩
  · next q pulled =>
    obtain ⟨carries', pulls⟩ := carries.pull pulled
    by_cases there : q.buffer = []
    · obtain ⟨drained, shut⟩ := pull_empty pulled there
      have same : q.seen written = p.seen written := by
        have writer : q.writerOpen = p.writerOpen := pulls.isOpen
        have front : q.front = p.front := pulls.front
        rw [seen, seen, there, empty, writer, front]
      rw [drain_empty there, there, List.take_nil]
      refine ⟨carries', ?_⟩
      show (p.seen written).Reads max (.bytes []) (q.seen written)
      rw [same]
      exact .past asked (past drained) (if_neg (Bool.not_eq_true _ ▸ shut)).symm
    · exact carries'.drain pulls asked there

/-! ## Consuming -/

/-- Consuming is granted exactly if it starts at the front and stays within the buffer. -/
theorem consumeAt_cases (p : Pipe) (offset len : Nat) :
    (∃ q, p.consumeAt offset len = .ok q ∧ (offset = p.front ∧ len ≤ p.buffer.length) ∧
        q.channel = p.channel ∧ q.ended = p.ended ∧ q.writerOpen = p.writerOpen) ∨
      ∃ e, p.consumeAt offset len = .error e ∧ ¬ (offset = p.front ∧ len ≤ p.buffer.length) := by
  unfold Pipe.consumeAt
  split
  · next away => exact .inr ⟨_, rfl, fun fits => away fits.1.symm⟩
  next here =>
  split
  · next short => exact .inr ⟨_, rfl, fun fits => absurd fits.2 (Nat.not_le.2 short)⟩
  · next enough =>
    exact .inl ⟨_, rfl, ⟨(Decidable.not_not.1 here).symm, Nat.le_of_not_lt enough⟩, rfl, rfl, rfl⟩

end Pipe

/-! ## Calls -/

namespace RawCall

open Pipe

variable {chunk : Nat → Nat} {p : Pipe} {written : Bytes}

/-- The bytes that a call brought in. -/
def accepted : RawCall → PipeAnswer → Bytes
  | .writeAll _ bytes, .wrote (.ok _) => bytes
  | _, _ => []

/-- An answer that says the call failed. -/
def Refused : PipeAnswer → Prop
  | .looked (.failed _) | .consumed (.error _) | .wrote (.error _) => True
  | _ => False

/-- A call on a pipe was answered as the plain stream says, and one that failed left the pipe as it
was. -/
structure Serves (p : Pipe) (written : Bytes) (call : RawCall) (answer : PipeAnswer) (q : Pipe) : Prop where
  carries : q.Carries (written ++ call.accepted answer)
  answers : (p.seen written).Answers call answer (q.seen (written ++ call.accepted answer))
  refused : Refused answer → q = p

theorem Serves.of_nothing {call : RawCall} {answer : PipeAnswer} {q : Pipe}
    (nothing : call.accepted answer = []) (carries : q.Carries written)
    (answers : (p.seen written).Answers call answer (q.seen written)) (refused : Refused answer → q = p) :
    Serves p written call answer q where
  carries := by rwa [nothing, List.append_nil]
  answers := by rwa [nothing, List.append_nil]
  refused := refused

theorem Serves.consumed (carries : p.Carries written) {offset len : Nat} {q : Pipe}
    (fits : offset = p.front ∧ len ≤ p.buffer.length) (made : p.consumeAt offset len = .ok q)
    (rest : q.channel = p.channel ∧ q.ended = p.ended ∧ q.writerOpen = p.writerOpen) (pipe : Nat) :
    Serves p written (.consumeAt pipe offset len) (.consumed (.ok (p.buffer.take len))) q := by
  obtain ⟨channel, ended, writer⟩ := rest
  obtain ⟨flows, buffer⟩ := consumeAt_flows made
  have taken : p.buffer.take len = written.slice offset len := by
    rw [Bytes.slice, fits.1, carries.stock, Pipe.stock, List.take_append_of_le_length fits.2]
  have closed : q.ended = true → q.channel = [] ∧ q.writerOpen = false := by
    rw [channel, ended, writer]
    exact carries.closed
  have moved : q.front = p.front + len := by
    rw [flows.front, List.length_take, Nat.min_eq_left fits.2]
  refine ⟨carries.flows flows (take_le_stock p len) closed, ?_, fun refused => by cases refused⟩
  show (p.seen written).Consumes offset len _ (q.seen (written ++ []))
  rw [PlainStream.Consumes, List.append_nil, taken,
    if_pos (show offset = (p.seen written).front ∧ len ≤ (p.seen written).buffered from fits)]
  refine ⟨rfl, ?_⟩
  simp only [seen, moved, buffer, writer, List.length_drop]

theorem Serves.not_consumed (carries : p.Carries written) {offset len : Nat}
    (misfit : ¬ (offset = p.front ∧ len ≤ p.buffer.length)) (pipe : Nat) (e : Error) :
    Serves p written (.consumeAt pipe offset len) (.consumed (.error e)) p := by
  refine .of_nothing rfl carries ?_ fun _ => rfl
  show (p.seen written).Consumes offset len (.error e) (p.seen written)
  rw [PlainStream.Consumes,
    if_neg (show ¬ (offset = (p.seen written).front ∧ len ≤ (p.seen written).buffered) from misfit)]
  exact ⟨⟨e, rfl⟩, rfl⟩

theorem Serves.wrote (carries : p.Carries written) {bytes : Bytes} {q : Pipe}
    (made : p.writeAll bytes = .ok q) (pipe : Nat) :
    Serves p written (.writeAll pipe bytes) (.wrote (.ok bytes.length)) q := by
  have flows := (writeAll_flows made).1
  unfold Pipe.writeAll at made
  split at made
  · next writer =>
    cases made
    have going : ¬ p.ended = true := fun ended => by simp [(carries.closed ended).2] at writer
    refine ⟨carries.flows flows (Nat.zero_le _) fun ended => absurd ended going, ?_, nofun⟩
    show (p.seen written).Writes bytes (.ok bytes.length) _
    rw [PlainStream.Writes, if_pos (show (p.seen written).isOpen = true from writer)]
    exact ⟨rfl, rfl⟩
  · cases made

theorem Serves.not_written (carries : p.Carries written) {bytes : Bytes} {e : Error}
    (made : p.writeAll bytes = .error e) (pipe : Nat) :
    Serves p written (.writeAll pipe bytes) (.wrote (.error e)) p := by
  unfold Pipe.writeAll at made
  split at made
  · cases made
  · next shut =>
    cases made
    refine .of_nothing rfl carries ?_ fun _ => rfl
    show (p.seen written).Writes bytes _ (p.seen written)
    rw [PlainStream.Writes, if_neg (show ¬ (p.seen written).isOpen = true from shut)]
    exact ⟨⟨_, rfl, rfl⟩, rfl⟩

/-- **Every call is answered as the plain stream says**, and one that fails leaves the pipe as it was. -/
theorem onPipe_serves (chunk : Nat → Nat) (call : RawCall) (carries : p.Carries written) :
    Serves p written call (call.onPipe chunk p).1 (call.onPipe chunk p).2 := by
  cases call with
  | openPipe => exact .of_nothing rfl carries rfl nofun
  | closeWriter pipe =>
      exact .of_nothing rfl
        ⟨carries.within, carries.stock, fun ended => ⟨(carries.closed ended).1, rfl⟩⟩ rfl nofun
  | writeAll pipe bytes =>
      cases made : p.writeAll bytes with
      | ok q => simpa only [onPipe, made] using Serves.wrote carries made pipe
      | error e => simpa only [onPipe, made] using Serves.not_written carries made pipe
  | consumeAt pipe offset len =>
      rcases p.consumeAt_cases offset len with ⟨q, made, fits, rest⟩ | ⟨e, made, misfit⟩
      · simpa only [onPipe, made] using Serves.consumed carries fits made rest pipe
      · simpa only [onPipe, made] using Serves.not_consumed carries misfit pipe e
  | read pipe max =>
      obtain ⟨kept, reads⟩ := carries.read chunk max
      refine .of_nothing rfl kept reads fun refused => ?_
      cases reading : (p.read chunk max).1 with
      | failed e => exact absurd (reading ▸ reads) PlainStream.Reads.not_failed
      | bytes content => simp [onPipe, reading, Refused] at refused
      | waits => simp [onPipe, reading, Refused] at refused
  | peekAt pipe offset max =>
      obtain ⟨kept, peeks, stale⟩ := carries.peekWithin chunk offset max p.left_le
      refine .of_nothing rfl kept peeks fun refused => stale ?_
      cases reading : (p.peekAt chunk offset max).1 with
      | failed e => exact PlainStream.Peeks.of_failed (reading ▸ peeks)
      | bytes content => simp [onPipe, reading, Refused] at refused
      | waits => simp [onPipe, reading, Refused] at refused

end RawCall

/-! ## Runs -/

namespace Pipe

/-- Make calls on a pipe one after the other, and keep the bytes they wrote. -/
def run (chunk : Nat → Nat) : List RawCall → Pipe × Bytes → Pipe × Bytes
  | [], s => s
  | call :: rest, (p, written) =>
      let r := call.onPipe chunk p
      run chunk rest (r.2, written ++ call.accepted r.1)

theorem run_carries (chunk : Nat → Nat) (calls : List RawCall) {p : Pipe} {written : Bytes}
    (carries : p.Carries written) :
    (run chunk calls (p, written)).1.Carries (run chunk calls (p, written)).2 := by
  induction calls generalizing p written with
  | nil => exact carries
  | cons call rest ih => exact ih (call.onPipe_serves chunk carries).carries

/-- **A pipe refines a plain stream.**  Make any calls on a new pipe, and let each pull take as many bytes
as it happens to, from one to as many as a pull may take.  Then the buffer is what was written from the
front on, and the next call, whichever it is, is answered as the plain stream of the bytes written so
far says: a look or a read shows at least one byte from its offset on if one was written, waits only where
none was and the writer is open, and fails only behind the front; bytes are consumed exactly if they are
buffered at the front; and a call that fails leaves the pipe as it was.  More pulls than a look is granted
would change nothing, so where it waits there is nothing to pull. -/
theorem run_refines (chunk : Nat → Nat) (id : Nat) (calls : List RawCall) :
    let s := run chunk calls ({ id }, [])
    s.1.buffer = s.2.slice s.1.front s.1.buffer.length ∧
    s.1.front + s.1.buffer.length ≤ s.2.length ∧
    (∀ call, RawCall.Serves s.1 s.2 call (call.onPipe chunk s.1).1 (call.onPipe chunk s.1).2) ∧
    ∀ offset max fuel, s.1.channel.length + 2 ≤ fuel →
      s.1.peekWithin chunk offset max fuel = s.1.peekAt chunk offset max := by
  intro s
  have start : Carries { id } [] := ⟨Nat.le_refl _, rfl, nofun⟩
  have carries : s.1.Carries s.2 := run_carries chunk calls start
  refine ⟨carries.buffer, ?_, fun call => call.onPipe_serves chunk carries, ?_⟩
  · rw [carries.length]
    omega
  · intro offset max fuel enough
    exact peekWithin_fuel (Nat.le_trans s.1.left_le enough) s.1.left_le

/-- A look past the buffer pulls until it can answer. -/
example : (run (fun _ => 2) [.writeAll 0 [1, 2, 3, 4, 5], .peekAt 0 3 9] ({ id := 0 }, [])).1 =
    { id := 0, buffer := [1, 2, 3, 4], channel := [5], pulls := 2 } := by decide

end Pipe

end Transact
