/-
# Transact.Proofs.PipeFlow -- what goes through a pipe

The *stock* of a pipe is what was written to it and not consumed: the buffer, and the channel behind
it.  `Flows p entered taken p'` says that from `p` to `p'` the bytes `taken` left the stock at its
front while `entered` came in at its end, and that nothing was lost or doubled on the way.

Every operation is a flow: `writeAll_flows`, `read_flows`, `peekAt_flows`, `consumeAt_flows`.  Flows
compose (`Flows.trans`), and what came in can be read off the two states (`Flows.arrived_eq`).
-/
import Transact.Pipe

namespace Transact

set_option autoImplicit false

namespace Pipe

/-- What was written and not consumed. -/
def stock (p : Pipe) : Bytes := p.buffer ++ p.channel

/-- What came in between two states of a pipe: what its stock has behind the part of the old stock
that is still there. -/
def arrived (before after : Pipe) : Bytes :=
  after.stock.drop (before.stock.length - (after.front - before.front))

/-- From `p` to `p'` the bytes `taken` left at the front and `entered` came in at the end. -/
structure Flows (p : Pipe) (entered taken : Bytes) (p' : Pipe) : Prop where
  id : p'.id = p.id
  stock : p.stock ++ entered = taken ++ p'.stock
  front : p'.front = p.front + taken.length
  /-- Where nothing left, what was buffered stays in place. -/
  stays : p'.front = p.front → p.buffer <+: p'.buffer

namespace Flows

variable {p p' p'' : Pipe} {entered entered' taken taken' : Bytes}

theorem refl (p : Pipe) : Flows p [] [] p where
  id := rfl
  stock := List.append_nil _
  front := rfl
  stays _ := List.prefix_refl _

theorem trans (first : Flows p entered taken p') (second : Flows p' entered' taken' p'') :
    Flows p (entered ++ entered') (taken ++ taken') p'' where
  id := second.id.trans first.id
  stock := by
    calc p.stock ++ (entered ++ entered')
        = taken ++ (p'.stock ++ entered') := by
          rw [← List.append_assoc, first.stock, List.append_assoc]
      _ = taken ++ taken' ++ p''.stock := by rw [second.stock, List.append_assoc]
  front := by rw [second.front, first.front, List.length_append, Nat.add_assoc]
  stays same := by
    have lower := first.front
    have upper := second.front
    have here : p'.front = p.front := by omega
    have there : p''.front = p'.front := by omega
    exact (first.stays here).trans (second.stays there)

/-- What came in can be read off the two states, as long as no more left than there was. -/
theorem arrived_eq (flows : Flows p entered taken p') (within : taken.length ≤ p.stock.length) :
    arrived p p' = entered := by
  have rest : p.stock.drop taken.length ++ entered = p'.stock := by
    rw [← List.drop_append_of_le_length within, flows.stock, List.drop_left]
  have kept : p.stock.length - (p'.front - p.front) = (p.stock.drop taken.length).length := by
    have front := flows.front
    rw [List.length_drop]
    omega
  rw [arrived, kept, ← rest, List.drop_left]

end Flows

variable {chunk : Nat → Nat} {p p' : Pipe}

/-! ## Writing -/

theorem writeAll_flows {bytes : Bytes} (made : p.writeAll bytes = .ok p') :
    Flows p bytes [] p' ∧ p'.buffer = p.buffer := by
  unfold writeAll at made
  split at made
  · cases made
    refine ⟨⟨rfl, ?_, rfl, fun _ => List.prefix_refl _⟩, rfl⟩
    simp only [Pipe.stock, List.append_assoc, List.nil_append]
  · cases made

theorem closeWriter_flows (p : Pipe) : Flows p [] [] p.closeWriter where
  id := rfl
  stock := List.append_nil _
  front := rfl
  stays _ := List.prefix_refl _

/-! ## Reading -/

/-- A pull moves bytes from the channel to the end of the buffer. -/
theorem pull_flows (made : p.pull chunk = some p') : Flows p [] [] p' := by
  unfold pull at made
  split at made
  · split at made
    · cases made
    · cases made
      exact ⟨rfl, List.append_nil _, rfl, fun _ => List.prefix_refl _⟩
  · cases made
    refine ⟨rfl, ?_, rfl, fun _ => List.prefix_append _ _⟩
    simp only [Pipe.stock, List.append_assoc, List.take_append_drop, List.append_nil,
      List.nil_append]

theorem drain_flows (p : Pipe) (n : Nat) : Flows p [] (p.buffer.take n) (p.drain n) where
  id := rfl
  stock := by
    simp only [Pipe.stock, drain, List.append_nil]
    rw [← List.append_assoc, List.take_append_drop]
  front := by simp only [drain, List.length_take]
  stays same := by
    have nothing : min n p.buffer.length = 0 := by
      simp only [drain] at same
      omega
    rcases Nat.min_eq_zero_iff.1 nothing with rfl | empty
    · exact List.prefix_refl _
    · rw [List.length_eq_zero_iff.1 empty]
      exact List.nil_prefix

theorem take_le_stock (p : Pipe) (n : Nat) : (p.buffer.take n).length ≤ p.stock.length := by
  simp only [Pipe.stock, List.length_take, List.length_append]
  omega

/-- The bytes a read brought. -/
def Reading.content : Reading → Bytes
  | .bytes content => content
  | _ => []

/-- A read takes what it answers. -/
theorem read_flows {max : Nat} {reading : Reading} (made : p.read chunk max = (reading, p')) :
    Flows p [] reading.content p' ∧ reading.content.length ≤ p.stock.length := by
  unfold read at made
  split at made
  · cases made
    exact ⟨.refl p, Nat.zero_le _⟩
  split at made
  · cases made
    exact ⟨drain_flows p max, take_le_stock p max⟩
  split at made
  · cases made
    exact ⟨.refl p, Nat.zero_le _⟩
  split at made
  · cases made
    exact ⟨.refl p, Nat.zero_le _⟩
  · next q pulled =>
    cases made
    have first := pull_flows pulled
    have same : p.stock = q.stock := by simpa using first.stock
    refine ⟨first.trans (drain_flows q max), ?_⟩
    rw [same]
    exact take_le_stock q max

/-- Looking takes nothing, and shows what is in the buffer from the offset on. -/
theorem peekWithin_flows {offset max fuel : Nat} {reading : Reading}
    (made : p.peekWithin chunk offset max fuel = (reading, p')) :
    Flows p [] [] p' ∧ ∀ content, reading = .bytes content → p.front ≤ offset ∧
      (content = [] ∨ content <+: p'.buffer.drop (offset - p.front)) := by
  induction fuel generalizing p with
  | zero =>
      cases made
      exact ⟨.refl _, fun _ same => by cases same⟩
  | succ fuel ih =>
      unfold peekWithin at made
      split at made
      · cases made
        exact ⟨.refl _, fun _ same => by cases same⟩
      next reached =>
      have ahead : p.front ≤ offset := Nat.le_of_not_lt reached
      split at made
      · cases made
        exact ⟨.refl _, fun content same => ⟨ahead, Or.inl (by cases same; rfl)⟩⟩
      split at made
      · cases made
        refine ⟨.refl _, fun content same => ⟨ahead, Or.inr ?_⟩⟩
        cases same
        exact List.take_prefix _ _
      split at made
      · cases made
        exact ⟨.refl _, fun content same => ⟨ahead, Or.inl (by cases same; rfl)⟩⟩
      split at made
      · cases made
        exact ⟨.refl _, fun _ same => by cases same⟩
      · next q pulled =>
        have first := pull_flows pulled
        have front : q.front = p.front := first.front
        obtain ⟨second, shown⟩ := ih made
        rw [front] at shown
        exact ⟨first.trans second, shown⟩

theorem peekAt_flows {offset max : Nat} {reading : Reading}
    (made : p.peekAt chunk offset max = (reading, p')) :
    Flows p [] [] p' ∧ ∀ content, reading = .bytes content → p.front ≤ offset ∧
      (content = [] ∨ content <+: p'.buffer.drop (offset - p.front)) :=
  peekWithin_flows made

/-- What is consumed are the first bytes of the buffer. -/
theorem consumeAt_flows {offset len : Nat} (made : p.consumeAt offset len = .ok p') :
    Flows p [] (p.buffer.take len) p' ∧ p'.buffer = p.buffer.drop len := by
  unfold consumeAt at made
  split at made
  · cases made
  split at made
  · cases made
  next enough =>
  cases made
  have whole : min len p.buffer.length = len := Nat.min_eq_left (Nat.le_of_not_lt enough)
  have drained : p.drain len = { p with buffer := p.buffer.drop len, front := p.front + len } := by
    rw [drain, whole]
  exact ⟨drained ▸ drain_flows p len, rfl⟩

end Pipe

end Transact
