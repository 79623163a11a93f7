/-
# Transact.Bytes -- byte strings and the positional write

File contents, pipe data and payloads are lists of bytes.  `splice` is what a write at an offset
does to a file: the bytes it covers are replaced, a gap before it is filled with zeros, and a write
of no bytes changes nothing.  `overlay` is the same seen through a window: of a write only the part
within the window counts.

`getD_splice` and `getD_overlay` say which byte stands where afterwards.
-/

namespace Transact

set_option autoImplicit false

/-- A finite byte string. -/
abbrev Bytes : Type := List UInt8

namespace Bytes

/-- `old` with `new` written at `offset`. -/
def splice (old : Bytes) (offset : Nat) (new : Bytes) : Bytes :=
  if new = [] then old
  else old.take offset ++ List.replicate (offset - old.length) 0 ++ new
    ++ old.drop (offset + new.length)

/-- At most `len` bytes of `content` from `offset` on. -/
def slice (content : Bytes) (offset len : Nat) : Bytes := (content.drop offset).take len

@[simp] theorem splice_nil (old : Bytes) (offset : Nat) : splice old offset [] = old := by
  simp [splice]

theorem length_splice (old : Bytes) (offset : Nat) {new : Bytes} (h : new ≠ []) :
    (splice old offset new).length = max old.length (offset + new.length) := by
  simp only [splice, h, if_false, List.length_append, List.length_take, List.length_replicate,
    List.length_drop]
  omega

/-! ## Bytes by their number, zeros past the end -/

theorem getD_append (a b : Bytes) (i : Nat) :
    (a ++ b).getD i 0 = if i < a.length then a.getD i 0 else b.getD (i - a.length) 0 := by
  simp only [List.getD_eq_getElem?_getD, List.getElem?_append]
  split <;> rfl

theorem getD_take (a : Bytes) (n i : Nat) :
    (a.take n).getD i 0 = if i < n then a.getD i 0 else 0 := by
  simp only [List.getD_eq_getElem?_getD, List.getElem?_take]
  split <;> rfl

theorem getD_drop (a : Bytes) (n i : Nat) : (a.drop n).getD i 0 = a.getD (n + i) 0 := by
  simp only [List.getD_eq_getElem?_getD, List.getElem?_drop]

theorem getD_zeros (n i : Nat) : (List.replicate n (0 : UInt8)).getD i 0 = 0 := by
  simp only [List.getD_eq_getElem?_getD, List.getElem?_replicate]
  split <;> rfl

theorem getD_of_length_le {a : Bytes} {i : Nat} (h : a.length ≤ i) : a.getD i 0 = 0 := by
  rw [List.getD_eq_getElem?_getD, List.getElem?_eq_none h, Option.getD_none]

theorem getD_slice (content : Bytes) (offset len i : Nat) :
    (slice content offset len).getD i 0 = if i < len then content.getD (offset + i) 0 else 0 := by
  rw [slice, getD_take, getD_drop]

/-- Byte number `i` after a write is that of the write where it reaches, and the old one elsewhere. -/
theorem getD_splice (old : Bytes) (offset : Nat) (new : Bytes) (i : Nat) :
    (splice old offset new).getD i 0 =
      if offset ≤ i ∧ i < offset + new.length then new.getD (i - offset) 0 else old.getD i 0 := by
  by_cases h : new = []
  · rw [h, splice_nil, if_neg (by rw [List.length_nil]; omega)]
  · simp only [splice, h, if_false, getD_append, getD_take, getD_drop, getD_zeros,
      List.length_append, List.length_take, List.length_replicate]
    have fill : min offset old.length + (offset - old.length) = offset := by omega
    rw [fill]
    rcases Nat.lt_or_ge i offset with before | within
    · have outside : ¬(offset ≤ i ∧ i < offset + new.length) := by omega
      rw [if_pos (by omega), if_pos before, if_neg outside, if_pos before]
      split
      · rfl
      · rw [getD_of_length_le (by omega)]
    · rcases Nat.lt_or_ge i (offset + new.length) with inside | after
      · rw [if_pos inside, if_neg (by omega), if_pos ⟨within, inside⟩]
      · rw [if_neg (by omega), if_neg (by omega)]
        congr 1
        omega

/-! ## Windows -/

/-- Lay a write over the window of `len` bytes at `offset`; bytes the window lacks up to the write are
zeros. -/
def overlay (offset len : Nat) (window : Bytes) (write : Nat × Bytes) : Bytes :=
  let start := max write.1 offset
  let stop := min (write.1 + write.2.length) (offset + len)
  if stop ≤ start then window
  else window.splice (start - offset) (write.2.slice (start - write.1) (stop - start))

/-- A full window stays full. -/
theorem length_overlay {offset len : Nat} {window : Bytes} (write : Nat × Bytes)
    (full : window.length = len) : (overlay offset len window write).length = len := by
  simp only [overlay]
  split
  · exact full
  · have length : (write.2.slice (max write.1 offset - write.1)
        (min (write.1 + write.2.length) (offset + len) - max write.1 offset)).length =
          min (write.1 + write.2.length) (offset + len) - max write.1 offset := by
      simp only [slice, List.length_take, List.length_drop]
      omega
    rw [length_splice _ _ (List.ne_nil_of_length_pos (by omega)), length, full]
    omega

/-- Within the window a byte is that of the write where it reaches, and the old one elsewhere. -/
theorem getD_overlay {offset len i : Nat} (window : Bytes) (write : Nat × Bytes) (inside : i < len) :
    (overlay offset len window write).getD i 0 =
      if write.1 ≤ offset + i ∧ offset + i < write.1 + write.2.length then
        write.2.getD (offset + i - write.1) 0
      else window.getD i 0 := by
  have length : (write.2.slice (max write.1 offset - write.1)
      (min (write.1 + write.2.length) (offset + len) - max write.1 offset)).length =
        min (write.1 + write.2.length) (offset + len) - max write.1 offset := by
    simp only [slice, List.length_take, List.length_drop]
    omega
  simp only [overlay]
  split
  · rw [if_neg (by omega)]
  · rw [getD_splice, length, getD_slice]
    by_cases reached : write.1 ≤ offset + i ∧ offset + i < write.1 + write.2.length
    · rw [if_pos (by omega), if_pos (by omega), if_pos reached]
      congr 1
      omega
    · rw [if_neg (by omega), if_neg reached]

/-! ## Hexadecimal text -/

def hexDigit (n : Nat) : Char := (Nat.toDigits 16 n).headD '0'

/-- Two lower-case digits per byte. -/
def hex (bytes : Bytes) : String :=
  String.ofList (bytes.flatMap fun b => [hexDigit (b.toNat / 16), hexDigit (b.toNat % 16)])

end Bytes

end Transact
