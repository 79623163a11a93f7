/-
# Transact.Filesystem.Content -- what a file holds

A write far past the end makes a file much longer than what was ever written to it: between lies a
hole of zeros.  So a content is kept as the positional writes that made it, oldest first.  `toBytes`
is the byte string they leave; `length` and `slice` answer without building it.

Main statements: `toBytes_splice`, `length_toBytes`, `slice_eq`.
-/
import Transact.Bytes

namespace Transact

set_option autoImplicit false

/-- The bytes of a file, as the writes that made them. -/
structure Content where
  writes : List (Nat × Bytes) := []
  deriving DecidableEq

namespace Content

/-- Write `new` at `offset`. -/
def splice (c : Content) (offset : Nat) (new : Bytes) : Content := ⟨c.writes ++ [(offset, new)]⟩

def ofBytes (bytes : Bytes) : Content := ⟨[(0, bytes)]⟩

/-- Perform one write on a byte string. -/
def perform (old : Bytes) (write : Nat × Bytes) : Bytes := old.splice write.1 write.2

/-- What the writes leave, one after another. -/
def toBytes (c : Content) : Bytes := c.writes.foldl perform []

/-- A length after one write; a write of no bytes reaches nowhere. -/
def extend (n : Nat) (write : Nat × Bytes) : Nat :=
  if write.2 = [] then n else max n (write.1 + write.2.length)

def length (c : Content) : Nat := c.writes.foldl extend 0

/-- At most `len` bytes from `offset` on. -/
def slice (c : Content) (offset len : Nat) : Bytes :=
  let size := min len (c.length - offset)
  c.writes.foldl (Bytes.overlay offset size) (List.replicate size 0)

/-! ## Laws -/

@[simp] theorem toBytes_empty : ({} : Content).toBytes = [] := rfl

@[simp] theorem toBytes_ofBytes (bytes : Bytes) : (ofBytes bytes).toBytes = bytes := by
  by_cases h : bytes = [] <;> simp [ofBytes, toBytes, perform, Bytes.splice, h]

@[simp] theorem toBytes_splice (c : Content) (offset : Nat) (new : Bytes) :
    (c.splice offset new).toBytes = c.toBytes.splice offset new := by
  simp only [splice, toBytes, List.foldl_append, List.foldl_cons, List.foldl_nil, perform]

theorem length_foldl_perform (writes : List (Nat × Bytes)) (old : Bytes) :
    (writes.foldl perform old).length = writes.foldl extend old.length := by
  induction writes generalizing old with
  | nil => rfl
  | cons write rest ih =>
    rw [List.foldl_cons, List.foldl_cons, ih, perform, extend]
    split
    · next h => rw [h, Bytes.splice_nil]
    · next h => rw [Bytes.length_splice _ _ h]

theorem length_toBytes (c : Content) : c.toBytes.length = c.length :=
  length_foldl_perform c.writes []

theorem length_foldl_overlay (offset len : Nat) (writes : List (Nat × Bytes)) {window : Bytes}
    (full : window.length = len) :
    (writes.foldl (Bytes.overlay offset len) window).length = len := by
  induction writes generalizing window with
  | nil => exact full
  | cons write rest ih => exact ih (Bytes.length_overlay write full)

/-- A window on a byte string stays one when both get the same writes. -/
theorem getD_foldl_overlay {offset len i : Nat} (inside : i < len) (writes : List (Nat × Bytes))
    {window old : Bytes} (same : window.getD i 0 = old.getD (offset + i) 0) :
    (writes.foldl (Bytes.overlay offset len) window).getD i 0 =
      (writes.foldl perform old).getD (offset + i) 0 := by
  induction writes generalizing window old with
  | nil => exact same
  | cons write rest ih =>
    refine ih ?_
    rw [Bytes.getD_overlay window write inside, perform, Bytes.getD_splice, same]

/-- A slice is that of the byte string. -/
theorem slice_eq (c : Content) (offset len : Nat) :
    c.slice offset len = c.toBytes.slice offset len := by
  have full : (c.slice offset len).length = min len (c.length - offset) :=
    length_foldl_overlay offset _ c.writes List.length_replicate
  have size : (c.toBytes.slice offset len).length = min len (c.length - offset) := by
    rw [Bytes.slice, List.length_take, List.length_drop, length_toBytes]
  refine List.ext_getElem (by rw [full, size]) fun i here there => ?_
  have inside : i < min len (c.length - offset) := full ▸ here
  have same : (c.slice offset len).getD i 0 = (c.toBytes.slice offset len).getD i 0 := by
    rw [Bytes.getD_slice, if_pos (by omega)]
    exact getD_foldl_overlay inside c.writes (by rw [Bytes.getD_zeros]; rfl)
  simpa only [List.getD_eq_getElem?_getD, List.getElem?_eq_getElem here,
    List.getElem?_eq_getElem there, Option.getD_some] using same

end Content

end Transact
