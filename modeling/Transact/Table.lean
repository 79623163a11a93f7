/-
# Transact.Table -- finite maps that remember the order of insertion

A `Table` is a list of entries with at most one entry per key.  `set` changes the value of a known
key where it stands and appends a new key at the end, so `keys` is the order of first insertion.

The laws say what each operation does to the view `get?`:
`get?_set_self`, `get?_set_of_ne`, `get?_erase_self`, `get?_erase_of_ne`.
-/

namespace Transact

set_option autoImplicit false

/-- A finite map from `κ` to `α`, in order of first insertion. -/
structure Table (κ α : Type) where
  entries : List (κ × α) := []
  deriving DecidableEq

namespace Table

variable {κ α : Type} [DecidableEq κ]

/-! ## Lists of entries -/

/-- The value of the first entry for `key`. -/
def find : List (κ × α) → κ → Option α
  | [], _ => none
  | (k, a) :: rest, key => if k = key then some a else find rest key

/-- Replace the value of `key` where it stands, or append a new entry. -/
def put : List (κ × α) → κ → α → List (κ × α)
  | [], key, value => [(key, value)]
  | (k, a) :: rest, key, value =>
      if k = key then (k, value) :: rest else (k, a) :: put rest key value

/-- Leave out every entry for `key`. -/
def without : List (κ × α) → κ → List (κ × α)
  | [], _ => []
  | (k, a) :: rest, key => if k = key then without rest key else (k, a) :: without rest key

/-! ## Operations -/

/-- The table without entries. -/
def empty : Table κ α := {}

def get? (t : Table κ α) (key : κ) : Option α := find t.entries key

def contains (t : Table κ α) (key : κ) : Bool := (t.get? key).isSome

def set (t : Table κ α) (key : κ) (value : α) : Table κ α := ⟨put t.entries key value⟩

def erase (t : Table κ α) (key : κ) : Table κ α := ⟨without t.entries key⟩

/-- Apply `f` to the value of `key`, if there is one. -/
def modify (t : Table κ α) (key : κ) (f : α → α) : Table κ α :=
  match t.get? key with
  | some value => t.set key (f value)
  | none => t

omit [DecidableEq κ] in
/-- The keys in order of first insertion. -/
def keys (t : Table κ α) : List κ := t.entries.map Prod.fst

omit [DecidableEq κ] in
def values (t : Table κ α) : List α := t.entries.map Prod.snd

omit [DecidableEq κ] in
def size (t : Table κ α) : Nat := t.entries.length

omit [DecidableEq κ] in
def isEmpty (t : Table κ α) : Bool := t.entries.isEmpty

/-! ## Laws -/

theorem find_put_self (l : List (κ × α)) (key : κ) (value : α) :
    find (put l key value) key = some value := by
  induction l with
  | nil => simp [put, find]
  | cons e rest ih =>
    obtain ⟨k, a⟩ := e
    by_cases h : k = key
    · simp [put, find, h]
    · simp [put, find, h, ih]

theorem find_put_of_ne (l : List (κ × α)) {key other : κ} (value : α) (h : other ≠ key) :
    find (put l key value) other = find l other := by
  induction l with
  | nil => simp [put, find, Ne.symm h]
  | cons e rest ih =>
    obtain ⟨k, a⟩ := e
    by_cases hk : k = key
    · simp [put, find, hk, Ne.symm h]
    · simp [put, find, hk, ih]

theorem find_without_self (l : List (κ × α)) (key : κ) : find (without l key) key = none := by
  induction l with
  | nil => rfl
  | cons e rest ih =>
    obtain ⟨k, a⟩ := e
    by_cases h : k = key
    · simp [without, h, ih]
    · simp [without, find, h, ih]

theorem find_without_of_ne (l : List (κ × α)) {key other : κ} (h : other ≠ key) :
    find (without l key) other = find l other := by
  induction l with
  | nil => rfl
  | cons e rest ih =>
    obtain ⟨k, a⟩ := e
    by_cases hk : k = key
    · subst hk; simp [without, find, Ne.symm h, ih]
    · simp [without, find, hk, ih]

@[simp] theorem get?_empty (key : κ) : (empty : Table κ α).get? key = none := rfl

@[simp] theorem get?_set_self (t : Table κ α) (key : κ) (value : α) :
    (t.set key value).get? key = some value := find_put_self t.entries key value

theorem get?_set_of_ne (t : Table κ α) {key other : κ} (value : α) (h : other ≠ key) :
    (t.set key value).get? other = t.get? other := find_put_of_ne t.entries value h

@[simp] theorem get?_erase_self (t : Table κ α) (key : κ) : (t.erase key).get? key = none :=
  find_without_self t.entries key

theorem get?_erase_of_ne (t : Table κ α) {key other : κ} (h : other ≠ key) :
    (t.erase key).get? other = t.get? other := find_without_of_ne t.entries h

end Table

end Transact
