/-
# Transact.Duration -- spans of time in whole nanoseconds

A duration is a number of nanoseconds up to `Duration.limit`.  `render` shows it in the largest of
the units s, ms, µs, ns that is not below one, with as many decimals as it needs.
-/

namespace Transact

set_option autoImplicit false

/-- A span of time. -/
structure Duration where
  nanos : Nat
  deriving DecidableEq

namespace Duration

def nanosPerSecond : Nat := 1000000000
def nanosPerMilli : Nat := 1000000
def nanosPerMicro : Nat := 1000

/-- The longest span: 2^64 seconds less a nanosecond. -/
def limit : Duration := ⟨Nat.pow 2 64 * nanosPerSecond - 1⟩

def zero : Duration := ⟨0⟩

def ofMillis (n : Nat) : Duration := ⟨n * nanosPerMilli⟩

/-- Whole seconds and the nanoseconds left over. -/
def parts (d : Duration) : Nat × Nat := (d.nanos / nanosPerSecond, d.nanos % nanosPerSecond)

def ofParts (seconds nanos : Nat) : Duration := ⟨seconds * nanosPerSecond + nanos⟩

def isZero (d : Duration) : Bool := d.nanos == 0

/-- `n` times `d`, or `limit` where that is too long. -/
def times (d : Duration) (n : Nat) : Duration := ⟨Nat.min (d.nanos * n) limit.nanos⟩

def min (a b : Duration) : Duration := ⟨Nat.min a.nanos b.nanos⟩

/-! ## Text -/

/-- `n` in `width` decimal digits, the most significant first. -/
def padded : Nat → Nat → List Char
  | 0, _ => []
  | width + 1, n => padded width (n / 10) ++ [Char.ofNat (48 + n % 10)]

/-- Drop the zeros at the end. -/
def trimZeros (digits : List Char) : List Char :=
  (digits.reverse.dropWhile (· == '0')).reverse

/-- `nanos` in a unit of `10 ^ places` nanoseconds. -/
def inUnit (nanos places : Nat) (unit : String) : String :=
  let fraction := trimZeros (padded places (nanos % Nat.pow 10 places))
  let decimals := if fraction.isEmpty then "" else "." ++ String.ofList fraction
  toString (nanos / Nat.pow 10 places) ++ decimals ++ unit

def render (d : Duration) : String :=
  if nanosPerSecond ≤ d.nanos then inUnit d.nanos 9 "s"
  else if nanosPerMilli ≤ d.nanos then inUnit d.nanos 6 "ms"
  else if nanosPerMicro ≤ d.nanos then inUnit d.nanos 3 "µs"
  else inUnit d.nanos 0 "ns"

end Duration

end Transact
