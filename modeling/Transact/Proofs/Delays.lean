/-
# Transact.Proofs.Delays -- how long a retry waits at most

The delay before a retry is the base doubled with every attempt, and never more than the cap.  The
doubling ends with the sixteenth attempt (`nanos_backoff`), which no base notices that has reached the
cap by then, nor one of nothing.  A base below 977 ns is still under the cap, and stays where it is
however many attempts follow: `backoff_accepted` says so of every base that a configuration takes.
-/
import Mathlib.Algebra.Group.Nat.Defs
import Transact.Config

namespace Transact.Config

set_option autoImplicit false

variable {c c' : Config} {d : Duration}

/-! ## Bases -/

/-- A base is taken while settings can be changed, if it is within the cap. -/
theorem change_retryBackoff_iff (c c' : Config) (d : Duration) :
    c.change (.retryBackoff d) = .ok c' ↔
      c.frozen = false ∧ d.nanos ≤ maxBackoff.nanos ∧ c' = { c with retryBackoff := d } := by
  unfold change
  by_cases frozen : c.frozen = true
  · simp [frozen]
  · by_cases long : maxBackoff.nanos < d.nanos
    · simp [frozen, long, Nat.not_le.2 long]
    · simp [frozen, long, Nat.not_lt.1 long, eq_comm]

/-! ## Doubling -/

/-- A product that is cut off at the longest span is past the cap anyway. -/
theorem nanos_backoff (c : Config) (n : Nat) :
    (c.backoff n).nanos = min (c.retryBackoff.nanos * 2 ^ min n 16) maxBackoff.nanos := by
  have room : maxBackoff.nanos ≤ Duration.limit.nanos := by decide
  change min (min (c.retryBackoff.nanos * 2 ^ min n 16) Duration.limit.nanos) maxBackoff.nanos = _
  rw [Nat.min_assoc, Nat.min_eq_right room]

theorem backoff_le (c : Config) (n : Nat) : (c.backoff n).nanos ≤ maxBackoff.nanos := by
  rw [nanos_backoff]
  exact Nat.min_le_right ..

theorem backoff_mono (c : Config) {m n : Nat} (le : m ≤ n) :
    (c.backoff m).nanos ≤ (c.backoff n).nanos := by
  have clamped : min m 16 ≤ min n 16 := by omega
  have grows := Nat.mul_le_mul_left c.retryBackoff.nanos (Nat.pow_le_pow_right (by decide : 0 < 2) clamped)
  rw [nanos_backoff, nanos_backoff]
  omega

/-- **The delay is that of an exact doubling** up to the sixteenth attempt, and beyond it for a base
that has reached the cap by then or is nothing. -/
theorem backoff_exact_iff (c : Config) (n : Nat) :
    (c.backoff n).nanos = min (c.retryBackoff.nanos * 2 ^ n) maxBackoff.nanos ↔
      n ≤ 16 ∨ c.retryBackoff.nanos = 0 ∨ maxBackoff.nanos ≤ c.retryBackoff.nanos * 2 ^ 16 := by
  rw [nanos_backoff]
  generalize c.retryBackoff.nanos = base
  by_cases early : n ≤ 16
  · simp [early]
  · have last : min n 16 = 16 := by omega
    rw [last]
    by_cases nothing : base = 0
    · simp [nothing]
    · -- One more doubling than the sixteen moves all that is not past the cap.
      have further : base * 2 ^ 17 ≤ base * 2 ^ n :=
        Nat.mul_le_mul_left base (Nat.pow_le_pow_right (by decide) (by omega))
      omega

/-- The next delay is twice this one, or the cap, while the doubling goes on. -/
theorem backoff_succ_iff (c : Config) (n : Nat) :
    (c.backoff (n + 1)).nanos = min (2 * (c.backoff n).nanos) maxBackoff.nanos ↔
      n < 16 ∨ c.retryBackoff.nanos = 0 ∨ maxBackoff.nanos ≤ c.retryBackoff.nanos * 2 ^ 16 := by
  rw [nanos_backoff, nanos_backoff]
  generalize c.retryBackoff.nanos = base
  by_cases early : n < 16
  · have this : min n 16 = n := by omega
    have next : min (n + 1) 16 = n + 1 := by omega
    rw [this, next, Nat.pow_succ, ← Nat.mul_assoc]
    omega
  · have this : min n 16 = 16 := by omega
    have next : min (n + 1) 16 = 16 := by omega
    rw [this, next]
    have capped : 0 < maxBackoff.nanos := by decide
    omega

/-- **What a base that was taken makes of the delays.**  They never go down and never pass the cap: they
are the base doubled with each of the first sixteen attempts, up to the cap.  That is the base doubled
with every attempt, up to the cap, and a delay is twice the one before, up to the cap, exactly if the
attempt is one of those, or the base is nothing, or it reaches the cap within them. -/
theorem backoff_accepted (accepted : c.change (.retryBackoff d) = .ok c') (n : Nat) :
    d.nanos ≤ maxBackoff.nanos ∧
      (c'.backoff n).nanos = min (d.nanos * 2 ^ min n 16) maxBackoff.nanos ∧
      ((c'.backoff n).nanos = min (d.nanos * 2 ^ n) maxBackoff.nanos ↔
        n ≤ 16 ∨ d.nanos = 0 ∨ maxBackoff.nanos ≤ d.nanos * 2 ^ 16) ∧
      ((c'.backoff (n + 1)).nanos = min (2 * (c'.backoff n).nanos) maxBackoff.nanos ↔
        n < 16 ∨ d.nanos = 0 ∨ maxBackoff.nanos ≤ d.nanos * 2 ^ 16) ∧
      (∀ m ≤ n, (c'.backoff m).nanos ≤ (c'.backoff n).nanos) ∧
      (c'.backoff n).nanos ≤ maxBackoff.nanos := by
  obtain ⟨-, within, rfl⟩ := (change_retryBackoff_iff c c' d).1 accepted
  exact ⟨within, nanos_backoff _ n, backoff_exact_iff _ n, backoff_succ_iff _ n,
    fun m le => backoff_mono _ le, backoff_le _ n⟩

/-- Of one nanosecond delay number 16 is exact, and number 17 is not. -/
theorem backoff_accepted_nanosecond :
    ∃ c', ({} : Config).change (.retryBackoff ⟨1⟩) = .ok c' ∧
      (c'.backoff 16).nanos = min (1 * 2 ^ 16) maxBackoff.nanos ∧
      (c'.backoff 17).nanos ≠ min (1 * 2 ^ 17) maxBackoff.nanos ∧
      (c'.backoff 17).nanos ≠ min (2 * (c'.backoff 16).nanos) maxBackoff.nanos := by
  have accepted : ({} : Config).change (.retryBackoff ⟨1⟩) = .ok { retryBackoff := ⟨1⟩ } := by rfl
  refine ⟨_, accepted, ?_, ?_, ?_⟩
  · exact (backoff_accepted accepted 16).2.2.1.2 (by decide)
  · exact fun uncut => absurd ((backoff_accepted accepted 17).2.2.1.1 uncut) (by decide)
  · exact fun doubled => absurd ((backoff_accepted accepted 16).2.2.2.1.1 doubled) (by decide)

end Transact.Config
