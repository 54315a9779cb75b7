import Mathlib.Tactic.Ring
import Mathlib.Data.Nat.Log

/-!
# Integers as doubles

`(double)n` for an unsigned integer rounds `n` to a 53-bit significand, ties to
even. The result is again an integer, so it is kept as one. Comparing it with a
bound below `2 ^ 53` is the same as comparing `n` (`lt_toDouble_iff`).
-/

namespace OsProjects

/-- The value of `(double)n`, rounded to nearest, ties to even. -/
def toDouble (n : Nat) : Nat :=
  if n < 2 ^ 53 then n
  else
    let ulp := 2 ^ (Nat.log 2 n - 52)
    let q := n / ulp
    let r := n % ulp
    (if 2 * r < ulp ∨ 2 * r = ulp ∧ q % 2 = 0 then q else q + 1) * ulp

theorem toDouble_of_lt {n : Nat} (h : n < 2 ^ 53) : toDouble n = n := if_pos h

/-- Rounding never takes a large integer below the exact range. -/
theorem le_toDouble {n : Nat} (h : 2 ^ 53 ≤ n) : 2 ^ 53 ≤ toDouble n := by
  rw [toDouble, if_neg (by omega)]
  have log : 53 ≤ Nat.log 2 n := Nat.le_log_of_pow_le (by omega) h
  have low : 2 ^ Nat.log 2 n ≤ n := Nat.pow_log_le_self 2 (by omega)
  have exp : 2 ^ 52 * 2 ^ (Nat.log 2 n - 52) = 2 ^ Nat.log 2 n := by
    rw [← pow_add]
    congr 1
    omega
  have q : 2 ^ 52 ≤ n / 2 ^ (Nat.log 2 n - 52) := by
    rw [Nat.le_div_iff_mul_le (Nat.two_pow_pos _), exp]
    exact low
  have two : 2 ≤ 2 ^ (Nat.log 2 n - 52) := by
    calc 2 = 2 ^ 1 := rfl
      _ ≤ _ := Nat.pow_le_pow_right (by omega) (by omega)
  calc 2 ^ 53 = 2 ^ 52 * 2 := by norm_num
    _ ≤ _ := Nat.mul_le_mul (by split <;> omega) two

theorem lt_toDouble_iff {c n : Nat} (hc : c < 2 ^ 53) : c < toDouble n ↔ c < n := by
  by_cases h : n < 2 ^ 53
  · rw [toDouble_of_lt h]
  · have := le_toDouble (not_lt.mp h)
    exact ⟨fun _ => by omega, fun _ => by omega⟩

end OsProjects
