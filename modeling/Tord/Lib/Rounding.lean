import Mathlib.Algebra.Order.Field.Basic
import Mathlib.Algebra.Order.Ring.Cast
import Mathlib.Data.Rat.Floor
import Mathlib.Tactic.FieldSimp
import Mathlib.Tactic.Linarith

/-! Rounding to a nearest integer, and what holds whatever becomes of a tie. -/
namespace Rounding

variable {K : Type} [Field K] [LinearOrder K] [IsStrictOrderedRing K] {x unit parts : K} {m n : ℤ}

def Nearest (x : K) (n : ℤ) : Prop := |(n : K) - x| ≤ 1 / 2

/-- An integer that is reached before rounding is reached after it. -/
theorem Nearest.le (nearest : Nearest x n) (reached : (m : K) ≤ x) : m ≤ n := by
  have low := (abs_le.mp nearest).1
  have above : (m : K) < ((n + 1 : ℤ) : K) := by
    push_cast
    linarith
  exact Int.lt_add_one_iff.mp (Int.cast_lt.mp above)

theorem Nearest.ge (nearest : Nearest x n) (reached : x ≤ m) : n ≤ m := by
  have high := (abs_le.mp nearest).2
  have below : (n : K) < ((m + 1 : ℤ) : K) := by
    push_cast
    linarith
  exact Int.lt_add_one_iff.mp (Int.cast_lt.mp below)

/-- What stays half a unit below an integer does not reach it. -/
theorem Nearest.lt (nearest : Nearest x n) (below : x < m - 1 / 2) : n < m := by
  have high := (abs_le.mp nearest).2
  have less : (n : K) < m := by linarith
  exact Int.cast_lt.mp less

/-- A number of rounded parts of a unit is off by half a part at most. -/
theorem nearest_iff (positive : 0 < unit) (fine : 0 < parts) :
    Nearest (x / unit * parts) n ↔ |n / parts * unit - x| ≤ unit / (2 * parts) := by
  have scaled : n / parts * unit - x = (n - x / unit * parts) * (unit / parts) := by
    field_simp
  have share : 0 < unit / parts := div_pos positive fine
  rw [scaled, abs_mul, abs_of_pos share, Nearest, ← mul_le_mul_iff_left₀ share]
  have half : 1 / 2 * (unit / parts) = unit / (2 * parts) := by rw [div_mul_div_comm, one_mul]
  rw [half]

/-- To the nearest integer, a tie to the even one. -/
def roundTiesEven (q : ℚ) : ℤ :=
  let low := q.floor
  let rest := q - low
  if rest < 1 / 2 then low
  else if 1 / 2 < rest then low + 1
  else if low % 2 = 0 then low else low + 1

theorem nearest_roundTiesEven (q : ℚ) : Nearest q (roundTiesEven q) := by
  have low := Rat.floor_le q
  have high := Rat.lt_floor_add_one q
  push_cast at high
  unfold Nearest roundTiesEven
  simp only
  split_ifs <;> push_cast <;> rw [abs_le] <;> constructor <;> linarith

theorem roundTiesEven_le (q : ℚ) : (roundTiesEven q : ℚ) ≤ q + 1 / 2 := by
  have high := (abs_le.mp (nearest_roundTiesEven q)).2
  linarith

end Rounding
