import Tord.Format

/-! What the byte columns of the table show. The unit is chosen for the exact count and the
digits are rounded afterwards, so the two part just below a power of 1024. -/
namespace Tord

open Rounding

/-- Up to 53 bits the conversion is exact. -/
theorem asF64_eq (n : UInt64) (exact : n.toNat < 2 ^ 53) : asF64 n = n.toNat := by
  have bits : n.toNat.log2 - 52 = 0 := by
    have below : n.toNat.log2 < 53 := by
      by_cases zero : n.toNat = 0
      · simp [zero]
      · exact (Nat.log2_lt zero).mpr exact
    omega
  have whole (m : Int) : roundTiesEven m = m := by simp [roundTiesEven]
  have count : ((n.toNat : Int) : ℚ) = n.toNat := Int.cast_natCast _
  simp only [asF64, bits, pow_zero, div_one, mul_one]
  rw [← count, whole]

/-- The loop ends in a unit in which the value is at least 1, unless it is the first, and
less than 1024, unless it is the last. -/
theorem scaleDown_spec (value : ℚ) (unit : String) (rest : List String) :
    ∃ i name, (unit :: rest)[i]? = some name ∧ scaleDown value unit rest = (value / 1024 ^ i, name) ∧
      (0 < i → 1 ≤ value / 1024 ^ i) ∧ (i < rest.length → value / 1024 ^ i < 1024) := by
  induction rest generalizing value unit with
  | nil => exact ⟨0, unit, rfl, by simp [scaleDown], by simp, by simp⟩
  | cons next rest ih =>
    by_cases large : value ≥ 1024
    · obtain ⟨i, name, found, scaled, least, most⟩ := ih (value / 1024) next
      have power : value / 1024 / 1024 ^ i = value / 1024 ^ (i + 1) := by
        rw [div_div, pow_succ']
      rw [power] at scaled least most
      refine ⟨i + 1, name, by simpa using found, ?_, fun _ => ?_, by simpa using most⟩
      · rw [scaleDown, if_pos large, scaled]
      · rcases Nat.eq_zero_or_pos i with rfl | positive
        · rw [zero_add, pow_one, le_div_iff₀ (by norm_num)]
          linarith
        · exact least positive
    · refine ⟨0, unit, rfl, ?_, by simp, fun _ => ?_⟩
      · rw [scaleDown, if_neg large, pow_zero, div_one]
      · simpa using large

/-- The `k`-th of them is `1024 ^ k`. -/
def units : List String := ["B", "K", "M", "G", "T"]

/-- The count itself below 1024; otherwise tenths of a unit, rounded, from 1.0 on and
below 1024.0 unless there is no greater unit. -/
def Normalised (n : Nat) (text : String) : Prop :=
  if n < 1024 then text = s!"{n}B"
  else ∃ (tenths k : Nat) (unit : String), 1 ≤ k ∧ units[k]? = some unit ∧
    text = s!"{tenths / 10}.{tenths % 10}{unit}" ∧
    |(tenths : ℚ) / 10 * 1024 ^ k - n| ≤ 1024 ^ k / 20 ∧ 10 ≤ tenths ∧ (k < 4 → tenths < 10240)

/-- Less than the next unit, but not by half a tenth of its own. -/
def Brim (n : Nat) : Prop :=
  ∃ k, 1 ≤ k ∧ k ≤ 3 ∧ 20479 * 1024 ^ k ≤ 20 * n ∧ n < 1024 ^ (k + 1)

theorem units_inj {j k : Nat} (one : units[j]? = some unit) (other : units[k]? = some unit) :
    j = k := by
  have inside : j < units.length := (List.getElem?_eq_some_iff.mp one).1
  exact (List.getElem?_inj inside (by decide)).mp (one.trans other.symm)

/-- What is shown of a count that needs a unit. -/
theorem humanBytes_shown (n : UInt64) (exact : n.toNat < 2 ^ 53) (large : 1024 ≤ n.toNat) :
    ∃ (tenths k : Nat) (unit : String), 1 ≤ k ∧ units[k]? = some unit ∧
      humanBytes n = s!"{tenths / 10}.{tenths % 10}{unit}" ∧
      Nearest ((n.toNat : ℚ) / 1024 ^ k * 10) tenths ∧
      1024 ^ k ≤ n.toNat ∧ (k < 4 → n.toNat < 1024 ^ (k + 1)) := by
  obtain ⟨k, unit, found, scaled, least, most⟩ :=
    scaleDown_spec n.toNat "B" ["K", "M", "G", "T"]
  have scale : (0 : ℚ) < 1024 ^ k := by positivity
  have positive : 0 < k := by
    by_contra none
    obtain rfl : k = 0 := by omega
    have small := most (by decide)
    rw [pow_zero, div_one] at small
    have small : n.toNat < 1024 := by exact_mod_cast small
    omega
  have named : unit ≠ "B" := by
    rintro rfl
    exact positive.ne (units_inj rfl found)
  have reached : (0 : ℤ) ≤ roundTiesEven ((n.toNat : ℚ) / 1024 ^ k * 10) := by
    apply (nearest_roundTiesEven _).le
    rw [Int.cast_zero]
    positivity
  refine ⟨(roundTiesEven ((n.toNat : ℚ) / 1024 ^ k * 10)).toNat, k, unit, positive, found,
    ?_, ?_, ?_, ?_⟩
  · rw [humanBytes, asF64_eq n exact, scaled]
    exact if_neg named
  · rw [Int.toNat_of_nonneg reached]
    exact nearest_roundTiesEven _
  · have one := least positive
    rw [le_div_iff₀ scale, one_mul] at one
    exact_mod_cast one
  · intro short
    have below := most short
    rw [div_lt_iff₀ scale, ← pow_succ'] at below
    exact_mod_cast below

/-- A text ends in its unit, and a unit is one character. -/
theorem unit_of_text {j k : Nat} (one : units[j]? = some unit) (other : units[k]? = some name)
    (same : front ++ unit = back ++ name) : j = k := by
  have size : ∀ unit ∈ units, unit.toList.length = 1 := by decide
  have equal := congrArg String.toList same
  rw [String.toList_append, String.toList_append] at equal
  have ends := List.append_inj_right' equal
    ((size _ (List.mem_of_getElem? one)).trans (size _ (List.mem_of_getElem? other)).symm)
  rw [String.toList_inj] at ends
  exact units_inj one (ends ▸ other)

/-- In the unit that was chosen, only a count at the brim is rounded up to 1024.0. -/
theorem tenths_lt {n k tenths : Nat} (nearest : Nearest ((n : ℚ) / 1024 ^ k * 10) tenths)
    (below : 20 * n < 20479 * 1024 ^ k) : tenths < 10240 := by
  have scale : (0 : ℚ) < 1024 ^ k := by positivity
  have below : (20 : ℚ) * n < 20479 * 1024 ^ k := by exact_mod_cast below
  have less : (tenths : ℤ) < 10240 := by
    apply nearest.lt
    rw [div_mul_eq_mul_div, div_lt_iff₀ scale]
    push_cast
    linarith
  omega

/-- At the brim no number of tenths below 1024.0 is near enough, and there is no tie. -/
theorem brim_tenths {n k tenths : Nat} (brim : 20479 * 1024 ^ k ≤ 20 * n)
    (near : |(tenths : ℚ) / 10 * 1024 ^ k - n| ≤ 1024 ^ k / 20) : 10240 ≤ tenths := by
  have low := (abs_le.mp near).1
  have near : 20 * n ≤ (2 * tenths + 1) * 1024 ^ k := by
    have bound : (20 : ℚ) * n ≤ (2 * tenths + 1) * 1024 ^ k := by linarith
    exact_mod_cast bound
  by_contra short
  have most : (2 * tenths + 1) * 1024 ^ k ≤ 20479 * 1024 ^ k := Nat.mul_le_mul_right _ (by omega)
  have tie : 20479 * 1024 ^ k = 20 * n := by omega
  have coprime : Nat.Coprime 5 (20479 * 1024 ^ k) :=
    Nat.Coprime.mul_right (by decide) (Nat.Coprime.pow_right k (by decide))
  have divides : 5 ∣ 20479 * 1024 ^ k := ⟨4 * n, by omega⟩
  exact absurd (coprime.eq_one_of_dvd divides) (by decide)

theorem humanBytes_small (n : UInt64) (small : n.toNat < 1024) :
    humanBytes n = s!"{n.toNat}B" := by
  have count : asF64 n = n.toNat := asF64_eq n (by omega)
  have below : ¬ (n.toNat : ℚ) ≥ 1024 := by
    rw [ge_iff_le, not_le]
    exact_mod_cast small
  rw [humanBytes, count, scaleDown, if_neg below]
  exact if_pos rfl

/-- The brim is that of the unit in which the count is shown. -/
theorem brim_unit {n j k : Nat} (brim : 20479 * 1024 ^ j ≤ 20 * n) (below : n < 1024 ^ (j + 1))
    (reached : 1024 ^ k ≤ n) (most : k < 4 → n < 1024 ^ (k + 1)) (three : j ≤ 3) : j = k := by
  have notAbove : k < j + 1 := (Nat.pow_lt_pow_iff_right (by decide)).mp (reached.trans_lt below)
  have notBelow : j < k + 1 := by
    apply (Nat.pow_lt_pow_iff_right (a := 1024) (by decide)).mp
    have last := most (by omega)
    omega
  omega

/-- A count is shown as it should be exactly if it is not at the brim of its unit. -/
theorem humanBytes_normalised_iff (n : UInt64) (exact : n.toNat < 2 ^ 53) :
    Normalised n.toNat (humanBytes n) ↔ ¬ Brim n.toNat := by
  by_cases small : n.toNat < 1024
  · rw [Normalised, if_pos small]
    apply iff_of_true (humanBytes_small n small)
    rintro ⟨k, one, three, brim, -⟩
    have unit : 1024 ^ 1 ≤ 1024 ^ k := Nat.pow_le_pow_right (by decide) one
    omega
  · obtain ⟨tenths, k, unit, positive, found, shown, nearest, reached, most⟩ :=
      humanBytes_shown n exact (by omega)
    have scale : (0 : ℚ) < 1024 ^ k := by positivity
    rw [Normalised, if_neg small, shown]
    constructor
    · rintro ⟨others, i, name, -, named, same, near, -, less⟩ ⟨j, one, three, brim, below⟩
      obtain rfl : j = k := brim_unit brim below reached most three
      obtain rfl : j = i := unit_of_text found named same
      have enough := brim_tenths brim near
      have short := less (by omega)
      omega
    · intro clear
      refine ⟨tenths, k, unit, positive, found, rfl, ?_, ?_, fun short => ?_⟩
      · have near := (nearest_iff scale (by norm_num)).mp nearest
        norm_num at near
        exact near
      · have least : (10 : ℤ) ≤ tenths := by
          apply nearest.le
          rw [div_mul_eq_mul_div, le_div_iff₀ scale]
          have reached : (1024 : ℚ) ^ k ≤ n.toNat := by exact_mod_cast reached
          push_cast
          linarith
        omega
      · apply tenths_lt nearest
        by_contra brim
        exact clear ⟨k, positive, by omega, by omega, most short⟩

theorem humanBytes_normalised_iff_kibibytes : Normalised 1536 (humanBytes 1536) := by
  apply (humanBytes_normalised_iff 1536 (by decide)).mpr
  rintro ⟨k, one, -, brim, -⟩
  have unit : 1024 ^ 1 ≤ 1024 ^ k := Nat.pow_le_pow_right (by decide) one
  change 20479 * 1024 ^ k ≤ 20 * 1536 at brim
  omega

/-- One byte less than a mebibyte. -/
theorem humanBytes_overflows :
    humanBytes 1048575 = "1024.0K" ∧ ¬ Normalised 1048575 (humanBytes 1048575) := by
  have shown : humanBytes 1048575 = "1024.0K" := by decide +kernel
  refine ⟨shown, ?_⟩
  rw [shown, Normalised, if_neg (by decide)]
  rintro ⟨tenths, k, unit, -, named, same, near, -, less⟩
  have same : "1024.0" ++ "K" = _ := same
  obtain rfl : 1 = k := unit_of_text rfl named same
  have enough := brim_tenths (by decide) near
  have short := less (by decide)
  omega

end Tord
