import Mathlib.Tactic

/-!
# The difference of two signed words

Subtraction of `w`-bit words in two's complement, read as signed integers: when
it wraps, and what wrapping does to the sign of the result.
-/

namespace SignedDifference

variable {w : ℕ} {x y : BitVec w}

/-- The integers that a signed word of `w` bits can hold. -/
def Fits (w : ℕ) (z : ℤ) : Prop := -2 ^ (w - 1) ≤ z ∧ z < 2 ^ (w - 1)

theorem ssubOverflow_eq_false_iff :
    x.ssubOverflow y = false ↔ Fits w (x.toInt - y.toInt) := by
  simp only [BitVec.ssubOverflow, Fits, Bool.or_eq_false_iff, decide_eq_false_iff_not]
  omega

theorem toInt_sub_of_fits (h : Fits w (x.toInt - y.toInt)) :
    (x - y).toInt = x.toInt - y.toInt := by
  apply BitVec.toInt_sub_of_not_ssubOverflow
  rw [ssubOverflow_eq_false_iff.mpr h]
  exact Bool.false_ne_true

/-- A difference that wraps changes its sign. -/
theorem sign_toInt_sub_iff :
    (x - y).toInt.sign = (x.toInt - y.toInt).sign ↔ Fits w (x.toInt - y.toInt) := by
  constructor
  · intro hsign
    have hpow : (0 : ℤ) < 2 ^ (w - 1) := by positivity
    constructor
    · by_contra hlow
      have hwrap := (BitVec.toInt_sub_toInt_lt_twoPow_iff.mp (not_le.mp hlow)).2.2
      have hneg : (x.toInt - y.toInt).sign = -1 := Int.sign_eq_neg_one_of_neg (by omega)
      rw [← BitVec.toInt_sub] at hwrap
      rw [hneg, Int.sign_eq_neg_one_iff_neg] at hsign
      omega
    · by_contra hhigh
      have hwrap := (BitVec.twoPow_le_toInt_sub_toInt_iff.mp (not_lt.mp hhigh)).2.2
      have hpos : (x.toInt - y.toInt).sign = 1 := Int.sign_eq_one_of_pos (by omega)
      rw [← BitVec.toInt_sub] at hwrap
      rw [hpos, Int.sign_eq_one_iff_pos] at hsign
      omega
  · intro h
    rw [toInt_sub_of_fits h]

end SignedDifference
