import Rpi3Bench.Library.Binary64

/-!
# Doubles written to memory

The double of a natural number below `2^53`, and stores to an array of doubles
laid out as words.
-/

namespace Binary64

/-- The biased exponent of `n`. -/
def exponentOf (n : ℕ) : ℕ := n.log2 + 1023

/-- The fraction of `n`, without its leading bit. -/
def fractionOf (n : ℕ) : ℕ := n * 2 ^ (52 - n.log2) - 2 ^ 52

/-- The conversion of an unsigned integer, exact below `2^53`. -/
def ofNat (n : ℕ) : Binary64 :=
  if n = 0 then ⟨0, 0⟩
  else
    { lo := BitVec.ofNat 32 (fractionOf n % 2 ^ 32)
      hi := BitVec.ofNat 32 (exponentOf n * 2 ^ 20 + fractionOf n / 2 ^ 32) }

variable {n : ℕ}

theorem log2_le (h : n < 2 ^ 53) : n.log2 ≤ 52 := by
  rcases Nat.eq_zero_or_pos n with rfl | hpos
  · decide
  · exact Nat.lt_succ_iff.mp ((Nat.log2_lt (Nat.ne_of_gt hpos)).mpr h)

/-- Shifted to the left, the leading bit of `n` is bit 52. -/
theorem shifted_bounds (hpos : n ≠ 0) (h : n < 2 ^ 53) :
    2 ^ 52 ≤ n * 2 ^ (52 - n.log2) ∧ n * 2 ^ (52 - n.log2) < 2 ^ 53 := by
  have hle := log2_le h
  have hlow : 2 ^ n.log2 ≤ n := Nat.log2_self_le hpos
  have hhigh : n < 2 ^ (n.log2 + 1) := Nat.lt_log2_self
  have hshift : 0 < 2 ^ (52 - n.log2) := Nat.two_pow_pos _
  constructor
  · calc 2 ^ 52 = 2 ^ n.log2 * 2 ^ (52 - n.log2) := by rw [← pow_add, Nat.add_sub_of_le hle]
      _ ≤ n * 2 ^ (52 - n.log2) := Nat.mul_le_mul_right _ hlow
  · calc n * 2 ^ (52 - n.log2) < 2 ^ (n.log2 + 1) * 2 ^ (52 - n.log2) :=
          Nat.mul_lt_mul_of_pos_right hhigh hshift
      _ = 2 ^ 53 := by
          rw [← pow_add]
          congr 1
          omega

theorem add_fractionOf (hpos : n ≠ 0) (h : n < 2 ^ 53) :
    2 ^ 52 + fractionOf n = n * 2 ^ (52 - n.log2) :=
  Nat.add_sub_of_le (shifted_bounds hpos h).1

theorem fractionOf_lt (hpos : n ≠ 0) (h : n < 2 ^ 53) : fractionOf n < 2 ^ 52 := by
  have hadd := add_fractionOf hpos h
  have hhigh := (shifted_bounds hpos h).2
  omega

theorem hi_ofNat (hpos : n ≠ 0) (h : n < 2 ^ 53) :
    (ofNat n).hi.toNat = exponentOf n * 2 ^ 20 + fractionOf n / 2 ^ 32 := by
  have hle := log2_le h
  have hfraction := fractionOf_lt hpos h
  rw [ofNat, if_neg hpos, BitVec.toNat_ofNat]
  apply Nat.mod_eq_of_lt
  rw [exponentOf]
  omega

theorem lo_ofNat (hpos : n ≠ 0) : (ofNat n).lo.toNat = fractionOf n % 2 ^ 32 := by
  rw [ofNat, if_neg hpos, BitVec.toNat_ofNat]
  exact Nat.mod_mod _ _

theorem exponent_ofNat (hpos : n ≠ 0) (h : n < 2 ^ 53) : (ofNat n).exponent = exponentOf n := by
  have hle := log2_le h
  have hfraction := fractionOf_lt hpos h
  rw [exponent, hi_ofNat hpos h, exponentOf]
  omega

theorem fraction_ofNat (hpos : n ≠ 0) (h : n < 2 ^ 53) : (ofNat n).fraction = fractionOf n := by
  have hfraction := fractionOf_lt hpos h
  rw [fraction, hi_ofNat hpos h, lo_ofNat hpos]
  omega

theorem finite_ofNat (h : n < 2 ^ 53) : (ofNat n).Finite := by
  by_cases hpos : n = 0
  · subst hpos
    decide
  · have hle := log2_le h
    rw [Finite, exponent_ofNat hpos h, exponentOf]
    omega

/-- The conversion is exact. -/
theorem value_ofNat (h : n < 2 ^ 53) : (ofNat n).value = n := by
  by_cases hpos : n = 0
  · subst hpos
    have hexponent : (ofNat 0).exponent = 0 := by decide
    have hfraction : (ofNat 0).fraction = 0 := by decide
    rw [value, if_pos hexponent, hfraction]
    simp
  · have hle := log2_le h
    have hsign : (ofNat n).hi.msb = false := by
      have hfraction := fractionOf_lt hpos h
      rw [BitVec.msb_eq_false_iff_two_mul_lt, hi_ofNat hpos h, exponentOf]
      omega
    rw [value_of_normal hsign (exponent_ofNat hpos h) (fraction_ofNat hpos h)
      (by simp [exponentOf])]
    have hsum : (2 : ℚ) ^ 52 + (fractionOf n : ℚ) = n * 2 ^ (52 - n.log2) := by
      exact_mod_cast add_fractionOf hpos h
    have hexp : ((exponentOf n : ℕ) : ℤ) - 1075 = -((52 - n.log2 : ℕ) : ℤ) := by
      rw [exponentOf]
      omega
    rw [hsum, hexp, zpow_neg, zpow_natCast, mul_assoc, mul_inv_cancel₀ (by positivity), mul_one]

/-! ## Stores -/

/-- The store of a double at index `k`. -/
def write (words : List (BitVec 32)) (k : ℕ) (d : Binary64) : List (BitVec 32) :=
  (words.set (2 * k) d.lo).set (2 * k + 1) d.hi

/-- A store behind what is already stored. -/
theorem write_append (ds : List Binary64) (lo hi : BitVec 32) (rest : List (BitVec 32))
    (d : Binary64) :
    write (store ds ++ lo :: hi :: rest) ds.length d = store (ds ++ [d]) ++ rest := by
  have hlength := store_length ds
  rw [write, ← hlength, List.set_append_right _ _ le_rfl, Nat.sub_self, List.set_cons_zero,
    List.set_append_right _ _ (Nat.le_succ _), Nat.succ_sub le_rfl, Nat.sub_self,
    List.set_cons_succ, List.set_cons_zero, store_append, List.append_assoc]
  rfl

/-- Stores at one index after the other fill an array, whatever it held. -/
theorem foldl_write (ds es : List Binary64) (words : List (BitVec 32))
    (hwords : words.length = 2 * es.length) :
    ((List.range' ds.length es.length).zip es).foldl (fun ws e => write ws e.1 e.2)
      (store ds ++ words) = store (ds ++ es) := by
  induction es generalizing ds words with
  | nil =>
    have hnil : words = [] := List.length_eq_zero_iff.mp hwords
    simp [hnil]
  | cons e es ih =>
    match words, hwords with
    | lo :: hi :: rest, hwords =>
      have hrest : rest.length = 2 * es.length := by
        simp only [List.length_cons] at hwords
        omega
      have hnext := ih (ds ++ [e]) rest hrest
      rw [List.length_append, List.length_singleton, List.append_assoc] at hnext
      rw [List.length_cons, List.range'_succ, List.zip_cons_cons, List.foldl_cons, write_append]
      exact hnext

end Binary64
