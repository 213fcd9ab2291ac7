import Mathlib.Tactic
import Mathlib.Algebra.Order.BigOperators.Group.List

/-!
# Mean and variance of a list

The arithmetic mean, the sum of the squared deviations from it, and the two
variances that are made of this sum.
-/

namespace Dispersion

variable {K L : Type*} [Field K] [Field L]

def mean (l : List K) : K := l.sum / l.length

def squaredDeviations (l : List K) : K := (l.map fun x => (x - mean l) ^ 2).sum

def populationVariance (l : List K) : K := squaredDeviations l / l.length

def sampleVariance (l : List K) : K := squaredDeviations l / (l.length - 1)

/-- A constant part of every summand. -/
theorem sum_map_const_add (b : K) (l : List K) :
    (l.map fun x => b + x).sum = l.length * b + l.sum := by
  rw [List.sum_map_add, List.map_const', List.sum_replicate, nsmul_eq_mul, List.map_id']

theorem mean_perm {l l' : List K} (h : l.Perm l') : mean l = mean l' := by
  rw [mean, mean, h.sum_eq, h.length_eq]

theorem squaredDeviations_perm {l l' : List K} (h : l.Perm l') :
    squaredDeviations l = squaredDeviations l' := by
  rw [squaredDeviations, squaredDeviations, mean_perm h]
  exact (h.map _).sum_eq

theorem mean_affine [CharZero K] {l : List K} (hl : l ≠ []) (a b : K) :
    mean (l.map fun x => a * x + b) = a * mean l + b := by
  have hlength : (l.length : K) ≠ 0 := by
    exact_mod_cast (List.length_pos_iff.mpr hl).ne'
  have hsum : (l.map fun x => a * x + b).sum = a * l.sum + l.length * b := by
    rw [List.sum_map_add, List.sum_map_mul_left, List.map_id', List.map_const', List.sum_replicate,
      nsmul_eq_mul]
  rw [mean, mean, hsum, List.length_map]
  field_simp

theorem squaredDeviations_affine [CharZero K] (l : List K) (a b : K) :
    squaredDeviations (l.map fun x => a * x + b) = a ^ 2 * squaredDeviations l := by
  rcases eq_or_ne l [] with rfl | hl
  · simp [squaredDeviations]
  · rw [squaredDeviations, squaredDeviations, mean_affine hl, List.map_map,
      ← List.sum_map_mul_left]
    congr 1
    apply List.map_congr_left
    intro x _
    simp only [Function.comp_apply]
    ring

section Ordered

variable [LinearOrder K] [IsStrictOrderedRing K] {l : List K}

theorem le_mean {lo : K} (hl : l ≠ []) (h : ∀ x ∈ l, lo ≤ x) : lo ≤ mean l := by
  have hlength : (0 : K) < l.length := by
    exact_mod_cast List.length_pos_iff.mpr hl
  rw [mean, le_div_iff₀ hlength, mul_comm, ← nsmul_eq_mul]
  exact List.card_nsmul_le_sum l lo h

theorem mean_le {hi : K} (hl : l ≠ []) (h : ∀ x ∈ l, x ≤ hi) : mean l ≤ hi := by
  have hlength : (0 : K) < l.length := by
    exact_mod_cast List.length_pos_iff.mpr hl
  rw [mean, div_le_iff₀ hlength, mul_comm, ← nsmul_eq_mul]
  exact List.sum_le_card_nsmul l hi h

theorem squaredDeviations_nonneg (l : List K) : 0 ≤ squaredDeviations l := by
  apply List.sum_nonneg
  intro y hy
  obtain ⟨x, -, rfl⟩ := List.mem_map.mp hy
  exact sq_nonneg _

theorem mean_of_constant {x : K} (hx : x ∈ l) (h : ∀ y ∈ l, y = x) : mean l = x := by
  have hlength : (l.length : K) ≠ 0 := by
    exact_mod_cast (List.length_pos_of_mem hx).ne'
  have hl : l = List.replicate l.length x := List.eq_replicate_iff.mpr ⟨rfl, h⟩
  have hsum : l.sum = l.length * x := by
    rw [hl, List.sum_replicate, nsmul_eq_mul, List.length_replicate]
  rw [mean, hsum, mul_div_cancel_left₀ _ hlength]

/-- There is no deviation exactly when all entries are equal. -/
theorem squaredDeviations_eq_zero_iff :
    squaredDeviations l = 0 ↔ ∀ x ∈ l, ∀ y ∈ l, x = y := by
  constructor
  · intro h x hx y hy
    have hmean : ∀ z ∈ l, z = mean l := by
      intro z hz
      have hle : (z - mean l) ^ 2 ≤ squaredDeviations l := by
        apply List.single_le_sum
        · intro w hw
          obtain ⟨v, -, rfl⟩ := List.mem_map.mp hw
          exact sq_nonneg _
        · exact List.mem_map_of_mem hz
      have hzero : (z - mean l) ^ 2 = 0 := le_antisymm (h ▸ hle) (sq_nonneg _)
      exact sub_eq_zero.mp (pow_eq_zero_iff two_ne_zero |>.mp hzero)
    rw [hmean x hx, ← hmean y hy]
  · intro h
    apply List.sum_eq_zero
    intro w hw
    obtain ⟨x, hx, rfl⟩ := List.mem_map.mp hw
    rw [mean_of_constant hx fun y hy => h y hy x hx, sub_self, zero_pow two_ne_zero]

end Ordered

end Dispersion
