import Mathlib.Analysis.Real.Sqrt
import Rpi3Bench.Library.Dispersion

/-!
# Mean and standard deviation of `common.c`

`get_mean` and `get_stddev` in exact arithmetic.  An array is the list of its
`array_size` elements.
-/

namespace Rpi3Bench.Statistics

open Dispersion

section Exact

variable {K : Type*} [Field K]

def getMean (resultArray : List K) : K :=
  resultArray.foldl (fun eX x => eX + x / resultArray.length) 0

/-- `var` of `get_stddev` after its second loop; the first loop is that of
`get_mean`. -/
def accumulatedVar (resultArray : List K) : K :=
  resultArray.foldl (fun var x => var + (x - getMean resultArray) * (x - getMean resultArray)) 0

theorem foldl_add_eq (f : K → K) (l : List K) (init : K) :
    l.foldl (fun acc x => acc + f x) init = init + (l.map f).sum := by
  induction l generalizing init with
  | nil => simp
  | cons x l ih =>
    rw [List.foldl_cons, ih, List.map_cons, List.sum_cons, add_assoc]

theorem getMean_eq (a : List K) : getMean a = mean a := by
  rw [getMean, foldl_add_eq fun x : K => x / a.length, zero_add, mean]
  simp only [div_eq_mul_inv]
  rw [List.sum_map_mul_right, List.map_id']

theorem accumulatedVar_eq (a : List K) : accumulatedVar a = squaredDeviations a := by
  rw [accumulatedVar, foldl_add_eq fun x => (x - getMean a) * (x - getMean a), zero_add,
    squaredDeviations, getMean_eq]
  simp only [sq]

end Exact

/-- `get_stddev`. -/
noncomputable def getStddev (resultArray : List ℝ) : ℝ := √(accumulatedVar resultArray)

theorem sq_getStddev (a : List ℝ) : getStddev a ^ 2 = squaredDeviations a := by
  rw [getStddev, accumulatedVar_eq, Real.sq_sqrt (squaredDeviations_nonneg a)]

/-- `get_stddev` returns a standard deviation exactly for two samples and for
samples that do not deviate: `var` is never divided. -/
theorem getStddev_sq_variance_iff (a : List ℝ) (hsize : 2 ≤ a.length) :
    (getStddev a ^ 2 = populationVariance a ∨ getStddev a ^ 2 = sampleVariance a) ↔
      a.length = 2 ∨ ∀ x ∈ a, ∀ y ∈ a, x = y := by
  have htwo : (2 : ℝ) ≤ a.length := by exact_mod_cast hsize
  rw [sq_getStddev, populationVariance, sampleVariance, ← squaredDeviations_eq_zero_iff,
    eq_div_iff (by linarith), eq_div_iff (by linarith)]
  constructor
  · rintro (h | h)
    · right
      have hprod : squaredDeviations a * (a.length - 1) = 0 := by linarith
      exact (mul_eq_zero.mp hprod).resolve_right (by linarith)
    · have hprod : squaredDeviations a * (a.length - 2) = 0 := by linarith
      rcases mul_eq_zero.mp hprod with hzero | hlength
      · exact Or.inr hzero
      · left
        have hlength : (a.length : ℝ) = 2 := by linarith
        exact_mod_cast hlength
  · rintro (h | h)
    · right
      rw [h]
      norm_num
    · left
      rw [h, zero_mul]

theorem getStddev_sq_variance_iff_two :
    getStddev [1, 3] ^ 2 = populationVariance [1, 3] ∨
      getStddev [1, 3] ^ 2 = sampleVariance [1, 3] :=
  (getStddev_sq_variance_iff [1, 3] le_rfl).mpr (Or.inl rfl)

/-- Of 1, 2, 3 the squared result is 2, and the variances are 2/3 and 1. -/
theorem getStddev_not_sq_variance :
    ¬ ∀ a : List ℝ, 2 ≤ a.length →
      getStddev a ^ 2 = populationVariance a ∨ getStddev a ^ 2 = sampleVariance a := by
  intro hall
  have h := hall [1, 2, 3] (by decide)
  simp only [sq_getStddev, populationVariance, sampleVariance, squaredDeviations, mean] at h
  norm_num at h

/-! ## How the two react to changes of the samples -/

theorem getStddev_perm {a b : List ℝ} (h : b.Perm a) : getStddev b = getStddev a := by
  rw [getStddev, getStddev, accumulatedVar_eq, accumulatedVar_eq, squaredDeviations_perm h]

theorem getStddev_affine (a : List ℝ) (s t : ℝ) :
    getStddev (a.map fun x => s * x + t) = |s| * getStddev a := by
  rw [getStddev, getStddev, accumulatedVar_eq, accumulatedVar_eq, squaredDeviations_affine,
    Real.sqrt_mul (sq_nonneg s), Real.sqrt_sq_eq_abs]

theorem getStddev_eq_zero_iff (a : List ℝ) :
    getStddev a = 0 ↔ ∀ x ∈ a, ∀ y ∈ a, x = y := by
  rw [getStddev, accumulatedVar_eq, Real.sqrt_eq_zero (squaredDeviations_nonneg a)]
  exact squaredDeviations_eq_zero_iff

/-- The samples have a smallest and a largest one, and the mean lies between. -/
theorem getMean_between {a : List ℝ} (ha : a ≠ []) :
    ∃ lo hi, IsLeast {x | x ∈ a} lo ∧ IsGreatest {x | x ∈ a} hi ∧
      lo ≤ getMean a ∧ getMean a ≤ hi := by
  have hne : {x | x ∈ a}.Nonempty := List.exists_mem_of_ne_nil a ha
  obtain ⟨lo, hlo⟩ := a.finite_toSet.exists_minimalFor id _ hne
  obtain ⟨hi, hhi⟩ := a.finite_toSet.exists_maximalFor id _ hne
  have hleast : IsLeast {x | x ∈ a} lo := ⟨hlo.1, fun x hx => (le_total lo x).elim id (hlo.2 hx)⟩
  have hgreatest : IsGreatest {x | x ∈ a} hi :=
    ⟨hhi.1, fun x hx => (le_total x hi).elim id (hhi.2 hx)⟩
  rw [getMean_eq]
  exact ⟨lo, hi, hleast, hgreatest, le_mean ha hleast.2, mean_le ha hgreatest.2⟩

/-- Neither statistic depends on the order of the samples, both follow a change
of scale and origin, the deviation vanishes for equal samples only, and the
mean lies among the samples. -/
theorem mean_stddev_laws (a : List ℝ) (hsize : 1 ≤ a.length) :
    (∀ b : List ℝ, b.Perm a → getMean b = getMean a ∧ getStddev b = getStddev a) ∧
      (∀ s t : ℝ, getMean (a.map fun x => s * x + t) = s * getMean a + t ∧
        getStddev (a.map fun x => s * x + t) = |s| * getStddev a) ∧
      (getStddev a = 0 ↔ ∀ x ∈ a, ∀ y ∈ a, x = y) ∧
      ∃ lo hi, IsLeast {x | x ∈ a} lo ∧ IsGreatest {x | x ∈ a} hi ∧
        lo ≤ getMean a ∧ getMean a ≤ hi := by
  have ha : a ≠ [] := List.length_pos_iff.mp hsize
  refine ⟨?_, ?_, getStddev_eq_zero_iff a, getMean_between ha⟩
  · intro b h
    rw [getMean_eq, getMean_eq]
    exact ⟨mean_perm h, getStddev_perm h⟩
  · intro s t
    rw [getMean_eq, getMean_eq]
    exact ⟨mean_affine ha s t, getStddev_affine a s t⟩

theorem mean_stddev_laws_two :
    getMean [3, 1] = getMean ([1, 3] : List ℝ) ∧ getStddev [3, 1] = getStddev [1, 3] :=
  (mean_stddev_laws [1, 3] (by decide)).1 [3, 1] (List.Perm.swap 1 3 [])

end Rpi3Bench.Statistics
