import Rpi3Bench.Common
import Rpi3Bench.GetMedian

/-!
# What `get_median` selects

The part of `get_median` that follows the sort, on an array that is in order.
-/

namespace Rpi3Bench.GetMedian

open OrderStatistics

variable {a : List FiniteDouble}

/-- The sample at index `k`. -/
def sample (a : List FiniteDouble) (k : ℕ) : ℚ := (values a).getD k 0

/-- Both elements are there, and their mean is the median and lies between the
two middle samples. -/
def SelectsMedian (a : List FiniteDouble) : Prop :=
  ∃ m, selectMedian (memory a) a.length = .ok m ∧ m = median (values a) ∧
    sample a (a.length / 2 - 1) ≤ m ∧ m ≤ sample a (a.length / 2)

theorem sample_of_lt {index : ℕ} (h : index < a.length) :
    (values a)[index]? = some (sample a index) := by
  have hlt : index < (values a).length := h.trans_eq (List.length_map _).symm
  rw [sample, List.getElem?_eq_getElem hlt, List.getD_eq_getElem _ _ hlt]

theorem selectMedian_eq_ok {n : ℕ} {m : ℚ} :
    selectMedian (memory a) n = .ok m ↔
      n / 2 + 1 < a.length ∧ m = (sample a (n / 2) + sample a (n / 2 + 1)) / 2 := by
  have hlength : (values a).length = a.length := List.length_map _
  rw [selectMedian_memory]
  rcases lt_or_ge (n / 2 + 1) a.length with hlt | hge
  · rw [sample_of_lt hlt, sample_of_lt (Nat.lt_of_succ_lt hlt)]
    simp only [hlt, true_and, Except.ok.injEq]
    exact eq_comm
  · have hnone : (values a)[n / 2 + 1]? = none := List.getElem?_eq_none (hlength ▸ hge)
    rw [hnone]
    cases (values a)[n / 2]? <;> simp [not_lt.mpr hge]

theorem median_of_sorted (heven : Even a.length) (hsorted : (values a).SortedLE) :
    median (values a) = (sample a (a.length / 2 - 1) + sample a (a.length / 2)) / 2 := by
  have hlength : (values a).length = a.length := List.length_map _
  rw [median_of_even (hlength.symm ▸ heven), hlength, orderStatistic, orderStatistic,
    ascending_eq_self hsorted]
  rfl

theorem sample_le (hsorted : (values a).SortedLE) {i j : ℕ} (hij : i ≤ j) (hj : j < a.length) :
    sample a i ≤ sample a j := by
  have hlength : (values a).length = a.length := List.length_map _
  rw [sample, sample, List.getD_eq_getElem _ _ (by omega), List.getD_eq_getElem _ _ (by omega)]
  exact sorted_getElem_le hsorted hij (by omega)

/-- On a sorted array of even size the selection is right exactly when the
element one past the upper middle is there and equals the lower middle. -/
theorem selectMedian_median_iff (a : List FiniteDouble) (heven : Even a.length)
    (hsorted : (values a).SortedLE) :
    SelectsMedian a ↔
      4 ≤ a.length ∧ sample a (a.length / 2 + 1) = sample a (a.length / 2 - 1) := by
  have hhalf := Nat.div_two_mul_two_of_even heven
  simp only [SelectsMedian, selectMedian_eq_ok, median_of_sorted heven hsorted]
  constructor
  · rintro ⟨m, ⟨hlt, hm⟩, hmedian, -, -⟩
    -- the upper middle is in both means and cancels
    exact ⟨by omega, by linarith⟩
  · rintro ⟨hfour, heq⟩
    have hle := sample_le hsorted (Nat.sub_le (a.length / 2) 1) (by omega)
    refine ⟨_, ⟨by omega, rfl⟩, ?_, ?_, ?_⟩ <;> rw [heq] <;> linarith

theorem selectMedian_median_iff_constant :
    SelectsMedian (List.replicate 4 (double 0 0x3FF00000)) := by
  apply (selectMedian_median_iff (List.replicate 4 (double 0 0x3FF00000)) (by decide) ?_).mpr
  · exact ⟨by decide, rfl⟩
  · rw [values, List.map_replicate]
    exact List.sortedLE_replicate 4

/-- Of 1, 2, 3, 4 the last two are selected, and of two samples none is. -/
theorem selectMedian_not_median :
    ¬ ∀ a : List FiniteDouble, Even a.length → 2 ≤ a.length → (values a).SortedLE →
      SelectsMedian a := by
  intro hall
  have hsorted : (values oneToFour).SortedLE := by
    rw [values_oneToFour]
    apply List.Pairwise.sortedLE
    norm_num
  obtain ⟨m, hm, hmedian, -, -⟩ := hall oneToFour (by decide) (by decide) hsorted
  obtain ⟨-, hm⟩ := selectMedian_eq_ok.mp hm
  rw [hm, median_of_sorted (by decide) hsorted] at hmedian
  simp only [sample, values_oneToFour] at hmedian
  norm_num [oneToFour] at hmedian

end Rpi3Bench.GetMedian
