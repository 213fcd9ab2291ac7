import Mathlib.Tactic
import Mathlib.Data.List.GetD
import Mathlib.Data.List.Sort

/-!
# Order statistics of a list

The ascending rearrangement of a list over a linear order, rank counting on a
sorted list, and the median.  The rank bounds give the breakdown property of
the middle element: fewer than half of the entries cannot push it outside the
range of the others.
-/

namespace OrderStatistics

variable {α : Type*} [LinearOrder α]

/-- The entries of a list in ascending order. -/
def ascending (l : List α) : List α := l.insertionSort (· ≤ ·)

theorem ascending_perm (l : List α) : (ascending l).Perm l :=
  List.perm_insertionSort (· ≤ ·) l

theorem ascending_sorted (l : List α) : (ascending l).SortedLE :=
  List.sortedLE_insertionSort

@[simp] theorem ascending_length (l : List α) : (ascending l).length = l.length :=
  (ascending_perm l).length_eq

/-- A sorted rearrangement is the ascending one. -/
theorem eq_ascending {l s : List α} (hperm : s.Perm l) (hs : s.SortedLE) : s = ascending l :=
  (hperm.trans (ascending_perm l).symm).eq_of_sortedLE hs (ascending_sorted l)

theorem ascending_eq_self {l : List α} (h : l.SortedLE) : ascending l = l :=
  (eq_ascending (List.Perm.refl l) h).symm

/-! ## Rank counting -/

section Rank

variable {s good bad : List α} {k : ℕ}

theorem sorted_getElem_le (hs : s.SortedLE) {i j : ℕ} (hij : i ≤ j) (hj : j < s.length) :
    s[i] ≤ s[j] :=
  hs.monotone_get (show (⟨i, by omega⟩ : Fin s.length) ≤ ⟨j, hj⟩ from hij)

/-- The entries up to index `k` of a sorted list are at most entry `k`. -/
theorem countP_le_getElem (hs : s.SortedLE) (hk : k < s.length) :
    k + 1 ≤ s.countP (· ≤ s[k]) := by
  have htake : (s.take (k + 1)).countP (· ≤ s[k]) = k + 1 := by
    rw [List.countP_eq_length.mpr, List.length_take, Nat.min_eq_left hk]
    intro x hx
    obtain ⟨i, hi, rfl⟩ := List.mem_take_iff_getElem.mp hx
    exact decide_eq_true (sorted_getElem_le hs (by omega) hk)
  rw [← htake]
  exact (List.take_sublist (k + 1) s).countP_le

/-- The entries from index `k` of a sorted list are at least entry `k`. -/
theorem countP_getElem_le (hs : s.SortedLE) (hk : k < s.length) :
    s.length - k ≤ s.countP (s[k] ≤ ·) := by
  have hdrop : (s.drop k).countP (s[k] ≤ ·) = s.length - k := by
    rw [List.countP_eq_length.mpr, List.length_drop]
    intro x hx
    obtain ⟨i, hi, rfl⟩ := List.mem_drop_iff_getElem.mp hx
    exact decide_eq_true (sorted_getElem_le hs (by omega) (by omega))
  rw [← hdrop]
  exact (List.drop_sublist k s).countP_le

omit [LinearOrder α] in
theorem countP_le_length_bad {p : α → Bool} (hperm : s.Perm (good ++ bad))
    (hgood : ∀ x ∈ good, ¬ p x = true) : s.countP p ≤ bad.length := by
  rw [hperm.countP_eq, List.countP_append, List.countP_eq_zero.mpr hgood, Nat.zero_add]
  exact List.countP_le_length

/-- More entries than there are bad ones lie below index `k`, so some good
entry does. -/
theorem exists_good_le (hs : s.SortedLE) (hperm : s.Perm (good ++ bad)) (hk : k < s.length)
    (hbad : bad.length < k + 1) : ∃ x ∈ good, x ≤ s[k] := by
  by_contra hnone
  push Not at hnone
  have hcount : s.countP (· ≤ s[k]) ≤ bad.length := by
    apply countP_le_length_bad hperm
    intro x hx
    simpa using hnone x hx
  have hrank := countP_le_getElem hs hk
  omega

theorem exists_good_ge (hs : s.SortedLE) (hperm : s.Perm (good ++ bad)) (hk : k < s.length)
    (hbad : bad.length < s.length - k) : ∃ x ∈ good, s[k] ≤ x := by
  by_contra hnone
  push Not at hnone
  have hcount : s.countP (s[k] ≤ ·) ≤ bad.length := by
    apply countP_le_length_bad hperm
    intro x hx
    simpa using hnone x hx
  have hrank := countP_getElem_le hs hk
  omega

/-- Fewer than half of the entries cannot move the middle one outside the
range of the others. -/
theorem middle_between (hs : s.SortedLE) (hperm : s.Perm (good ++ bad))
    (hbad : 2 * bad.length < s.length) :
    ∃ h : s.length / 2 < s.length,
      (∃ x ∈ good, x ≤ s[s.length / 2]) ∧ ∃ y ∈ good, s[s.length / 2] ≤ y := by
  have hmid : s.length / 2 < s.length := by omega
  exact ⟨hmid, exists_good_le hs hperm hmid (by omega), exists_good_ge hs hperm hmid (by omega)⟩

end Rank

/-! ## The median -/

section Median

variable {K : Type*} [Field K] [LinearOrder K]

/-- Order statistic `k`, counted from zero. -/
def orderStatistic (l : List K) (k : ℕ) : K := (ascending l).getD k 0

/-- The middle entry, or the mean of the two middle entries. -/
def median (l : List K) : K :=
  if l.length % 2 = 0 then
    (orderStatistic l (l.length / 2 - 1) + orderStatistic l (l.length / 2)) / 2
  else orderStatistic l (l.length / 2)

theorem median_of_even {l : List K} (h : Even l.length) :
    median l = (orderStatistic l (l.length / 2 - 1) + orderStatistic l (l.length / 2)) / 2 :=
  if_pos (Nat.even_iff.mp h)

end Median

end OrderStatistics
