import Rpi3Bench.Library.Binary64
import Rpi3Bench.Library.Qsort

/-!
# The median of `common.c`

`get_median` hands `qsort` elements of `sizeof(int)` bytes, so the array of
doubles is kept as the 32-bit words that make it up.
-/

namespace Rpi3Bench.GetMedian

open OrderStatistics

abbrev Word := BitVec 32

/-- A double that the benchmarks can have measured. -/
abbrev FiniteDouble := { d : Binary64 // d.Finite }

def FiniteDouble.value (d : FiniteDouble) : ℚ := d.val.value

/-- The measured array as it lies in memory. -/
def memory (a : List FiniteDouble) : List Word := Binary64.store (a.map Subtype.val)

/-- What the array holds. -/
def values (a : List FiniteDouble) : List ℚ := a.map FiniteDouble.value

/-- Why `get_median` has no result in exact arithmetic. -/
inductive Fault
  | outOfBounds (index : ℕ)
  | notFinite (index : ℕ)
  deriving DecidableEq

/-- `compare_function`: the wrapping difference of two `int`s. -/
def compareFunction (a b : Word) : ℤ := (a - b).toInt

/-- `qsort(result_array, array_size, sizeof(int), compare_function)`: only the
first `array_size` words are handed over. -/
def qsortInts (q : Qsort Word) (resultArray : List Word) (arraySize : ℕ) : List Word :=
  q.sort compareFunction (resultArray.take arraySize) ++ resultArray.drop arraySize

/-- `result_array[index]`. -/
def readElement (resultArray : List Word) (index : ℕ) : Except Fault Binary64 :=
  match Binary64.load resultArray index with
  | none => .error (.outOfBounds index)
  | some d => .ok d

/-- The value of element `index`, for exact arithmetic. -/
def exactValue (index : ℕ) (d : Binary64) : Except Fault ℚ :=
  if d.Finite then .ok d.value else .error (.notFinite index)

/-- `get_median` from `result_1` on, without the average: `result_1` and
`result_2`. -/
def selectElements (resultArray : List Word) (arraySize : ℕ) :
    Except Fault (Binary64 × Binary64) := do
  let result1 ← readElement resultArray (arraySize / 2)
  let result2 ← readElement resultArray (arraySize / 2 + 1)
  return (result1, result2)

/-- `get_median` without the average: the array that it leaves, `result_1` and
`result_2`. -/
def sortAndSelect (q : Qsort Word) (resultArray : List Word) (arraySize : ℕ) :
    Except Fault (List Word × Binary64 × Binary64) := do
  let sorted := qsortInts q resultArray arraySize
  let results ← selectElements sorted arraySize
  return (sorted, results)

/-- `median`, in exact arithmetic. -/
def average (arraySize : ℕ) (results : Binary64 × Binary64) : Except Fault ℚ := do
  let result1 ← exactValue (arraySize / 2) results.1
  let result2 ← exactValue (arraySize / 2 + 1) results.2
  return (result1 + result2) / 2

/-- What `get_median` returns of an array that is taken as sorted. -/
def selectMedian (resultArray : List Word) (arraySize : ℕ) : Except Fault ℚ :=
  selectElements resultArray arraySize >>= average arraySize

/-- What `get_median` returns. -/
def getMedian (q : Qsort Word) (resultArray : List Word) (arraySize : ℕ) : Except Fault ℚ := do
  let (_, results) ← sortAndSelect q resultArray arraySize
  average arraySize results

theorem getMedian_eq_selectMedian (q : Qsort Word) (resultArray : List Word) (arraySize : ℕ) :
    getMedian q resultArray arraySize =
      selectMedian (qsortInts q resultArray arraySize) arraySize := by
  rw [getMedian, sortAndSelect, selectMedian]
  cases selectElements (qsortInts q resultArray arraySize) arraySize <;> rfl

theorem readElement_memory (a : List FiniteDouble) (index : ℕ) :
    readElement (memory a) index =
      match a[index]? with
      | none => .error (.outOfBounds index)
      | some d => .ok d.val := by
  rw [readElement, memory, Binary64.load_store, List.getElem?_map]
  cases a[index]? <;> rfl

theorem exactValue_val (index : ℕ) (d : FiniteDouble) : exactValue index d.val = .ok d.value :=
  if_pos d.property

/-- On finite doubles the selection averages two of them, if they are there. -/
theorem selectMedian_memory (a : List FiniteDouble) (n : ℕ) :
    selectMedian (memory a) n =
      match (values a)[n / 2]?, (values a)[n / 2 + 1]? with
      | some v, some w => .ok ((v + w) / 2)
      | none, _ => .error (.outOfBounds (n / 2))
      | some _, none => .error (.outOfBounds (n / 2 + 1)) := by
  rw [selectMedian, selectElements, readElement_memory, readElement_memory, values,
    List.getElem?_map, List.getElem?_map]
  cases a[n / 2]? with
  | none => rfl
  | some d =>
    cases a[n / 2 + 1]? with
    | none => rfl
    | some d' =>
      change average n (d.val, d'.val) = _
      simp only [average, exactValue_val]
      rfl

/-- The words past the first `array_size` keep their places. -/
theorem getElem?_qsortInts (q : Qsort Word) {words : List Word} {n i : ℕ}
    (hn : n ≤ words.length) (hi : n ≤ i) : (qsortInts q words n)[i]? = words[i]? := by
  have hlen : (q.sort compareFunction (words.take n)).length = n := by
    rw [q.length_sort, List.length_take, Nat.min_eq_left hn]
  rw [qsortInts, List.getElem?_append_right (by omega), hlen, List.getElem?_drop,
    Nat.add_sub_of_le hi]

/-- The two elements read afterwards lie in the half that `qsort` never got. -/
theorem readElement_qsortInts (q : Qsort Word) (a : List FiniteDouble) (heven : Even a.length)
    {index : ℕ} (hi : a.length / 2 ≤ index) :
    readElement (qsortInts q (memory a) a.length) index = readElement (memory a) index := by
  have hlen : (memory a).length = 2 * a.length := by simp [memory]
  have hhalf := Nat.div_two_mul_two_of_even heven
  rw [readElement, readElement, Binary64.load_congr]
  intro i hik
  exact getElem?_qsortInts q (by omega) (by omega)

theorem selectElements_qsortInts (q : Qsort Word) (a : List FiniteDouble)
    (heven : Even a.length) :
    selectElements (qsortInts q (memory a) a.length) a.length =
      selectElements (memory a) a.length := by
  rw [selectElements, readElement_qsortInts q a heven le_rfl,
    readElement_qsortInts q a heven (Nat.le_succ _)]
  rfl

/-- For an even number of samples `get_median` averages two of them as they
lay in the array, whatever `qsort` did to the rest. -/
theorem getMedian_eq (q : Qsort Word) (a : List FiniteDouble) (heven : Even a.length) :
    getMedian q (memory a) a.length =
      match (values a)[a.length / 2]?, (values a)[a.length / 2 + 1]? with
      | some v, some w => .ok ((v + w) / 2)
      | none, _ => .error (.outOfBounds (a.length / 2))
      | some _, none => .error (.outOfBounds (a.length / 2 + 1)) := by
  rw [getMedian_eq_selectMedian, selectMedian, selectElements_qsortInts q a heven]
  exact selectMedian_memory a a.length

/-- `get_median` of an even number of samples returns their median exactly
when there are at least four of them and the two it reads, at positions `n / 2`
and `n / 2 + 1` of the unsorted array, have the same sum as the two middle
order statistics. -/
theorem getMedian_eq_median_iff (q : Qsort Word) (a : List FiniteDouble)
    (heven : Even a.length) (hsize : 2 ≤ a.length) :
    getMedian q (memory a) a.length = .ok (median (values a)) ↔
      4 ≤ a.length ∧
        (values a).getD (a.length / 2) 0 + (values a).getD (a.length / 2 + 1) 0 =
          orderStatistic (values a) (a.length / 2 - 1) +
            orderStatistic (values a) (a.length / 2) := by
  have hlen : (values a).length = a.length := List.length_map _
  have hhalf := Nat.div_two_mul_two_of_even heven
  rw [getMedian_eq q a heven, median_of_even (hlen ▸ heven), hlen]
  rw [List.getElem?_eq_getElem (by omega : a.length / 2 < (values a).length)]
  by_cases hfour : 4 ≤ a.length
  · have hnext : a.length / 2 + 1 < (values a).length := by omega
    rw [List.getElem?_eq_getElem hnext, List.getD_eq_getElem _ _ (by omega),
      List.getD_eq_getElem _ _ hnext]
    simp only [hfour, true_and, Except.ok.injEq]
    constructor
    · intro h
      linarith
    · intro h
      rw [h]
  · -- of two samples the second one read is past the end
    rw [List.getElem?_eq_none (by omega)]
    simp [hfour]

def double (lo hi : Word) (h : (Binary64.mk lo hi).Finite := by decide) : FiniteDouble :=
  ⟨⟨lo, hi⟩, h⟩

/-- Constant samples are among those that come out right. -/
theorem getMedian_eq_median_constant :
    getMedian (Qsort.insertion Word) (memory (List.replicate 4 (double 0 0x3FF00000))) 4 =
      .ok (median (values (List.replicate 4 (double 0 0x3FF00000)))) := by
  apply (getMedian_eq_median_iff (Qsort.insertion Word)
    (List.replicate 4 (double 0 0x3FF00000)) (by decide) (by decide)).mpr
  refine ⟨by decide, ?_⟩
  have hsorted := ascending_eq_self (List.sortedLE_replicate (a := (double 0 0x3FF00000).value) 4)
  simp only [values, List.map_replicate, orderStatistic, hsorted]
  rfl

/-- The samples 1, 2, 3, 4, already in ascending order. -/
def oneToFour : List FiniteDouble :=
  [double 0 0x3FF00000, double 0 0x40000000, double 0 0x40080000, double 0 0x40100000]

theorem values_oneToFour : values oneToFour = [1, 2, 3, 4] := by
  have h1 := Binary64.value_of_normal (d := ⟨0, 0x3FF00000⟩) (e := 1023) (f := 0) rfl rfl rfl
    (by decide)
  have h2 := Binary64.value_of_normal (d := ⟨0, 0x40000000⟩) (e := 1024) (f := 0) rfl rfl rfl
    (by decide)
  have h3 := Binary64.value_of_normal (d := ⟨0, 0x40080000⟩) (e := 1024) (f := 2 ^ 51) rfl rfl rfl
    (by decide)
  have h4 := Binary64.value_of_normal (d := ⟨0, 0x40100000⟩) (e := 1025) (f := 0) rfl rfl rfl
    (by decide)
  simp only [values, oneToFour, List.map_cons, List.map_nil, FiniteDouble.value, double,
    h1, h2, h3, h4]
  norm_num

/-- Of 1, 2, 3, 4 the mean of the last two is returned, and of two samples the
second one read lies past the end. -/
theorem getMedian_not_median :
    ¬ ∀ (q : Qsort Word) (a : List FiniteDouble), Even a.length → 2 ≤ a.length →
      getMedian q (memory a) a.length = .ok (median (values a)) := by
  intro hall
  have hmed := hall (Qsort.insertion Word) oneToFour (by decide) (by decide)
  have hsorted : ascending ([1, 2, 3, 4] : List ℚ) = [1, 2, 3, 4] := by
    apply ascending_eq_self
    apply List.Pairwise.sortedLE
    norm_num
  rw [getMedian_eq _ _ (by decide), median_of_even (by decide), values_oneToFour] at hmed
  simp only [orderStatistic, hsorted] at hmed
  norm_num [oneToFour] at hmed

end Rpi3Bench.GetMedian
