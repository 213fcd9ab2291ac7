import Rpi3Bench.Common
import Rpi3Bench.Library.Qsort

/-!
# The cost of a call

`procedure_call` times a loop of calls many times over, sorts the measures and
keeps the middle one.  The calls themselves leave no trace in the result but
the readings of the clock around their loop.
-/

namespace Rpi3Bench.ProcedureCall

open OrderStatistics

def iterations : ℕ := 100000

def measurements : ℕ := 300

variable {K : Type*} [Field K] [LinearOrder K]

/-- The two clock readings around a timed loop. -/
abbrev Reading (K : Type*) := Timespec K × Timespec K

def elapsed (r : Reading K) : K := timespecDiffToNsecs r.1 r.2

/-- A timed loop, per iteration. -/
def perIteration (r : Reading K) : K := elapsed r / iterations

/-- `double_compare`, on finite values. -/
def doubleCompare (d1 d2 : K) : ℤ :=
  if d1 < d2 then -1 else if d1 > d2 then 1 else 0

/-- The last two statements of `get_avg_measure`: sort, then take the middle. -/
def middleMeasure (q : Qsort K) (measures : List K) : Option K :=
  (q.sort doubleCompare measures)[measures.length / 2]?

/-- `get_avg_measure`, from the readings of its timed loops. -/
def getAvgMeasure (q : Qsort K) (readings : List (Reading K)) : Option K :=
  middleMeasure q (readings.map perIteration)

/-- `baseline`: the empty loop. -/
def baseline (r : Reading K) : K := perIteration r

/-- The figure that `main` prints for one number of arguments. -/
def printed (q : Qsort K) (base : Reading K) (readings : List (Reading K)) : Option K :=
  (getAvgMeasure q readings).map fun m => m - baseline base

omit [Field K] in
theorem doubleCompare_nonpos (d1 d2 : K) : doubleCompare d1 d2 ≤ 0 ↔ d1 ≤ d2 := by
  unfold doubleCompare
  split_ifs with hlt hgt
  · simpa using hlt.le
  · simpa using hgt
  · simpa using not_lt.mp hgt

omit [Field K] in
theorem middleMeasure_eq (q : Qsort K) (measures : List K) :
    middleMeasure q measures = (ascending measures)[measures.length / 2]? := by
  rw [middleMeasure, q.sort_eq_ascending doubleCompare_nonpos]

omit [Field K] in
/-- The selected measure lies in the range of the good ones. -/
theorem middleMeasure_between (q : Qsort K) {measures good bad : List K}
    (hperm : measures.Perm (good ++ bad)) (hbad : 2 * bad.length < measures.length) :
    ∃ x, middleMeasure q measures = some x ∧ (∃ y ∈ good, y ≤ x) ∧ ∃ z ∈ good, x ≤ z := by
  obtain ⟨hmid, hle, hge⟩ := middle_between (ascending_sorted measures)
    ((ascending_perm measures).trans hperm) (by simpa using hbad)
  refine ⟨_, ?_, hle, hge⟩
  rw [middleMeasure_eq, List.getElem?_eq_some_iff]
  simp only [ascending_length] at hmid ⊢
  exact ⟨hmid, trivial⟩

/-- When all but fewer than half of the loops took the same time, that time is
what `get_avg_measure` reports. -/
theorem getAvgMeasure_eq (q : Qsort K) (t : K) {readings : List (Reading K)}
    (hbad : 2 * readings.countP (fun r => ¬ elapsed r = t) < readings.length) :
    getAvgMeasure q readings = some (t / iterations) := by
  have hperm := (List.filter_append_perm (fun r => decide (elapsed r = t)) readings).symm.map
    perIteration
  rw [List.map_append] at hperm
  obtain ⟨x, hx, ⟨y, hy, hyx⟩, z, hz, hxz⟩ := middleMeasure_between q hperm (by
    simpa [List.countP_eq_length_filter] using hbad)
  have hgood : ∀ y ∈ (readings.filter fun r => decide (elapsed r = t)).map perIteration,
      y = t / iterations := by
    intro y hy
    obtain ⟨r, hr, rfl⟩ := List.mem_map.mp hy
    rw [perIteration, of_decide_eq_true (List.mem_filter.mp hr).2]
  rw [getAvgMeasure, hx]
  rw [hgood y hy] at hyx
  rw [hgood z hz] at hxz
  exact congrArg some (le_antisymm hxz hyx)

omit [Field K] [LinearOrder K] in
/-- The positions of a list split into outliers and the rest. -/
theorem perm_outliers (measures : List K) (outlier : Fin measures.length → Bool) :
    measures.Perm ((((List.finRange measures.length).filter fun i => !outlier i).map measures.get) ++
      (((List.finRange measures.length).filter outlier).map measures.get)) := by
  have hperm := (List.filter_append_perm outlier (List.finRange measures.length)).symm.map
    measures.get
  rw [List.map_append, List.map_get_finRange] at hperm
  exact hperm.trans List.perm_append_comm

variable [IsStrictOrderedRing K]

/-- The figure printed is the cost of the call whatever fewer than half of the
timed loops did, and the selected measure always lies between the smallest and
the largest of the measures that are not outliers. -/
theorem robust_call_cost (q : Qsort K) :
    (∀ (g f c : K) (base : Reading K) (readings : List (Reading K)),
      elapsed base = g + iterations * f → readings.length = measurements →
      2 * readings.countP (fun r => ¬ elapsed r = g + iterations * (f + c)) < measurements →
      printed q base readings = some c) ∧
    ∀ (measures : List K) (outlier : Fin measures.length → Bool),
      2 * (List.finRange measures.length).countP outlier < measures.length →
      ∃ x, middleMeasure q measures = some x ∧
        (∃ i, outlier i = false ∧ measures.get i ≤ x) ∧
        ∃ j, outlier j = false ∧ x ≤ measures.get j := by
  constructor
  · intro g f c base readings hbase hlen hbad
    rw [printed, getAvgMeasure_eq q (g + iterations * (f + c)) (hlen ▸ hbad), baseline, perIteration, hbase]
    have hne : (iterations : K) ≠ 0 := by
      rw [Nat.cast_ne_zero]
      decide
    simp only [Option.map_some, Option.some.injEq]
    field_simp
    ring
  · intro measures outlier hbad
    obtain ⟨x, hx, ⟨y, hy, hyx⟩, z, hz, hxz⟩ :=
      middleMeasure_between q (perm_outliers measures outlier) (by
        simpa [List.countP_eq_length_filter] using hbad)
    obtain ⟨i, hi, rfl⟩ := List.mem_map.mp hy
    obtain ⟨j, hj, rfl⟩ := List.mem_map.mp hz
    refine ⟨x, hx, ⟨i, ?_, hyx⟩, j, ?_, hxz⟩
    · simpa using (List.mem_filter.mp hi).2
    · simpa using (List.mem_filter.mp hj).2

/-- Two hundred undisturbed loops and a hundred that took seven seconds; and
three samples of which the largest is an outlier. -/
theorem robust_call_cost_rat :
    printed (Qsort.insertion ℚ) (⟨0, 0⟩, ⟨0, 500469⟩)
      (List.replicate 200 (⟨0, 0⟩, ⟨0, 1000469⟩) ++ List.replicate 100 (⟨0, 0⟩, ⟨7, 0⟩)) = some 5 ∧
    ∃ x, middleMeasure (Qsort.insertion ℚ) [1, 90, 2] = some x ∧ 1 ≤ x ∧ x ≤ 2 := by
  obtain ⟨hprinted, hmiddle⟩ := robust_call_cost (Qsort.insertion ℚ)
  constructor
  · apply hprinted 469 5 5
    · norm_num [elapsed, timespecDiffToNsecs, iterations]
    · rw [List.length_append, List.length_replicate, List.length_replicate, measurements]
    · norm_num [List.countP_replicate, elapsed, timespecDiffToNsecs, billion, iterations,
        measurements]
  · obtain ⟨x, hx, ⟨i, hi, hix⟩, j, hj, hxj⟩ := hmiddle [1, 90, 2] (fun i => i.val == 1) (by decide)
    refine ⟨x, hx, ?_, ?_⟩
    · fin_cases i
      · exact hix
      · simp at hi
      · exact le_trans (by norm_num) hix
    · fin_cases j
      · exact le_trans hxj (by norm_num)
      · simp at hj
      · exact hxj

end Rpi3Bench.ProcedureCall
