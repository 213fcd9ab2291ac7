import Mathlib.Algebra.Order.Floor.Semifield
import Rpi3Bench.CorrectedTimes
import Rpi3Bench.Library.Dispersion

/-!
# The access times of `ram_access_time`

For each size of memory, a loop of random accesses and the average of what is
left of its time after the overheads have been taken off.
-/

namespace Rpi3Bench.RamAccessTime

open Dispersion

/-- `TEST_COUNT`. -/
def testCount : ℕ := 100000

def maxArraySizePower : ℕ := 30

def startArraySizePower : ℕ := 2

/-- `SIZE_LEN`. -/
def sizeLen : ℕ := maxArraySizePower - startArraySizePower

/-- What a run finds outside the program: whether each `malloc` succeeds, the
values of its calls of `rand`, and the two readings for each size. -/
structure Env where
  malloc : ℕ → Bool
  rand : ℕ → ℕ
  start : ℕ → Timespec ℚ
  stop : ℕ → Timespec ℚ

/-- A row of the printed table. -/
structure Row where
  size : ℕ
  log2 : ℕ
  averageTime : ℚ
  averageCycles : ℕ
  deriving DecidableEq

section Program

variable (env : Env)

/-- `sizes[memory_size_iterator]`, in bytes. -/
def sizes (k : ℕ) : ℕ := 2 ^ (startArraySizePower + k)

/-- The `int`s at `memory_pointer`, every byte of them set. -/
def memory (size : ℕ) : List (BitVec 32) := List.replicate (size / 4) (-1)

/-- One access of the timed loop. -/
def touch (size r : ℕ) : Except Stop (BitVec 32) :=
  let strideLen := r % (size / 4)
  match (memory size)[strideLen]? with
  | none => .error (.outOfBounds strideLen)
  | some v => .ok v

/-- The timed loop. -/
@[irreducible] def touchAll (k : ℕ) : Except Stop (List (BitVec 32)) :=
  (List.range testCount).mapM fun testIteration =>
    touch (sizes k) (env.rand (testCount * k + testIteration))

/-- The expression that `total_time` is initialised with, before its conversion. -/
def correctedTime (start stop : Timespec ℚ) : ℚ :=
  -- the last term multiplies two overheads with each other
  timespecDiffToNsecs start stop - getTimeOverhead - forLoopOverhead * testCount -
    forLoopOverhead * randOverhead

/-- The row of `total_time` and `total_cycles`. -/
def row (size totalTime totalCycles : ℕ) : Row where
  size := size
  log2 := Nat.log 2 size
  averageTime := (totalTime / testCount : ℕ)
  averageCycles := totalCycles / testCount

/-- The body of the loop over the sizes. -/
def measureSize (k : ℕ) : Except Stop Row :=
  if !env.malloc k then
    .error (.exit ("FAILURE Couldn't allocate memory of " ++ toString (sizes k) ++ " bytes\n"))
  else do
    let _ ← touchAll env k
    let time := correctedTime (env.start k) (env.stop k)
    let totalTime ← convert time (toUnsigned 64 time)
    let totalCycles ← convert (totalTime / nsecPerCycle) (nsecsToCycles totalTime)
    return row (sizes k) totalTime totalCycles

/-- The rows printed for the sizes `ks`, and why there are no more of them. -/
def printRows : List ℕ → List Row × Option Stop
  | [] => ([], none)
  | k :: ks =>
    match measureSize env k with
    | .error stop => ([], some stop)
    | .ok r => (r :: (printRows ks).1, (printRows ks).2)

def test4BytesTo500MBytes : List Row × Option Stop := printRows env (List.range sizeLen)

end Program

/-! ## The accesses -/

theorem sizes_div_four (k : ℕ) : sizes k / 4 = 2 ^ k := by
  have hsize : sizes k = 4 * 2 ^ k := by
    rw [sizes, startArraySizePower, Nat.pow_add]
  rw [hsize, Nat.mul_div_cancel_left _ (by decide)]

/-- Every access lies inside the memory. -/
theorem touch_eq_ok (k r : ℕ) : touch (sizes k) r = .ok (-1) := by
  have hlt : r % (sizes k / 4) < (memory (sizes k)).length := by
    rw [memory, List.length_replicate]
    apply Nat.mod_lt
    rw [sizes_div_four]
    exact Nat.two_pow_pos k
  simp only [touch, List.getElem?_eq_getElem hlt]
  simp only [memory, List.getElem_replicate]

theorem exists_touchAll (env : Env) (k : ℕ) : ∃ touched, touchAll env k = .ok touched := by
  unfold touchAll
  exact ⟨_, mapM_eq_ok fun j _ => touch_eq_ok k _⟩

variable {env : Env} {k : ℕ} {r : Row} {costs : List ℝ}

theorem measureSize_eq_ok :
    measureSize env k = .ok r ↔ env.malloc k = true ∧ ∃ totalTime totalCycles,
      toUnsigned 64 (correctedTime (env.start k) (env.stop k)) = some totalTime ∧
        nsecsToCycles totalTime = some totalCycles ∧ r = row (sizes k) totalTime totalCycles := by
  rw [measureSize]
  split_ifs with hmalloc
  · simp_all
  · obtain ⟨touched, htouched⟩ := exists_touchAll env k
    simp only [htouched, except_bind_eq_ok, convert_eq_ok]
    constructor
    · rintro ⟨-, -, totalTime, htime, totalCycles, hcycles, hr⟩
      cases hr
      exact ⟨by simpa using hmalloc, totalTime, totalCycles, htime, hcycles, rfl⟩
    · rintro ⟨-, totalTime, totalCycles, htime, hcycles, rfl⟩
      exact ⟨touched, rfl, totalTime, htime, totalCycles, hcycles, rfl⟩

theorem exists_of_mem_printRows {ks : List ℕ} (hr : r ∈ (printRows env ks).1) :
    ∃ k ∈ ks, measureSize env k = .ok r := by
  induction ks with
  | nil => cases hr
  | cons k ks ih =>
    rw [printRows] at hr
    cases hk : measureSize env k with
    | error stop =>
      rw [hk] at hr
      cases hr
    | ok r' =>
      rw [hk] at hr
      rcases List.mem_cons.mp hr with rfl | hr
      · exact ⟨k, List.mem_cons_self, hk⟩
      · obtain ⟨k', hk', hr⟩ := ih hr
        exact ⟨k', List.mem_cons_of_mem k hk', hr⟩

theorem sizes_injective : Function.Injective sizes := by
  intro k k' h
  exact Nat.add_left_cancel (Nat.pow_right_injective le_rfl h)

/-- A printed row belongs to the size it shows. -/
theorem measureSize_of_mem (hr : r ∈ (test4BytesTo500MBytes env).1) (hsize : r.size = sizes k) :
    measureSize env k = .ok r := by
  obtain ⟨k', -, hk'⟩ := exists_of_mem_printRows hr
  obtain ⟨-, totalTime, totalCycles, -, -, hrow⟩ := measureSize_eq_ok.mp hk'
  rw [hrow] at hsize
  rwa [sizes_injective hsize] at hk'

/-- The first row is printed as soon as its measurement succeeds. -/
theorem mem_of_measureSize_zero (h : measureSize env 0 = .ok r) :
    r ∈ (test4BytesTo500MBytes env).1 := by
  have hrange : List.range sizeLen = 0 :: (List.range 27).map Nat.succ := List.range_succ_eq_map
  rw [test4BytesTo500MBytes, hrange, printRows, h]
  exact List.mem_cons_self

/-! ## The average -/

/-- What a timed loop takes whose accesses cost `costs` each: a reading of the
clock, and in every turn the overheads of the loop and of `rand`. -/
noncomputable def loopTime (costs : List ℝ) : ℝ :=
  getTimeOverhead + (costs.map fun a => forLoopOverhead + randOverhead + a).sum

/-- The average printed for size `k` is within a nanosecond of the mean cost. -/
def AverageRight (env : Env) (k : ℕ) (costs : List ℝ) : Prop :=
  ∃ r ∈ (test4BytesTo500MBytes env).1, r.size = sizes k ∧ |(r.averageTime : ℝ) - mean costs| < 1

/-- Instead of the overhead of `rand` in all turns 431.42 ns come off, so that
nearly 74 ns of each access are left. -/
theorem correctedTime_of_costs (hlength : costs.length = testCount)
    (htime : ((timespecDiffToNsecs (env.start k) (env.stop k) : ℚ) : ℝ) = loopTime costs) :
    ((correctedTime (env.start k) (env.stop k) : ℚ) : ℝ) =
      (mean costs + 739956858 / 10000000) * testCount := by
  have hcount : (testCount : ℝ) ≠ 0 := by norm_num [testCount]
  have hsum : costs.sum = testCount * mean costs := by
    rw [mean, hlength, mul_div_cancel₀ _ hcount]
  rw [correctedTime]
  push_cast
  rw [htime, loopTime, sum_map_const_add, hlength, hsum]
  norm_num [getTimeOverhead, forLoopOverhead, randOverhead, testCount]
  ring

theorem averageTime_sub_mean (hlength : costs.length = testCount) (hnonneg : ∀ a ∈ costs, 0 ≤ a)
    (htime : ((timespecDiffToNsecs (env.start k) (env.stop k) : ℚ) : ℝ) = loopTime costs)
    (h : measureSize env k = .ok r) :
    72 < (r.averageTime : ℝ) - mean costs ∧ (r.averageTime : ℝ) - mean costs < 74 := by
  obtain ⟨-, totalTime, totalCycles, htotal, -, rfl⟩ := measureSize_eq_ok.mp h
  obtain ⟨-, rfl⟩ := toUnsigned_eq_some.mp htotal
  have hcount : (testCount : ℝ) ≠ 0 := by norm_num [testCount]
  have hmean : 0 ≤ mean costs := div_nonneg (List.sum_nonneg hnonneg) (Nat.cast_nonneg _)
  have hquotient : ((correctedTime (env.start k) (env.stop k) / testCount : ℚ) : ℝ) =
      mean costs + 739956858 / 10000000 := by
    push_cast
    rw [correctedTime_of_costs hlength htime, mul_div_cancel_right₀ _ hcount]
  have haverage : (row (sizes k) ⌊correctedTime (env.start k) (env.stop k)⌋₊
      totalCycles).averageTime = ⌊correctedTime (env.start k) (env.stop k) / testCount⌋₊ := by
    rw [row, Nat.floor_div_natCast]
  rw [haverage]
  generalize correctedTime (env.start k) (env.stop k) / testCount = q at hquotient
  have hpos : 0 ≤ q := by
    rw [← Rat.cast_nonneg (K := ℝ), hquotient]
    positivity
  have hle : ((⌊q⌋₊ : ℚ) : ℝ) ≤ q := Rat.cast_le.mpr (Nat.floor_le hpos)
  have hlt : (q : ℝ) < ((⌊q⌋₊ : ℚ) : ℝ) + 1 := by exact_mod_cast Nat.lt_floor_add_one q
  rw [hquotient] at hle hlt
  constructor <;> linarith

/-- When each access costs what the model says, every average that is printed is
more than 72 and less than 74 nanoseconds too long, so that none is right. -/
theorem average_time_never_right (env : Env) (k : ℕ) (costs : List ℝ)
    (hlength : costs.length = testCount) (hnonneg : ∀ a ∈ costs, 0 ≤ a)
    (htime : ((timespecDiffToNsecs (env.start k) (env.stop k) : ℚ) : ℝ) = loopTime costs) :
    (∀ r ∈ (test4BytesTo500MBytes env).1, r.size = sizes k →
      72 < (r.averageTime : ℝ) - mean costs ∧ (r.averageTime : ℝ) - mean costs < 74) ∧
      ¬ AverageRight env k costs := by
  have hoffset : ∀ r ∈ (test4BytesTo500MBytes env).1, r.size = sizes k →
      72 < (r.averageTime : ℝ) - mean costs ∧ (r.averageTime : ℝ) - mean costs < 74 := by
    intro r hr hsize
    exact averageTime_sub_mean hlength hnonneg htime (measureSize_of_mem hr hsize)
  refine ⟨hoffset, ?_⟩
  rintro ⟨r, hr, hsize, hnear⟩
  have hlow := (hoffset r hr hsize).1
  have hhigh := (abs_lt.mp hnear).2
  linarith

/-- A machine on which every timed loop takes 8083 microseconds and a reading of
the clock. -/
def steadyEnv : Env where
  malloc _ := true
  rand _ := 0
  start _ := ⟨0, 0⟩
  stop _ := ⟨0, 8083469⟩

/-- Its costs, a nanosecond for every access. -/
noncomputable def steadyCosts : List ℝ := List.replicate testCount 1

theorem steadyCosts_nonneg : ∀ a ∈ steadyCosts, 0 ≤ a := by
  intro a ha
  rw [List.eq_of_mem_replicate ha]
  norm_num

theorem mean_steadyCosts : mean steadyCosts = 1 := by
  rw [mean, steadyCosts, List.sum_replicate, List.length_replicate, nsmul_eq_mul]
  norm_num [testCount]

theorem loopTime_steadyCosts :
    ((timespecDiffToNsecs (steadyEnv.start 0) (steadyEnv.stop 0) : ℚ) : ℝ) =
      loopTime steadyCosts := by
  rw [loopTime, steadyCosts, List.map_replicate, List.sum_replicate, nsmul_eq_mul]
  norm_num [timespecDiffToNsecs, steadyEnv, billion, getTimeOverhead, forLoopOverhead,
    randOverhead, testCount]

theorem measureSize_steadyEnv :
    measureSize steadyEnv 0 = .ok (row (sizes 0) 7499568 9003083) := by
  rw [measureSize_eq_ok]
  refine ⟨rfl, 7499568, 9003083, ?_, ?_, rfl⟩
  · have htime : correctedTime (steadyEnv.start 0) (steadyEnv.stop 0) = 374978429 / 50 := by
      norm_num [correctedTime, steadyEnv, timespecDiffToNsecs, billion, getTimeOverhead,
        forLoopOverhead, randOverhead, testCount]
    rw [htime, toUnsigned_eq_some, Representable]
    refine ⟨by norm_num, ?_⟩
    symm
    rw [Nat.floor_eq_iff] <;> norm_num
  · have hcycles : ⌈((7499568 : ℕ) : ℚ) / nsecPerCycle⌉ = 9003083 := by
      rw [Int.ceil_eq_iff, nsecPerCycle]
      norm_num
    rw [nsecsToCycles, hcycles, toUnsigned_intCast]
    norm_num

theorem average_time_never_right_steady :
    (∃ r ∈ (test4BytesTo500MBytes steadyEnv).1, 72 < (r.averageTime : ℝ) - 1) ∧
      ¬ AverageRight steadyEnv 0 steadyCosts := by
  have h := average_time_never_right steadyEnv 0 steadyCosts List.length_replicate
    steadyCosts_nonneg loopTime_steadyCosts
  have hmem := mem_of_measureSize_zero measureSize_steadyEnv
  rw [← mean_steadyCosts]
  exact ⟨⟨_, hmem, (h.1 _ hmem rfl).1⟩, h.2⟩

/-- The first row of the steady machine shows 74 ns where an access costs one. -/
theorem not_average_time_right :
    ¬ ∀ (env : Env) (k : ℕ) (costs : List ℝ), costs.length = testCount → (∀ a ∈ costs, 0 ≤ a) →
      ((timespecDiffToNsecs (env.start k) (env.stop k) : ℚ) : ℝ) = loopTime costs →
      ∀ r ∈ (test4BytesTo500MBytes env).1, r.size = sizes k →
        |(r.averageTime : ℝ) - mean costs| < 1 := by
  intro hall
  have hnear := hall steadyEnv 0 steadyCosts List.length_replicate steadyCosts_nonneg
    loopTime_steadyCosts _ (mem_of_measureSize_zero measureSize_steadyEnv) rfl
  have haverage : (row (sizes 0) 7499568 9003083).averageTime = 74 := by
    norm_num [row, testCount]
  rw [haverage, mean_steadyCosts] at hnear
  norm_num at hnear

end Rpi3Bench.RamAccessTime
