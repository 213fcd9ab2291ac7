import Mathlib.Algebra.Order.Floor.Semifield
import Rpi3Bench.CorrectedTimes
import Rpi3Bench.FutexOverhead.Model
import Rpi3Bench.SystemCallOverhead

/-!
# What the constants are worth on another machine

`FOR_LOOP_OVERHEAD` is what `for_loop` printed once.  On a machine where it
prints something else, or where the clock costs something else, the programs
that take the constants off a loop are wrong by an amount that the two
differences determine.
-/

namespace Rpi3Bench

open Dispersion SystemCallOverhead

/-! ## The programs -/

/-- `TEST_COUNT` of `for_loop`. -/
def ForLoop.testCount : ℕ := 1000000

/-- `for_loop`: the latency in the line it prints, if any, and what it returns. -/
def ForLoop.main {K : Type*} [Field K] (cpu : CpuFreq) (start stop : Timespec K) : Option K × ℤ :=
  if (initTest cpu).2 ≠ 0 then (none, -1)
  else
    let totalTime := timespecDiffToNsecs start stop
    let totalTime := totalTime - getTimeOverhead
    (some (totalTime / testCount), 0)

namespace Rand

/-- `TEST_COUNT` of `rand`. -/
def testCount : ℕ := 100000

/-- The expression that `total_time` is initialised with, before its conversion. -/
def correctedTime (start stop : Timespec ℚ) : ℚ :=
  inlineDiff start stop - getTimeOverhead - forLoopOverhead * testCount

/-- `rand`: the average it prints, a quotient of unsigned integers. -/
def main (cpu : CpuFreq) (start stop : Timespec ℚ) : Except Stop ℕ :=
  if (initTest cpu).2 ≠ 0 then .error (.exit "FAILURE init_test")
  else match toUnsigned 64 (correctedTime start stop) with
    | none => .error (.undefined (correctedTime start stop))
    | some totalTime => .ok (totalTime / testCount)

end Rand

namespace FutexOverhead

/-- `TEST_COUNT_PER_PROCESS`. -/
def testCountPerProcess : ℕ := 100000

/-- The numbers in the line of `futex_wait` and in that of `futex_wake`. -/
structure Report where
  totalTime : ℕ
  perCall : ℚ
  deriving DecidableEq

/-- The expression that `total_time` is initialised with, before its conversion. -/
def correctedTime (start stop : Timespec ℚ) : ℚ :=
  inlineDiff start stop - getTimeOverhead - testCountPerProcess * forLoopOverhead

/-- What both programs make of the readings around their loop, if it is defined.
The quotient is exact here; the source computes it in `float`. -/
def report (start stop : Timespec ℚ) : Option Report :=
  (toUnsigned 64 (correctedTime start stop)).map fun totalTime =>
    { totalTime := totalTime, perCall := totalTime / testCountPerProcess }

end FutexOverhead

namespace Calibration

/-! ## The machine -/

/-- What reading the clock and a turn of an empty loop cost on a machine. -/
structure Costs (K : Type*) where
  clock : K
  loop : K

section Machine

variable {K : Type*} [Field K]

/-- The time of a loop whose turns cost `calls` beside the loop itself. -/
def Costs.time (m : Costs K) (calls : List K) : K :=
  m.clock + (calls.map fun c => m.loop + c).sum

theorem Costs.time_eq (m : Costs K) (calls : List K) :
    m.time calls = m.clock + calls.length * m.loop + calls.sum := by
  rw [Costs.time, sum_map_const_add, add_assoc]

/-- What `for_loop` prints on the machine. -/
def Costs.latency (m : Costs K) : K := m.loop + (m.clock - getTimeOverhead) / ForLoop.testCount

variable {m : Costs K} {start stop : Timespec K} {calls : List K} {n : ℕ}

theorem testCount_ne_zero [CharZero K] : (ForLoop.testCount : K) ≠ 0 := by
  rw [ForLoop.testCount]
  norm_num

theorem forLoop_main_eq [CharZero K] {cpu : CpuFreq} (hinit : (initTest cpu).2 = 0)
    (hloop : timespecDiffToNsecs start stop = m.time (List.replicate ForLoop.testCount 0)) :
    ForLoop.main cpu start stop = (some m.latency, 0) := by
  have hne : (ForLoop.testCount : K) ≠ 0 := testCount_ne_zero
  rw [ForLoop.main, if_neg (not_not.mpr hinit)]
  simp only [hloop, Costs.time_eq, List.length_replicate, List.sum_replicate, smul_zero, add_zero,
    Costs.latency, Prod.mk.injEq, Option.some.injEq, and_true]
  field_simp
  ring

/-- What is left of the time of `n` turns when the constants have been taken off. -/
theorem corrected_eq [CharZero K] (hlength : calls.length = n) :
    m.time calls - getTimeOverhead - forLoopOverhead * n =
      calls.sum + n * (m.latency - forLoopOverhead) +
        (1 - n / (ForLoop.testCount : K)) * (m.clock - getTimeOverhead) := by
  have hne : (ForLoop.testCount : K) ≠ 0 := testCount_ne_zero
  rw [Costs.time_eq, hlength, Costs.latency]
  field_simp
  ring

/-- With as many turns as `for_loop` has, the cost of the clock cancels. -/
theorem averageTime_of_costs [CharZero K] (hlength : calls.length = avgTestCount)
    (htime : inlineDiff start stop = m.time calls) :
    averageTime start stop = mean calls + (m.latency - forLoopOverhead) := by
  have hne : (avgTestCount : K) ≠ 0 := testCount_ne_zero
  have hsame : (avgTestCount : K) / (ForLoop.testCount : K) = 1 := div_self hne
  rw [averageTime, htime, corrected_eq hlength, hsame, mean, hlength]
  field_simp
  ring

end Machine

/-! ## The errors -/

section Errors

variable {m : Costs ℚ} {start stop : Timespec ℚ} {calls : List ℚ}

/-- The total of the two loops of a hundred thousand turns, before its conversion. -/
def Costs.total (m : Costs ℚ) (calls : List ℚ) : ℚ :=
  calls.sum + 100000 * (m.latency - forLoopOverhead) + 9 / 10 * (m.clock - getTimeOverhead)

theorem total_eq (hlength : calls.length = 100000) :
    m.time calls - getTimeOverhead - forLoopOverhead * 100000 = m.total calls := by
  have h := corrected_eq (m := m) hlength
  rw [Costs.total]
  norm_num [ForLoop.testCount] at h ⊢
  exact h

theorem rand_main_eq_ok_iff {cpu : CpuFreq} (hinit : (initTest cpu).2 = 0)
    (hlength : calls.length = Rand.testCount) (htime : inlineDiff start stop = m.time calls)
    {average : ℕ} :
    Rand.main cpu start stop = .ok average ↔
      Representable 64 (m.total calls) ∧ average = ⌊m.total calls / 100000⌋₊ := by
  have hcorrected : Rand.correctedTime start stop = m.total calls := by
    rw [Rand.correctedTime, htime, ← total_eq hlength]
    norm_num [Rand.testCount]
  have hfloor : ⌊m.total calls / 100000⌋₊ = ⌊m.total calls⌋₊ / 100000 :=
    Nat.floor_div_ofNat _ 100000
  rw [Rand.main, if_neg (not_not.mpr hinit), hcorrected, hfloor]
  cases hconv : toUnsigned 64 (m.total calls) with
  | none =>
    have hnot : ¬Representable 64 (m.total calls) := by
      intro hrep
      rw [toUnsigned_eq_some.mpr ⟨hrep, rfl⟩] at hconv
      cases hconv
    simp [hnot]
  | some totalTime =>
    obtain ⟨hrep, rfl⟩ := toUnsigned_eq_some.mp hconv
    simp [hrep, Rand.testCount, eq_comm]

theorem futex_report_eq_some_iff (hlength : calls.length = FutexOverhead.testCountPerProcess)
    (htime : inlineDiff start stop = m.time calls) {r : FutexOverhead.Report} :
    FutexOverhead.report start stop = some r ↔
      Representable 64 (m.total calls) ∧ r.totalTime = ⌊m.total calls⌋₊ ∧
        r.perCall = ⌊m.total calls⌋₊ / 100000 := by
  have hcorrected : FutexOverhead.correctedTime start stop = m.total calls := by
    rw [FutexOverhead.correctedTime, htime, ← total_eq hlength]
    norm_num [FutexOverhead.testCountPerProcess]
    ring
  rw [FutexOverhead.report, hcorrected, Option.map_eq_some_iff]
  constructor
  · rintro ⟨totalTime, hconv, rfl⟩
    obtain ⟨hrep, rfl⟩ := toUnsigned_eq_some.mp hconv
    exact ⟨hrep, rfl, by norm_num [FutexOverhead.testCountPerProcess]⟩
  · rintro ⟨hrep, htotal, hcall⟩
    refine ⟨_, toUnsigned_eq_some.mpr ⟨hrep, rfl⟩, ?_⟩
    obtain ⟨totalTime, perCall⟩ := r
    simp only at htotal hcall
    rw [FutexOverhead.Report.mk.injEq, htotal, hcall]
    norm_num [FutexOverhead.testCountPerProcess]

/-- How the programs are off on a machine that prints another latency in
`for_loop`, or none at all when the clock is so much cheaper that nothing is
left.  The two averages of `system_call_overhead` do not depend on the clock. -/
theorem errors_of_constants (m : Costs ℚ) (cpu : CpuFreq) (hinit : (initTest cpu).2 = 0)
    (start stop : Timespec ℚ)
    (hloop : timespecDiffToNsecs start stop = m.time (List.replicate ForLoop.testCount 0)) :
    ∃ latency : ℚ, ForLoop.main cpu start stop = (some latency, 0) ∧
      (∀ (start stop : Timespec ℚ) (calls : List ℚ), calls.length = avgTestCount →
        inlineDiff start stop = m.time calls →
        printAvgSyscall start stop =
            .average "syscall(SYS_gettid) syscall" (mean calls + (latency - forLoopOverhead)) ∧
          printAverageSyscall start stop =
            .average "getpid syscall wrapper" (mean calls + (latency - forLoopOverhead))) ∧
      ∀ (start stop : Timespec ℚ) (calls : List ℚ), calls.length = 100000 →
        inlineDiff start stop = m.time calls → ∀ total : ℚ,
        total = calls.sum + 100000 * (latency - forLoopOverhead) +
          9 / 10 * (m.clock - getTimeOverhead) →
        (∀ average, Rand.main cpu start stop = .ok average ↔
          Representable 64 total ∧ average = ⌊total / 100000⌋₊) ∧
        ∀ r, FutexOverhead.report start stop = some r ↔
          Representable 64 total ∧ r.totalTime = ⌊total⌋₊ ∧ r.perCall = ⌊total⌋₊ / 100000 := by
  refine ⟨m.latency, forLoop_main_eq hinit hloop, ?_, ?_⟩
  · intro start stop calls hlength htime
    rw [printAvgSyscall, printAverageSyscall, averageTime_of_costs hlength htime]
    exact ⟨rfl, rfl⟩
  · rintro start stop calls hlength htime total rfl
    exact ⟨fun average => rand_main_eq_ok_iff hinit hlength htime,
      fun r => futex_report_eq_some_iff hlength htime⟩

/-- The machine that the constants were found on, with calls of 74 ns. -/
theorem errors_of_constants_calibrated :
    Rand.main ⟨true, some 1200000, true, 1200000⟩ ⟨0, 0⟩ ⟨0, 7983469⟩ = .ok 74 := by
  have hloop : timespecDiffToNsecs (⟨0, 0⟩ : Timespec ℚ) ⟨0, 5830469⟩ =
      Costs.time ⟨469, 583 / 100⟩ (List.replicate ForLoop.testCount 0) := by
    rw [Costs.time_eq, List.length_replicate, List.sum_replicate]
    norm_num [timespecDiffToNsecs, ForLoop.testCount]
  obtain ⟨latency, hlatency, -, hrest⟩ := errors_of_constants ⟨469, 583 / 100⟩
    ⟨true, some 1200000, true, 1200000⟩ (by rfl) ⟨0, 0⟩ ⟨0, 5830469⟩ hloop
  have hvalue : latency = 583 / 100 := by
    norm_num [ForLoop.main, initTest, timespecDiffToNsecs, getTimeOverhead, ForLoop.testCount]
      at hlatency
    exact hlatency.symm
  have hcalls : inlineDiff (⟨0, 0⟩ : Timespec ℚ) ⟨0, 7983469⟩ =
      Costs.time ⟨469, 583 / 100⟩ (List.replicate 100000 74) := by
    rw [Costs.time_eq, List.length_replicate, List.sum_replicate]
    norm_num [inlineDiff]
  apply ((hrest ⟨0, 0⟩ ⟨0, 7983469⟩ _ List.length_replicate hcalls 7400000 ?_).1 74).mpr
  · norm_num [Representable]
  · rw [hvalue, List.sum_replicate]
    norm_num [forLoopOverhead, getTimeOverhead]

end Errors

end Calibration

end Rpi3Bench
