import Rpi3Bench.Common
import Rpi3Bench.Library.Dispersion

/-!
# The cost of a system call

`system_call_overhead` takes the overheads of the measurement off the time of a
loop: the reading of the clock once, that of the loop once for each turn.
-/

namespace Rpi3Bench.SystemCallOverhead

open Dispersion

/-- `AVG_TEST_COUNT`. -/
def avgTestCount : ℕ := 1000000

/-- `SUBSEQUENT_CALLS_TEST_COUNT`. -/
def subsequentCallsTestCount : ℕ := 10

/-- A line that the program prints, with the number in it. -/
inductive Line (K : Type*)
  | callCount (call : String) (count : ℕ) (latency : K)
  | average (call : String) (latency : K)
  deriving DecidableEq

section Program

variable {K : Type*} [Field K]

/-- `BILLION * (stop.tv_sec - start.tv_sec) + stop.tv_nsec - start.tv_nsec`. -/
def inlineDiff (start stop : Timespec K) : K :=
  billion * (stop.tvSec - start.tvSec) + stop.tvNsec - start.tvNsec

/-- The common body of the two comparisons of the first call with later ones;
`clock k` is reading `k` of those it takes. -/
def compareFirstToSubsequent (call : String) (clock : ℕ → Timespec K) : List (Line K) :=
  (List.range subsequentCallsTestCount).map fun iterationCount =>
    .callCount call iterationCount
      (inlineDiff (clock (2 * iterationCount)) (clock (2 * iterationCount + 1)) - getTimeOverhead)

def compareFirstToSubsequentSyscalls (clock : ℕ → Timespec K) : List (Line K) :=
  compareFirstToSubsequent "syscall(SYS_gettid)" clock

def compareFirstToSubsequentWrapperCall (clock : ℕ → Timespec K) : List (Line K) :=
  compareFirstToSubsequent "system call wrapper getpid()" clock

/-- The common body of the two averages. -/
def averageTime (start stop : Timespec K) : K :=
  (inlineDiff start stop - getTimeOverhead - forLoopOverhead * avgTestCount) / avgTestCount

def printAvgSyscall (start stop : Timespec K) : Line K :=
  .average "syscall(SYS_gettid) syscall" (averageTime start stop)

def printAverageSyscall (start stop : Timespec K) : Line K :=
  .average "getpid syscall wrapper" (averageTime start stop)

def systemCallTest (clock : ℕ → Timespec K) : List (Line K) :=
  compareFirstToSubsequentSyscalls clock ++ [printAvgSyscall (clock 20) (clock 21)]

def systemCallWrapperTest (clock : ℕ → Timespec K) : List (Line K) :=
  compareFirstToSubsequentWrapperCall clock ++ [printAverageSyscall (clock 20) (clock 21)]

/-- `main`: its lines after those of `init_test`, and what it returns. -/
def main (cpu : CpuFreq) (clock : ℕ → Timespec K) : List (Line K) × ℤ :=
  if (initTest cpu).2 ≠ 0 then ([], -1)
  else (systemCallTest clock ++ systemCallWrapperTest fun k => clock (22 + k), 0)

end Program

section CostModel

variable {K : Type*} [Field K]

/-- What a timed loop takes whose turns cost `costs` each: a reading of the
clock, and the overhead of the loop in every turn. -/
def loopTime (costs : List K) : K :=
  getTimeOverhead + (costs.map fun c => forLoopOverhead + c).sum

theorem loopTime_eq (costs : List K) :
    loopTime costs = getTimeOverhead + costs.length * forLoopOverhead + costs.sum := by
  rw [loopTime, sum_map_const_add, add_assoc]

/-- The average of the system calls is the mean of their costs. -/
theorem averageTime_eq_mean {start stop : Timespec K} {costs : List K}
    (hlength : costs.length = avgTestCount) (htime : inlineDiff start stop = loopTime costs) :
    averageTime start stop = mean costs := by
  rw [averageTime, htime, loopTime_eq, mean, hlength]
  congr 1
  ring

/-- In a whole run, readings 20 and 21 are around the first loop, 42 and 43
around the second. -/
theorem average_of_main {cpu : CpuFreq} {clock : ℕ → Timespec K} {costs costs' : List K}
    {call : String} {latency : K} (hlength : costs.length = avgTestCount)
    (hlength' : costs'.length = avgTestCount)
    (htime : inlineDiff (clock 20) (clock 21) = loopTime costs)
    (htime' : inlineDiff (clock 42) (clock 43) = loopTime costs')
    (h : .average call latency ∈ (main cpu clock).1) :
    latency = mean costs ∨ latency = mean costs' := by
  rw [← averageTime_eq_mean hlength htime, ← averageTime_eq_mean hlength' htime']
  rw [main] at h
  split_ifs at h with hinit
  · exact absurd h List.not_mem_nil
  · simp only [systemCallTest, systemCallWrapperTest, compareFirstToSubsequentSyscalls,
      compareFirstToSubsequentWrapperCall, compareFirstToSubsequent, printAvgSyscall,
      printAverageSyscall, List.mem_append, List.mem_map, List.mem_singleton, reduceCtorEq,
      and_false, exists_false, false_or, Line.average.injEq] at h
    rcases h with ⟨-, rfl⟩ | ⟨-, rfl⟩
    · exact Or.inl rfl
    · exact Or.inr rfl

end CostModel

end Rpi3Bench.SystemCallOverhead
