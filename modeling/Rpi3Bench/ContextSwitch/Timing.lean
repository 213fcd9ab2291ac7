import Rpi3Bench.CorrectedTimes

/-!
# The times of the context switch benchmarks

What the two programs make of the readings before and after their loops.  They
do it in the same way.
-/

namespace Rpi3Bench.ContextSwitch

/-- `PER_PROCESS_TEST_COUNT` and `PER_THREAD_TEST_COUNT`. -/
def testCount : ℕ := 100000

/-- `FUTEX_WAKE_OVERHEAD`, in nanoseconds. -/
def futexWakeOverhead : ℚ := 19093 / 5

def getTotalContextSwitches : ℕ := 600000

/-- The expression that `total_time` is initialised with, before its conversion. -/
def correctedTime (start stop : Timespec (BitVec 32)) : ℚ :=
  Words.inlineDiff start stop - getTimeOverhead - forLoopOverhead * testCount -
    futexWakeOverhead * testCount - syscallOverhead * 2 * testCount

def totalTime (start stop : Timespec (BitVec 32)) : Option ℕ :=
  toUnsigned 64 (correctedTime start stop)

/-- The numbers in the printed lines. -/
structure Report where
  totalTime : ℕ
  contextSwitchCount : ℕ
  totalCycles : ℕ
  cyclesPerSwitch : ℕ
  deriving DecidableEq

def report (start stop : Timespec (BitVec 32)) : Option Report := do
  let time ← totalTime start stop
  let totalCycles ← nsecsToCycles time
  return { totalTime := time
           contextSwitchCount := getTotalContextSwitches
           totalCycles := totalCycles
           cyclesPerSwitch := totalCycles / getTotalContextSwitches }

/-- The variable holds the corrected time without its fraction. -/
def TimeExact (clock : Clock) : Prop :=
  let time := correctedTime (clock.start 0).toTimespec (clock.stop 0).toTimespec
  Representable 64 time ∧
    totalTime (clock.start 0).toTimespec (clock.stop 0).toTimespec = some ⌊time⌋₊

/-- It does when the loops took no less than what comes off, 438.9 ms. -/
theorem timeExact_iff {clock : Clock} : TimeExact clock ↔ 438943469 ≤ clock.interval 0 := by
  have htime : correctedTime (clock.start 0).toTimespec (clock.stop 0).toTimespec =
      clock.interval 0 - 438943469 := by
    rw [correctedTime, clock.inlineDiff_eq]
    norm_num [getTimeOverhead, forLoopOverhead, futexWakeOverhead, syscallOverhead, testCount]
    ring
  simp only [TimeExact, totalTime, toUnsigned_eq_some, and_true, and_self, Representable, htime]
  rw [neg_one_lt_sub_iff, Int.floor_ofNat]
  constructor
  · exact And.left
  · intro h
    have hlt : (clock.interval 0 : ℚ) < 2 ^ 31 * 1000000000 := by
      exact_mod_cast clock.interval_lt 0
    exact ⟨h, by linarith⟩

end Rpi3Bench.ContextSwitch
