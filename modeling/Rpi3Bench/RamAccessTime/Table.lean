import Rpi3Bench.Library.UntilError
import Rpi3Bench.RamAccessTime

/-!
# The table of `ram_access_time`

The rows are printed in the order of their sizes until the first that cannot be
computed.  On a clock that does not go back that is one without memory, or one
whose loop took less than what is taken off.
-/

namespace Rpi3Bench.RamAccessTime

open UntilError

/-- A run with the readings of a clock. -/
def Env.ofClock (malloc : ℕ → Bool) (rand : ℕ → ℕ) (clock : Clock) : Env where
  malloc := malloc
  rand := rand
  start k := (clock.start k).exact
  stop k := (clock.stop k).exact

theorem printRows_eq_collect (env : Env) (ks : List ℕ) :
    printRows env ks = collect (measureSize env) ks := by
  induction ks with
  | nil => rfl
  | cons k ks ih =>
    rw [printRows, collect, ih]
    cases measureSize env k with
    | error stop => rfl
    | ok r => rfl

/-! ## One row -/

/-- What is left of the time for size `k`, in whole nanoseconds. -/
def totalTime (clock : Clock) (k : ℕ) : ℕ := (clock.interval k - 583901).toNat

/-- The cycles in `t` nanoseconds, rounded up. -/
def cycles (t : ℕ) : ℕ := (1000 * t + 832) / 833

/-- The row for size `k`. -/
def rowAt (clock : Clock) (k : ℕ) : Row where
  size := 2 ^ (k + 2)
  log2 := k + 2
  averageTime := (totalTime clock k / 100000 : ℕ)
  averageCycles := cycles (totalTime clock k) / 100000

section OneRow

variable {malloc : ℕ → Bool} {rand : ℕ → ℕ} {clock : Clock} {k : ℕ}

theorem correctedTime_clock (clock : Clock) (k : ℕ) :
    correctedTime (clock.start k).exact (clock.stop k).exact =
      clock.interval k - 29195021 / 50 := by
  rw [correctedTime, ← Words.timespecDiffToNsecs_exact, Words.timespecDiffToNsecs_eq]
  norm_num [Clock.interval, getTimeOverhead, forLoopOverhead, randOverhead, testCount]
  ring

/-- The constant has a fraction, so a nanosecond too little is still zero. -/
theorem toUnsigned_interval (clock : Clock) (k : ℕ) :
    toUnsigned 64 (clock.interval k - 29195021 / 50) =
      if 583900 ≤ clock.interval k then some (totalTime clock k) else none := by
  have hlt := clock.interval_lt k
  have hfloor : ⌊(29195021 / 50 : ℚ)⌋ = 583900 := by
    rw [Int.floor_eq_iff]
    norm_num
  have hlow : -1 < (clock.interval k : ℚ) - 29195021 / 50 ↔ 583900 ≤ clock.interval k := by
    rw [neg_one_lt_sub_iff, hfloor]
  have hhigh : (clock.interval k : ℚ) - 29195021 / 50 < 2 ^ 64 := by
    have hcast : (clock.interval k : ℚ) < 2 ^ 31 * 1000000000 := by exact_mod_cast hlt
    linarith
  rw [toUnsigned]
  simp only [hlow, hhigh, and_true]
  split_ifs with h
  · have hround : ⌊(clock.interval k : ℚ) - 29195021 / 50⌋ = clock.interval k - 583901 := by
      rw [Int.floor_eq_iff]
      push_cast
      constructor <;> linarith
    rw [totalTime, ← hround, Int.floor_toNat]
  · rfl

theorem ceil_cycles (t : ℕ) : ⌈(t : ℚ) / nsecPerCycle⌉ = cycles t := by
  have hmul : 833 * cycles t ≤ 1000 * t + 832 := Nat.mul_div_le _ _
  have hlt : 1000 * t ≤ 833 * cycles t := by
    rw [cycles]
    omega
  have hmul' : (833 : ℚ) * cycles t ≤ 1000 * t + 832 := by exact_mod_cast hmul
  have hlt' : (1000 : ℚ) * t ≤ 833 * cycles t := by exact_mod_cast hlt
  rw [Int.ceil_eq_iff, nsecPerCycle]
  push_cast
  constructor
  · rw [lt_div_iff₀ (by norm_num)]
    linarith
  · rw [div_le_iff₀ (by norm_num)]
    linarith

theorem nsecsToCycles_eq {t : ℕ} (ht : cycles t < 2 ^ 64) : nsecsToCycles t = some (cycles t) := by
  rw [nsecsToCycles, ceil_cycles, toUnsigned_intCast]
  exact ⟨rfl, by exact_mod_cast ht⟩

theorem cycles_totalTime_lt (clock : Clock) (k : ℕ) : cycles (totalTime clock k) < 2 ^ 64 := by
  have hlt := clock.interval_lt k
  rw [cycles, totalTime]
  omega

theorem sizes_eq (k : ℕ) : sizes k = 2 ^ (k + 2) := by
  rw [sizes, startArraySizePower, Nat.add_comm]

theorem row_eq_rowAt (clock : Clock) (k : ℕ) :
    row (sizes k) (totalTime clock k) (cycles (totalTime clock k)) = rowAt clock k := by
  rw [row, rowAt, sizes_eq, Nat.log_pow (by decide), testCount]

/-- The message of `malloc` and the time that is no time. -/
def stopAt (malloc : ℕ → Bool) (clock : Clock) (k : ℕ) : Stop :=
  if malloc k then .undefined (clock.interval k - 29195021 / 50)
  else .exit ("FAILURE Couldn't allocate memory of " ++ toString (2 ^ (k + 2)) ++ " bytes\n")

theorem measureSize_ofClock (malloc : ℕ → Bool) (rand : ℕ → ℕ) (clock : Clock) (k : ℕ) :
    measureSize (Env.ofClock malloc rand clock) k =
      if malloc k = true ∧ 583900 ≤ clock.interval k then .ok (rowAt clock k)
      else .error (stopAt malloc clock k) := by
  have htime : correctedTime ((Env.ofClock malloc rand clock).start k)
      ((Env.ofClock malloc rand clock).stop k) = clock.interval k - 29195021 / 50 :=
    correctedTime_clock clock k
  cases hmalloc : malloc k with
  | false =>
    rw [if_neg (by simp), stopAt, hmalloc, measureSize, ← sizes_eq]
    simp [Env.ofClock, hmalloc]
  | true =>
    simp only [true_and]
    split_ifs with h
    · apply measureSize_eq_ok.mpr
      refine ⟨hmalloc, totalTime clock k, cycles (totalTime clock k), ?_,
        nsecsToCycles_eq (cycles_totalTime_lt clock k), (row_eq_rowAt clock k).symm⟩
      rw [htime, toUnsigned_interval, if_pos h]
    · obtain ⟨touched, htouched⟩ := exists_touchAll (Env.ofClock malloc rand clock) k
      have hconvert := toUnsigned_interval clock k
      rw [if_neg h] at hconvert
      rw [measureSize, htouched, stopAt, hmalloc, htime]
      have hthere : (Env.ofClock malloc rand clock).malloc k = true := hmalloc
      simp only [hthere, hconvert]
      rfl

/-- The two numbers of a row agree up to what the divisions cut off. -/
theorem averageCycles_rowAt (clock : Clock) (k : ℕ) :
    (rowAt clock k).averageTime / nsecPerCycle - 1 < (rowAt clock k).averageCycles ∧
      (rowAt clock k).averageCycles < ((rowAt clock k).averageTime + 1) / nsecPerCycle := by
  have hlow : 1000 * (totalTime clock k / 100000) <
      833 * (cycles (totalTime clock k) / 100000 + 1) := by
    rw [cycles]
    omega
  have hhigh : 833 * (cycles (totalTime clock k) / 100000) <
      1000 * (totalTime clock k / 100000 + 1) := by
    rw [cycles]
    omega
  have hlow' : (1000 : ℚ) * (totalTime clock k / 100000 : ℕ) <
      833 * ((cycles (totalTime clock k) / 100000 : ℕ) + 1) := by exact_mod_cast hlow
  have hhigh' : (833 : ℚ) * (cycles (totalTime clock k) / 100000 : ℕ) <
      1000 * ((totalTime clock k / 100000 : ℕ) + 1) := by exact_mod_cast hhigh
  simp only [rowAt, nsecPerCycle]
  constructor
  · rw [sub_lt_iff_lt_add, div_lt_iff₀ (by norm_num)]
    linarith
  · rw [lt_div_iff₀ (by norm_num)]
    linarith

end OneRow

/-! ## The whole table -/

/-- The table of a run has the rows of the sizes before the first that has no
memory or whose loop took less than 583900 ns, and all rows if there is none. -/
theorem table_up_to_first_failure (malloc : ℕ → Bool) (rand : ℕ → ℕ) (clock : Clock) :
    ∃ m ≤ sizeLen,
      (∀ k < m, malloc k = true ∧ 583900 ≤ clock.interval k) ∧
      (test4BytesTo500MBytes (.ofClock malloc rand clock)).1 = (List.range m).map (rowAt clock) ∧
      (∀ r ∈ (test4BytesTo500MBytes (.ofClock malloc rand clock)).1,
        r.averageTime / nsecPerCycle - 1 < r.averageCycles ∧
          r.averageCycles < (r.averageTime + 1) / nsecPerCycle) ∧
      (m = sizeLen ∧ (test4BytesTo500MBytes (.ofClock malloc rand clock)).2 = none ∨
        m < sizeLen ∧ ¬(malloc m = true ∧ 583900 ≤ clock.interval m) ∧
          (test4BytesTo500MBytes (.ofClock malloc rand clock)).2 =
            some (stopAt malloc clock m)) := by
  have hrun := measureSize_ofClock malloc rand clock
  have hrow : ∀ k r, measureSize (.ofClock malloc rand clock) k = .ok r → r = rowAt clock k := by
    intro k r hr
    rw [hrun] at hr
    split_ifs at hr with h
    cases hr
    rfl
  have hgood : ∀ k, measureSize (.ofClock malloc rand clock) k = .ok (rowAt clock k) →
      malloc k = true ∧ 583900 ≤ clock.interval k := by
    intro k hk
    rw [hrun] at hk
    split_ifs at hk with h
    exact h
  rw [test4BytesTo500MBytes, printRows_eq_collect]
  obtain ⟨m, hm, hok, hrows, hstop⟩ := collect_range_cases _ (rowAt clock) sizeLen hrow
  refine ⟨m, hm, fun k hk => hgood k (hok k hk), hrows, ?_, ?_⟩
  · intro r hr
    rw [hrows] at hr
    obtain ⟨k, -, rfl⟩ := List.mem_map.mp hr
    exact averageCycles_rowAt clock k
  · rcases hstop with h | ⟨hlt, stop, herror, hstop⟩
    · exact Or.inl h
    · rw [hrun] at herror
      split_ifs at herror with h
      cases herror
      exact Or.inr ⟨hlt, h, hstop⟩

end Rpi3Bench.RamAccessTime
