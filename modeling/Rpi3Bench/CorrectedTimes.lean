import Rpi3Bench.ClockReading

/-!
# Times corrected for overheads

The benchmarks subtract what a measurement costs from the time between two
readings, convert the result to an unsigned variable, and some of them add such
variables up.  When the sum that comes out is the sum of the truncated times.
-/

namespace Rpi3Bench

/-- The readings of a clock that a run takes, a start and a stop around each of
the intervals it measures. -/
structure Clock where
  start : ℕ → Reading
  stop : ℕ → Reading
  ordered : ∀ k, (start k).nsecs ≤ (stop k).nsecs

/-- A clock that does not go back from one interval to the next either. -/
structure MonotonicClock extends Clock where
  steady : ∀ k, (stop k).nsecs ≤ (start (k + 1)).nsecs

namespace Clock

variable (clock : Clock)

/-- The nanoseconds of interval `k`. -/
def interval (k : ℕ) : ℤ := (clock.stop k).nsecs - (clock.start k).nsecs

theorem interval_nonneg (k : ℕ) : 0 ≤ clock.interval k := sub_nonneg.mpr (clock.ordered k)

theorem interval_lt (k : ℕ) : clock.interval k < 2 ^ 31 * 1000000000 := by
  have hstart := (clock.start k).nsecs_nonneg
  have hstop := (clock.stop k).nsecs_lt
  rw [interval]
  omega

/-- The time between the two readings as the benchmarks write it. -/
theorem inlineDiff_eq (k : ℕ) :
    Words.inlineDiff (clock.start k).toTimespec (clock.stop k).toTimespec = clock.interval k :=
  Words.inlineDiff_eq (clock.start k) (clock.stop k)

end Clock

/-- Readings `tick` nanoseconds apart, until the clock stands still at `last`. -/
def MonotonicClock.ticking (tick last : ℕ) (hlast : last < 2 ^ 31 * 1000000000) :
    MonotonicClock where
  start k := Reading.atNsec (min (2 * k * tick) last) (by omega)
  stop k := Reading.atNsec (min ((2 * k + 1) * tick) last) (by omega)
  ordered k := by
    rw [Reading.nsecs_atNsec, Reading.nsecs_atNsec, Nat.cast_le]
    exact min_le_min_right last (Nat.mul_le_mul_right tick (by omega))
  steady k := by
    rw [Reading.nsecs_atNsec, Reading.nsecs_atNsec, Nat.cast_le]
    exact min_le_min_right last (Nat.mul_le_mul_right tick (by omega))

theorem MonotonicClock.interval_ticking {tick last : ℕ} (hlast : last < 2 ^ 31 * 1000000000)
    {k : ℕ} (hk : (2 * k + 1) * tick ≤ last) : (ticking tick last hlast).interval k = tick := by
  have hstop : (2 * k + 1) * tick = 2 * k * tick + tick := Nat.succ_mul (2 * k) tick
  simp only [Clock.interval, ticking, Reading.nsecs_atNsec]
  omega

/-- Every second interval, from `first` on. -/
def MonotonicClock.everySecond (clock : MonotonicClock) (first : ℕ) : MonotonicClock where
  start k := clock.start (2 * k + first)
  stop k := clock.stop (2 * k + first)
  ordered k := clock.ordered (2 * k + first)
  steady k := by
    have hindex : 2 * (k + 1) + first = 2 * k + first + 1 + 1 := by ring
    rw [hindex]
    exact (clock.steady _).trans ((clock.ordered _).trans (clock.steady _))

/-- Intervals that follow one another fit between the first reading and the last. -/
theorem MonotonicClock.sum_interval_le (clock : MonotonicClock) (first n : ℕ) :
    ((List.range n).map fun i => clock.interval (first + i)).sum ≤
      (clock.start (first + n)).nsecs - (clock.start first).nsecs := by
  induction n with
  | zero => simp
  | succ n ih =>
    -- interval `first + n` ends before the next one starts
    have hsteady := clock.steady (first + n)
    rw [List.range_succ, List.map_append, List.sum_append, List.map_singleton,
      List.sum_singleton, Clock.interval, ← Nat.add_assoc]
    omega

theorem MonotonicClock.sum_interval_lt (clock : MonotonicClock) (first n : ℕ) :
    ((List.range n).map fun i => clock.interval (first + i)).sum < 2 ^ 31 * 1000000000 := by
  have hle := clock.sum_interval_le first n
  have hstart := (clock.start first).nsecs_nonneg
  have hstop := (clock.start (first + n)).nsecs_lt
  omega

/-! ## Conversion and addition -/

/-- The conversion to an unsigned variable of `w` bits is defined. -/
def Representable (w : ℕ) (x : ℚ) : Prop := -1 < x ∧ x < 2 ^ w

theorem toUnsigned_eq_some {w : ℕ} {x : ℚ} {t : ℕ} :
    toUnsigned w x = some t ↔ Representable w x ∧ t = ⌊x⌋₊ := by
  rw [toUnsigned, Representable]
  split_ifs with h
  · simp [h, eq_comm]
  · simp [h]

/-- What comes off a whole number of nanoseconds leaves more than -1 exactly when
its whole part was there. -/
theorem neg_one_lt_sub_iff (z : ℤ) (c : ℚ) : -1 < (z : ℚ) - c ↔ ⌊c⌋ ≤ z := by
  calc -1 < (z : ℚ) - c ↔ c < ((z + 1 : ℤ) : ℚ) := by
        push_cast
        constructor <;> intro h <;> linarith
    _ ↔ ⌊c⌋ < z + 1 := Int.floor_lt.symm
    _ ↔ ⌊c⌋ ≤ z := Int.lt_add_one_iff

/-- `total += time` for one converted time after the other, in a variable of
64 bits; none when a conversion is undefined. -/
def addTimes : List ℚ → ℕ → Option ℕ
  | [], total => some total
  | x :: rest, total =>
    match toUnsigned 64 x with
    | none => none
    | some time => addTimes rest ((total + time) % 2 ^ 64)

/-- The sum of the times without their fractions. -/
def truncatedSum (xs : List ℚ) : ℕ := (xs.map fun x => ⌊x⌋₊).sum

theorem addTimes_eq_some {xs : List ℚ} {total t : ℕ} (htotal : total < 2 ^ 64) :
    addTimes xs total = some t ↔
      (∀ x ∈ xs, Representable 64 x) ∧ t = (total + truncatedSum xs) % 2 ^ 64 := by
  induction xs generalizing total with
  | nil =>
    have hsum : truncatedSum [] = 0 := rfl
    rw [addTimes, hsum, Nat.add_zero, Nat.mod_eq_of_lt htotal]
    simp [eq_comm]
  | cons x rest ih =>
    have hsum : truncatedSum (x :: rest) = ⌊x⌋₊ + truncatedSum rest := by
      rw [truncatedSum, truncatedSum, List.map_cons, List.sum_cons]
    rw [addTimes, List.forall_mem_cons, hsum, ← Nat.add_assoc]
    cases hx : toUnsigned 64 x with
    | none =>
      have hnot : ¬ Representable 64 x := by
        intro hrep
        rw [toUnsigned_eq_some.mpr ⟨hrep, rfl⟩] at hx
        cases hx
      simp [hnot]
    | some time =>
      obtain ⟨hrep, rfl⟩ := toUnsigned_eq_some.mp hx
      dsimp only
      rw [ih (Nat.mod_lt _ (by positivity)), Nat.mod_add_mod]
      simp only [hrep, true_and]

theorem exists_addTimes {xs : List ℚ} (h : ∀ x ∈ xs, Representable 64 x) :
    ∃ t, addTimes xs 0 = some t :=
  ⟨_, (addTimes_eq_some (by positivity)).mpr ⟨h, rfl⟩⟩

/-- The total is right: every time is representable, and it is their sum. -/
def TotalExact (xs : List ℚ) (total : Option ℕ) : Prop :=
  (∀ x ∈ xs, Representable 64 x) ∧ total = some (truncatedSum xs)

theorem le_truncatedSum {xs : List ℚ} {x : ℚ} (hx : x ∈ xs) : ⌊x⌋₊ ≤ truncatedSum xs :=
  List.le_sum_of_mem (List.mem_map_of_mem hx)

/-- It is right exactly when no time is below zero by a nanosecond or more and
the sum fits. -/
theorem totalExact_addTimes_iff {xs : List ℚ} :
    TotalExact xs (addTimes xs 0) ↔ (∀ x ∈ xs, -1 < x) ∧ truncatedSum xs < 2 ^ 64 := by
  rw [TotalExact, addTimes_eq_some (by positivity), Nat.zero_add]
  constructor
  · rintro ⟨hrep, -, hmod⟩
    refine ⟨fun x hx => (hrep x hx).1, ?_⟩
    rw [hmod]
    exact Nat.mod_lt _ (by positivity)
  · rintro ⟨hpos, hlt⟩
    have hrep : ∀ x ∈ xs, Representable 64 x := by
      intro x hx
      refine ⟨hpos x hx, ?_⟩
      have hfloor : ⌊x⌋₊ < 2 ^ 64 := (le_truncatedSum hx).trans_lt hlt
      exact_mod_cast (Nat.floor_lt' (by positivity)).mp hfloor
    exact ⟨hrep, hrep, (Nat.mod_eq_of_lt hlt).symm⟩

/-- Times that are at most the intervals of a clock that never goes back. -/
theorem MonotonicClock.truncatedSum_lt (clock : MonotonicClock) (first n : ℕ)
    {f : ℕ → ℚ} (hf : ∀ k, f k ≤ clock.interval k) :
    truncatedSum ((List.range n).map fun i => f (first + i)) < 2 ^ 64 := by
  have hle : ((truncatedSum ((List.range n).map fun i => f (first + i)) : ℕ) : ℤ) ≤
      ((List.range n).map fun i => clock.interval (first + i)).sum := by
    rw [truncatedSum, List.map_map, Nat.cast_list_sum, List.map_map]
    apply List.sum_le_sum
    intro i _
    have hfloor : ⌊f (first + i)⌋₊ ≤ (clock.interval (first + i)).toNat := by
      have hcast : f (first + i) ≤ ((clock.interval (first + i)).toNat : ℚ) := by
        have hnonneg := Int.toNat_of_nonneg (clock.interval_nonneg (first + i))
        have heq : (((clock.interval (first + i)).toNat : ℤ) : ℚ) = clock.interval (first + i) := by
          rw [hnonneg]
        rw [← Int.cast_natCast, heq]
        exact hf _
      exact Nat.floor_le_of_le hcast
    have hnonneg := clock.interval_nonneg (first + i)
    simp only [Function.comp_apply]
    omega
  have hlt := clock.sum_interval_lt first n
  omega

end Rpi3Bench
