import Rpi3Bench.CorrectedTimes

/-!
# The readings of `clock_gettime`

`measure_clocks` takes the time between two successive readings of each clock,
many times over, in an `unsigned int` of 32 bits.
-/

namespace Rpi3Bench.ClockGettime

/-- `CLOCK_TEST_COUNT`. -/
def clockTestCount : ℕ := 10000

/-- The clocks, in the order of their loops. -/
def clockNames : List String :=
  ["CLOCK_REALTIME", "CLOCK_REALTIME_COARSE", "CLOCK_MONOTONIC", "CLOCK_MONOTONIC_RAW",
    "CLOCK_MONOTONIC_COARSE", "CLOCK_PROCESS_CPUTIME_ID", "CLOCK_THREAD_CPUTIME_ID"]

/-- What the calls return: for each pair of them whether both succeeded, and
the readings. -/
structure Env where
  gettime : ℕ → Bool
  clock : Clock

/-- Why a loop ends early: the message before `return -1`, or a difference that
`unsigned int` cannot hold. -/
inductive Stop
  | failed (message : String)
  | undefined (diff : ℚ)
  deriving DecidableEq

/-- A printed line, with the array that its median is of. -/
structure Line where
  name : String
  resultArray : List ℕ
  deriving DecidableEq

section Program

variable (env : Env)

/-- `result_array[result_array_idx]` from pair `k` of readings. -/
def entry (name : String) (k : ℕ) : Except Stop ℕ :=
  if !env.gettime k then .error (.failed (name ++ " clock_gettime"))
  else
    let diff := Words.inlineDiff (env.clock.start k).toTimespec (env.clock.stop k).toTimespec
    match toUnsigned 32 diff with
    | none => .error (.undefined diff)
    | some d => .ok d

/-- The loop for one clock, whose pairs of readings start at number `first`. -/
@[irreducible] def resultArray (name : String) (first : ℕ) : Except Stop (List ℕ) :=
  (List.range clockTestCount).mapM fun idx => entry env name (first + idx)

/-- The loops for the clocks from number `i` on: the lines printed, and why they
end early if they do. -/
def measureClocksFrom : ℕ → List String → List Line × Option Stop
  | _, [] => ([], none)
  | i, name :: rest =>
    match resultArray env name (clockTestCount * i) with
    | .error stop => ([], some stop)
    | .ok array =>
      let (lines, stop) := measureClocksFrom (i + 1) rest
      (⟨name, array⟩ :: lines, stop)

/-- `measure_clocks`, which returns -1 when it ends early and 0 otherwise. -/
def measureClocks : List Line × Option Stop := measureClocksFrom env 0 clockNames

end Program

variable {env : Env} {clock : Clock}

/-- The lines of the clocks from number `i` on, with the intervals themselves. -/
def exactLinesFrom (clock : Clock) (i : ℕ) (names : List String) : List Line :=
  names.mapIdx fun j name => ⟨name, (List.range clockTestCount).map fun idx =>
    (clock.interval (clockTestCount * (i + j) + idx)).toNat⟩

/-- The intervals fit, and every array holds them. -/
def EntriesExact (clock : Clock) : Prop :=
  (∀ k < clockTestCount * clockNames.length, Representable 32
    (Words.inlineDiff (clock.start k).toTimespec (clock.stop k).toTimespec)) ∧
    measureClocks ⟨fun _ => true, clock⟩ = (exactLinesFrom clock 0 clockNames, none)

theorem representable_inlineDiff_iff (clock : Clock) (k : ℕ) :
    Representable 32 (Words.inlineDiff (clock.start k).toTimespec (clock.stop k).toTimespec) ↔
      clock.interval k < 2 ^ 32 := by
  have hnonneg := clock.interval_nonneg k
  rw [clock.inlineDiff_eq, Representable, ← Int.cast_one, ← Int.cast_neg, Int.cast_lt]
  have hhigh : ((clock.interval k : ℤ) : ℚ) < 2 ^ 32 ↔ clock.interval k < 2 ^ 32 := by
    exact_mod_cast Iff.rfl
  rw [hhigh]
  omega

theorem entry_eq_ok (name : String) {k : ℕ} (h : clock.interval k < 2 ^ 32) :
    entry ⟨fun _ => true, clock⟩ name k = .ok (clock.interval k).toNat := by
  have hdiff : toUnsigned 32
      (Words.inlineDiff (clock.start k).toTimespec (clock.stop k).toTimespec) =
        some (clock.interval k).toNat := by
    rw [clock.inlineDiff_eq, toUnsigned_intCast]
    exact ⟨(Int.toNat_of_nonneg (clock.interval_nonneg k)).symm, h⟩
  simp only [entry, hdiff]
  rfl

theorem resultArray_eq_ok (name : String) {first : ℕ}
    (h : ∀ idx < clockTestCount, clock.interval (first + idx) < 2 ^ 32) :
    resultArray ⟨fun _ => true, clock⟩ name first =
      .ok ((List.range clockTestCount).map fun idx => (clock.interval (first + idx)).toNat) := by
  unfold resultArray
  apply mapM_eq_ok
  intro idx hidx
  exact entry_eq_ok name (h idx (List.mem_range.mp hidx))

theorem measureClocksFrom_of_ok {name : String} {rest : List String} {i : ℕ} {array : List ℕ}
    (h : resultArray env name (clockTestCount * i) = .ok array) :
    measureClocksFrom env i (name :: rest) =
      (⟨name, array⟩ :: (measureClocksFrom env (i + 1) rest).1,
        (measureClocksFrom env (i + 1) rest).2) := by
  simp only [measureClocksFrom, h]

/-- With intervals that fit, the loops run to their end. -/
theorem measureClocksFrom_eq {names : List String} {i : ℕ}
    (h : ∀ k < clockTestCount * (i + names.length), clock.interval k < 2 ^ 32) :
    measureClocksFrom ⟨fun _ => true, clock⟩ i names = (exactLinesFrom clock i names, none) := by
  induction names generalizing i with
  | nil => rfl
  | cons name rest ih =>
    -- the pairs of this clock, then those of the others
    have hfirst : ∀ idx < clockTestCount, clock.interval (clockTestCount * i + idx) < 2 ^ 32 := by
      intro idx hidx
      have hbound : clockTestCount * i + idx < clockTestCount * (i + (name :: rest).length) := by
        rw [List.length_cons, Nat.mul_add, Nat.mul_add]
        omega
      exact h _ hbound
    have hrest : measureClocksFrom ⟨fun _ => true, clock⟩ (i + 1) rest =
        (exactLinesFrom clock (i + 1) rest, none) := by
      apply ih
      rwa [List.length_cons, ← Nat.add_assoc, Nat.add_right_comm] at h
    have hlines : exactLinesFrom clock i (name :: rest) =
        ⟨name, (List.range clockTestCount).map fun idx =>
          (clock.interval (clockTestCount * i + idx)).toNat⟩ :: exactLinesFrom clock (i + 1) rest := by
      simp only [exactLinesFrom, List.mapIdx_cons, Nat.add_zero, Nat.add_assoc, Nat.add_comm 1]
    rw [measureClocksFrom_of_ok (resultArray_eq_ok name hfirst), hrest, hlines]

/-- The arrays hold the times exactly when none reaches 4.29 s. -/
theorem entriesExact_iff :
    EntriesExact clock ↔
      ∀ k < clockTestCount * clockNames.length, clock.interval k < 2 ^ 32 := by
  simp only [EntriesExact, representable_inlineDiff_iff]
  constructor
  · rintro ⟨h, -⟩
    exact h
  · intro h
    refine ⟨h, measureClocksFrom_eq ?_⟩
    rwa [Nat.zero_add]

end Rpi3Bench.ClockGettime
