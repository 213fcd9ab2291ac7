import Rpi3Bench.SystemCallOverhead
import Rpi3Bench.TaskCreation.Limit

/-!
# Overheads in the creation times

The measure functions divide by the number of creations first and subtract the
cost of reading the clock afterwards, so that it comes off once for every
creation, while the timed section has it once.
-/

namespace Rpi3Bench.TaskCreation

open Dispersion SystemCallOverhead

variable {K : Type} [Field K] {mc : Machine K} {w : World K} {num : ℕ} {costs : List K}

omit [Field K] in
/-- Creations do not read the clock. -/
theorem readings_mapM_create (how : Creation) (l : List ℕ) (w : World K) :
    (l.mapM (fun _ => create mc how) w).2.readings = w.readings := by
  induction l generalizing w with
  | nil => rfl
  | cons a l ih =>
    rw [mapM_cons_apply]
    change (l.mapM (fun _ => create mc how) (create mc how w).2).2.readings = _
    rw [ih, create]
    split_ifs <;> rfl

/-- The two readings around the creations, and what becomes of them. -/
theorem measureCreation_fst (how : Creation) (num : ℕ) (w : World K) :
    (measureCreation mc how num w).1 =
      timespecDiffToNsecs (mc.clock w.readings) (mc.clock (w.readings + 1)) / num -
        forLoopOverhead - getTimeOverhead := by
  have hreadings : ((List.range num).mapM (fun _ => create mc how) (clockGettime mc w).2).2.readings
      = w.readings + 1 := readings_mapM_create how (List.range num) (clockGettime mc w).2
  rw [measureCreation_apply]
  simp only [hreadings]

/-- What is left over is the cost of reading the clock, once less a `num`-th. -/
theorem measureCreation_of_costs [CharZero K] (how : Creation) (hnum : 1 ≤ num)
    (hlength : costs.length = num)
    (htime : timespecDiffToNsecs (mc.clock w.readings) (mc.clock (w.readings + 1)) =
      loopTime costs) :
    (measureCreation mc how num w).1 =
      mean costs + (getTimeOverhead / (num : K) - getTimeOverhead) := by
  have hne : (num : K) ≠ 0 := by exact_mod_cast (Nat.one_le_iff_ne_zero.mp hnum)
  rw [measureCreation_fst, htime, loopTime_eq, mean, hlength]
  field_simp
  ring

theorem measureCreation_mean_iff [CharZero K] (how : Creation) (hnum : 1 ≤ num)
    (hlength : costs.length = num)
    (htime : timespecDiffToNsecs (mc.clock w.readings) (mc.clock (w.readings + 1)) =
      loopTime costs) :
    (measureCreation mc how num w).1 = mean costs ↔ num = 1 := by
  have hne : (num : K) ≠ 0 := by exact_mod_cast (Nat.one_le_iff_ne_zero.mp hnum)
  have hover : (getTimeOverhead : K) ≠ 0 := by
    rw [getTimeOverhead]
    norm_num
  rw [measureCreation_of_costs how hnum hlength htime, add_eq_left, sub_eq_zero, div_eq_iff hne,
    left_eq_mul₀ hover, Nat.cast_eq_one]

/-- When each creation costs what the model says, the three measures return the
mean of the costs exactly for a single creation; the average of system calls is
the mean for its whole loop. -/
theorem creation_mean_iff [CharZero K] (mc : Machine K) (w : World K) (num : ℕ) (hnum : 1 ≤ num)
    (costs : List K) (hlength : costs.length = num)
    (htime : timespecDiffToNsecs (mc.clock w.readings) (mc.clock (w.readings + 1)) =
      loopTime costs) :
    ((measureThreadCreation mc num w).1 = mean costs ↔ num = 1) ∧
      ((measureProcessCreation mc num w).1 = mean costs ↔ num = 1) ∧
      ((measureVprocessCreation mc num w).1 = mean costs ↔ num = 1) ∧
      ∀ (start stop : Timespec K) (calls : List K), calls.length = avgTestCount →
        inlineDiff start stop = loopTime calls →
        printAvgSyscall start stop = .average "syscall(SYS_gettid) syscall" (mean calls) := by
  refine ⟨measureCreation_mean_iff .pthreadCreate hnum hlength htime,
    measureCreation_mean_iff .fork hnum hlength htime,
    measureCreation_mean_iff .vfork hnum hlength htime, ?_⟩
  intro start stop calls hcalls hloop
  rw [printAvgSyscall, averageTime_eq_mean hcalls hloop]

/-- A machine on which a thousand nanoseconds pass between two readings. -/
def tickingMachine : Machine ℚ where
  limit := 1000
  clock k := ⟨0, 1000 * k⟩
  cpu := ⟨true, some 1200000, true, 1200000⟩

theorem creation_mean_iff_one :
    (measureThreadCreation tickingMachine 1 (World.start 0)).1 = 52517 / 100 := by
  have hmean : mean [(52517 / 100 : ℚ)] = 52517 / 100 := by norm_num [mean]
  rw [← hmean]
  apply (creation_mean_iff tickingMachine (World.start 0) 1 le_rfl [52517 / 100] rfl ?_).1.mpr rfl
  norm_num [loopTime, tickingMachine, World.start, timespecDiffToNsecs, billion, getTimeOverhead,
    forLoopOverhead]

/-- Two creations that the machine takes a thousand nanoseconds for. -/
theorem not_creation_mean :
    ¬ ∀ (mc : Machine ℚ) (w : World ℚ) (num : ℕ), 1 ≤ num → ∀ costs : List ℚ, costs.length = num →
      timespecDiffToNsecs (mc.clock w.readings) (mc.clock (w.readings + 1)) = loopTime costs →
      (measureThreadCreation mc num w).1 = mean costs := by
  intro hall
  have htime : timespecDiffToNsecs (tickingMachine.clock (World.start (K := ℚ) 0).readings)
      (tickingMachine.clock ((World.start (K := ℚ) 0).readings + 1)) =
        loopTime [25967 / 100, 25967 / 100] := by
    norm_num [loopTime, tickingMachine, World.start, timespecDiffToNsecs, billion, getTimeOverhead,
      forLoopOverhead]
  have h := hall tickingMachine (World.start 0) 2 (by decide) [25967 / 100, 25967 / 100] rfl htime
  exact absurd ((measureCreation_mean_iff .pthreadCreate (by decide) rfl htime).mp h) (by decide)

end Rpi3Bench.TaskCreation
