import Rpi3Bench.PageAccess.MappedFile
import Rpi3Bench.Statistics

/-!
# The line that `print_pages` prints

`print_pages` of `page_fault_access` takes one cold and thirty hot times and
prints two figures.  Both call `get_mean`, and neither uses the number of pages.
-/

namespace Rpi3Bench.PageAccess

open Dispersion Statistics

/-- What a call finds outside the program: what the calls of `write_to_disk`
return, whether the file can be opened and mapped, what `dummy` holds when call
`k` of `measure_pf_access` begins, and the readings of the clock in their order. -/
structure Env (K : Type) where
  calls : FileCalls
  mmap : Bool
  garbage : ℕ → BitVec 32
  clock : ℕ → Timespec K

/-- The numbers in the printed line. -/
structure PrintedLine (K : Type) where
  numPages : ℕ
  cyclesPerPage : K
  std : K

section Program

variable {K : Type} [Field K] (env : Env K)

/-- What call `k` of `measure_pf_access` returns. -/
def Env.time (k : ℕ) : K := timespecDiffToNsecs (env.clock (2 * k)) (env.clock (2 * k + 1))

/-- `0.833`, the nanoseconds of a cycle. -/
def nsecsPerCycle : K := 833 / 1000

/-- The line, from the times. -/
def printLine (numPages : ℕ) (coldTime : K) (hotTime : List K) : PrintedLine K :=
  let avg := getMean hotTime
  -- `get_mean` again, not `get_stddev`
  let std := getMean hotTime
  { numPages := numPages
    cyclesPerPage := (coldTime - avg) / nsecsPerCycle / 1000
    std := std / nsecsPerCycle / nsecsPerCycle / 1000 / 1000 }

/-- The file, written and mapped. -/
def mapPages (numPages : ℕ) : Except Stop (List (BitVec 32)) := do
  let file ← writeToDisk env.calls numPages
  if !env.mmap then throw (.assertion "mmap failed.")
  else return mapping file

/-- `print_pages`, to the `printf`. -/
def printPages (numPages : ℕ) : Except Stop (PrintedLine K) := do
  let mem ← mapPages env numPages
  let coldTime ← measure env.time env.garbage mem numPages 0
  let _ ← (List.range 15).mapM fun i => measure env.time env.garbage mem numPages (1 + i)
  let hotTime ← (List.range 30).mapM fun i => measure env.time env.garbage mem numPages (16 + i)
  return printLine numPages coldTime hotTime

def Env.coldTime : K := env.time 0

def Env.hotTime : List K := (List.range 30).map fun i => env.time (16 + i)

end Program

/-! ## When the line is printed -/

section Run

variable {K : Type} [Field K] {env : Env K} {mem : List (BitVec 32)} {numPages : ℕ}

/-- All calls that `print_pages` makes before its `printf` succeed. -/
structure Env.Measures (env : Env K) (numPages : ℕ) (mem : List (BitVec 32)) : Prop where
  mapped : mapPages env numPages = .ok mem
  cold : Ends env.garbage mem numPages 0
  warm : ∀ i < 15, Ends env.garbage mem numPages (1 + i)
  hot : ∀ i < 30, Ends env.garbage mem numPages (16 + i)

/-- The line is printed when all of them do, and is about the first call of
`measure_pf_access` and the last thirty. -/
theorem printPages_eq_ok {r : PrintedLine K} : printPages env numPages = .ok r ↔
    (∃ mem, env.Measures numPages mem) ∧ r = printLine numPages env.coldTime env.hotTime := by
  simp only [printPages, except_bind_eq_ok, measure_eq_ok, mapM_measure_eq_ok]
  constructor
  · rintro ⟨mem, hmap, _, ⟨hcold, rfl⟩, _, ⟨hwarm, rfl⟩, _, ⟨hhot, rfl⟩, hline⟩
    exact ⟨⟨mem, hmap, hcold, hwarm, hhot⟩, (Except.ok.inj hline).symm⟩
  · rintro ⟨⟨mem, h⟩, rfl⟩
    exact ⟨mem, h.mapped, _, ⟨h.cold, rfl⟩, _, ⟨h.warm, rfl⟩, _, ⟨h.hot, rfl⟩, rfl⟩

end Run

/-! ## What the figures are -/

section Figures

variable {K : Type} [Field K]

/-- The same calls with every time longer by `c` nanoseconds. -/
def Env.later (env : Env K) (c : K) : Env K :=
  { env with clock := fun k =>
      if k % 2 = 1 then { env.clock k with tvNsec := (env.clock k).tvNsec + c } else env.clock k }

theorem Env.time_later (env : Env K) (c : K) (k : ℕ) : (env.later c).time k = env.time k + c := by
  have hstart : ¬ 2 * k % 2 = 1 := by omega
  have hstop : (2 * k + 1) % 2 = 1 := by omega
  simp only [Env.time, Env.later, if_neg hstart, if_pos hstop, timespecDiffToNsecs]
  ring

theorem Env.hotTime_later (env : Env K) (c : K) :
    (env.later c).hotTime = env.hotTime.map fun x => 1 * x + c := by
  simp only [Env.hotTime, List.map_map, Env.time_later]
  apply List.map_congr_left
  intro i _
  simp only [Function.comp_apply, one_mul]

theorem Env.hotTime_ne_nil (env : Env K) : env.hotTime ≠ [] := by
  rw [Env.hotTime, ← List.length_pos_iff, List.length_map, List.length_range]
  exact Nat.succ_pos 29

theorem printPages_later {env : Env K} {numPages : ℕ} {r : PrintedLine K}
    (h : printPages env numPages = .ok r) (c : K) :
    printPages (env.later c) numPages =
      .ok (printLine numPages (env.coldTime + c) (env.hotTime.map fun x => 1 * x + c)) := by
  obtain ⟨⟨mem, hmeasures⟩, -⟩ := printPages_eq_ok.mp h
  have hlater : (env.later c).Measures numPages mem :=
    ⟨hmeasures.mapped, hmeasures.cold, hmeasures.warm, hmeasures.hot⟩
  refine printPages_eq_ok.mpr ⟨⟨mem, hlater⟩, ?_⟩
  rw [Env.hotTime_later]
  exact congrArg (printLine numPages · _) (env.time_later c 0).symm

end Figures

variable {env : Env ℝ} {numPages : ℕ} {r : PrintedLine ℝ}

/-- The excess of the cold time over the mean hot time for each page, in
thousands of cycles. -/
def CyclesRight (env : Env ℝ) (numPages : ℕ) (r : PrintedLine ℝ) : Prop :=
  r.cyclesPerPage = (env.coldTime - mean env.hotTime) / numPages / nsecsPerCycle / 1000

/-- A standard deviation of the hot times, in thousands of cycles. -/
def StdRight (env : Env ℝ) (r : PrintedLine ℝ) : Prop :=
  r.std = √(populationVariance env.hotTime) / nsecsPerCycle / 1000 ∨
    r.std = √(sampleVariance env.hotTime) / nsecsPerCycle / 1000

/-- Both figures are right; so the deviation vanishes for equal hot times only,
and a constant added to all times changes neither. -/
structure FiguresRight (env : Env ℝ) (numPages : ℕ) (r : PrintedLine ℝ) : Prop where
  cycles : CyclesRight env numPages r
  std : StdRight env r
  zero : r.std = 0 ↔ ∀ x ∈ env.hotTime, ∀ y ∈ env.hotTime, x = y
  shift : ∀ c r', printPages (env.later c) numPages = .ok r' →
    r'.cyclesPerPage = r.cyclesPerPage ∧ r'.std = r.std

theorem cyclesRight_iff (hpages : 1 ≤ numPages) (h : printPages env numPages = .ok r) :
    CyclesRight env numPages r ↔ numPages = 1 ∨ env.coldTime = mean env.hotTime := by
  obtain ⟨-, rfl⟩ := printPages_eq_ok.mp h
  have hne : (numPages : ℝ) ≠ 0 := by exact_mod_cast (Nat.one_le_iff_ne_zero.mp hpages)
  have hcycle : (nsecsPerCycle : ℝ) ≠ 0 := by
    rw [nsecsPerCycle]
    norm_num
  simp only [CyclesRight, printLine, getMean_eq]
  rw [div_left_inj' (by norm_num), div_left_inj' hcycle, eq_div_iff hne, mul_right_eq_self₀,
    sub_eq_zero, Nat.cast_eq_one]

theorem std_eq_iff (h : printPages env numPages = .ok r) (d : ℝ) :
    r.std = d / nsecsPerCycle / 1000 ↔ mean env.hotTime = 833 * d := by
  obtain ⟨-, rfl⟩ := printPages_eq_ok.mp h
  simp only [printLine, getMean_eq, nsecsPerCycle]
  constructor
  · intro h
    linarith
  · intro h
    linarith

theorem stdRight_iff (h : printPages env numPages = .ok r) :
    StdRight env r ↔ mean env.hotTime = 833 * √(populationVariance env.hotTime) ∨
      mean env.hotTime = 833 * √(sampleVariance env.hotTime) := by
  rw [StdRight, std_eq_iff h, std_eq_iff h]

theorem std_eq_zero_iff (h : printPages env numPages = .ok r) :
    r.std = 0 ↔ mean env.hotTime = 0 := by
  have hzero := std_eq_iff h 0
  rwa [zero_div, zero_div, mul_zero] at hzero

/-- One more nanosecond in all times changes the second figure. -/
theorem not_shift (h : printPages env numPages = .ok r) :
    ∃ r', printPages (env.later 1) numPages = .ok r' ∧ r'.cyclesPerPage = r.cyclesPerPage ∧
      r'.std ≠ r.std := by
  refine ⟨_, printPages_later h 1, ?_, ?_⟩
  all_goals
    obtain ⟨-, rfl⟩ := printPages_eq_ok.mp h
    simp only [printLine, getMean_eq, mean_affine env.hotTime_ne_nil, nsecsPerCycle]
  · ring
  · intro heq
    linarith

/-- The figures of a printed line: the second is never what it should be, as it
follows a constant added to all times; the first is right for one page or for no
excess, and the values of the second are those of a standard deviation only when
the mean happens to be 833 times that. -/
theorem printed_figures_iff (env : Env ℝ) (numPages : ℕ) (hpages : 1 ≤ numPages)
    (r : PrintedLine ℝ) (h : printPages env numPages = .ok r) :
    ¬ FiguresRight env numPages r ∧
      (CyclesRight env numPages r ↔ numPages = 1 ∨ env.coldTime = mean env.hotTime) ∧
      (StdRight env r ↔ mean env.hotTime = 833 * √(populationVariance env.hotTime) ∨
        mean env.hotTime = 833 * √(sampleVariance env.hotTime)) ∧
      (r.std = 0 ↔ mean env.hotTime = 0) := by
  refine ⟨?_, cyclesRight_iff hpages h, stdRight_iff h, std_eq_zero_iff h⟩
  intro hright
  obtain ⟨r', hr', -, hstd⟩ := not_shift h
  exact hstd (hright.shift 1 r' hr').2

/-- Every pass over the smallest mapping takes a microsecond. -/
def steadyEnv : Env ℝ where
  calls := ⟨true, fun _ => true, none⟩
  mmap := true
  garbage _ := 0
  clock k := if k % 2 = 1 then ⟨0, 1000⟩ else ⟨0, 0⟩

theorem printPages_steadyEnv :
    printPages steadyEnv 1024 = .ok (printLine 1024 steadyEnv.coldTime steadyEnv.hotTime) := by
  obtain ⟨file, hfile⟩ : ∃ file, writeToDisk steadyEnv.calls 1024 = .ok file :=
    ⟨_, writeToDisk_eq_ok.mpr ⟨rfl, by decide, fun _ _ => rfl, rfl⟩⟩
  have hclose : steadyEnv.calls.fclose = none := rfl
  have hlength : (touched 1024).length = 1 := by decide
  have hsum : touchedSum (mapping file) (touched 1024) = 0x03020100 := by
    rw [(writeToDisk_eq_ok.mp hfile).2.2.2, FileCalls.size_of_fclose hclose, mapping_whole,
      touchedSum_whole, hlength]
    norm_num
  have hpasses (k : ℕ) : Ends steadyEnv.garbage (mapping file) 1024 k := by
    refine ⟨_, (passFrom_eq_ok_iff hfile 0).mpr ⟨FileCalls.reaches_of_fclose hclose, ?_, rfl⟩⟩
    rw [hsum]
    decide
  have hmap : mapPages steadyEnv 1024 = .ok (mapping file) := by
    rw [mapPages, hfile]
    rfl
  exact printPages_eq_ok.mpr ⟨⟨mapping file, hmap, hpasses 0, fun _ _ => hpasses _,
    fun _ _ => hpasses _⟩, rfl⟩

theorem printed_figures_iff_steady :
    ∃ r, printPages steadyEnv 1024 = .ok r ∧ ¬ FiguresRight steadyEnv 1024 r :=
  ⟨_, printPages_steadyEnv, (printed_figures_iff steadyEnv 1024 (by decide) _
    printPages_steadyEnv).1⟩

/-- Equal hot times of a microsecond give a deviation other than zero. -/
theorem not_printed_figures :
    ¬ ∀ (env : Env ℝ) (numPages : ℕ), 1 ≤ numPages → ∀ r, printPages env numPages = .ok r →
      FiguresRight env numPages r := by
  intro hall
  have hzero := (hall steadyEnv 1024 (by decide) _ printPages_steadyEnv).zero
  rw [std_eq_zero_iff printPages_steadyEnv] at hzero
  have htime : ∀ x ∈ steadyEnv.hotTime, x = 1000 := by
    intro x hx
    obtain ⟨i, -, rfl⟩ := List.mem_map.mp hx
    simp [Env.time, steadyEnv, timespecDiffToNsecs]
  have hne := steadyEnv.hotTime_ne_nil
  have hmean : mean steadyEnv.hotTime = 1000 :=
    mean_of_constant (htime _ (List.head_mem hne) ▸ List.head_mem hne) htime
  have hequal := hzero.mpr fun x hx y hy => (htime x hx).trans (htime y hy).symm
  rw [hmean] at hequal
  norm_num at hequal

end Rpi3Bench.PageAccess
