import Mathlib.Tactic

/-!
# Shared definitions of the benchmarks

Readings and constants of `common.c`, over the numbers `K` that a calculation
is carried out in: the rationals to run it, any ordered field to reason about
it in exact arithmetic.
-/

namespace Rpi3Bench

/-- `struct timespec`. -/
structure Timespec (K : Type*) where
  tvSec : K
  tvNsec : K
  deriving DecidableEq

section Exact

variable {K : Type*} [Field K]

/-- `BILLION`. -/
def billion : K := 1000000000

/-- `GET_TIME_OVERHEAD`, in nanoseconds. -/
def getTimeOverhead : K := 469

/-- `FOR_LOOP_OVERHEAD`, in nanoseconds. -/
def forLoopOverhead : K := 583 / 100

/-- `SYSCALL_OVERHEAD`, in nanoseconds. -/
def syscallOverhead : K := 282.5

/-- `NSEC_PER_CYCLE`. -/
def nsecPerCycle : K := 0.833

/-- `RAND_OVERHEAD`, in nanoseconds. -/
def randOverhead : K := 74

def timespecDiffToNsecs (start stop : Timespec K) : K :=
  (stop.tvSec - start.tvSec) * billion + (stop.tvNsec - start.tvNsec)

end Exact

/-- Conversion of a floating number to an unsigned integer of `w` bits.  It
truncates, and is undefined when the result does not fit. -/
def toUnsigned (w : ℕ) (x : ℚ) : Option ℕ :=
  if -1 < x ∧ x < 2 ^ w then some ⌊x⌋₊ else none

/-- `nsecs_to_cycles`: the next whole number of cycles, if it fits. -/
def nsecsToCycles (timeDiff : ℕ) : Option ℕ := toUnsigned 64 ⌈(timeDiff : ℚ) / nsecPerCycle⌉

/-- Whole numbers are converted exactly when they fit. -/
theorem toUnsigned_intCast {w : ℕ} {z : ℤ} {n : ℕ} :
    toUnsigned w (z : ℚ) = some n ↔ z = n ∧ z < 2 ^ w := by
  have hlow : (-1 : ℚ) < z ↔ 0 ≤ z := by
    rw [← Int.cast_one, ← Int.cast_neg, Int.cast_lt]
    omega
  have hhigh : (z : ℚ) < 2 ^ w ↔ z < 2 ^ w := by exact_mod_cast Iff.rfl
  simp only [toUnsigned, hlow, hhigh]
  constructor
  · intro h
    split_ifs at h with hz
    obtain ⟨hpos, hlt⟩ := hz
    lift z to ℕ using hpos
    rw [Int.cast_natCast, Nat.floor_natCast, Option.some.injEq] at h
    exact ⟨congrArg Nat.cast h, hlt⟩
  · rintro ⟨rfl, hlt⟩
    rw [if_pos ⟨Int.natCast_nonneg n, hlt⟩, Int.cast_natCast, Nat.floor_natCast]

section Errors

variable {ε α β : Type}

/-- A computation succeeds through each of its parts. -/
theorem except_bind_eq_ok {x : Except ε α} {f : α → Except ε β} {b : β} :
    (x >>= f) = .ok b ↔ ∃ a, x = .ok a ∧ f a = .ok b := by
  cases x with
  | error e =>
    change (Except.error e : Except ε β) = .ok b ↔ _
    simp
  | ok a =>
    change f a = .ok b ↔ _
    simp

/-- A loop whose body never fails. -/
theorem mapM_eq_ok {g : α → Except ε β} {h : α → β} {l : List α}
    (hg : ∀ x ∈ l, g x = .ok (h x)) : l.mapM g = .ok (l.map h) := by
  induction l with
  | nil => rfl
  | cons x l ih =>
    rw [List.mapM_cons, hg x List.mem_cons_self, ih fun y hy => hg y (List.mem_cons_of_mem x hy)]
    rfl

theorem exists_of_mapM_eq_ok {g : α → Except ε β} {l : List α} {ys : List β}
    (h : l.mapM g = .ok ys) : ∀ x ∈ l, ∃ y, g x = .ok y := by
  induction l generalizing ys with
  | nil =>
    intro x hx
    cases hx
  | cons x l ih =>
    rw [List.mapM_cons, except_bind_eq_ok] at h
    obtain ⟨y, hy, h⟩ := h
    obtain ⟨ys', hys, -⟩ := except_bind_eq_ok.mp h
    intro x' hx'
    rcases List.mem_cons.mp hx' with rfl | hx'
    · exact ⟨y, hy⟩
    · exact ih hys x' hx'

/-- A loop that succeeds has the result of every turn. -/
theorem forall₂_of_mapM_eq_ok {g : α → Except ε β} {l : List α} {ys : List β}
    (h : l.mapM g = .ok ys) : List.Forall₂ (fun x y => g x = .ok y) l ys := by
  induction l generalizing ys with
  | nil =>
    cases h
    exact .nil
  | cons x l ih =>
    rw [List.mapM_cons, except_bind_eq_ok] at h
    obtain ⟨y, hy, h⟩ := h
    obtain ⟨ys', hys, h⟩ := except_bind_eq_ok.mp h
    cases h
    exact .cons hy (ih hys)

/-- A loop over the indices of a list that reads its elements. -/
theorem map_getD_range (l : List α) (d : α) :
    (List.range l.length).map (fun i => l.getD i d) = l := by
  apply List.ext_getElem
  · simp
  · intro i _ hi
    simp [List.getElem?_eq_getElem hi]

end Errors

/-- Why a program ends early: `exit(EXIT_FAILURE)` after a message, an access
outside the memory, or a number that an unsigned variable cannot hold. -/
inductive Stop
  | exit (message : String)
  | outOfBounds (index : ℕ)
  | undefined (number : ℚ)
  deriving DecidableEq

/-- The conversion of `number`, which gives `converted` if it is defined. -/
def convert (number : ℚ) (converted : Option ℕ) : Except Stop ℕ :=
  match converted with
  | some n => .ok n
  | none => .error (.undefined number)

theorem convert_eq_ok {number : ℚ} {converted : Option ℕ} {n : ℕ} :
    convert number converted = .ok n ↔ converted = some n := by
  cases converted <;> simp [convert]

/-- A conversion was undefined, so that nothing is known about the rest. -/
def Stop.Undefined (stop : Stop) : Prop := ∃ number, stop = .undefined number

theorem convert_undefined {number : ℚ} {converted : Option ℕ} {stop : Stop}
    (h : convert number converted = .error stop) : stop.Undefined := by
  cases converted with
  | some n => cases h
  | none =>
    cases h
    exact ⟨number, rfl⟩

/-- `CPU_INDEX`. -/
def cpuIndex : ℕ := 3

/-- The answers of the cpufreq interface for `CPU_INDEX`: whether the core is
there, its largest frequency in kHz if the limits can be had, whether that
frequency could be set, and the frequency in use afterwards. -/
structure CpuFreq where
  cpuExists : Bool
  hardwareLimits : Option ℕ
  setFrequency : Bool
  freqKernel : ℕ

/-- `init_test`: what it prints and what it returns. -/
def initTest (c : CpuFreq) : String × ℤ :=
  if !c.cpuExists then ("Invalid CPU index!\n", -1)
  else match c.hardwareLimits with
    | none => ("Unable to get hardware limits!\n", -1)
    | some cpuMax =>
      let mhz := toString (cpuMax / 1000)
      if !c.setFrequency then
        ("Unable to set frequency(" ++ mhz ++ "MHz) Are u root?\n", -1)
      else
        let cpuCur := toString (c.freqKernel / 1000)
        ("Current CPU " ++ toString cpuIndex ++ " Frequency: " ++ cpuCur ++ " MHz\n\n", 0)

end Rpi3Bench
