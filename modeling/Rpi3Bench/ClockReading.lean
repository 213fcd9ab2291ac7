import Rpi3Bench.Common
import Rpi3Bench.Library.SignedDifference

/-!
# Readings of a clock on the 32-bit target

There `tv_sec` and `tv_nsec` are signed words of 32 bits, and each difference of
two of them is formed in words before it becomes a floating number.
-/

namespace Rpi3Bench

open SignedDifference

/-- What `clock_gettime` fills in: the seconds since the origin of the clock and
the nanoseconds of the current one. -/
structure Reading extends Timespec (BitVec 32) where
  sec_nonneg : 0 ≤ tvSec.toInt
  nsec_nonneg : 0 ≤ tvNsec.toInt
  nsec_lt : tvNsec.toInt < 1000000000

namespace Words

/-- `timespec_diff_to_nsecs`, with its differences of words. -/
def timespecDiffToNsecs (start stop : Timespec (BitVec 32)) : ℚ :=
  ((stop.tvSec - start.tvSec).toInt : ℚ) * billion + ((stop.tvNsec - start.tvNsec).toInt : ℚ)

/-- `BILLION * (stop.tv_sec - start.tv_sec) + stop.tv_nsec - start.tv_nsec`. -/
def inlineDiff (start stop : Timespec (BitVec 32)) : ℚ :=
  billion * ((stop.tvSec - start.tvSec).toInt : ℚ) + (stop.tvNsec.toInt : ℚ) -
    (start.tvNsec.toInt : ℚ)

end Words

namespace Reading

def sec (r : Reading) : ℤ := r.tvSec.toInt

def nsec (r : Reading) : ℤ := r.tvNsec.toInt

/-- The nanoseconds since the origin of the clock. -/
def nsecs (r : Reading) : ℤ := r.sec * 1000000000 + r.nsec

/-- Earlier, in lexicographic order. -/
def Precedes (r r' : Reading) : Prop := r.sec < r'.sec ∨ r.sec = r'.sec ∧ r.nsec < r'.nsec

/-- The same reading in exact numbers. -/
def exact (r : Reading) : Timespec ℚ := ⟨r.sec, r.nsec⟩

theorem toInt_ofNat_of_lt {n : ℕ} (h : n < 2 ^ 31) : (BitVec.ofNat 32 n).toInt = n := by
  rw [BitVec.toInt_eq_toNat_cond, BitVec.toNat_ofNat, Nat.mod_eq_of_lt (by omega),
    if_pos (by omega)]

/-- The reading `sec` seconds and `nsec` nanoseconds after the origin. -/
def after (sec nsec : ℕ) (hsec : sec < 2 ^ 31) (hnsec : nsec < 1000000000) : Reading where
  tvSec := BitVec.ofNat 32 sec
  tvNsec := BitVec.ofNat 32 nsec
  sec_nonneg := by
    rw [toInt_ofNat_of_lt hsec]
    exact Int.natCast_nonneg sec
  nsec_nonneg := by
    rw [toInt_ofNat_of_lt (by omega)]
    exact Int.natCast_nonneg nsec
  nsec_lt := by
    rw [toInt_ofNat_of_lt (by omega)]
    exact_mod_cast hnsec

@[simp] theorem nsecs_after {sec nsec : ℕ} (hsec : sec < 2 ^ 31) (hnsec : nsec < 1000000000) :
    (after sec nsec hsec hnsec).nsecs = sec * 1000000000 + nsec := by
  have hs : (BitVec.ofNat 32 sec).toInt = sec := toInt_ofNat_of_lt hsec
  have hn : (BitVec.ofNat 32 nsec).toInt = nsec := toInt_ofNat_of_lt (by omega)
  simp only [nsecs, Reading.sec, Reading.nsec, after, hs, hn]

/-- The reading `t` nanoseconds after the origin. -/
def atNsec (t : ℕ) (ht : t < 2 ^ 31 * 1000000000) : Reading :=
  after (t / 1000000000) (t % 1000000000) (by omega) (by omega)

@[simp] theorem nsecs_atNsec {t : ℕ} (ht : t < 2 ^ 31 * 1000000000) : (atNsec t ht).nsecs = t := by
  rw [atNsec, nsecs_after]
  omega

variable (r r' : Reading)

theorem sec_lt : r.sec < 2 ^ 31 := r.tvSec.toInt_lt

theorem nsecs_nonneg : 0 ≤ r.nsecs := by
  have hsec := r.sec_nonneg
  have hnsec := r.nsec_nonneg
  simp only [nsecs, sec, nsec]
  omega

/-- All readings lie within the 68 years that 31 bits of seconds can count. -/
theorem nsecs_lt : r.nsecs < 2 ^ 31 * 1000000000 := by
  have hsec := r.sec_lt
  have hnsec := r.nsec_lt
  simp only [nsecs, nsec]
  omega

theorem fits_sec : Fits 32 (r'.sec - r.sec) := by
  have h := r.sec_lt
  have h' := r'.sec_lt
  have hpos := r.sec_nonneg
  have hpos' := r'.sec_nonneg
  simp only [Fits, sec] at *
  omega

theorem fits_nsec : Fits 32 (r'.nsec - r.nsec) := by
  have h := r.nsec_lt
  have h' := r'.nsec_lt
  have hpos := r.nsec_nonneg
  have hpos' := r'.nsec_nonneg
  simp only [Fits, nsec]
  omega

/-- The order of the readings is the order of their nanoseconds. -/
theorem nsecs_lt_iff {r r' : Reading} : r.nsecs < r'.nsecs ↔ r.Precedes r' := by
  have h := r.nsec_lt
  have h' := r'.nsec_lt
  have hpos := r.nsec_nonneg
  have hpos' := r'.nsec_nonneg
  simp only [nsecs, Precedes, nsec]
  omega

end Reading

namespace Words

variable (start stop : Reading)

/-- On readings the differences of words are exact, and so is the result. -/
theorem timespecDiffToNsecs_eq :
    timespecDiffToNsecs start.toTimespec stop.toTimespec = ((stop.nsecs - start.nsecs : ℤ) : ℚ) := by
  have hsec : (stop.tvSec - start.tvSec).toInt = stop.sec - start.sec :=
    toInt_sub_of_fits (start.fits_sec stop)
  have hnsec : (stop.tvNsec - start.tvNsec).toInt = stop.nsec - start.nsec :=
    toInt_sub_of_fits (start.fits_nsec stop)
  simp only [timespecDiffToNsecs, hsec, hnsec, Reading.nsecs, billion]
  push_cast
  ring

theorem inlineDiff_eq :
    inlineDiff start.toTimespec stop.toTimespec = ((stop.nsecs - start.nsecs : ℤ) : ℚ) := by
  have hsec : (stop.tvSec - start.tvSec).toInt = stop.sec - start.sec :=
    toInt_sub_of_fits (start.fits_sec stop)
  have hnsec : (stop.tvNsec.toInt : ℚ) - start.tvNsec.toInt = ((stop.nsec - start.nsec : ℤ) : ℚ) := by
    push_cast
    rfl
  rw [inlineDiff, hsec, add_sub_assoc, hnsec]
  simp only [Reading.nsecs, billion]
  push_cast
  ring

/-- The function on words refines the one on exact numbers. -/
theorem timespecDiffToNsecs_exact :
    timespecDiffToNsecs start.toTimespec stop.toTimespec =
      Rpi3Bench.timespecDiffToNsecs start.exact stop.exact := by
  rw [timespecDiffToNsecs_eq]
  simp only [Rpi3Bench.timespecDiffToNsecs, Reading.exact, Reading.nsecs, billion]
  push_cast
  ring

end Words

/-- The difference of two readings is formed without overflow and is the exact
number of nanoseconds from the first to the second, negative when they are in
the opposite order, additive over a reading in between, and the same in the two
forms that the benchmarks write it in. -/
theorem timespec_diff_exact (start mid stop : Reading) :
    (stop.tvSec.ssubOverflow start.tvSec = false ∧
        stop.tvNsec.ssubOverflow start.tvNsec = false ∧
        Words.timespecDiffToNsecs start.toTimespec stop.toTimespec =
          ((stop.nsecs - start.nsecs : ℤ) : ℚ)) ∧
      (Words.timespecDiffToNsecs start.toTimespec stop.toTimespec < 0 ↔ stop.Precedes start) ∧
      Words.timespecDiffToNsecs start.toTimespec stop.toTimespec =
        Words.timespecDiffToNsecs start.toTimespec mid.toTimespec +
          Words.timespecDiffToNsecs mid.toTimespec stop.toTimespec ∧
      Words.timespecDiffToNsecs start.toTimespec stop.toTimespec =
        Words.inlineDiff start.toTimespec stop.toTimespec := by
  refine ⟨⟨?_, ?_, Words.timespecDiffToNsecs_eq start stop⟩, ?_, ?_, ?_⟩
  · exact ssubOverflow_eq_false_iff.mpr (start.fits_sec stop)
  · exact ssubOverflow_eq_false_iff.mpr (start.fits_nsec stop)
  · rw [Words.timespecDiffToNsecs_eq, Int.cast_lt_zero, sub_neg, Reading.nsecs_lt_iff]
  · simp only [Words.timespecDiffToNsecs_eq]
    push_cast
    ring
  · rw [Words.timespecDiffToNsecs_eq, Words.inlineDiff_eq]

end Rpi3Bench
