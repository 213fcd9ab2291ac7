import Rpi3Bench.Common
import Rpi3Bench.Library.CountingLoop

/-!
# The bandwidth of memory

`memory_bandwidth` writes and reads a buffer of 64-bit words.  Its number of
words is an `int`, but its size in bytes is computed in `size_t`, which has 32
bits on the target: both what it asks `malloc` for and what it divides by the
time.
-/

namespace Rpi3Bench.MemoryBandwidth

open CountingLoop

/-- `PAGE_SIZE`; a page of the program is this many words. -/
def pageSize : ℕ := 4096

/-- `MEGA`. -/
def mega : ℕ := 1024 * 1024

/-- `INT_MAX`. -/
def intMax : ℕ := 2 ^ 31 - 1

abbrev Word := BitVec 64

/-- What stops the program: the `assert`, an access outside the buffer, or a
product that does not fit an `int`. -/
inductive Fault
  | assertion
  | outOfBounds (index : ℕ)
  | overflow
  deriving DecidableEq

/-- `sizeof(word) * size`, in `size_t`. -/
def bytes (size : ℕ) : ℕ := 8 * size % 2 ^ 32

/-- `mem[i] = i`. -/
def writeWord (i : ℕ) (mem : List Word) : Except Fault (List Word) :=
  if i < mem.length then .ok (mem.set i (BitVec.ofNat 64 i)) else .error (.outOfBounds i)

/-- `dummy += mem[i]`, a sum of 64 bits stored in 32. -/
def readWord (mem : List Word) (i : ℕ) (dummy : BitVec 32) : Except Fault (BitVec 32) :=
  match mem[i]? with
  | none => .error (.outOfBounds i)
  | some w => .ok ((dummy.signExtend 64 + w).setWidth 32)

/-- What the calls of a run of `print_rdwr` return: the words that `malloc`
provides, if any, and the readings of the clock in their order.  `dummy` is what
the variable of that name holds at the start of each pass. -/
structure Env (K : Type) where
  malloc : Option (ℕ → Word)
  clock : ℕ → Timespec K
  dummy : ℕ → BitVec 32

/-- The values that the lines print.  There is no rate when nothing is left of
the time and the division has no finite result. -/
structure Report (K : Type) where
  megabytes : ℕ
  writeRate : Option K
  readRate : Option K
  deriving DecidableEq

section Program

variable {K : Type} [Field K] [DecidableEq K] (env : Env K)

/-- The nanoseconds of pass `k`, less those of reading the clock. -/
def corrected (k : ℕ) : K :=
  timespecDiffToNsecs (env.clock (2 * k)) (env.clock (2 * k + 1)) - getTimeOverhead

/-- What pass `k` returns: the bytes for each nanosecond. -/
def bytesPerNsec (size k : ℕ) : Option K :=
  if corrected env k = 0 then none else some (bytes size / corrected env k)

/-- Pass `k`, a `measure_wrmem`: the buffer after it and the value returned. -/
def measureWrmem (mem : List Word) (size k : ℕ) : Except Fault (List Word × Option K) := do
  let mem ← loop writeWord size mem
  return (mem, bytesPerNsec env size k)

/-- Pass `k`, a `measure_rdmem`. -/
def measureRdmem (mem : List Word) (size k : ℕ) : Except Fault (BitVec 32 × Option K) := do
  let dummy ← loop (readWord mem) size (env.dummy k)
  return (dummy, bytesPerNsec env size k)

/-- The buffer that `malloc` returns; nothing can be written to a null pointer. -/
def buffer (numWords : ℕ) : List Word :=
  match env.malloc with
  | none => []
  | some content => (List.range (bytes numWords / 8)).map content

/-- `print_rdwr`.  The passes are numbered from 0; the two whose rates are
printed are 15 and 31. -/
def printRdwr (pages : ℕ) : Except Fault (Report K) :=
  if intMax < pages * pageSize then .error .overflow
  else do
    let numWords := pages * pageSize
    let mem ← loop (fun i mem => Prod.fst <$> measureWrmem env mem numWords i) 15
      (buffer env numWords)
    let (mem, write) ← measureWrmem env mem numWords 15
    let _ ← (List.range 15).mapM fun i => measureRdmem env mem numWords (16 + i)
    let (_, read) ← measureRdmem env mem numWords 31
    return { megabytes := bytes numWords / mega
             writeRate := write.map (· * billion / mega)
             readRate := read.map (· * billion / mega) }

/-- The calls of `print_rdwr` in `main`. -/
def pagesMeasured : List ℕ := [1024, 2048, 8192]

/-- `main`, with what each of its calls of `print_rdwr` meets. -/
def main (c : CpuFreq) (env : ℕ → Env K) : Except Fault (List (Report K)) :=
  if (initTest c).2 ≠ 0 then .error .assertion
  else pagesMeasured.mapM fun pages => printRdwr (env pages) pages

end Program

/-! ## The passes -/

section Passes

variable {mem : List Word} {size : ℕ}

/-- The buffer after the first `i` stores of a write pass. -/
def written (mem : List Word) (i : ℕ) : List Word :=
  (List.range i).map (BitVec.ofNat 64) ++ mem.drop i

theorem length_written {i : ℕ} (hi : i ≤ mem.length) :
    (written mem i).length = mem.length := by
  rw [written, List.length_append, List.length_map, List.length_range, List.length_drop]
  omega

theorem writeWord_written {i : ℕ} (hi : i < mem.length) :
    writeWord i (written mem i) = .ok (written mem (i + 1)) := by
  rw [writeWord, if_pos (by rw [length_written hi.le]; exact hi), written, written]
  rw [List.set_append_right _ _ (by simp), List.drop_eq_getElem_cons hi, List.range_succ,
    List.map_append, List.append_assoc, List.length_map, List.length_range, Nat.sub_self,
    List.set_cons_zero]
  rfl

theorem loop_writeWord {i : ℕ} (hi : i ≤ mem.length) :
    loop writeWord i mem = .ok (written mem i) :=
  loop_eq_ok (written mem) fun _ hk => writeWord_written (by omega)

/-- A write pass over a buffer that is large enough. -/
theorem loop_writeWord_full (h : mem.length = size) :
    loop writeWord size mem = .ok ((List.range size).map (BitVec.ofNat 64)) := by
  rw [loop_writeWord h.ge, written, List.drop_of_length_le h.le, List.append_nil]

/-- A write pass over one that is not. -/
theorem loop_writeWord_short (h : mem.length < size) :
    loop writeWord size mem = .error (.outOfBounds mem.length) := by
  apply loop_eq_error h (loop_writeWord le_rfl)
  rw [writeWord, if_neg (by rw [length_written le_rfl]; exact lt_irrefl _)]

/-- The sum of the words read, as `dummy` keeps it. -/
def summed (dummy : BitVec 32) (i : ℕ) : BitVec 32 :=
  dummy + BitVec.ofNat 32 (∑ j ∈ Finset.range i, j)

theorem readWord_summed (dummy : BitVec 32) {i : ℕ} (hi : i < size) :
    readWord ((List.range size).map (BitVec.ofNat 64)) i (summed dummy i) =
      .ok (summed dummy (i + 1)) := by
  have hget : ((List.range size).map (BitVec.ofNat 64))[i]? = some (BitVec.ofNat 64 i) := by
    simp [hi]
  simp only [readWord, hget]
  congr 1
  -- the words above the lowest 32 bits do not reach `dummy`
  rw [BitVec.setWidth_add _ _ (by decide), summed, summed, Finset.sum_range_succ, BitVec.ofNat_add,
    ← BitVec.add_assoc]
  congr 1
  · ext j hj
    rw [BitVec.getElem_setWidth, BitVec.getLsbD_signExtend]
    simp [hj, Nat.lt_trans hj]
  · simp

/-- A read pass over the words that a write pass left. -/
theorem loop_readWord (dummy : BitVec 32) (size : ℕ) :
    loop (readWord ((List.range size).map (BitVec.ofNat 64))) size dummy =
      .ok (summed dummy size) := by
  have hzero : summed dummy 0 = dummy := by simp [summed]
  have hloop := loop_eq_ok (summed dummy) fun i (hi : i < size) => readWord_summed dummy hi
  rw [hzero] at hloop
  exact hloop

end Passes

/-! ## The sizes -/

section Sizes

variable {pages : ℕ}

/-- The words that the requested bytes have room for. -/
theorem bytes_div_eight (pages : ℕ) :
    bytes (pages * pageSize) / 8 = pages % 2 ^ 17 * pageSize := by
  simp only [bytes, pageSize]
  omega

/-- Up to `2 ^ 17` pages the bytes of the buffer fit in `size_t`. -/
theorem bytes_of_lt (h : pages < 2 ^ 17) : bytes (pages * pageSize) = pages * 32768 := by
  simp only [bytes, pageSize]
  omega

theorem intMax_lt_iff : intMax < pages * pageSize ↔ 2 ^ 19 ≤ pages := by
  simp only [intMax, pageSize]
  omega

end Sizes

/-! ## The whole function -/

section WholeFunction

variable {K : Type} [Field K] [DecidableEq K] {env : Env K} {mem : List Word} {size k : ℕ}

/-- The buffer after a write pass that was not stopped. -/
def ramp (size : ℕ) : List Word := (List.range size).map (BitVec.ofNat 64)

@[simp] theorem length_ramp (size : ℕ) : (ramp size).length = size := by
  rw [ramp, List.length_map, List.length_range]

theorem measureWrmem_full (h : mem.length = size) :
    measureWrmem env mem size k = .ok (ramp size, bytesPerNsec env size k) := by
  rw [measureWrmem, loop_writeWord_full h]
  rfl

theorem measureWrmem_short (h : mem.length < size) :
    measureWrmem env mem size k = .error (.outOfBounds mem.length) := by
  rw [measureWrmem, loop_writeWord_short h]
  rfl

theorem measureRdmem_ramp :
    measureRdmem env (ramp size) size k =
      .ok (summed (env.dummy k) size, bytesPerNsec env size k) := by
  rw [measureRdmem, ramp, loop_readWord]
  rfl

/-- The write passes that warm up, when the buffer is large enough. -/
theorem warmUp_full (h : mem.length = size) :
    loop (fun i mem => Prod.fst <$> measureWrmem env mem size i) 15 mem = .ok (ramp size) := by
  have hrun : ∃ mem',
      loop (fun i mem => Prod.fst <$> measureWrmem env mem size i) 15 mem = .ok mem' ∧
        mem'.length = size ∧ (0 < 15 → mem' = ramp size) := by
    apply exists_loop_eq_ok (fun i mem => mem.length = size ∧ (0 < i → mem = ramp size))
    · exact ⟨h, fun h => absurd h (lt_irrefl 0)⟩
    · intro i _ mem hmem
      refine ⟨ramp size, ?_, length_ramp size, fun _ => rfl⟩
      rw [measureWrmem_full hmem.1]
      rfl
  obtain ⟨mem', hloop, -, hmem⟩ := hrun
  rw [hloop, hmem (by decide)]

/-- When it is not, the first of them is the last. -/
theorem warmUp_short (h : mem.length < size) :
    loop (fun i mem => Prod.fst <$> measureWrmem env mem size i) 15 mem =
      .error (.outOfBounds mem.length) := by
  apply loop_eq_error (k := 0) (by decide) rfl
  simp only [measureWrmem_short h]
  rfl

/-- What `print_rdwr` prints about a buffer of `pages` pages. -/
def report (env : Env K) (pages : ℕ) : Report K where
  megabytes := pages / 32
  writeRate := (bytesPerNsec env (pages * pageSize) 15).map (· * billion / mega)
  readRate := (bytesPerNsec env (pages * pageSize) 31).map (· * billion / mega)

omit [Field K] [DecidableEq K] in
theorem length_buffer {content : ℕ → Word} (h : env.malloc = some content) (pages : ℕ) :
    (buffer env (pages * pageSize)).length = pages % 2 ^ 17 * pageSize := by
  rw [buffer, h, List.length_map, List.length_range, bytes_div_eight]

omit [Field K] [DecidableEq K] in
/-- There is room for all words; without any words that takes no memory. -/
theorem length_buffer_of_fits {pages : ℕ}
    (hroom : pages = 0 ∨ env.malloc.isSome ∧ pages < 2 ^ 17) :
    (buffer env (pages * pageSize)).length = pages * pageSize := by
  cases hmalloc : env.malloc with
  | some content =>
    rw [length_buffer hmalloc, Nat.mod_eq_of_lt (by omega)]
  | none =>
    obtain rfl : pages = 0 := hroom.resolve_right (by simp [hmalloc])
    rw [buffer, hmalloc, Nat.zero_mul, List.length_nil]

theorem printRdwr_of_fits {pages : ℕ}
    (hroom : pages = 0 ∨ env.malloc.isSome ∧ pages < 2 ^ 17) :
    printRdwr env pages = .ok (report env pages) := by
  have hfits : pages < 2 ^ 17 := by omega
  have hint : ¬intMax < pages * pageSize := by
    rw [intMax_lt_iff]
    omega
  have hlength := length_buffer_of_fits hroom
  have hread : (List.range 15).mapM (fun i =>
      measureRdmem env (ramp (pages * pageSize)) (pages * pageSize) (16 + i)) = .ok _ :=
    mapM_eq_ok fun _ _ => measureRdmem_ramp
  have hmega : bytes (pages * pageSize) / mega = pages / 32 := by
    rw [bytes_of_lt hfits, mega]
    omega
  rw [printRdwr, if_neg hint, report, ← hmega]
  apply except_bind_eq_ok.mpr
  refine ⟨ramp (pages * pageSize), warmUp_full hlength, ?_⟩
  apply except_bind_eq_ok.mpr
  refine ⟨_, measureWrmem_full (length_ramp _), ?_⟩
  apply except_bind_eq_ok.mpr
  refine ⟨_, hread, ?_⟩
  apply except_bind_eq_ok.mpr
  exact ⟨_, measureRdmem_ramp, rfl⟩

theorem printRdwr_of_short {pages : ℕ} (hint : pages < 2 ^ 19)
    (hshort : (buffer env (pages * pageSize)).length < pages * pageSize) :
    printRdwr env pages = .error (.outOfBounds (buffer env (pages * pageSize)).length) := by
  have hint : ¬intMax < pages * pageSize := by
    rw [intMax_lt_iff]
    omega
  rw [printRdwr, if_neg hint]
  simp only [warmUp_short hshort]
  rfl

/-- The rate of a buffer of `pages` pages, in megabytes a second. -/
def megabytesPerSecond (pages : ℕ) (nsecs : K) : Option K :=
  if nsecs = 0 then none else some (pages / 32 / (nsecs / billion))

theorem map_bytesPerNsec [CharZero K] {pages : ℕ} (hfits : pages < 2 ^ 17) (k : ℕ) :
    (bytesPerNsec env (pages * pageSize) k).map (· * billion / (mega : K)) =
      megabytesPerSecond pages (corrected env k) := by
  rw [bytesPerNsec, megabytesPerSecond, bytes_of_lt hfits]
  split_ifs with hzero
  · rfl
  · rw [Option.map_some]
    congr 1
    simp only [billion, mega]
    push_cast
    field_simp
    ring

theorem printRdwr_eq_ok [CharZero K] {pages : ℕ}
    (hroom : pages = 0 ∨ env.malloc.isSome ∧ pages < 2 ^ 17) :
    printRdwr env pages =
      .ok { megabytes := pages / 32
            writeRate := megabytesPerSecond pages (corrected env 15)
            readRate := megabytesPerSecond pages (corrected env 31) } := by
  have hfits : pages < 2 ^ 17 := by omega
  rw [printRdwr_of_fits hroom, report, map_bytesPerNsec hfits, map_bytesPerNsec hfits]

/-- Without memory the first store already fails. -/
theorem printRdwr_of_null {pages : ℕ} (hmalloc : env.malloc = none) (hpos : 0 < pages)
    (hint : pages < 2 ^ 19) : printRdwr env pages = .error (.outOfBounds 0) := by
  have hlength : (buffer env (pages * pageSize)).length = 0 := by
    rw [buffer, hmalloc, List.length_nil]
  rw [printRdwr_of_short hint (by rw [hlength, pageSize]; omega), hlength]

/-- With `2 ^ 17` pages or more the buffer is `2 ^ 17` pages too short, or a
multiple of that, and the first pass writes beyond it. -/
theorem printRdwr_of_wrapped {pages : ℕ} (hmalloc : env.malloc.isSome) (hwraps : 2 ^ 17 ≤ pages)
    (hint : pages < 2 ^ 19) :
    printRdwr env pages = .error (.outOfBounds (pages % 2 ^ 17 * pageSize)) := by
  obtain ⟨content, hcontent⟩ := Option.isSome_iff_exists.mp hmalloc
  have hlength := length_buffer hcontent pages
  rw [printRdwr_of_short hint (by rw [hlength, pageSize]; omega), hlength]

theorem printRdwr_of_large {pages : ℕ} (hlarge : 2 ^ 19 ≤ pages) :
    printRdwr env pages = .error .overflow := by
  rw [printRdwr, if_pos (intMax_lt_iff.mpr hlarge)]

theorem exists_printRdwr_eq_ok_iff [CharZero K] {pages : ℕ} :
    (∃ r, printRdwr env pages = .ok r) ↔ pages = 0 ∨ env.malloc.isSome ∧ pages < 2 ^ 17 := by
  constructor
  · rintro ⟨r, hr⟩
    rcases Nat.eq_zero_or_pos pages with hzero | hpos
    · exact Or.inl hzero
    have hint : pages < 2 ^ 19 := by
      by_contra hlarge
      rw [printRdwr_of_large (not_lt.mp hlarge)] at hr
      cases hr
    have hmalloc : env.malloc.isSome := by
      rw [← Option.ne_none_iff_isSome]
      intro hnull
      rw [printRdwr_of_null hnull hpos hint] at hr
      cases hr
    refine Or.inr ⟨hmalloc, ?_⟩
    by_contra hwraps
    rw [printRdwr_of_wrapped hmalloc (not_lt.mp hwraps) hint] at hr
    cases hr
  · intro hroom
    exact ⟨_, printRdwr_eq_ok hroom⟩

/-- The run of `print_rdwr` for any number of pages: the values that it prints, or
what stops it. -/
theorem printRdwr_completes_iff [CharZero K] (env : Env K) (pages : ℕ) :
    ((∃ r, printRdwr env pages = .ok r) ↔ pages = 0 ∨ env.malloc.isSome ∧ pages < 2 ^ 17) ∧
      (∀ r, printRdwr env pages = .ok r →
        r.megabytes = pages / 32 ∧
          r.writeRate = megabytesPerSecond pages (corrected env 15) ∧
          r.readRate = megabytesPerSecond pages (corrected env 31)) ∧
      (env.malloc = none → 0 < pages → pages < 2 ^ 19 →
        printRdwr env pages = .error (.outOfBounds 0)) ∧
      (env.malloc.isSome → 2 ^ 17 ≤ pages → pages < 2 ^ 19 →
        printRdwr env pages = .error (.outOfBounds (pages % 2 ^ 17 * pageSize))) ∧
      (2 ^ 19 ≤ pages → printRdwr env pages = .error .overflow) := by
  refine ⟨exists_printRdwr_eq_ok_iff, ?_, printRdwr_of_null, printRdwr_of_wrapped,
    printRdwr_of_large⟩
  intro r hr
  have hroom := exists_printRdwr_eq_ok_iff.mp ⟨r, hr⟩
  rw [printRdwr_eq_ok hroom] at hr
  cases hr
  exact ⟨rfl, rfl, rfl⟩

/-- Memory is there, and each reading of the clock is a second after the last. -/
def eachSecond : Env ℚ where
  malloc := some fun _ => 0
  clock n := ⟨n, 0⟩
  dummy _ := 0

theorem printRdwr_completes_iff_eachSecond :
    ∃ r, printRdwr eachSecond 1024 = .ok r ∧ r.megabytes = 32 := by
  obtain ⟨hiff, hvalues, -⟩ := printRdwr_completes_iff eachSecond 1024
  obtain ⟨r, hr⟩ := hiff.mpr (Or.inr ⟨rfl, by decide⟩)
  exact ⟨r, hr, (hvalues r hr).1⟩

/-- The sizes of the program itself fit, so only memory can be missing. -/
theorem main_completes_iff [CharZero K] {c : CpuFreq} {env : ℕ → Env K} :
    (∃ rs, main c env = .ok rs) ↔
      (initTest c).2 = 0 ∧ ∀ pages ∈ pagesMeasured, (env pages).malloc.isSome := by
  have hsize : ∀ pages ∈ pagesMeasured, 0 < pages ∧ pages < 2 ^ 17 := by decide
  rw [main]
  split_ifs with hinit
  · simp [hinit]
  · push Not at hinit
    constructor
    · rintro ⟨rs, hrs⟩
      refine ⟨hinit, fun pages hpages => ?_⟩
      have hrun := exists_of_mapM_eq_ok hrs pages hpages
      have hroom := exists_printRdwr_eq_ok_iff.mp hrun
      exact (hroom.resolve_left (hsize pages hpages).1.ne').1
    · rintro ⟨-, hmalloc⟩
      exact ⟨_, mapM_eq_ok fun pages hpages =>
        printRdwr_eq_ok (Or.inr ⟨hmalloc pages hpages, (hsize pages hpages).2⟩)⟩

end WholeFunction

end Rpi3Bench.MemoryBandwidth
