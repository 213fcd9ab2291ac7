import Rpi3Bench.PageAccess.PrintedFigures

/-!
# The run of `file_cache`

`main` calls `print_for` for sixteen sizes, each of which writes its file, maps
it, and reads the clock around six passes.  The lines are those handed to
`printf`; a run that ends early does not write out what `stdout` still buffers.
-/

namespace Rpi3Bench.PageAccess.FileCache

/-- What the calls of the run return: for each call of `print_for` those of
`write_to_disk`, `mmap` (with the `open` before it) and `munmap`, for each pass
what `dummy` holds at first, and the readings of the clock in their order. -/
structure Env (K : Type) where
  initTest : Bool
  calls : ℕ → FileCalls
  mmap : ℕ → Bool
  munmap : ℕ → Bool
  garbage : ℕ → BitVec 32
  clock : ℕ → Timespec K

structure Line (K : Type) where
  numPages : ℕ
  cyclesPerPage : K

def minFsBits : ℕ := 12

def maxFsBits : ℕ := 28

section Program

variable {K : Type} [Field K] (env : Env K)

/-- What call `k` of `measure_fc_access` returns. -/
def Env.time (k : ℕ) : K := timespecDiffToNsecs (env.clock (2 * k)) (env.clock (2 * k + 1))

/-- `print_for` up to its `printf`: the value of `read_time`. -/
def readTime (c numPages : ℕ) : Except Stop K := do
  let file ← writeToDisk (env.calls c) numPages
  if !env.mmap c then .error (.assertion "mmap failed.")
  else do
    let mem := mapping file
    -- populate the file cache
    let _ ← (List.range 3).mapM fun i => measure env.time env.garbage mem numPages (6 * c + i)
    let times ← (List.range 3).mapM fun i =>
      measure env.time env.garbage mem numPages (6 * c + 3 + i)
    return times.foldl (· + ·) 0 / 3

/-- Call `c` of `print_for`: the line printed, if any, and why it ends early. -/
def printFor (c numBytes : ℕ) : List (Line K) × Option Stop :=
  let numPages := numBytes / 4096
  match readTime env c numPages with
  | .error stop => ([], some stop)
  | .ok readTime =>
    ([{ numPages := numPages, cyclesPerPage := readTime / nsecsPerCycle }],
      if env.munmap c then none else some (.assertion "munmap failed."))

/-- The loop of `main` over `n` values of `fs_bits` from call number `c` on. -/
def printAll : (n c : ℕ) → List (Line K) × Option Stop
  | 0, _ => ([], none)
  | n + 1, c =>
    match printFor env c (1 <<< (minFsBits + c)) with
    | (lines, some stop) => (lines, some stop)
    | (lines, none) =>
      let (more, stop) := printAll n (c + 1)
      (lines ++ more, stop)

def main : List (Line K) × Option Stop :=
  if env.initTest then printAll env (maxFsBits - minFsBits) 0
  else ([], some (.assertion "Could not initialize."))

/-- The line of call `c`: the mean of its last three times, in cycles. -/
def lineAt (c : ℕ) : Line K where
  numPages := 2 ^ c
  cyclesPerPage :=
    (env.time (6 * c + 3) + env.time (6 * c + 4) + env.time (6 * c + 5)) / 3 / nsecsPerCycle

/-- The lines of all sizes. -/
def table : List (Line K) := (List.range (maxFsBits - minFsBits)).map (lineAt env)

end Program

section Run

variable {K : Type} [Field K] {env : Env K}

/-- What call `c` has on the disk when all its calls of `fputc` succeed. -/
def Env.file (env : Env K) (c : ℕ) : List (BitVec 8) :=
  (List.range ((env.calls c).size (2 ^ c))).map fun i => BitVec.ofNat 8 i

/-- What a pass of call `c` adds to `dummy`. -/
def Env.sum (env : Env K) (c : ℕ) : ℤ := touchedSum (mapping (env.file c)) (touched (2 ^ c))

/-- The file of call `c` can be written and mapped, its pages reach to all that is
read, and no sum overflows. -/
structure Env.Prints (env : Env K) (c : ℕ) : Prop where
  fopen : (env.calls c).fopen = true
  fputc : ∀ i < pageSize * 2 ^ c, (env.calls c).fputc i = true
  mmap : env.mmap c = true
  reaches : (env.calls c).Reaches (2 ^ c)
  sums : ∀ i < 6, (env.garbage (6 * c + i)).toInt + env.sum c ≤ intMax

/-- What can end call `c` early: an assertion, a bus error when `fclose` has failed
and the file is too short, or an overflow of `dummy`. -/
inductive Env.Ends (env : Env K) (c : ℕ) : Stop → Prop
  | assertion (message : String) : env.Ends c (.assertion message)
  | busError (index : ℕ) (hclose : (env.calls c).fclose ≠ none)
      (hshort : ¬(env.calls c).Reaches (2 ^ c)) : env.Ends c (.fault (.outOfBounds index))
  | overflow (i : ℕ) (hi : i < 6) (hsum : intMax < (env.garbage (6 * c + i)).toInt + env.sum c) :
      env.Ends c (.fault .overflow)

variable {c : ℕ} {file : List (BitVec 8)} {stop : Stop}

end Run

end Rpi3Bench.PageAccess.FileCache
