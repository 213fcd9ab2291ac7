import Rpi3Bench.Common

/-!
# The blocks that `measure_fc_access` reads

The functions of this name in `file_read` and in `file_contention`, with the
offsets they pass to `pread`.  An access to `indices` outside its bounds, a
division by zero and an offset that does not fit an `int` are errors, so a
result means that there was none of them.
-/

namespace Rpi3Bench.BlockAccess

/-- `BLOCK_SIZE`. -/
def blockSize : ℕ := 4096

/-- `INT_MAX`. -/
def intMax : ℕ := 2 ^ 31 - 1

inductive Fault
  | outOfBounds (index : ℕ)
  | divisionByZero
  | overflow (index : ℕ)
  /-- `system("sync; echo 1 >|/proc/sys/vm/drop_caches") == 0` -/
  | dropCaches
  | exit (status : ℤ)
  deriving DecidableEq

/-- What a call finds outside the program: the values of its calls of `rand` in
their order, whether the caches can be dropped and the buffer be allocated, and
the two readings of the clock. -/
structure Env (K : Type) where
  rand : ℕ → ℕ
  dropCaches : Bool
  memalign : Bool
  start : Timespec K
  stop : Timespec K

/-- The offsets of the `pread` calls in their order, and the value returned. -/
structure Measured (K : Type) where
  offsets : List ℕ
  time : K
  deriving DecidableEq

/-! ## The shuffle -/

/-- `indices[i]`. -/
def readEntry (indices : List ℕ) (i : ℕ) : Except Fault ℕ :=
  match indices[i]? with
  | some v => .ok v
  | none => .error (.outOfBounds i)

/-- `indices[i] = v`. -/
def writeEntry (indices : List ℕ) (i v : ℕ) : Except Fault (List ℕ) :=
  if i < indices.length then .ok (indices.set i v) else .error (.outOfBounds i)

/-- `r % i`. -/
def modulo (r i : ℕ) : Except Fault ℕ :=
  if i = 0 then .error .divisionByZero else .ok (r % i)

def swapEntries (indices : List ℕ) (i j : ℕ) : Except Fault (List ℕ) := do
  let temp ← readEntry indices i
  let other ← readEntry indices j
  let indices ← writeEntry indices i other
  writeEntry indices j temp

/-- The loop of the shuffle, entered with loop variable `i`; `rand` holds the
values of the calls still to come. -/
def shuffleFrom (rand : ℕ → ℕ) : ℕ → List ℕ → Except Fault (List ℕ)
  | 0, indices => .ok indices
  | i + 1, indices => do
    -- `rand() % i`, so never the entry itself
    let j ← modulo (rand 0) (i + 1)
    let indices ← swapEntries indices (i + 1) j
    shuffleFrom (fun k => rand (k + 1)) i indices

/-- `indices` after the shuffle. -/
def shuffle (rand : ℕ → ℕ) (numBlocks : ℕ) : Except Fault (List ℕ) :=
  shuffleFrom rand (numBlocks - 1) (List.range numBlocks)

/-! ## The two functions -/

/-- `indices` when the timed loop of `file_read` starts. -/
def indicesFor (rand : ℕ → ℕ) (numBlocks : ℕ) (isRandomAccess : Bool) : Except Fault (List ℕ) :=
  if isRandomAccess then shuffle rand numBlocks else .ok (List.range numBlocks)

/-- `index*BLOCK_SIZE`, a product of two `int`s. -/
def blockOffset (index : ℕ) : Except Fault ℕ :=
  if index * blockSize ≤ intMax then .ok (index * blockSize) else .error (.overflow index)

/-- The timed loop of `file_read`: the offsets `indices[i]*BLOCK_SIZE`. -/
def readBlocks (indices : List ℕ) (numBlocks : ℕ) : Except Fault (List ℕ) :=
  (List.range numBlocks).mapM fun i => do
    let index ← readEntry indices i
    blockOffset index

section Functions

variable {K : Type} [Field K] (env : Env K)

/-- The value that both functions return. -/
def blockTime (numBlocks : ℕ) : K :=
  timespecDiffToNsecs env.start env.stop - numBlocks * forLoopOverhead - getTimeOverhead

/-- `measure_fc_access` of `file_read`. -/
def FileRead.measureFcAccess (numBlocks : ℕ) (isRandomAccess : Bool) :
    Except Fault (Measured K) := do
  let indices ← indicesFor env.rand numBlocks isRandomAccess
  if env.memalign then
    let offsets ← readBlocks indices numBlocks
    return { offsets := offsets, time := blockTime env numBlocks }
  else throw (.exit 1)

/-- `measure_fc_access` of `file_contention`. -/
def FileContention.measureFcAccess (numBlocks : ℕ) : Except Fault (Measured K) :=
  if !env.dropCaches then throw .dropCaches
  else if env.memalign then do
    let offsets ← (List.range numBlocks).mapM blockOffset
    return { offsets := offsets, time := blockTime env numBlocks }
  else throw (.exit 1)

end Functions

end Rpi3Bench.BlockAccess
