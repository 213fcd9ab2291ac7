import Rpi3Bench.BlockAccess.Model
import Rpi3Bench.Library.ForkedOutput
import Rpi3Bench.Library.LinkedFiles

/-!
# The program `file_read`

`write_to_disk`, `print_for` and `main`, with the files that they write, read
and delete and with what they print.  `abort` does not write out what `stdout`
still buffers, and `exit` does.
-/

namespace Rpi3Bench.FileRead

open ForkedOutput (Mode Stream Text)

def blockSize : ℕ := 4096

def maxFsBits : ℕ := 31

def minFsBits : ℕ := maxFsBits - 10

inductive Assertion
  /-- `init_test() == 0 && "Could not initialize."` -/
  | initTest
  /-- `argc == 2 && "usage: file_read.out target_file"` -/
  | usage
  /-- `system(buf) == 0` -/
  | dd
  /-- `system("sync; echo 1 >|/proc/sys/vm/drop_caches") == 0` -/
  | dropCaches
  /-- `fd != -1 && "open() failed."` -/
  | openFailed
  deriving DecidableEq

/-- Why a run ends early: an assertion, or what `measure_fc_access` comes to. -/
inductive Stop
  | assertion (a : Assertion)
  | fault (f : BlockAccess.Fault)
  deriving DecidableEq

/-- The operands of the `dd` command that `write_to_disk` prints into `buf`. -/
structure Dd where
  inputFile : String
  outputFile : String
  count : ℕ
  bs : ℕ
  deriving DecidableEq

/-- What a run of `dd` wrote or a `measure_fc_access` read, in which file, and
the name that the links to it ended at. -/
structure Transfer (ν κ : Type) where
  name : ν
  file : ℕ
  blocks : ℕ
  data : κ
  deriving DecidableEq

/-- Everything outside the program: the cpufreq interface, what the `k`-th run of
`dd` reads from its input file, which directory entry a name denotes, what the
`k`-th `print_for` meets, the buffering of standard output, and `%.2f`. -/
structure Env (ν κ K : Type) where
  cpu : CpuFreq
  urandom : (k : ℕ) → (bytes : ℕ) → κ
  resolve : String → ν
  calls : ℕ → BlockAccess.Env K
  mode : Mode
  twoDecimals : K → String

/-- The files, the runs of `dd` and the calls of `measure_fc_access` so far, and
standard output. -/
structure World (ν κ : Type) where
  fs : LinkedFiles ν κ
  writes : List (Transfer ν κ)
  reads : List (Transfer ν κ)
  stdout : Stream

/-- A run that stops keeps what it has done. -/
abbrev Run (ν κ : Type) := EStateM Stop (World ν κ)

section Program

variable {ν κ K : Type} [DecidableEq ν] [Field K] (env : Env ν κ K)

def assert (b : Bool) (a : Assertion) : Run ν κ Unit :=
  if b then pure () else throw (.assertion a)

def printf (text : String) : Run ν κ Unit :=
  modify fun w => { w with stdout := w.stdout.print env.mode text.toList }

/-- `system(buf)` on a `dd` command, and the assertion on its result.  It creates
or overwrites its output file, through links; it can fail to only on too many. -/
def systemDd (cmd : Dd) : Run ν κ Unit := do
  let w : World ν κ ← get
  let data := env.urandom w.writes.length (cmd.count * cmd.bs)
  match w.fs.follow (env.resolve cmd.outputFile) with
  | none => throw (.assertion .dd)
  | some name =>
    let written : Transfer ν κ :=
      { name := name, file := w.fs.numberFor name, blocks := cmd.count, data := data }
    set { w with fs := w.fs.put name data, writes := w.writes ++ [written] }

/-- `write_to_disk`; its command names `test.file` whatever the file name. -/
def writeToDisk (_filename : String) (numBlocks : ℕ) : Run ν κ Unit :=
  systemDd env { inputFile := "/dev/urandom", outputFile := "test.file",
                 count := numBlocks, bs := 4096 }

/-- `open` for reading, and the assertion on its result.  A descriptor stands for
the file. -/
def openFile (path : ν) : Run ν κ (ν × ℕ) := do
  let w : World ν κ ← get
  match w.fs.lookup path with
  | none => throw (.assertion .openFailed)
  | some fd => pure fd

/-- `measure_fc_access`; call number `k` of it meets `calls k`. -/
def measureFcAccess (fd : ν × ℕ) (numBlocks : ℕ) (isRandomAccess : Bool) : Run ν κ K := do
  let w : World ν κ ← get
  match BlockAccess.FileRead.measureFcAccess (env.calls w.reads.length) numBlocks
      isRandomAccess with
  | .error (.exit status) =>
    -- `puts` ends the line a second time
    printf env "Error allocating aligned mem.\n\n"
    throw (.fault (.exit status))
  | .error f => throw (.fault f)
  | .ok m =>
    let read : Transfer ν κ :=
      { name := fd.1, file := fd.2, blocks := numBlocks, data := w.fs.content fd.2 }
    set { w with reads := w.reads ++ [read] }
    return m.time

def printFor (numBytes : ℕ) (isRandomAccess : Bool) (filename : String) : Run ν κ Unit := do
  let numBlocks := numBytes / blockSize
  writeToDisk env filename numBlocks
  let w : World ν κ ← get
  assert (env.calls w.reads.length).dropCaches .dropCaches
  let fd ← openFile (env.resolve filename)
  let readTime ← measureFcAccess env fd numBlocks isRandomAccess
  printf env (toString (numBlocks * blockSize / 1024 / 1024) ++ " MB: " ++
    env.twoDecimals (readTime / (1000 : ℕ) / numBlocks) ++ " us/block\n")
  modify fun w => { w with fs := w.fs.unlink (env.resolve filename) }

/-- The argument of `print_for` in each iteration of `main`'s loop. -/
def sizes : List ℕ := (List.range' minFsBits (maxFsBits - minFsBits)).map fun fsBits => 1 <<< fsBits

/-- `main`, with `argv`.  Its random half is commented out. -/
def main (argv : List String) : Run ν κ Unit := do
  printf env (initTest env.cpu).1
  assert ((initTest env.cpu).2 == 0) .initTest
  assert (argv.length == 2) .usage
  printf env ("\nSequential on file " ++ argv.getD 1 "" ++ ":\n")
  sizes.forM fun numBytes => printFor env numBytes false (argv.getD 1 "")

end Program

/-- Before the run. -/
def start {ν κ : Type} (fs : LinkedFiles ν κ) : World ν κ := ⟨fs, [], [], ⟨[], []⟩⟩

/-- What has reached standard output when a run is over. -/
def output {ν κ : Type} : EStateM.Result Stop (World ν κ) Unit → Text
  | .ok _ w => w.stdout.flush.written
  | .error (.fault (.exit _)) w => w.stdout.flush.written
  | .error _ w => w.stdout.written

/-- A terminal, and a machine on which everything outside the program succeeds at
once, with names that are their own entries. -/
def plainEnv : Env String Unit ℚ where
  cpu := ⟨true, some 1200000, true, 1200000⟩
  urandom _ _ := ()
  resolve := id
  calls _ := ⟨fun _ => 0, true, true, ⟨0, 0⟩, ⟨0, 0⟩⟩
  mode := .line 1024
  twoDecimals _ := "0.00"

end Rpi3Bench.FileRead
