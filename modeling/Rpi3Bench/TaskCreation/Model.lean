import Rpi3Bench.Common

/-!
# The benchmark of thread and process creation

`task_creation` as a sequence of system calls.  The machine admits a new thread
or child process as long as fewer than `limit` are alive or not yet reclaimed;
the program joins, detaches and waits for none of them.
-/

namespace Rpi3Bench.TaskCreation

/-- `NUM_THREADS`. -/
def numThreads : ℕ := 100

/-- `MEASUREMENTS`. -/
def measurements : ℕ := 30

inductive Creation
  | pthreadCreate
  | fork
  | vfork
  deriving DecidableEq

/-- A line of `measure_30_times`, with the array that its statistics are of. -/
structure Line (K : Type) where
  name : String
  numThreads : ℕ
  measureArray : List K

/-- What the outside sees of a run. -/
inductive Event (K : Type)
  | created (how : Creation) (ok : Bool)
  | text (s : String)
  | line (l : Line K)

/-- A call of one of the measure functions: its argument, whether each of the
timed creations succeeded, and the value returned. -/
structure Measured (K : Type) where
  how : Creation
  num : ℕ
  outcomes : List Bool
  value : K

structure Machine (K : Type) where
  limit : ℕ
  clock : ℕ → Timespec K
  cpu : CpuFreq

/-- `tasks` counts the threads and child processes not yet reclaimed, and
`readings` the readings of the clock. -/
structure World (K : Type) where
  tasks : ℕ
  readings : ℕ
  events : List (Event K)
  measured : List (Measured K)

/-- Before the run, next to `tasks` others. -/
def World.start {K : Type} (tasks : ℕ) : World K := ⟨tasks, 0, [], []⟩

section Program

variable {K : Type} [Field K] (mc : Machine K)

def clockGettime : StateM (World K) (Timespec K) := fun w =>
  (mc.clock w.readings, { w with readings := w.readings + 1 })

/-- `pthread_create`, `fork` or `vfork`, and whether it succeeded. -/
def create (how : Creation) : StateM (World K) Bool := fun w =>
  if w.tasks < mc.limit then
    (true, { w with tasks := w.tasks + 1, events := w.events ++ [.created how true] })
  else (false, { w with events := w.events ++ [.created how false] })

def emit (e : Event K) : StateM (World K) Unit := fun w =>
  ((), { w with events := w.events ++ [e] })

/-- The common body of the measure functions.  The outcomes are recorded here;
the program looks at none of them, and a failed `fork` differs from a
successful one only in that there is no child to leave the loop. -/
def measureCreation (how : Creation) (num : ℕ) : StateM (World K) K := do
  let start ← clockGettime mc
  let outcomes ← (List.range num).mapM fun _ => create mc how
  let stop ← clockGettime mc
  -- the cost of a reading comes off after the division
  let value := timespecDiffToNsecs start stop / num - forLoopOverhead - getTimeOverhead
  modify fun w => { w with measured := w.measured ++ [⟨how, num, outcomes, value⟩] }
  return value

def measureThreadCreation (numThreads : ℕ) : StateM (World K) K :=
  measureCreation mc .pthreadCreate numThreads

def measureProcessCreation (numProcesses : ℕ) : StateM (World K) K :=
  measureCreation mc .fork numProcesses

def measureVprocessCreation (numProcesses : ℕ) : StateM (World K) K :=
  measureCreation mc .vfork numProcesses

/-- `measure_30_times`, for a measure that acts on any state.  The label and the
number of threads measured are different variables. -/
def measure30Times {σ : Type} (print : Line K → StateM σ Unit) (measure : ℕ → StateM σ K)
    (num : ℕ) (name : String) : StateM σ Unit := do
  -- `measure(NUM_THREADS)`, whatever the label is
  let measureArray ← (List.range measurements).mapM fun _ => measure numThreads
  print { name := name, numThreads := num, measureArray := measureArray }

def printThreads (num : ℕ) : StateM (World K) Unit :=
  measure30Times (fun l => emit (.line l)) (measureThreadCreation mc) num "threads"

def printProcesses (num : ℕ) : StateM (World K) Unit :=
  measure30Times (fun l => emit (.line l)) (measureProcessCreation mc) num "processes (fork)"

def printVprocesses (num : ℕ) : StateM (World K) Unit :=
  measure30Times (fun l => emit (.line l)) (measureVprocessCreation mc) num "processes (vfork)"

/-- `main`; a failed assertion ends the run. -/
def main : StateM (World K) Unit := do
  emit (.text (initTest mc.cpu).1)
  if (initTest mc.cpu).2 = 0 then
    printThreads mc 10
    printThreads mc 100
    printThreads mc 1000
    printThreads mc 10000
    printThreads mc 100000
    printProcesses mc 100
    printVprocesses mc 100

end Program

end Rpi3Bench.TaskCreation
