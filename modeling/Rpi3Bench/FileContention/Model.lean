import Rpi3Bench.Library.Barrier
import Rpi3Bench.Library.FileSystem
import Rpi3Bench.Library.Transition

/-!
# The competing readers of `file_contention`

`main` starts one thread per iteration of its loop.  It hands the thread a baton
and meets it at a barrier, both of them locals of the loop body.  A step is one
access to what the two share, one call of the library, or one of the calls that
end the whole program when they fail.  `T` is `NUM_THREADS`.
-/

namespace Rpi3Bench.FileContention

abbrev Addr := ℕ

/-- `baton`. -/
structure Baton where
  id : ℤ
  barrier : Addr
  deriving DecidableEq

/-- `main`, or the thread of the `k`-th iteration. -/
inductive Party
  | main
  | child (k : ℕ)
  deriving DecidableEq

/-- The storage that batons and barriers live in. -/
structure Memory where
  baton : Addr → Baton
  barrier : Addr → Barrier Party

/-- Where the compiler puts the locals `b` and `barrier` of the `i`-th iteration;
iterations may share their storage. -/
structure Layout where
  b : ℕ → Addr
  barrier : ℕ → Addr

inductive MainPc
  | setup
  | loop
  | initBarrier
  | setId
  | setBarrier
  | create
  | wait
  | inBarrier
  | usleep
  | measure
  | close
  | done
  deriving DecidableEq

inductive ChildPc
  | unborn
  | readId
  | write
  | openFile
  | readBarrier
  | wait
  | inBarrier
  | reading
  deriving DecidableEq

/-- A thread: its argument `aux`, and what it has read from its baton and done
with it so far. -/
structure Child where
  pc : ChildPc
  aux : Addr
  id : ℤ
  filename : String
  fd : Option String
  barrier : Addr
  deriving DecidableEq

/-- The contents of a file are given by who wrote it last. -/
structure State where
  main : MainPc
  i : ℕ
  children : ℕ → Child
  mem : Memory
  files : FileSystem String Party
  aborted : Bool

/-- `declare` enters the loop body, whose locals may hold anything, as may by
then whatever storage earlier iterations used.  The flag of the other labels is
whether the call of that step succeeds. -/
inductive Label
  | declare (garbage : Memory)
  | main (ok : Bool)
  | child (k : ℕ) (ok : Bool)

/-- The `snprintf` of `child`; the digits of an `int` always fit the buffer. -/
def fileName (id : ℤ) : String := "test" ++ toString id ++ ".file"

namespace State

/-- A failed assertion, or `exit(1)`. -/
def abort (s : State) : State := { s with aborted := true }

def setChild (s : State) (k : ℕ) (c : Child) : State :=
  { s with children := Function.update s.children k c }

def setBaton (s : State) (a : Addr) (b : Baton) : State :=
  { s with mem := { s.mem with baton := Function.update s.mem.baton a b } }

def setBarrier (s : State) (a : Addr) (b : Barrier Party) : State :=
  { s with mem := { s.mem with barrier := Function.update s.mem.barrier a b } }

/-- A party goes to wait in the barrier. -/
def block (s : State) : Party → State
  | .main => { s with main := .inBarrier }
  | .child k => s.setChild k { s.children k with pc := .inBarrier }

/-- A party comes out of the barrier. -/
def release (s : State) : Party → State
  | .main => { s with main := .usleep }
  | .child k => s.setChild k { s.children k with pc := .reading }

/-- `pthread_barrier_wait` on the barrier at `a`. -/
def arrive (s : State) (a : Addr) (p : Party) : State :=
  let r := (s.mem.barrier a).arrive p
  r.2.foldl release ((s.setBarrier a r.1).block p)

end State

variable (T : ℕ) (lay : Layout)

/-- The next step of `main`.  In the step to `measure` and out of it the label
of the measurement is `i+1`. -/
def mainStep (s : State) (ok : Bool) : Option State :=
  match s.main with
  | .setup =>
    -- `init_test`, writing the test file and opening it, before there are threads
    if ok then some { s with files := s.files.write "test.file" .main, main := .loop }
    else some s.abort
  | .loop => if s.i < T then none else some { s with main := .close }
  | .initBarrier =>
    if ok then some { s.setBarrier (lay.barrier s.i) (Barrier.init 2) with main := .setId }
    else some s.abort
  | .setId =>
    some { s.setBaton (lay.b s.i) { s.mem.baton (lay.b s.i) with id := s.i } with
      main := .setBarrier }
  | .setBarrier =>
    some { s.setBaton (lay.b s.i) { s.mem.baton (lay.b s.i) with barrier := lay.barrier s.i } with
      main := .create }
  | .create =>
    if ok then
      some { s.setChild s.i { s.children s.i with pc := .readId, aux := lay.b s.i } with
        main := .wait }
    else some s.abort
  | .wait => some (s.arrive (lay.barrier s.i) .main)
  | .inBarrier => none
  | .usleep => some { s with main := .measure }
  | .measure => if ok then some { s with i := s.i + 1, main := .loop } else some s.abort
  | .close => some { s with files := s.files.unlink "test.file", main := .done }
  | .done => none

/-- The next step of `child` in the `k`-th thread. -/
def childStep (s : State) (k : ℕ) (ok : Bool) : Option State :=
  let c := s.children k
  match c.pc with
  | .unborn => none
  | .readId =>
    let id := (s.mem.baton c.aux).id
    some (s.setChild k { c with pc := .write, id := id, filename := fileName id })
  | .write =>
    if ok then
      some { s.setChild k { c with pc := .openFile } with
        files := s.files.write c.filename (.child k) }
    else some s.abort
  | .openFile =>
    if ok ∧ (s.files c.filename).isSome then
      some (s.setChild k { c with pc := .readBarrier, fd := some c.filename })
    else some s.abort
  | .readBarrier =>
    some (s.setChild k { c with pc := .wait, barrier := (s.mem.baton c.aux).barrier })
  | .wait => some (s.arrive c.barrier (.child k))
  | .inBarrier => none
  | .reading => some s

/-- One step of the program, which is over when `main` returns or anything aborts. -/
def step (s : State) (l : Label) : Option State :=
  if s.aborted ∨ s.main = .done then none
  else match l with
    | .declare garbage =>
      if s.main = .loop ∧ s.i < T then some { s with mem := garbage, main := .initBarrier }
      else none
    | .main ok => mainStep T lay s ok
    | .child k ok => childStep s k ok

/-- Before the run, with any files and anything in memory. -/
def start (files : FileSystem String Party) (mem : Memory) : State where
  main := .setup
  i := 0
  children _ := ⟨.unborn, 0, 0, "", none, 0⟩
  mem := mem
  files := files
  aborted := false

/-- The `num_threads` that `measure_read_time` is called with. -/
def State.numThreads (s : State) : ℕ := s.i + 1

/-- The threads that are past their barrier. -/
def State.readers (s : State) : Set ℕ := {k | (s.children k).pc = .reading}

end Rpi3Bench.FileContention
