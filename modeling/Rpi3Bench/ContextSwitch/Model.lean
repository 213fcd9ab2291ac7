import Rpi3Bench.Library.Futex
import Rpi3Bench.Library.Transition

/-!
# The futex ping-pong of the context switch benchmarks

`process_context_switch` and `thread_context_switch` run the same two loops on
one futex word.  The parent side (`main`) stores `0xA`, wakes the other side
and waits for `0xB`; the child side (the forked process, or `thread`) waits for
`0xA`, stores `0xB` and wakes the parent.  They differ in how they start, and in
what happens behind the loops, which is left to `Program`.

A step is one atomic action of one side: a store, a futex system call up to the
point where it blocks or returns, the return from a blocked wait, a
`sched_yield`, or the test of the `for` loop.  `N` is `PER_PROCESS_TEST_COUNT`
(`PER_THREAD_TEST_COUNT`).
-/

namespace Rpi3Bench.ContextSwitch

inductive Variant
  | process
  | thread
  deriving DecidableEq

inductive Side
  | parent
  | child
  deriving DecidableEq

/-- Where the parent side stands; `inWait` is inside the `FUTEX_WAIT` call. -/
inductive ParentPc
  | setup
  | loop
  | store
  | wake
  | wakeRetry
  | yield
  | wait
  | inWait
  | waitRetry
  | done
  deriving DecidableEq

/-- Where the child side stands. -/
inductive ChildPc
  | setup
  | loop
  | yield
  | wait
  | inWait
  | waitRetry
  | store
  | wake
  | wakeRetry
  | done
  deriving DecidableEq

/-- Successful wakes and zero returns of a wait, counted on each side. -/
structure Counts where
  wp : ℕ
  rc : ℕ
  wc : ℕ
  rp : ℕ
  deriving DecidableEq

/-- The shared futex, and for each side its program point and loop counter. -/
structure State where
  futex : Futex Side
  parent : ParentPc
  i : ℕ
  child : ChildPc
  j : ℕ
  counts : Counts
  deriving DecidableEq

/-- `run` lets a side take its next step.  The other two end a blocked wait:
`interrupt` with a nonzero return, `stray` with a zero return that no wake
caused. -/
inductive Event
  | run
  | interrupt
  | stray
  deriving DecidableEq

abbrev Label := Side × Event

/-- The word the child waits on, and the parent stores. -/
def ping : ℤ := 0xA

/-- The word the parent waits on, and the child stores. -/
def pong : ℤ := 0xB

/-- A zero return from the parent's wait ends the round. -/
def State.parentReturns (s : State) (f : Futex Side) : State :=
  { s with
    futex := f
    parent := .loop
    i := s.i + 1
    counts := { s.counts with rp := s.counts.rp + 1 } }

/-- A zero return from the child's wait leads to its store. -/
def State.childReturns (s : State) (f : Futex Side) : State :=
  { s with
    futex := f
    child := .store
    counts := { s.counts with rc := s.counts.rc + 1 } }

/-- The next step of `main` (the parent). -/
def parentRun (N : ℕ) (s : State) : Option State :=
  match s.parent with
  | .setup => some { s with futex := s.futex.store ping, parent := .loop }
  | .loop => some { s with parent := if s.i < N then .store else .done }
  | .store => some { s with futex := s.futex.store ping, parent := .wake }
  | .wake =>
    let (f, woken) := s.futex.wake 1
    if woken = 0 then some { s with futex := f, parent := .wakeRetry }
    else some { s with
      futex := f
      parent := .yield
      counts := { s.counts with wp := s.counts.wp + 1 } }
  | .wakeRetry => some { s with parent := .wake }
  | .yield => some { s with parent := .wait }
  | .wait =>
    match s.futex.wait .parent pong with
    | some f => some { s with futex := f, parent := .inWait }
    | none => some { s with parent := .waitRetry }
  | .inWait => if s.futex.Blocked .parent then none else some (s.parentReturns s.futex)
  | .waitRetry => some { s with parent := .wait }
  | .done => none

/-- The next step of the child process, or of `thread`. -/
def childRun (N : ℕ) (s : State) : Option State :=
  match s.child with
  | .setup => some { s with futex := s.futex.store ping, child := .loop }
  | .loop => some { s with child := if s.j < N then .yield else .done }
  | .yield => some { s with child := .wait }
  | .wait =>
    match s.futex.wait .child ping with
    | some f => some { s with futex := f, child := .inWait }
    | none => some { s with child := .waitRetry }
  | .inWait => if s.futex.Blocked .child then none else some (s.childReturns s.futex)
  | .waitRetry => some { s with child := .wait }
  | .store => some { s with futex := s.futex.store pong, child := .wake }
  | .wake =>
    let (f, woken) := s.futex.wake 1
    if woken = 0 then some { s with futex := f, child := .wakeRetry }
    else some { s with
      futex := f
      child := .loop
      j := s.j + 1
      counts := { s.counts with wc := s.counts.wc + 1 } }
  | .wakeRetry => some { s with child := .wake }
  | .done => none

/-- One atomic step of the two sides. -/
def step (N : ℕ) (s : State) : Label → Option State
  | (.parent, .run) => parentRun N s
  | (.parent, .interrupt) =>
    if s.futex.Blocked .parent then
      some { s with futex := s.futex.unqueue .parent, parent := .waitRetry }
    else none
  | (.parent, .stray) =>
    if s.futex.Blocked .parent then some (s.parentReturns (s.futex.unqueue .parent)) else none
  | (.child, .run) => childRun N s
  | (.child, .interrupt) =>
    if s.futex.Blocked .child then
      some { s with futex := s.futex.unqueue .child, child := .waitRetry }
    else none
  | (.child, .stray) =>
    if s.futex.Blocked .child then some (s.childReturns (s.futex.unqueue .child)) else none

/-- Right after `fork` or `pthread_create`, on the zeroed shared segment.  The
forked child executes the initial store too; `thread` enters its loop at once. -/
def start (v : Variant) : State where
  futex := ⟨0, []⟩
  parent := .setup
  i := 0
  child := match v with
    | .process => .setup
    | .thread => .loop
  j := 0
  counts := ⟨0, 0, 0, 0⟩

/-- A wait that returns zero only when a wake dequeued it. -/
def Genuine (l : Label) : Prop := l.2 ≠ .stray

instance (l : Label) : Decidable (Genuine l) := inferInstanceAs (Decidable (_ ≠ _))

/-- The states that some interleaving without stray wake-ups leads to. -/
def Reachable (v : Variant) (N : ℕ) (s : State) : Prop :=
  Transition.Reaches (step N) Genuine (start v) s

/-- Both sides have completed their `N` rounds. -/
def Completed (N : ℕ) (s : State) : Prop :=
  s.parent = .done ∧ s.child = .done ∧ s.i = N ∧ s.j = N

instance (N : ℕ) (s : State) : Decidable (Completed N s) :=
  inferInstanceAs (Decidable (_ ∧ _ ∧ _ ∧ _))

end Rpi3Bench.ContextSwitch
