import Rpi3Bench.ContextSwitch.Model

/-!
# The two programs that time a futex call

`futex_wait` and `futex_wake` differ in two lines: in the one the parent times
`FUTEX_WAIT` while the child wakes for ever, in the other the parent times
`FUTEX_WAKE` while the child waits for ever.  Nobody looks at what the calls
return, and the word keeps its initial `0xA`.

A step is one atomic action of one process, as for the ping-pong, and `N` is
`TEST_COUNT_PER_PROCESS`.  Both processes have the segment attached, and signals
are such as a process survives.
-/

namespace Rpi3Bench.FutexOverhead

open ContextSwitch (Side Event Label ping)

inductive Program
  | futexWait
  | futexWake
  deriving DecidableEq

inductive Call
  | wait
  | wake
  deriving DecidableEq

/-- The call in the loop of each process. -/
def Program.call : Program → Side → Call
  | .futexWait, .parent | .futexWake, .child => .wait
  | .futexWait, .child | .futexWake, .parent => .wake

/-- The process that waits. -/
def Program.waiter : Program → Side
  | .futexWait => .parent
  | .futexWake => .child

/-- The process that wakes. -/
def Program.waker : Program → Side
  | .futexWait => .child
  | .futexWake => .parent

/-- Where a process stands.  `loop` is the test of its loop, which for the child
is `while(1)`; only the parent comes to `print` and to the call of `waitpid`. -/
inductive Pc
  | store
  | setCpu
  | loop
  | call
  | inWait
  | print
  | waitpid
  | done
  deriving DecidableEq

/-- What has become of the futex calls: waits that blocked and waits that did
not, blocked waits that returned, wakes that found the waiter and wakes that
did not, and blocked waits that a signal ended or a stray wake-up. -/
structure Counts where
  blocked : ℕ
  refused : ℕ
  returned : ℕ
  woke : ℕ
  idle : ℕ
  interrupted : ℕ
  stray : ℕ
  deriving DecidableEq

/-- One more wait that ended without a wake. -/
def Counts.countEnd (c : Counts) : Event → Counts
  | .run => c
  | .interrupt => { c with interrupted := c.interrupted + 1 }
  | .stray => { c with stray := c.stray + 1 }

/-- `i` is the loop counter of the parent. -/
structure State where
  futex : Futex Side
  pc : Side → Pc
  i : ℕ
  counts : Counts

namespace State

def setPc (s : State) (side : Side) (pc : Pc) : State :=
  { s with pc := Function.update s.pc side pc }

/-- The futex call of `side` is over. -/
def callReturns (s : State) (side : Side) : State :=
  { s.setPc side .loop with
    i := match side with
      | .parent => s.i + 1
      | .child => s.i }

/-- `FUTEX_WAIT` for `0xA`. -/
def waitCall (s : State) (side : Side) : State :=
  match s.futex.wait side ping with
  | some f =>
    { s.setPc side .inWait with
      futex := f
      counts := { s.counts with blocked := s.counts.blocked + 1 } }
  | none =>
    { s with counts := { s.counts with refused := s.counts.refused + 1 } }.callReturns side

/-- `FUTEX_WAKE` of one process. -/
def wakeCall (s : State) (side : Side) : State :=
  let (f, woken) := s.futex.wake 1
  if woken = 0 then
    { s with futex := f, counts := { s.counts with idle := s.counts.idle + 1 } }.callReturns side
  else
    { s with futex := f, counts := { s.counts with woke := s.counts.woke + 1 } }.callReturns side

def futexCall (prog : Program) (s : State) (side : Side) : State :=
  match prog.call side with
  | .wait => s.waitCall side
  | .wake => s.wakeCall side

/-- A process comes out of a wait that it was blocked in. -/
def waitReturns (s : State) (side : Side) : State :=
  { s with counts := { s.counts with returned := s.counts.returned + 1 } }.callReturns side

/-- A signal or a stray wake-up ends the wait of `side`. -/
def endWait (s : State) (side : Side) (event : Event) : State :=
  { s with
    futex := s.futex.unqueue side
    counts := s.counts.countEnd event }.waitReturns side

end State

variable (prog : Program) (N : ℕ)

/-- Where the test of the loop leads. -/
def afterTest (s : State) : Side → Pc
  | .parent => if s.i < N then .call else .print
  | .child => .call

/-- The next step of a process.  `waitpid` returns when the child has terminated. -/
def run (s : State) (side : Side) : Option State :=
  match s.pc side with
  | .store => some { s.setPc side .setCpu with futex := s.futex.store ping }
  | .setCpu => some (s.setPc side .loop)
  | .loop => some (s.setPc side (afterTest N s side))
  | .call => some (s.futexCall prog side)
  | .inWait => if s.futex.Blocked side then none else some (s.waitReturns side)
  | .print => some (s.setPc side .waitpid)
  | .waitpid => if s.pc .child = .done then some (s.setPc side .done) else none
  | .done => none

/-- One atomic step.  It is of no account here whether a wait that no wake ended
returns zero or not. -/
def step (s : State) : Label → Option State
  | (side, .run) => run prog N s side
  | (side, .interrupt) =>
    -- nobody looks at the `EINTR` of `waitpid` either, and the process exits
    if s.pc side = .waitpid then some (s.setPc side .done)
    else if s.futex.Blocked side then some (s.endWait side .interrupt)
    else none
  | (side, .stray) => if s.futex.Blocked side then some (s.endWait side .stray) else none

/-- Right after the `fork`, on the zeroed shared segment. -/
def start : State where
  futex := ⟨0, []⟩
  pc _ := .store
  i := 0
  counts := ⟨0, 0, 0, 0, 0, 0, 0⟩

/-- The states that some interleaving leads to, signals and stray wake-ups
included. -/
def Reachable (s : State) : Prop :=
  Transition.Reaches (step prog N) (fun _ => True) start s

/-- The calls of the waiter that have begun and not returned. -/
def State.pending (s : State) : ℕ := if s.pc prog.waiter = .inWait then 1 else 0

end Rpi3Bench.FutexOverhead
