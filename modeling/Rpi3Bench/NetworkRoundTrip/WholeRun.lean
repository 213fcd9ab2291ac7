import Rpi3Bench.NetworkRoundTrip.Echo
import Rpi3Bench.NetworkRoundTrip.Timing

/-!
# The whole run of `network_round_trip`

`main` pings one address after the other, each over a connection of its own, and
reads the clock around every test.  However the echo is cut up, the run comes to
its end, and what it prints is a function of the readings alone.
-/

namespace Rpi3Bench

/-- The readings from interval `n` on. -/
def Clock.drop (clock : Clock) (n : ℕ) : Clock where
  start k := clock.start (n + k)
  stop k := clock.stop (n + k)
  ordered k := clock.ordered (n + k)

@[simp] theorem Clock.drop_start (clock : Clock) (n k : ℕ) :
    (clock.drop n).start k = clock.start (n + k) := rfl

@[simp] theorem Clock.drop_stop (clock : Clock) (n k : ℕ) :
    (clock.drop n).stop k = clock.stop (n + k) := rfl

theorem addTimes_concat (xs : List ℚ) (x : ℚ) (total : ℕ) :
    addTimes (xs ++ [x]) total = (addTimes xs total).bind fun sum =>
      (toUnsigned 64 x).map fun time => (sum + time) % 2 ^ 64 := by
  induction xs generalizing total with
  | nil =>
    rw [List.nil_append, addTimes, addTimes, Option.bind_some]
    cases toUnsigned 64 x <;> rfl
  | cons y ys ih =>
    rw [List.cons_append, addTimes, addTimes]
    cases toUnsigned 64 y with
    | none => rfl
    | some time => exact ih _

end Rpi3Bench

namespace Rpi3Bench.NetworkRoundTrip

/-- The addresses of `main`. -/
def addresses : List String := ["127.0.0.1", "169.254.5.251"]

/-- The calls that `exit(EXIT_FAILURE)` follows when they fail. -/
inductive Call
  | initTest
  | socket
  | connect
  deriving DecidableEq

/-- What is printed when one of them fails. -/
def Call.message : Call → String
  | .initTest => "FAILURE init_test"
  | .socket => "Failed to CREATE socket"
  | .connect => "Failed to CONNECT to socket.\n"

inductive Phase
  | initTest
  | create
  | connect
  | ping
  | finished
  | failed (call : Call)
  deriving DecidableEq

/-- What goes to the standard output. -/
inductive Output
  | line (line : Line)
  | message (text : String)
  deriving DecidableEq

/-- The program in the call of `tcp_ping` for `address`; `todo` are the addresses
still to come, and `pinged` records those done with.  `timed` counts the pairs of
readings, and there is no output once a conversion was undefined. -/
structure Program where
  phase : Phase
  pinged : List String
  address : String
  todo : List String
  socket : State (List Byte)
  timed : ℕ
  sendStart : Timespec (BitVec 32)
  totalTime : Option ℕ
  output : Option (List Output)

/-- `init` is the call of `init_test`, and `call` one of `socket` or `connect`. -/
inductive Event
  | init
  | call (ok : Bool)
  | net (l : Label)
  deriving DecidableEq

namespace Program

def print (p : Program) (o : Option Output) : Program :=
  { p with output := p.output.bind fun os => o.map fun o => os ++ [o] }

/-- `exit(EXIT_FAILURE)` after the message of a call. -/
def fail (p : Program) (call : Call) : Program :=
  { p.print (some (.message call.message)) with phase := .failed call }

/-- The next call of `tcp_ping`, if there is one. -/
def nextAddress (p : Program) : Program :=
  match p.todo with
  | [] => { p with phase := .finished }
  | address :: rest => { p with phase := .create, address := address, todo := rest }

variable (cpu : CpuFreq) (clock : Clock)

/-- What `tcp_ping` does besides its use of the socket, which goes on to `t`. -/
def goOn (p : Program) (t : State (List Byte)) : Program :=
  let q := { p with socket := t }
  match p.socket.pc, t.pc with
  | .sizes, .tests => { q with totalTime := some 0 }
  | .tests, .receive => { q with sendStart := (clock.start p.timed).toTimespec }
  | .receive, .tests =>
    { q with
      timed := p.timed + 1
      totalTime := p.totalTime.bind fun total =>
        (toUnsigned 64 (roundTripTime p.sendStart (clock.stop p.timed).toTimespec)).map
          fun roundTripTime => (total + roundTripTime) % 2 ^ 64 }
  | .tests, .sizes =>
    q.print (p.totalTime.map fun total : ℕ => .line
      { ipAddress := p.address
        sendSize := p.socket.size
        milliseconds := (total : ℚ) / 1000000 / tcpTestCount })
  | .sizes, .closed => { q with pinged := p.pinged ++ [p.address] }.nextAddress
  | _, _ => q

/-- One step of the program, with an echo server at each address. -/
def step (p : Program) : Event → Option Program
  | .init =>
    match p.phase with
    | .initTest =>
      let p := p.print (some (.message (initTest cpu).1))
      if (initTest cpu).2 ≠ 0 then some (p.fail .initTest) else some p.nextAddress
    | _ => none
  | .call ok =>
    match p.phase with
    | .create => if ok then some { p with phase := .connect } else some (p.fail .socket)
    | .connect =>
      if ok then some { p with phase := .ping, socket := NetworkRoundTrip.start [] }
      else some (p.fail .connect)
    | _ => none
  | .net l =>
    match p.phase with
    | .ping => (NetworkRoundTrip.step echo p.socket l).map (p.goOn clock)
    | _ => none

/-- Nothing in memory has a defined value yet. -/
def start (address : String) (socket : State (List Byte)) (sendStart : Timespec (BitVec 32))
    (totalTime : Option ℕ) : Program where
  phase := .initTest
  pinged := []
  address := address
  todo := addresses
  socket := socket
  timed := 0
  sendStart := sendStart
  totalTime := totalTime
  output := some []

end Program

/-! ## What is printed -/

section Printed

variable (clock : Clock)

/-- The line for size number `i`. -/
def lineAt (address : String) (i : ℕ) : Option Line :=
  (totalTime clock i).map fun total : ℕ =>
    { ipAddress := address
      sendSize := sizeAt i
      milliseconds := (total : ℚ) / 1000000 / tcpTestCount }

/-- The intervals of one call of `tcp_ping`. -/
def intervalCount : ℕ := sizeCount * tcpTestCount

/-- The lines for `addresses`, one call of `tcp_ping` after the other. -/
def mainLines (addresses : List String) : Option (List Line) :=
  (addresses.zipIdx.mapM fun a => timedLines (clock.drop (a.2 * intervalCount)) a.1).map
    List.flatten

/-- The lines for `pinged`, and those for the first `k` sizes of `address`. -/
def linesUpTo (pinged : List String) (address : String) (k : ℕ) : Option (List Line) :=
  (mainLines clock pinged).bind fun before =>
    ((List.range k).mapM (lineAt (clock.drop (pinged.length * intervalCount)) address)).map
      fun lines => before ++ lines

/-- The lines as output, behind what `init_test` prints. -/
def printed (cpu : CpuFreq) (lines : Option (List Line)) : Option (List Output) :=
  lines.map fun ls => .message (initTest cpu).1 :: ls.map Output.line

variable {cpu : CpuFreq} {clock} {pinged : List String} {address : String} {k : ℕ}

theorem timedLines_eq (clock : Clock) (address : String) :
    timedLines clock address = (List.range sizeCount).mapM (lineAt clock address) := by
  rw [timedLines]
  congr 1
  funext i
  rw [lineAt]
  cases totalTime clock i <;> rfl

theorem linesUpTo_zero : linesUpTo clock pinged address 0 = mainLines clock pinged := by
  simp [linesUpTo]

theorem linesUpTo_sizeCount :
    linesUpTo clock pinged address sizeCount = mainLines clock (pinged ++ [address]) := by
  rw [linesUpTo, mainLines, mainLines, List.zipIdx_append, List.mapM_append]
  simp only [List.zipIdx_singleton, Nat.zero_add, List.mapM_cons, List.mapM_nil, timedLines_eq]
  generalize (List.mapM _ (List.zipIdx pinged) : Option _) = before
  generalize (List.mapM _ (List.range sizeCount) : Option _) = lines
  cases before <;> cases lines <;> simp

theorem linesUpTo_succ : linesUpTo clock pinged address (k + 1) =
    (linesUpTo clock pinged address k).bind fun ls =>
      (lineAt (clock.drop (pinged.length * intervalCount)) address k).map fun l => ls ++ [l] := by
  rw [linesUpTo, linesUpTo, List.range_succ, List.mapM_append]
  generalize mainLines clock pinged = before
  generalize (List.mapM _ (List.range k) : Option _) = lines
  cases before with
  | none => rfl
  | some before =>
    cases lines with
    | none => rfl
    | some lines =>
      simp only [List.mapM_cons, List.mapM_nil]
      cases lineAt (clock.drop (pinged.length * intervalCount)) address k <;> simp

/-- One line more. -/
theorem printed_concat (lines : Option (List Line)) (line : Option Line) :
    printed cpu (lines.bind fun ls => line.map fun l => ls ++ [l]) =
      (printed cpu lines).bind fun os => (line.map Output.line).map fun o => os ++ [o] := by
  cases lines with
  | none => rfl
  | some ls => cases line <;> simp [printed]

end Printed

/-! ## The invariant -/

section Invariant

variable (cpu : CpuFreq) (clock : Clock)

/-- The round trips of the first `idx` tests of size number `i`. -/
def firstTimes (i idx : ℕ) : List ℚ :=
  (List.range idx).map fun testIdx =>
    roundTripTime (clock.start (i * tcpTestCount + testIdx)).toTimespec
      (clock.stop (i * tcpTestCount + testIdx)).toTimespec

variable {cpu clock} {p q : Program}

theorem firstTimes_full (i : ℕ) : firstTimes clock i tcpTestCount = roundTripTimes clock i := rfl

theorem firstTimes_succ (i idx : ℕ) : firstTimes clock i (idx + 1) = firstTimes clock i idx ++
    [roundTripTime (clock.start (i * tcpTestCount + idx)).toTimespec
      (clock.stop (i * tcpTestCount + idx)).toTimespec] := by
  rw [firstTimes, List.range_succ, List.map_append]
  rfl

namespace Program

variable (cpu clock) in
/-- What has been measured and printed at each point of `tcp_ping`. -/
def Timed (p : Program) : Prop :=
  let first := p.pinged.length * intervalCount
  let output k := printed cpu (linesUpTo clock p.pinged p.address k)
  match p.socket.pc with
  | .warmUp | .warmUpReceive => p.timed = first ∧ p.output = output 0
  | .sizes => ∃ k ≤ sizeCount, p.socket.size = sizeAt k ∧
      p.timed = first + k * tcpTestCount ∧ p.output = output k
  | .tests => ∃ k < sizeCount, p.socket.size = sizeAt k ∧ p.socket.testIdx ≤ tcpTestCount ∧
      p.timed = first + (k * tcpTestCount + p.socket.testIdx) ∧
      p.totalTime = addTimes (firstTimes (clock.drop first) k p.socket.testIdx) 0 ∧
      p.output = output k
  | .receive => ∃ k < sizeCount, p.socket.size = sizeAt k ∧ p.socket.testIdx < tcpTestCount ∧
      p.timed = first + (k * tcpTestCount + p.socket.testIdx) ∧
      p.totalTime = addTimes (firstTimes (clock.drop first) k p.socket.testIdx) 0 ∧
      p.sendStart = (clock.start p.timed).toTimespec ∧ p.output = output k
  | .closed | .overrun => False

variable (cpu clock) in
/-- Between two calls of `tcp_ping`, or at the start of one. -/
structure Between (p : Program) : Prop where
  init : (initTest cpu).2 = 0
  addresses : p.pinged ++ p.address :: p.todo = addresses
  timed : p.timed = p.pinged.length * intervalCount
  output : p.output = printed cpu (mainLines clock p.pinged)

variable (cpu clock) in
def Inv (p : Program) : Prop :=
  match p.phase with
  | .initTest =>
    p.pinged = [] ∧ p.todo = addresses ∧ p.timed = 0 ∧ p.output = some []
  | .create | .connect => p.Between cpu clock
  | .ping => (initTest cpu).2 = 0 ∧ p.pinged ++ p.address :: p.todo = addresses ∧
      NetworkRoundTrip.Inv p.socket ∧ p.Timed cpu clock
  | .finished => (initTest cpu).2 = 0 ∧ p.pinged = addresses ∧
      p.output = printed cpu (mainLines clock addresses)
  | .failed .initTest => (initTest cpu).2 ≠ 0 ∧
      p.output = some [.message (initTest cpu).1, .message Call.initTest.message]
  | .failed call => (initTest cpu).2 = 0 ∧ p.pinged ++ p.address :: p.todo = addresses ∧
      p.output = (printed cpu (mainLines clock p.pinged)).map fun os =>
        os ++ [.message call.message]

theorem Between.fail (h : p.Between cpu clock) {call : Call} (hcall : call ≠ .initTest) :
    (p.fail call).Inv cpu clock := by
  have houtput : (p.fail call).output =
      (printed cpu (mainLines clock p.pinged)).map fun os => os ++ [.message call.message] := by
    rw [Program.fail, print, h.output, Option.map_eq_bind]
    rfl
  cases call with
  | initTest => exact absurd rfl hcall
  | socket => exact ⟨h.init, h.addresses, houtput⟩
  | connect => exact ⟨h.init, h.addresses, houtput⟩

/-- After the last address `main` returns. -/
theorem nextAddress_inv (hinit : (initTest cpu).2 = 0) (haddresses : p.pinged ++ p.todo = addresses)
    (htimed : p.timed = p.pinged.length * intervalCount)
    (houtput : p.output = printed cpu (mainLines clock p.pinged)) :
    p.nextAddress.Inv cpu clock := by
  rw [nextAddress]
  cases htodo : p.todo with
  | nil =>
    rw [htodo, List.append_nil] at haddresses
    refine ⟨hinit, haddresses, ?_⟩
    rw [← haddresses]
    exact houtput
  | cons address rest => exact ⟨hinit, by rw [← haddresses, htodo], htimed, houtput⟩

/-- The program during a call of `tcp_ping`. -/
structure Pinging (cpu : CpuFreq) (clock : Clock) (p : Program) : Prop where
  phase : p.phase = .ping
  init : (initTest cpu).2 = 0
  addresses : p.pinged ++ p.address :: p.todo = NetworkRoundTrip.addresses
  socket : NetworkRoundTrip.Inv p.socket
  timed : p.Timed cpu clock

theorem Pinging.inv (h : p.Pinging cpu clock) : p.Inv cpu clock := by
  rw [Inv, h.phase]
  exact ⟨h.init, h.addresses, h.socket, h.timed⟩

/-- A step that only concerns the socket. -/
theorem Pinging.keep {t : State (List Byte)} (h : p.Pinging cpu clock)
    (ht : NetworkRoundTrip.Inv t) (htimed : ({ p with socket := t } : Program).Timed cpu clock) :
    ({ p with socket := t } : Program).Pinging cpu clock :=
  ⟨h.phase, h.init, h.addresses, ht, htimed⟩

theorem Pinging.recv {t : State (List Byte)} {r : ℤ} (h : p.Pinging cpu clock)
    (ht : NetworkRoundTrip.step echo p.socket (.recv r) = some t) :
    (p.goOn clock t).Pinging cpu clock := by
  obtain ⟨hloop, hturn⟩ := step_recv_eq_some.mp ht
  have hinv := h.socket.next ht
  obtain ⟨m, -, -, -, rfl⟩ := receiveTurn_cases (h.socket.receiving hloop) hturn
  have htimed := h.timed
  rw [Timed] at htimed
  rcases hloop with hpc | hpc
  · simp only [hpc] at htimed
    simp only [goOn, hpc] at hinv ⊢
    exact h.keep hinv (by simpa only [Timed] using htimed)
  · simp only [hpc] at htimed
    simp only [goOn, hpc] at hinv ⊢
    exact h.keep hinv (by simpa only [Timed] using htimed)

theorem Pinging.go {t : State (List Byte)} (h : p.Pinging cpu clock)
    (ht : NetworkRoundTrip.step echo p.socket .go = some t) : (p.goOn clock t).Inv cpu clock := by
  have hinv := h.socket.next ht
  have htimed := h.timed
  rw [Timed] at htimed
  cases step_go ht with
  | warmUp hpc =>
    simp only [hpc] at htimed
    simp only [goOn, hpc, State.sendPayload] at hinv ⊢
    exact (h.keep hinv (by simpa only [Timed] using htimed)).inv
  | warmUpDone hpc hmore =>
    simp only [hpc] at htimed
    simp only [goOn, hpc]
    refine (h.keep hinv ⟨0, Nat.zero_le _, rfl, ?_, htimed.2⟩).inv
    rw [Nat.zero_mul, Nat.add_zero]
    exact htimed.1
  | nextSize hpc hle =>
    simp only [hpc] at htimed
    obtain ⟨k, hk, hsize, htimed, houtput⟩ := htimed
    have hlt : k < sizeCount := sizeAt_le.mp (hsize ▸ hle)
    simp only [goOn, hpc]
    refine Pinging.inv
      ⟨h.phase, h.init, h.addresses, hinv, k, hlt, hsize, Nat.zero_le _, ?_, ?_, houtput⟩
    · exact htimed
    · rfl
  | close hpc hle =>
    simp only [hpc] at htimed
    obtain ⟨k, hk, hsize, htimed, houtput⟩ := htimed
    obtain rfl : k = sizeCount := by
      refine Nat.le_antisymm hk ?_
      by_contra hlt
      exact hle (hsize ▸ sizeAt_le.mpr (Nat.lt_of_not_le hlt))
    simp only [goOn, hpc]
    apply nextAddress_inv h.init
    · rw [← h.addresses]
      simp
    · rw [List.length_append, List.length_singleton, Nat.add_mul, Nat.one_mul]
      exact htimed
    · rw [← linesUpTo_sizeCount]
      exact houtput
  | send hpc hlt =>
    simp only [hpc] at htimed
    obtain ⟨k, hk, hsize, hidx, htimed, htotal, houtput⟩ := htimed
    simp only [goOn, hpc, State.sendPayload] at hinv ⊢
    exact Pinging.inv
      ⟨h.phase, h.init, h.addresses, hinv, k, hk, hsize, hlt, htimed, htotal, rfl, houtput⟩
  | sizeDone hpc hlt =>
    simp only [hpc] at htimed
    obtain ⟨k, hk, hsize, hidx, htimed, htotal, houtput⟩ := htimed
    have hfull : p.socket.testIdx = tcpTestCount := Nat.le_antisymm hidx (Nat.le_of_not_lt hlt)
    rw [hfull] at htimed htotal
    simp only [goOn, hpc]
    refine Pinging.inv ⟨h.phase, h.init, h.addresses, hinv, k + 1, hk, ?_, ?_, ?_⟩
    · simp only [print, hsize, sizeAt]
      ring
    · rw [Nat.add_mul, Nat.one_mul]
      exact htimed
    · have hline : (p.totalTime.map fun total : ℕ => Output.line
          { ipAddress := p.address
            sendSize := p.socket.size
            milliseconds := (total : ℚ) / 1000000 / tcpTestCount }) =
          (lineAt (clock.drop (p.pinged.length * intervalCount)) p.address k).map Output.line := by
        rw [lineAt, NetworkRoundTrip.totalTime, ← firstTimes_full, ← htotal, hsize, Option.map_map]
        rfl
      dsimp only [print]
      rw [linesUpTo_succ, printed_concat, ← houtput, ← hline]
  | roundDone hpc hmore =>
    simp only [hpc] at htimed
    obtain ⟨k, hk, hsize, hidx, htimed, htotal, hstart, houtput⟩ := htimed
    simp only [goOn, hpc]
    refine Pinging.inv ⟨h.phase, h.init, h.addresses, hinv, k, hk, hsize, hidx, ?_, ?_, houtput⟩
    · dsimp only
      rw [htimed, Nat.add_assoc, Nat.add_assoc]
    · dsimp only
      rw [htotal, hstart, htimed, firstTimes_succ, addTimes_concat, Clock.drop_start,
        Clock.drop_stop]

/-! ## Every run -/

theorem Inv.init (h : p.Inv cpu clock) (hst : p.step cpu clock .init = some q) :
    q.Inv cpu clock := by
  rw [Inv] at h
  cases hphase : p.phase with
  | initTest =>
    simp only [step, hphase] at h hst
    obtain ⟨hpinged, htodo, htimed, houtput⟩ := h
    split_ifs at hst with hinit
    · cases hst
      refine ⟨hinit, ?_⟩
      rw [fail, print, print, houtput]
      rfl
    · cases hst
      apply nextAddress_inv (not_not.mp hinit)
      · rw [print, hpinged, htodo, List.nil_append]
      · rw [print, hpinged, htimed, List.length_nil, Nat.zero_mul]
      · rw [print, hpinged, houtput]
        rfl
  | _ => simp [step, hphase] at hst

/-- The calls that may fail do so with a message of their own. -/
theorem Inv.call (h : p.Inv cpu clock) {ok : Bool} (hst : p.step cpu clock (.call ok) = some q) :
    q.Inv cpu clock := by
  rw [Inv] at h
  cases hphase : p.phase with
  | create =>
    simp only [step, hphase] at h hst
    split_ifs at hst
    · cases hst
      exact ⟨h.init, h.addresses, h.timed, h.output⟩
    · cases hst
      exact h.fail (by decide)
  | connect =>
    simp only [step, hphase] at h hst
    split_ifs at hst
    · cases hst
      refine ⟨h.init, h.addresses, inv_start, h.timed, ?_⟩
      dsimp only
      rw [linesUpTo_zero]
      exact h.output
    · cases hst
      exact h.fail (by decide)
  | _ => simp [step, hphase] at hst

theorem Inv.pinging (h : p.Inv cpu clock) (hphase : p.phase = .ping) : p.Pinging cpu clock := by
  rw [Inv, hphase] at h
  exact ⟨hphase, h.1, h.2.1, h.2.2.1, h.2.2.2⟩

/-- A step of the network is one of `tcp_ping`. -/
theorem step_net_eq_some {l : Label} : p.step cpu clock (.net l) = some q ↔
    p.phase = .ping ∧ ∃ t, NetworkRoundTrip.step echo p.socket l = some t ∧ p.goOn clock t = q := by
  cases hphase : p.phase <;> simp [step, hphase, Option.map_eq_some_iff]

theorem Inv.next (h : p.Inv cpu clock) {e : Event} (hst : p.step cpu clock e = some q) :
    q.Inv cpu clock := by
  cases e with
  | init => exact h.init hst
  | call ok => exact h.call hst
  | net l =>
    obtain ⟨hphase, t, ht, rfl⟩ := step_net_eq_some.mp hst
    cases l with
    | go => exact (h.pinging hphase).go ht
    | recv r => exact ((h.pinging hphase).recv ht).inv

/-- `main` has returned or `exit` was called. -/
def Over (p : Program) : Prop := p.phase = .finished ∨ ∃ call, p.phase = .failed call

/-- The steps of one connection, the calls before it included. -/
def stepsPerAddress : ℕ := NetworkRoundTrip.rank (NetworkRoundTrip.start []) + 4

/-- A bound on the steps still to come. -/
def rank (p : Program) : ℕ :=
  match p.phase with
  | .initTest => p.todo.length * stepsPerAddress + 1
  | .create => p.todo.length * stepsPerAddress + stepsPerAddress - 1
  | .connect => p.todo.length * stepsPerAddress + stepsPerAddress - 2
  | .ping => p.todo.length * stepsPerAddress + NetworkRoundTrip.rank p.socket + 1
  | .finished | .failed _ => 0

theorem rank_nextAddress (p : Program) :
    p.nextAddress.rank < p.todo.length * stepsPerAddress + 1 := by
  rw [nextAddress]
  cases p.todo with
  | nil => simp [rank]
  | cons address rest =>
    simp only [rank, List.length_cons, Nat.add_mul, stepsPerAddress]
    omega

theorem rank_goOn {t : State (List Byte)} (hphase : p.phase = .ping)
    (ht : NetworkRoundTrip.rank t < NetworkRoundTrip.rank p.socket) :
    (p.goOn clock t).rank < p.rank := by
  have hstay : ({ p with socket := t } : Program).rank < p.rank := by
    simp only [rank, hphase]
    omega
  rw [goOn]
  split
  · exact hstay
  · exact hstay
  · exact hstay
  · exact hstay
  · have hp : p.rank =
        p.todo.length * stepsPerAddress + NetworkRoundTrip.rank p.socket + 1 := by
      rw [rank, hphase]
    have hlt := rank_nextAddress { p with socket := t, pinged := p.pinged ++ [p.address] }
    rw [hp]
    exact hlt.trans_le (Nat.succ_le_succ (Nat.le_add_right _ _))
  · exact hstay

theorem Inv.rank_lt (h : p.Inv cpu clock) {e : Event} (hst : p.step cpu clock e = some q) :
    q.rank < p.rank := by
  cases e with
  | init =>
    cases hphase : p.phase with
    | initTest =>
      simp only [step, hphase] at hst
      split_ifs at hst
      · cases hst
        simp [rank, hphase, fail]
      · cases hst
        have hp : p.rank = p.todo.length * stepsPerAddress + 1 := by rw [rank, hphase]
        rw [hp]
        exact rank_nextAddress (p.print _)
    | _ => simp [step, hphase] at hst
  | call ok =>
    cases hphase : p.phase with
    | create =>
      simp only [step, hphase] at hst
      split_ifs at hst
      · cases hst
        simp only [rank, hphase, stepsPerAddress]
        omega
      · cases hst
        simp only [rank, hphase, fail, stepsPerAddress]
        omega
    | connect =>
      simp only [step, hphase] at hst
      split_ifs at hst
      · cases hst
        simp only [rank, hphase, stepsPerAddress]
        omega
      · cases hst
        simp only [rank, hphase, fail, stepsPerAddress]
        omega
    | _ => simp [step, hphase] at hst
  | net l =>
    obtain ⟨hphase, t, ht, rfl⟩ := step_net_eq_some.mp hst
    exact rank_goOn hphase (rank_step (h.pinging hphase).socket ht)

/-- Until it is over the program can go on. -/
theorem Inv.can_step (h : p.Inv cpu clock) (hover : ¬ p.Over) :
    ∃ e q, p.step cpu clock e = some q := by
  cases hphase : p.phase with
  | initTest =>
    by_cases hinit : (initTest cpu).2 ≠ 0
    · exact ⟨.init, _, by simp only [step, hphase, if_pos hinit]; rfl⟩
    · exact ⟨.init, _, by simp only [step, hphase, if_neg hinit]; rfl⟩
  | create => exact ⟨.call true, _, by rw [step, hphase]; rfl⟩
  | connect => exact ⟨.call true, _, by rw [step, hphase]; rfl⟩
  | ping =>
    have hping := h.pinging hphase
    have hopen : p.socket.pc ≠ .closed := by
      intro hpc
      have htimed := hping.timed
      simp [Timed, hpc] at htimed
    obtain ⟨l, t, ht⟩ := hping.socket.can_step hopen
    exact ⟨.net l, _, step_net_eq_some.mpr ⟨hphase, t, ht, rfl⟩⟩
  | finished => exact absurd (Or.inl hphase) hover
  | failed call => exact absurd (Or.inr ⟨call, hphase⟩) hover

end Program

end Invariant

/-- The states of some run of `main`. -/
def Program.Reachable (cpu : CpuFreq) (clock : Clock) (p : Program) : Prop :=
  ∃ address socket sendStart totalTime, Transition.Reaches (Program.step cpu clock) (fun _ => True)
    (Program.start address socket sendStart totalTime) p

/-- However the echo is cut up, a run of `main` that comes to its end has printed
what `init_test` prints and the lines that the readings determine: for both
addresses or, when `socket` or `connect` fails for one of them, for those before
it, with the message of that call.  No run is endless, and none stops before its
end. -/
theorem main_prints (cpu : CpuFreq) (clock : Clock) (p : Program) (h : p.Reachable cpu clock) :
    (p.phase = .finished → (initTest cpu).2 = 0 ∧
        p.output = printed cpu (mainLines clock addresses)) ∧
      (p.phase = .failed .initTest → (initTest cpu).2 ≠ 0 ∧
        p.output = some [.message (initTest cpu).1, .message "FAILURE init_test"]) ∧
      (∀ call, call ≠ .initTest → p.phase = .failed call → (initTest cpu).2 = 0 ∧
        p.pinged ++ p.address :: p.todo = addresses ∧
        p.output = (printed cpu (mainLines clock p.pinged)).map fun os =>
          os ++ [.message call.message]) ∧
      (¬ p.Over → ∃ e q, p.step cpu clock e = some q) ∧
      ∃ bound, ∀ es q, Transition.run (Program.step cpu clock) p es = some q →
        es.length ≤ bound := by
  obtain ⟨address, socket, sendStart, totalTime, hreach⟩ := h
  have hstart : (Program.start address socket sendStart totalTime).Inv cpu clock :=
    ⟨rfl, rfl, rfl, rfl⟩
  have hinv : p.Inv cpu clock := hreach.invariant (fun _ _ _ _ hp hst => hp.next hst) hstart
  refine ⟨?_, ?_, ?_, hinv.can_step, p.rank, ?_⟩
  · intro hphase
    rw [Program.Inv, hphase] at hinv
    exact ⟨hinv.1, hinv.2.2⟩
  · intro hphase
    rwa [Program.Inv, hphase] at hinv
  · intro call hcall hphase
    rw [Program.Inv, hphase] at hinv
    cases call with
    | initTest => exact absurd rfl hcall
    | socket => exact hinv
    | connect => exact hinv
  · intro es q hrun
    have hle := Transition.length_le_rank (fun _ => True) Program.rank
      (fun _ _ _ _ hp hst => ⟨hp.next hst, hp.rank_lt hst⟩) hinv (by simp) hrun
    omega

/-- A core that can be had. -/
def plainCpu : CpuFreq := ⟨true, some 1200000, true, 1200000⟩

/-- The run in which nobody listens at the first address. -/
def refused (clock : Clock) : Program :=
  let first := Program.start "" (start []) ⟨0, 0⟩ none
  (Transition.run (Program.step plainCpu clock) first [.init, .call true, .call false]).getD first

theorem main_prints_refused :
    (initTest plainCpu).2 = 0 ∧
      (refused (MonotonicClock.ticking 2000 1000000 (by decide)).toClock).output =
        (printed plainCpu (mainLines
          (MonotonicClock.ticking 2000 1000000 (by decide)).toClock [])).map
          fun os => os ++ [.message "Failed to CONNECT to socket.\n"] := by
  obtain ⟨-, -, hfailed, -⟩ :=
    main_prints plainCpu (MonotonicClock.ticking 2000 1000000 (by decide)).toClock
      (refused (MonotonicClock.ticking 2000 1000000 (by decide)).toClock)
      ⟨"", start [], ⟨0, 0⟩, none, [.init, .call true, .call false], fun _ _ => trivial, rfl⟩
  obtain ⟨hinit, -, houtput⟩ := hfailed .connect (by decide) rfl
  exact ⟨hinit, houtput⟩

end Rpi3Bench.NetworkRoundTrip
