import Rpi3Bench.Library.Transition

/-!
# The round trips of `network_round_trip`

`warm_up` and `tcp_ping` over a connected socket.  The peer is a parameter: it
takes what is sent, and for each `recv` the label names the value the call
returns.  C converts `int total_bytes_received` to `unsigned` in the loop test,
so the total and the sizes it is compared with are 32-bit words.
-/

namespace Rpi3Bench.NetworkRoundTrip

def startPayloadSize : ℕ := 100

def maxPayloadSize : ℕ := 1000

def payloadIteration : ℕ := 100

def tcpTestCount : ℕ := 50

/-- A byte on the wire, with the number of the round that sent it; no part of
the program reads the number. -/
structure Byte where
  value : Char
  round : ℕ
  deriving DecidableEq

/-- What the socket does with `send`, and with a `recv` of at most `size` bytes
that returns `r`: the bytes it writes, or `none` when it cannot return `r`. -/
structure Peer (σ : Type*) where
  send : σ → List Byte → σ
  recv : σ → (size : ℕ) → (r : ℤ) → Option (List Byte × σ)

inductive Pc
  | warmUp
  | warmUpReceive
  | sizes
  | tests
  | receive
  | closed
  | overrun
  deriving DecidableEq

/-- What a finished round leaves behind: its size, its `total_bytes_received`,
the bytes its `recv` calls wrote, and the state of the peer. -/
structure Round (σ : Type*) where
  size : ℕ
  total : BitVec 32
  received : List Byte
  peer : σ
  deriving DecidableEq

/-- `size` is `send_size` and `receive_size`, which are equal throughout;
`received` and `rounds` record the past. -/
structure State (σ : Type*) where
  pc : Pc
  size : ℕ
  testIdx : ℕ
  total : BitVec 32
  buffer : List (Option Byte)
  received : List Byte
  peer : σ
  rounds : List (Round σ)
  deriving DecidableEq

/-- `recv r` is a `recv` call that returns `r`; `go` is everything else. -/
inductive Label
  | go
  | recv (r : ℤ)
  deriving DecidableEq

/-- The loop test `total_bytes_received < receive_size`. -/
def moreExpected (total : BitVec 32) (size : ℕ) : Bool := total.ult (BitVec.ofNat 32 size)

/-- `send_data_buffer`, stuffed with `b`s. -/
def payload (size round : ℕ) : List Byte := List.replicate size ⟨'b', round⟩

variable {σ : Type*}

/-- A round starts: total cleared, whole payload sent. -/
def State.sendPayload (peer : Peer σ) (s : State σ) (pc : Pc) : State σ :=
  { s with
    pc := pc
    total := 0
    received := []
    peer := peer.send s.peer (payload s.size s.rounds.length) }

/-- One turn of the receive loop, whose `recv` writes to the start of
`receive_data_buffer`. -/
def State.receiveTurn (peer : Peer σ) (s : State σ) (r : ℤ) : Option (State σ) :=
  if moreExpected s.total s.size then
    match peer.recv s.peer s.size r with
    | none => none
    | some (bytes, p) =>
      if bytes.length ≤ s.buffer.length then
        some { s with
          -- an error adds its -1
          total := s.total + BitVec.ofInt 32 r
          buffer := bytes.map some ++ s.buffer.drop bytes.length
          received := s.received ++ bytes
          peer := p }
      else some { s with pc := .overrun }
  else none

/-- The receive loop is left: the round is over. -/
def State.finishRound (s : State σ) (pc : Pc) : Option (State σ) :=
  if moreExpected s.total s.size then none
  else some { s with pc := pc, rounds := s.rounds ++ [⟨s.size, s.total, s.received, s.peer⟩] }

/-- One step of `tcp_ping`, from its call of `warm_up` on. -/
def step (peer : Peer σ) (s : State σ) : Label → Option (State σ)
  | .recv r =>
    match s.pc with
    | .warmUpReceive | .receive => s.receiveTurn peer r
    | _ => none
  | .go =>
    match s.pc with
    | .warmUp => some (({ s with
        size := startPayloadSize
        buffer := List.replicate startPayloadSize none }).sendPayload peer .warmUpReceive)
    | .warmUpReceive => (s.finishRound .sizes).map fun t => { t with size := startPayloadSize }
    | .sizes =>
      if s.size ≤ maxPayloadSize then
        some { s with pc := .tests, testIdx := 0, buffer := List.replicate s.size none }
      else some { s with pc := .closed }
    | .tests =>
      if s.testIdx < tcpTestCount then some (s.sendPayload peer .receive)
      else some { s with pc := .sizes, size := s.size + payloadIteration }
    | .receive => (s.finishRound .tests).map fun t => { t with testIdx := t.testIdx + 1 }
    | .closed | .overrun => none

/-! ## What a step does -/

variable {peer : Peer σ} {s t : State σ}

/-- In one of the two receive loops. -/
def State.InLoop (s : State σ) : Prop := s.pc = .warmUpReceive ∨ s.pc = .receive

/-- The round that ends in `s`. -/
def State.round (s : State σ) : Round σ := ⟨s.size, s.total, s.received, s.peer⟩

/-- The steps other than `recv`, with what each requires and does. -/
inductive GoStep (peer : Peer σ) (s : State σ) : State σ → Prop
  | warmUp (hpc : s.pc = .warmUp) : GoStep peer s (({ s with
      size := startPayloadSize
      buffer := List.replicate startPayloadSize none }).sendPayload peer .warmUpReceive)
  | warmUpDone (hpc : s.pc = .warmUpReceive) (hmore : ¬ moreExpected s.total s.size = true) :
      GoStep peer s { s with
        pc := .sizes, size := startPayloadSize, rounds := s.rounds ++ [s.round] }
  | nextSize (hpc : s.pc = .sizes) (hsize : s.size ≤ maxPayloadSize) : GoStep peer s { s with
      pc := .tests, testIdx := 0, buffer := List.replicate s.size none }
  | close (hpc : s.pc = .sizes) (hsize : ¬ s.size ≤ maxPayloadSize) :
      GoStep peer s { s with pc := .closed }
  | send (hpc : s.pc = .tests) (hidx : s.testIdx < tcpTestCount) :
      GoStep peer s (s.sendPayload peer .receive)
  | sizeDone (hpc : s.pc = .tests) (hidx : ¬ s.testIdx < tcpTestCount) :
      GoStep peer s { s with pc := .sizes, size := s.size + payloadIteration }
  | roundDone (hpc : s.pc = .receive) (hmore : ¬ moreExpected s.total s.size = true) :
      GoStep peer s { s with
        pc := .tests, testIdx := s.testIdx + 1, rounds := s.rounds ++ [s.round] }

theorem finishRound_eq_some {pc : Pc} : s.finishRound pc = some t ↔
    ¬ moreExpected s.total s.size = true ∧ t = { s with
      pc := pc, rounds := s.rounds ++ [s.round] } := by
  unfold State.finishRound
  split_ifs with hmore
  · simp [hmore]
  · simp [hmore, State.round, eq_comm]

theorem step_go (h : step peer s .go = some t) : GoStep peer s t := by
  simp only [step] at h
  split at h <;> rename_i hpc
  · cases h
    exact GoStep.warmUp hpc
  · obtain ⟨u, hu, rfl⟩ := Option.map_eq_some_iff.mp h
    obtain ⟨hmore, rfl⟩ := finishRound_eq_some.mp hu
    exact GoStep.warmUpDone hpc hmore
  · split_ifs at h with hsize
    · cases h
      exact GoStep.nextSize hpc hsize
    · cases h
      exact GoStep.close hpc hsize
  · split_ifs at h with hidx
    · cases h
      exact GoStep.send hpc hidx
    · cases h
      exact GoStep.sizeDone hpc hidx
  · obtain ⟨u, hu, rfl⟩ := Option.map_eq_some_iff.mp h
    obtain ⟨hmore, rfl⟩ := finishRound_eq_some.mp hu
    exact GoStep.roundDone hpc hmore
  · cases h
  · cases h

/-- A `recv` is a turn of a receive loop. -/
theorem step_recv_eq_some {r : ℤ} :
    step peer s (.recv r) = some t ↔ s.InLoop ∧ s.receiveTurn peer r = some t := by
  simp only [step]
  constructor
  · intro h
    split at h
    · exact ⟨Or.inl ‹_›, h⟩
    · exact ⟨Or.inr ‹_›, h⟩
    · cases h
  · rintro ⟨hpc | hpc, h⟩ <;> rw [hpc] <;> exact h

/-- A receive loop is left when its test fails. -/
theorem isSome_go_iff (hloop : s.InLoop) :
    (step peer s .go).isSome = true ↔ ¬ moreExpected s.total s.size = true := by
  simp only [step, State.finishRound]
  rcases hloop with hpc | hpc <;> rw [hpc] <;> split_ifs with hmore <;> simp [hmore]

/-- At the call of `warm_up`. -/
def start (p : σ) : State σ where
  pc := .warmUp
  size := startPayloadSize
  testIdx := 0
  total := 0
  buffer := []
  received := []
  peer := p
  rounds := []

/-- An echo peer that never closes: what was sent and not yet received, in
order.  `recv` may return any part of it that fits the call. -/
def echo : Peer (List Byte) where
  send outstanding bytes := outstanding ++ bytes
  recv outstanding size r :=
    if 1 ≤ r ∧ r ≤ size ∧ r ≤ outstanding.length then
      some (outstanding.take r.toNat, outstanding.drop r.toNat)
    else none

/-- The states that some way of cutting up the echo leads to. -/
def Reachable (s : State (List Byte)) : Prop :=
  Transition.Reaches (step echo) (fun _ => True) (start []) s

end Rpi3Bench.NetworkRoundTrip
