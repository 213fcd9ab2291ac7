import Rpi3Bench.NetworkRoundTrip.Model

/-!
# Complete round trips with an echo peer

However `recv` cuts up the stream, a round receives its own bytes and nothing
else: what was received and what is outstanding always make up the payload, so
a `recv` that asks for too much finds no foreign byte to take.
-/

namespace Rpi3Bench.NetworkRoundTrip

variable {s t : State (List Byte)}

/-- Round `n` ended with all its bytes, in order, and an empty connection. -/
structure CompleteRound (n : ℕ) (r : Round (List Byte)) : Prop where
  received : r.received = payload r.size n
  total : r.total.toNat = r.size
  peer : r.peer = []

/-- In the receive loop, the bytes received and those outstanding are the
payload of the round. -/
structure Receiving (s : State (List Byte)) : Prop where
  total : s.total.toNat = s.received.length
  stream : s.received ++ s.peer = payload s.size s.rounds.length
  buffer : s.buffer.length = s.size
  size_le : s.size ≤ maxPayloadSize

theorem Receiving.length_add (h : Receiving s) : s.received.length + s.peer.length = s.size := by
  have hlen := congrArg List.length h.stream
  simpa [payload] using hlen

theorem moreExpected_iff {total : BitVec 32} {size : ℕ} (hs : size ≤ maxPayloadSize) :
    moreExpected total size = true ↔ total.toNat < size := by
  have hlt : size < 2 ^ 32 := lt_of_le_of_lt hs (by decide)
  rw [moreExpected, BitVec.ult, decide_eq_true_eq, BitVec.toNat_ofNat, Nat.mod_eq_of_lt hlt]

theorem Receiving.sendPayload {pc : Pc} (hpeer : s.peer = []) (hbuf : s.buffer.length = s.size)
    (hs : s.size ≤ maxPayloadSize) : Receiving (s.sendPayload echo pc) where
  total := rfl
  stream := by simp [State.sendPayload, echo, hpeer]
  buffer := hbuf
  size_le := hs

/-- All that a turn of the loop can do with an echo peer: it stays in bounds
and takes a nonempty part of what is outstanding. -/
theorem receiveTurn_cases {r : ℤ} (h : Receiving s) (ht : s.receiveTurn echo r = some t) :
    ∃ m, 0 < m ∧ m ≤ s.peer.length ∧ m ≤ s.size ∧ t = { s with
      total := s.total + BitVec.ofInt 32 (m : ℤ)
      buffer := (s.peer.take m).map some ++ s.buffer.drop m
      received := s.received ++ s.peer.take m
      peer := s.peer.drop m } := by
  unfold State.receiveTurn at ht
  split_ifs at ht with hmore
  by_cases hr : 1 ≤ r ∧ r ≤ s.size ∧ r ≤ s.peer.length
  · obtain ⟨m, rfl⟩ : ∃ m : ℕ, r = m := ⟨r.toNat, by omega⟩
    have hm : (s.peer.take m).length = m := by
      rw [List.length_take]
      omega
    have hbuf : m ≤ s.buffer.length := by rw [h.buffer]; omega
    simp only [echo, if_pos hr, Int.toNat_natCast, hm, if_pos hbuf] at ht
    cases ht
    exact ⟨m, by omega, by omega, by omega, rfl⟩
  · simp only [echo, if_neg hr] at ht
    cases ht

theorem Receiving.turn {r : ℤ} (h : Receiving s) (ht : s.receiveTurn echo r = some t) :
    Receiving t := by
  obtain ⟨m, hm0, hmp, hms, rfl⟩ := receiveTurn_cases h ht
  have hadd := h.length_add
  have hsize : s.size < 2 ^ 32 := lt_of_le_of_lt h.size_le (by decide)
  refine ⟨?_, ?_, ?_, h.size_le⟩
  · -- the total stays within the payload, so the addition does not wrap
    have hm : (BitVec.ofInt 32 (m : ℤ)).toNat = m := by
      rw [BitVec.ofInt_natCast, BitVec.toNat_ofNat, Nat.mod_eq_of_lt (by omega)]
    simp only [BitVec.toNat_add, h.total, hm, List.length_append, List.length_take]
    rw [Nat.mod_eq_of_lt (by omega)]
    omega
  · simpa using h.stream
  · simp only [List.length_append, List.length_map, List.length_take, List.length_drop, h.buffer]
    omega

/-- Leaving the loop means that nothing of the round is missing or left over. -/
theorem Receiving.complete (h : Receiving s) (hmore : ¬ moreExpected s.total s.size = true) :
    CompleteRound s.rounds.length ⟨s.size, s.total, s.received, s.peer⟩ := by
  rw [moreExpected_iff h.size_le, h.total] at hmore
  have hadd := h.length_add
  have hpeer : s.peer = [] := List.length_eq_zero_iff.mp (by omega)
  refine ⟨?_, by rw [h.total]; dsimp only; omega, hpeer⟩
  simpa [hpeer] using h.stream

/-! ## The schedule of rounds -/

/-- `send_size` in iteration `k` of the outer loop. -/
def sizeAt (k : ℕ) : ℕ := startPayloadSize + k * payloadIteration

/-- The warm-up, `k` whole payload sizes and `idx` tests of the next one. -/
def scheduleUpTo (k idx : ℕ) : List ℕ :=
  startPayloadSize :: ((List.range k).flatMap fun m => List.replicate tcpTestCount (sizeAt m)) ++
    List.replicate idx (sizeAt k)

/-- All rounds of `tcp_ping`: the warm-up and fifty tests of each size. -/
def schedule : List ℕ := scheduleUpTo 10 0

theorem scheduleUpTo_succ (k idx : ℕ) :
    scheduleUpTo k (idx + 1) = scheduleUpTo k idx ++ [sizeAt k] := by
  simp [scheduleUpTo, List.replicate_succ']

theorem scheduleUpTo_next (k : ℕ) : scheduleUpTo (k + 1) 0 = scheduleUpTo k tcpTestCount := by
  simp [scheduleUpTo, List.range_succ]

theorem sizeAt_le {k : ℕ} : sizeAt k ≤ maxPayloadSize ↔ k < 10 := by
  simp only [sizeAt, startPayloadSize, payloadIteration, maxPayloadSize]
  omega

/-- The sizes of the rounds so far. -/
def State.sizes (s : State (List Byte)) : List ℕ := s.rounds.map Round.size

/-- What holds at each program point. -/
def AtPc (s : State (List Byte)) : Prop :=
  match s.pc with
  | .warmUp => s.rounds = [] ∧ s.peer = []
  | .warmUpReceive => s.rounds = [] ∧ s.size = startPayloadSize ∧ Receiving s
  | .sizes => ∃ k ≤ 10, s.size = sizeAt k ∧ s.sizes = scheduleUpTo k 0 ∧ s.peer = []
  | .tests => ∃ k < 10, s.size = sizeAt k ∧ s.testIdx ≤ tcpTestCount ∧
      s.sizes = scheduleUpTo k s.testIdx ∧ s.peer = [] ∧ s.buffer.length = s.size
  | .receive => ∃ k < 10, s.size = sizeAt k ∧ s.testIdx < tcpTestCount ∧
      s.sizes = scheduleUpTo k s.testIdx ∧ Receiving s
  | .closed => s.sizes = schedule ∧ s.peer = []
  | .overrun => False

/-- The invariant: every finished round is complete. -/
structure Inv (s : State (List Byte)) : Prop where
  rounds : ∀ n r, s.rounds[n]? = some r → CompleteRound n r
  atPc : AtPc s

theorem inv_start : Inv (start []) := ⟨by simp [start], rfl, rfl⟩

theorem Inv.receiving (h : Inv s) (hpc : s.InLoop) : Receiving s := by
  have hat := h.atPc
  unfold AtPc at hat
  rcases hpc with hpc | hpc <;> rw [hpc] at hat
  · exact hat.2.2
  · obtain ⟨k, -, -, -, -, hrecv⟩ := hat
    exact hrecv

theorem append_complete {rs : List (Round (List Byte))} {x : Round (List Byte)}
    (h : ∀ n r, rs[n]? = some r → CompleteRound n r) (hx : CompleteRound rs.length x) :
    ∀ n r, (rs ++ [x])[n]? = some r → CompleteRound n r := by
  intro n r hr
  rcases lt_trichotomy n rs.length with hn | hn | hn
  · rw [List.getElem?_append_left hn] at hr
    exact h n r hr
  · subst hn
    rw [List.getElem?_concat_length] at hr
    cases hr
    exact hx
  · rw [List.getElem?_eq_none (by simp; omega)] at hr
    cases hr

theorem Inv.recv {r : ℤ} (h : Inv s) (ht : step echo s (.recv r) = some t) : Inv t := by
  have hat := h.atPc
  unfold AtPc at hat
  obtain ⟨hpc | hpc, hturn⟩ := step_recv_eq_some.mp ht <;> rw [hpc] at hat
  · obtain ⟨hr, hs, hrecv⟩ := hat
    have hrecv' := hrecv.turn hturn
    obtain ⟨m, -, -, -, rfl⟩ := receiveTurn_cases hrecv hturn
    refine ⟨h.rounds, ?_⟩
    simp only [AtPc, hpc] at hrecv' ⊢
    exact ⟨hr, hs, hrecv'⟩
  · obtain ⟨k, hk, hs, hidx, hsched, hrecv⟩ := hat
    have hrecv' := hrecv.turn hturn
    obtain ⟨m, -, -, -, rfl⟩ := receiveTurn_cases hrecv hturn
    refine ⟨h.rounds, ?_⟩
    simp only [AtPc, hpc] at hrecv' ⊢
    exact ⟨k, hk, hs, hidx, hsched, hrecv'⟩

theorem Inv.go (h : Inv s) (ht : step echo s .go = some t) : Inv t := by
  have hat := h.atPc
  unfold AtPc at hat
  cases step_go ht with
  | warmUp hpc =>
    rw [hpc] at hat
    obtain ⟨hr, hp⟩ := hat
    have hle : startPayloadSize ≤ maxPayloadSize := by decide
    exact ⟨h.rounds, hr, rfl, Receiving.sendPayload hp (by simp) hle⟩
  | warmUpDone hpc hmore =>
    rw [hpc] at hat
    obtain ⟨hr, hs, hrecv⟩ := hat
    have hcomp := hrecv.complete hmore
    refine ⟨append_complete h.rounds hcomp, 0, by omega, rfl, ?_, hcomp.peer⟩
    simp [State.sizes, State.round, scheduleUpTo, hr, hs]
  | nextSize hpc hle =>
    rw [hpc] at hat
    obtain ⟨k, hk, hs, hsched, hp⟩ := hat
    have hk10 : k < 10 := sizeAt_le.mp (hs ▸ hle)
    exact ⟨h.rounds, k, hk10, hs, Nat.zero_le _, hsched, hp, by simp⟩
  | close hpc hle =>
    rw [hpc] at hat
    obtain ⟨k, hk, hs, hsched, hp⟩ := hat
    obtain rfl : k = 10 := by
      have hk10 : ¬ k < 10 := fun hlt => hle (hs ▸ sizeAt_le.mpr hlt)
      omega
    exact ⟨h.rounds, hsched, hp⟩
  | send hpc hlt =>
    rw [hpc] at hat
    obtain ⟨k, hk, hs, hidx, hsched, hp, hbuf⟩ := hat
    exact ⟨h.rounds, k, hk, hs, hlt, hsched,
      Receiving.sendPayload hp hbuf (hs ▸ sizeAt_le.mpr hk)⟩
  | sizeDone hpc hlt =>
    rw [hpc] at hat
    obtain ⟨k, hk, hs, hidx, hsched, hp, hbuf⟩ := hat
    have hfull : s.testIdx = tcpTestCount := by omega
    refine ⟨h.rounds, k + 1, hk, ?_, ?_, hp⟩
    · simp only [hs, sizeAt]
      ring
    · rw [scheduleUpTo_next, ← hfull]
      exact hsched
  | roundDone hpc hmore =>
    rw [hpc] at hat
    obtain ⟨k, hk, hs, hidx, hsched, hrecv⟩ := hat
    have hcomp := hrecv.complete hmore
    refine ⟨append_complete h.rounds hcomp, k, hk, hs, hidx, ?_, hcomp.peer, hrecv.buffer⟩
    simp only [State.sizes] at hsched
    simp [State.sizes, State.round, hsched, scheduleUpTo_succ, hs]

theorem Inv.next {l : Label} (h : Inv s) (ht : step echo s l = some t) : Inv t := by
  cases l with
  | go => exact h.go ht
  | recv r => exact h.recv ht

theorem Reachable.inv (h : Reachable s) : Inv s :=
  Transition.Reaches.invariant (fun _ _ _ _ hs ht => hs.next ht) inv_start h

/-! ## Termination -/

/-- A bound on the steps still to come: sizes, tests, and outstanding bytes. -/
def rank (s : State (List Byte)) : ℕ :=
  match s.pc with
  | .warmUp => 1000103
  | .warmUpReceive => 1000002 + s.peer.length
  | .sizes => (1100 - s.size) * 1000 + 1
  | .tests => (1000 - s.size) * 1000 + 2 + (50 - s.testIdx) * 1003
  | .receive => (1000 - s.size) * 1000 + 3 + (49 - s.testIdx) * 1003 + s.peer.length
  | .closed | .overrun => 0

theorem rank_receiveTurn {r : ℤ} (h : Receiving s) (hpc : s.InLoop)
    (ht : s.receiveTurn echo r = some t) : rank t < rank s := by
  obtain ⟨m, hm0, hmp, -, rfl⟩ := receiveTurn_cases h ht
  rcases hpc with hpc | hpc <;> simp only [rank, hpc, List.length_drop] <;> omega

theorem rank_go (h : Inv s) (ht : step echo s .go = some t) : rank t < rank s := by
  have hat := h.atPc
  unfold AtPc at hat
  cases step_go ht with
  | warmUp hpc =>
    rw [hpc] at hat
    simp [rank, hpc, State.sendPayload, echo, payload, hat.2, startPayloadSize]
  | warmUpDone hpc hmore =>
    simp only [rank, hpc, startPayloadSize]
    omega
  | nextSize hpc hle =>
    simp only [maxPayloadSize] at hle
    simp only [rank, hpc]
    omega
  | close hpc hle => simp [rank, hpc]
  | send hpc hlt =>
    rw [hpc] at hat
    obtain ⟨k, hk, hs, hidx, -, hp, -⟩ := hat
    have hle : s.size ≤ 1000 := hs ▸ sizeAt_le.mpr hk
    simp only [tcpTestCount] at hlt
    simp only [rank, hpc, State.sendPayload, echo, payload, hp, List.nil_append,
      List.length_replicate]
    omega
  | sizeDone hpc hlt =>
    rw [hpc] at hat
    obtain ⟨k, hk, hs, hidx, -, hp, -⟩ := hat
    have hle : s.size ≤ 1000 := hs ▸ sizeAt_le.mpr hk
    simp only [rank, hpc, payloadIteration]
    omega
  | roundDone hpc hmore =>
    rw [hpc] at hat
    obtain ⟨k, hk, hs, hidx, -, hrecv⟩ := hat
    simp only [tcpTestCount] at hidx
    simp only [rank, hpc]
    omega

theorem rank_step {l : Label} (h : Inv s) (ht : step echo s l = some t) : rank t < rank s := by
  cases l with
  | go => exact rank_go h ht
  | recv r =>
    obtain ⟨hpc, hturn⟩ := step_recv_eq_some.mp ht
    exact rank_receiveTurn (h.receiving hpc) hpc hturn

/-- In the receive loop there is always something to receive. -/
theorem Receiving.can_turn (h : Receiving s) (hmore : moreExpected s.total s.size = true) :
    ∃ t, s.receiveTurn echo 1 = some t := by
  have hadd := h.length_add
  have hlt := (moreExpected_iff h.size_le).mp hmore
  rw [h.total] at hlt
  have hr : (1 : ℤ) ≤ 1 ∧ (1 : ℤ) ≤ s.size ∧ (1 : ℤ) ≤ s.peer.length := by omega
  have hm : (s.peer.take (1 : ℤ).toNat).length ≤ s.buffer.length := by
    rw [List.length_take, h.buffer]
    omega
  simp only [State.receiveTurn, if_pos hmore, echo, if_pos hr, if_pos hm]
  exact ⟨_, rfl⟩

theorem Receiving.can_step (h : Receiving s) (hpc : s.InLoop) : ∃ l t, step echo s l = some t := by
  by_cases hmore : moreExpected s.total s.size = true
  · obtain ⟨t, ht⟩ := h.can_turn hmore
    exact ⟨.recv 1, t, step_recv_eq_some.mpr ⟨hpc, ht⟩⟩
  · exact ⟨.go, Option.isSome_iff_exists.mp ((isSome_go_iff hpc).mpr hmore)⟩

theorem Inv.can_step (h : Inv s) (hopen : s.pc ≠ .closed) : ∃ l t, step echo s l = some t := by
  have hat := h.atPc
  unfold AtPc at hat
  split at hat <;> rename_i hpc
  · exact ⟨.go, by simp [step, hpc]⟩
  · exact hat.2.2.can_step (Or.inl hpc)
  · refine ⟨.go, ?_⟩
    simp only [step, hpc]
    split_ifs <;> exact ⟨_, rfl⟩
  · refine ⟨.go, ?_⟩
    simp only [step, hpc]
    split_ifs <;> exact ⟨_, rfl⟩
  · obtain ⟨k, -, -, -, -, hrecv⟩ := hat
    exact hrecv.can_step (Or.inr hpc)
  · exact absurd hpc hopen
  · exact hat.elim

theorem scheduleUpTo_le_next {k idx : ℕ} (hidx : idx ≤ tcpTestCount) :
    scheduleUpTo k idx <+: scheduleUpTo (k + 1) 0 := by
  rw [scheduleUpTo_next]
  refine ⟨List.replicate (tcpTestCount - idx) (sizeAt k), ?_⟩
  simp only [scheduleUpTo, List.append_assoc, ← List.replicate_add]
  rw [Nat.add_sub_of_le hidx]

theorem scheduleUpTo_mono {j k : ℕ} (hjk : j ≤ k) : scheduleUpTo j 0 <+: scheduleUpTo k 0 := by
  induction k, hjk using Nat.le_induction with
  | base => exact List.prefix_rfl
  | succ k _ ih => exact ih.trans (scheduleUpTo_le_next (Nat.zero_le _))

/-- The rounds so far are the first ones of the schedule. -/
theorem Inv.sizes_follow (h : Inv s) : s.sizes <+: schedule := by
  have hat := h.atPc
  unfold AtPc at hat
  split at hat
  · simp [State.sizes, hat.1]
  · simp [State.sizes, hat.1]
  · obtain ⟨k, hk, -, hsched, -⟩ := hat
    exact hsched ▸ scheduleUpTo_mono hk
  · obtain ⟨k, hk, -, hidx, hsched, -⟩ := hat
    exact hsched ▸ (scheduleUpTo_le_next hidx).trans (scheduleUpTo_mono hk)
  · obtain ⟨k, hk, -, hidx, hsched, -⟩ := hat
    exact hsched ▸ (scheduleUpTo_le_next hidx.le).trans (scheduleUpTo_mono hk)
  · exact hat.1 ▸ List.prefix_rfl
  · exact hat.elim

/-- With an echo peer, and however `recv` cuts up the stream: no byte is
written past the receive buffer, every finished round received exactly its own
bytes and left nothing in flight, the rounds follow the schedule, and every run
can be continued until all rounds of the schedule are finished. -/
theorem every_round_complete (s : State (List Byte)) (h : Reachable s) :
    s.pc ≠ .overrun ∧
      (∀ n r, s.rounds[n]? = some r → CompleteRound n r) ∧
      s.sizes <+: schedule ∧
      (s.pc = .closed → s.sizes = schedule) ∧
      (s.pc ≠ .closed → ∃ l t, step echo s l = some t) ∧
      ∃ bound, ∀ ls t, Transition.run (step echo) s ls = some t → ls.length ≤ bound := by
  have hinv := h.inv
  refine ⟨?_, hinv.rounds, hinv.sizes_follow, ?_, hinv.can_step, rank s, ?_⟩
  · intro hpc
    have hat := hinv.atPc
    simp only [AtPc, hpc] at hat
  · intro hpc
    have hat := hinv.atPc
    simp only [AtPc, hpc] at hat
    exact hat.1
  · intro ls t hrun
    have hle := Transition.length_le_rank (fun _ => True) rank
      (fun _ _ _ _ hs ht => ⟨hs.next ht, rank_step hs ht⟩) hinv (by simp) hrun
    omega

/-- The warm-up echo arrives in two parts. -/
theorem every_round_complete_two_parts :
    ∃ s, Reachable s ∧ s.rounds.length = 1 ∧ ∀ r, s.rounds[0]? = some r → CompleteRound 0 r := by
  obtain ⟨s, hrun, hlen⟩ : ∃ s, Transition.run (step echo) (start [])
      [.go, .recv 40, .recv 60, .go] = some s ∧ s.rounds.length = 1 := ⟨_, rfl, rfl⟩
  have hs : Reachable s := ⟨_, by simp, hrun⟩
  exact ⟨s, hs, hlen, (every_round_complete s hs).2.1 0⟩

end Rpi3Bench.NetworkRoundTrip
