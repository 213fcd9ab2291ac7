import Rpi3Bench.NetworkRoundTrip.Echo

/-!
# Round trips when `recv` fails

The loops of `warm_up` and `tcp_ping` add what `recv` returns to the total and
look at nothing else, so an error takes one byte off the total.  At zero the
total turns into the largest `unsigned` and the loop is left.
-/

namespace Rpi3Bench.NetworkRoundTrip

/-- A connection on which `recv` returns anything it can: an error, the end of
the stream, or any part of what fits.  The state holds the bytes to come. -/
def anyPeer : Peer (ℕ → Byte) where
  send incoming _ := incoming
  recv incoming size r :=
    if -1 ≤ r ∧ r ≤ size then
      some ((List.range r.toNat).map incoming, fun k => incoming (k + r.toNat))
    else none

section

variable {σ : Type*} {s t : State σ}

/-- A `recv` that fails when the total is zero and the round is not complete. -/
structure ErrorAtZero (s : State σ) (l : Label) : Prop where
  label : l = .recv (-1)
  total : s.total = 0
  incomplete : s.received.length < s.size

/-- The loop test fails only when the whole round was delivered, and all rounds
so far were. -/
structure LeftComplete (s : State σ) : Prop where
  loop : s.InLoop → ¬ moreExpected s.total s.size = true → s.size ≤ s.received.length
  rounds : ∀ r ∈ s.rounds, r.size ≤ r.received.length

/-- The total counts no byte that was not delivered, unless all were. -/
structure Counted (s : State σ) : Prop where
  size_le : s.size ≤ maxPayloadSize
  total_le : s.size ≤ s.received.length ∨ s.total.toNat ≤ s.received.length

/-- What holds as long as no `recv` fails at zero. -/
structure Tracked (s : State σ) : Prop where
  rounds : ∀ r ∈ s.rounds, r.size ≤ r.received.length
  tests : s.pc = .tests → s.size ≤ maxPayloadSize
  loop : s.InLoop → Counted s

theorem Counted.complete (h : Counted s) (hmore : ¬ moreExpected s.total s.size = true) :
    s.size ≤ s.received.length := by
  rw [moreExpected_iff h.size_le] at hmore
  rcases h.total_le with hall | hle
  · exact hall
  · omega

theorem Tracked.leftComplete (h : Tracked s) : LeftComplete s :=
  ⟨fun hloop hmore => (h.loop hloop).complete hmore, h.rounds⟩

theorem Counted.sendPayload (peer : Peer σ) (pc : Pc) (hs : s.size ≤ maxPayloadSize) :
    Counted (s.sendPayload peer pc) :=
  ⟨hs, Or.inr (Nat.zero_le _)⟩

/-- A round that ends is complete. -/
theorem Tracked.roundDone (h : Tracked s) (hloop : s.InLoop)
    (hmore : ¬ moreExpected s.total s.size = true) :
    ∀ r ∈ s.rounds ++ [s.round], r.size ≤ r.received.length := by
  intro r hr
  rcases List.mem_append.mp hr with hold | hnew
  · exact h.rounds r hold
  · rw [List.mem_singleton.mp hnew]
    exact (h.loop hloop).complete hmore

/-- The steps other than `recv` ask nothing of the peer. -/
theorem Tracked.go {peer : Peer σ} (h : Tracked s) (ht : step peer s .go = some t) :
    Tracked t := by
  cases step_go ht with
  | warmUp hpc =>
    have hle : startPayloadSize ≤ maxPayloadSize := by decide
    exact ⟨h.rounds, by simp [State.sendPayload], fun _ => Counted.sendPayload _ _ hle⟩
  | warmUpDone hpc hmore =>
    exact ⟨h.roundDone (Or.inl hpc) hmore, by simp, by simp [State.InLoop]⟩
  | nextSize hpc hle => exact ⟨h.rounds, fun _ => hle, by simp [State.InLoop]⟩
  | close hpc hle => exact ⟨h.rounds, by simp, by simp [State.InLoop]⟩
  | send hpc hlt =>
    exact ⟨h.rounds, by simp [State.sendPayload], fun _ => Counted.sendPayload _ _ (h.tests hpc)⟩
  | sizeDone hpc hlt => exact ⟨h.rounds, by simp, by simp [State.InLoop]⟩
  | roundDone hpc hmore =>
    exact ⟨h.roundDone (Or.inr hpc) hmore, fun _ => (h.loop (Or.inr hpc)).size_le,
      by simp [State.InLoop]⟩

end

variable {s t : State (ℕ → Byte)}

/-- All that a turn of the loop can do: it adds what `recv` returned to the
total, and as many bytes as that to those received. -/
theorem receiveTurn_any {r : ℤ} (ht : s.receiveTurn anyPeer r = some t) :
    moreExpected s.total s.size = true ∧ -1 ≤ r ∧ r ≤ s.size ∧
      ((∃ bytes buffer p, bytes.length = r.toNat ∧ t = { s with
          total := s.total + BitVec.ofInt 32 r
          buffer := buffer
          received := s.received ++ bytes
          peer := p }) ∨
        t = { s with pc := .overrun }) := by
  unfold State.receiveTurn at ht
  split_ifs at ht with hmore
  by_cases hr : -1 ≤ r ∧ r ≤ s.size
  · simp only [anyPeer, if_pos hr] at ht
    refine ⟨hmore, hr.1, hr.2, ?_⟩
    split_ifs at ht with hbuf
    · cases ht
      exact Or.inl ⟨_, _, _, by simp, rfl⟩
    · cases ht
      exact Or.inr rfl
  · simp only [anyPeer, if_neg hr] at ht
    cases ht

/-- A turn that is not an error at zero keeps the count. -/
theorem Counted.turn {r : ℤ} {bytes : List Byte} (h : Counted s)
    (hmore : moreExpected s.total s.size = true) (hlow : -1 ≤ r) (hhigh : r ≤ s.size)
    (hbytes : bytes.length = r.toNat) (hgood : ¬ ErrorAtZero s (.recv r))
    (htotal : t.total = s.total + BitVec.ofInt 32 r) (hsize : t.size = s.size)
    (hreceived : t.received = s.received ++ bytes) : Counted t := by
  have hmax : maxPayloadSize = 1000 := rfl
  have hs := h.size_le
  have hlt := (moreExpected_iff hs).mp hmore
  have hlength : t.received.length = s.received.length + r.toNat := by
    rw [hreceived, List.length_append, hbytes]
  have hsum : t.total.toNat = (s.total.toNat + (r % 2 ^ 32).toNat) % 2 ^ 32 := by
    rw [htotal, BitVec.toNat_add, BitVec.toNat_ofInt]
    rfl
  refine ⟨hsize ▸ hs, ?_⟩
  rw [hsize, hlength]
  rcases h.total_le with hall | hle
  · exact Or.inl (by omega)
  · rcases lt_or_ge r 0 with hneg | hpos
    · obtain rfl : r = -1 := by omega
      by_cases hcomplete : s.size ≤ s.received.length
      · exact Or.inl (by omega)
      · -- the error takes one byte off a total that is not zero
        have hzero : s.total.toNat ≠ 0 := by
          intro h0
          exact hgood ⟨rfl, BitVec.eq_of_toNat_eq h0, by omega⟩
        exact Or.inr (by omega)
    · exact Or.inr (by omega)

theorem Tracked.recv {r : ℤ} (h : Tracked s) (hgood : ¬ ErrorAtZero s (.recv r))
    (ht : step anyPeer s (.recv r) = some t) : Tracked t := by
  obtain ⟨hloop, hturn⟩ := step_recv_eq_some.mp ht
  obtain ⟨hmore, hlow, hhigh, ⟨bytes, buffer, p, hbytes, rfl⟩ | rfl⟩ := receiveTurn_any hturn
  · refine ⟨h.rounds, h.tests, fun _ => ?_⟩
    exact (h.loop hloop).turn hmore hlow hhigh hbytes hgood rfl rfl rfl
  · exact ⟨h.rounds, by simp, by simp [State.InLoop]⟩

theorem Tracked.next {l : Label} (h : Tracked s) (hgood : ¬ ErrorAtZero s l)
    (ht : step anyPeer s l = some t) : Tracked t := by
  cases l with
  | go => exact h.go ht
  | recv r => exact h.recv hgood ht

theorem tracked_start (incoming : ℕ → Byte) : Tracked (start incoming) :=
  ⟨by simp [start], by simp [start], by simp [start, State.InLoop]⟩

/-- The `unsigned` value of -1 is not less than any size. -/
theorem moreExpected_neg_one (size : ℕ) : moreExpected (BitVec.ofInt 32 (-1)) size = false := by
  have hmax : (BitVec.ofInt 32 (-1)).toNat = 2 ^ 32 - 1 := by decide
  have hlt := (BitVec.ofNat 32 size).isLt
  rw [moreExpected, BitVec.ult, hmax, decide_eq_false_iff_not]
  omega

/-- After an error at zero the loop is left, with part of the round missing. -/
theorem not_leftComplete_of_errorAtZero {l : Label} (hbad : ErrorAtZero s l)
    (ht : step anyPeer s l = some t) : ¬ LeftComplete t := by
  obtain ⟨rfl, htotal, hincomplete⟩ := hbad
  obtain ⟨hloop, hturn⟩ := step_recv_eq_some.mp ht
  -- `recv` writes nothing, so it writes nothing past the buffer
  have ht' : t = { s with total := BitVec.ofInt 32 (-1) } := by
    unfold State.receiveTurn at hturn
    split_ifs at hturn with hmore
    have hallowed : -1 ≤ (-1 : ℤ) ∧ (-1 : ℤ) ≤ s.size := by omega
    simp only [anyPeer, if_pos hallowed] at hturn
    cases hturn
    simp [htotal]
  subst ht'
  intro hleft
  have hall := hleft.loop hloop (ne_true_of_eq_false (moreExpected_neg_one s.size))
  exact absurd hall (Nat.not_le_of_lt hincomplete)

/-- All along a run the receive loops are left with whole rounds only, and all
finished rounds are whole, exactly when no `recv` of the run fails at zero. -/
theorem left_complete_iff (incoming : ℕ → Byte) (ls : List Label) (s : State (ℕ → Byte))
    (h : Transition.run (step anyPeer) (start incoming) ls = some s) :
    (∀ ms t, ms <+: ls → Transition.run (step anyPeer) (start incoming) ms = some t →
        LeftComplete t) ↔
      ∀ ms l t, ms ++ [l] <+: ls → Transition.run (step anyPeer) (start incoming) ms = some t →
        ¬ ErrorAtZero t l := by
  constructor
  · intro hleft ms l t hms ht hbad
    obtain ⟨rest, rfl⟩ := hms
    rw [Transition.run_append, Option.bind_eq_some_iff] at h
    obtain ⟨u, hu, -⟩ := h
    obtain ⟨t', ht', hstep⟩ := Transition.run_concat_eq_some.mp hu
    rw [ht, Option.some.injEq] at ht'
    subst ht'
    exact not_leftComplete_of_errorAtZero hbad hstep
      (hleft (ms ++ [l]) u (List.prefix_append _ _) hu)
  · intro hgood ms t hms ht
    have htracked := Transition.prefix_invariant (P := Tracked)
      (fun _ _ _ hs hbad hst => hs.next hbad hst) (tracked_start incoming) hgood hms ht
    exact htracked.leftComplete

/-- Bytes to come that are all the same. -/
def constantly : ℕ → Byte := fun _ => ⟨'b', 0⟩

/-- The warm-up arrives in two parts. -/
theorem left_complete_iff_two_parts :
    ∃ s, Transition.run (step anyPeer) (start constantly) [.go, .recv 40, .recv 60] = some s ∧
      LeftComplete s := by
  obtain ⟨s, hs⟩ : ∃ s, Transition.run (step anyPeer) (start constantly)
      [.go, .recv 40, .recv 60] = some s := ⟨_, rfl⟩
  refine ⟨s, hs, ?_⟩
  apply (left_complete_iff constantly [.go, .recv 40, .recv 60] s hs).mpr _ _ s List.prefix_rfl hs
  intro ms l t hms _ hbad
  have hl := hms.subset (List.mem_append_right ms (List.mem_singleton_self l))
  rw [hbad.label] at hl
  exact absurd hl (by decide)

/-- The first `recv` of the warm-up fails, and the round is over with no byte
received. -/
theorem not_left_complete :
    ¬ ∀ s, Transition.Reaches (step anyPeer) (fun _ => True) (start constantly) s →
      LeftComplete s := by
  intro hall
  obtain ⟨s, hs, hrounds⟩ : ∃ s, Transition.run (step anyPeer) (start constantly)
      [.go, .recv (-1), .go] = some s ∧
        s.rounds = [⟨100, BitVec.ofInt 32 (-1), [], constantly⟩] := ⟨_, rfl, rfl⟩
  have hcomplete := (hall s ⟨_, by simp, hs⟩).rounds
  rw [hrounds] at hcomplete
  exact absurd (hcomplete _ (List.mem_singleton_self _)) (by decide)

end Rpi3Bench.NetworkRoundTrip
