import Rpi3Bench.NetworkRoundTrip.Errors

/-!
# A peer that closes the connection

After the end of the stream `recv` returns 0 for good and the total stands
still.  So the loop ends only if what came before the end made it end.
-/

namespace Rpi3Bench.NetworkRoundTrip

variable {s t u : State (ℕ → Byte)} {outcome : ℕ → ℤ} {n : ℕ}

/-- The first `n` calls of `recv` in a loop. -/
def recvs (outcome : ℕ → ℤ) (n : ℕ) : List Label :=
  (List.range n).map fun k => .recv (outcome k)

/-- The bytes that the first `n` calls delivered, less the errors among them. -/
def net (outcome : ℕ → ℤ) (n : ℕ) : ℤ := ∑ k ∈ Finset.range n, outcome k

/-- A receive loop is entered for a round of `size` bytes. -/
structure RoundStart (size : ℕ) (s : State (ℕ → Byte)) : Prop where
  loop : s.InLoop
  size_eq : s.size = size
  total : s.total = 0
  buffer : s.buffer.length = size

/-- What `recv` can return for a buffer of `size` bytes, up to when the peer
closes the connection and from then on. -/
structure ClosesAt (size : ℕ) (outcome : ℕ → ℤ) (closed : ℕ) : Prop where
  range : ∀ k, -1 ≤ outcome k ∧ outcome k ≤ size
  eof : ∀ k, closed ≤ k → outcome k = 0

/-- After some number of turns the loop is left. -/
def LoopTerminates (s : State (ℕ → Byte)) (outcome : ℕ → ℤ) : Prop :=
  ∃ n t, Transition.run (step anyPeer) s (recvs outcome n) = some t ∧
    (step anyPeer t .go).isSome = true

/-- In the loop, with a total that counts `z`. -/
structure AtTotal (size : ℕ) (z : ℤ) (s : State (ℕ → Byte)) : Prop where
  loop : s.InLoop
  size_eq : s.size = size
  buffer : s.buffer.length = size
  total : s.total = BitVec.ofInt 32 z

theorem recvs_succ (outcome : ℕ → ℤ) (n : ℕ) :
    recvs outcome (n + 1) = recvs outcome n ++ [.recv (outcome n)] := by
  simp [recvs, List.range_succ]

theorem net_succ (outcome : ℕ → ℤ) (n : ℕ) : net outcome (n + 1) = net outcome n + outcome n :=
  Finset.sum_range_succ _ _

/-- As long as the loop test holds, a `recv` makes one more turn. -/
theorem AtTotal.turn {size : ℕ} {z r : ℤ} (h : AtTotal size z s)
    (hmore : moreExpected s.total s.size = true) (hr : -1 ≤ r ∧ r ≤ size) :
    ∃ t, step anyPeer s (.recv r) = some t ∧ AtTotal size (z + r) t := by
  have hr' : -1 ≤ r ∧ r ≤ s.size := h.size_eq ▸ hr
  have hfits : ((List.range r.toNat).map s.peer).length ≤ s.buffer.length := by
    rw [List.length_map, List.length_range, h.buffer]
    omega
  refine ⟨{ s with
      total := s.total + BitVec.ofInt 32 r
      buffer := ((List.range r.toNat).map s.peer).map some ++
        s.buffer.drop ((List.range r.toNat).map s.peer).length
      received := s.received ++ (List.range r.toNat).map s.peer
      peer := fun k => s.peer (k + r.toNat) }, ?_, h.loop, h.size_eq, ?_, ?_⟩
  · rw [step_recv_eq_some, State.receiveTurn, if_pos hmore]
    refine ⟨h.loop, ?_⟩
    simp only [anyPeer, if_pos hr']
    rw [if_pos hfits]
  · simp only [List.length_append, List.length_map, List.length_drop] at hfits ⊢
    rw [Nat.add_sub_cancel' hfits, h.buffer]
  · change s.total + BitVec.ofInt 32 r = _
    rw [h.total, BitVec.ofInt_add]

theorem RoundStart.atTotal {size : ℕ} (h : RoundStart size s) : AtTotal size 0 s :=
  ⟨h.loop, h.size_eq, h.buffer, h.total⟩

/-- However far the loop runs, its total is the net count. -/
theorem atTotal_of_run {size : ℕ} (hs : RoundStart size s)
    (hrange : ∀ k, -1 ≤ outcome k ∧ outcome k ≤ size)
    (h : Transition.run (step anyPeer) s (recvs outcome n) = some t) :
    AtTotal size (net outcome n) t := by
  induction n generalizing t with
  | zero =>
    cases h
    exact hs.atTotal
  | succ n ih =>
    rw [recvs_succ, Transition.run_concat_eq_some] at h
    obtain ⟨u, hu, ht⟩ := h
    have hat := ih hu
    have hmore := (receiveTurn_any (step_recv_eq_some.mp ht).2).1
    obtain ⟨t', ht', hat'⟩ := hat.turn hmore (hrange n)
    rw [ht, Option.some.injEq] at ht'
    rw [net_succ, ht']
    exact hat'

/-- The loop runs at least as far as its test holds. -/
theorem exists_run {size : ℕ} (hs : RoundStart size s)
    (hrange : ∀ k, -1 ≤ outcome k ∧ outcome k ≤ size)
    (hmore : ∀ m < n, moreExpected (BitVec.ofInt 32 (net outcome m)) size = true) :
    ∃ t, Transition.run (step anyPeer) s (recvs outcome n) = some t := by
  induction n with
  | zero => exact ⟨s, rfl⟩
  | succ n ih =>
    obtain ⟨t, ht⟩ := ih fun m hm => hmore m (by omega)
    have hat := atTotal_of_run hs hrange ht
    have hmore' : moreExpected t.total t.size = true := by
      rw [hat.total, hat.size_eq]
      exact hmore n (Nat.lt_succ_self n)
    obtain ⟨u, hu, -⟩ := hat.turn hmore' (hrange n)
    exact ⟨u, recvs_succ outcome n ▸ Transition.run_concat_eq_some.mpr ⟨t, ht, hu⟩⟩

theorem loopTerminates_iff_test {size : ℕ} (hs : RoundStart size s)
    (hrange : ∀ k, -1 ≤ outcome k ∧ outcome k ≤ size) :
    LoopTerminates s outcome ↔
      ∃ n, ¬ moreExpected (BitVec.ofInt 32 (net outcome n)) size = true := by
  constructor
  · rintro ⟨n, t, ht, hleft⟩
    have hat := atTotal_of_run hs hrange ht
    rw [isSome_go_iff hat.loop, hat.total, hat.size_eq] at hleft
    exact ⟨n, hleft⟩
  · intro h
    -- the loop is left at the first total that fails the test
    obtain ⟨t, ht⟩ := exists_run (n := Nat.find h) hs hrange fun m hm =>
      not_not.mp (Nat.find_min h hm)
    have hat := atTotal_of_run hs hrange ht
    refine ⟨Nat.find h, t, ht, ?_⟩
    rw [isSome_go_iff hat.loop, hat.total, hat.size_eq]
    exact Nat.find_spec h

theorem moreExpected_ofInt_iff {size : ℕ} (hsize : size < 2 ^ 32) (z : ℤ) :
    moreExpected (BitVec.ofInt 32 z) size = true ↔ z % 2 ^ 32 < size := by
  rw [moreExpected, BitVec.ult, decide_eq_true_eq, BitVec.toNat_ofNat, Nat.mod_eq_of_lt hsize,
    BitVec.toNat_ofInt]
  push_cast
  omega

/-- Nothing is counted after the end of the stream. -/
theorem net_min_closed {size closed : ℕ} (h : ClosesAt size outcome closed) (n : ℕ) :
    net outcome n = net outcome (min n closed) := by
  rcases le_total n closed with hle | hle
  · rw [min_eq_left hle]
  · rw [min_eq_right hle]
    induction n, hle using Nat.le_induction with
    | base => rfl
    | succ n hn ih => rw [net_succ, h.eof n hn, add_zero, ih]

/-- Up to 2^31 the test fails first when the count turns negative or reaches
the size. -/
theorem exists_failing_iff {size closed : ℕ} (hsize : 1 ≤ size) (hsmall : size ≤ 2 ^ 31)
    (h : ClosesAt size outcome closed) :
    (∃ n ≤ closed, (size : ℤ) ≤ net outcome n % 2 ^ 32) ↔
      ∃ n ≤ closed, net outcome n < 0 ∨ (size : ℤ) ≤ net outcome n := by
  constructor
  · rintro ⟨n, hn, hle⟩
    exact ⟨n, hn, by omega⟩
  · intro hex
    obtain ⟨hle, hfirst⟩ := Nat.find_spec hex
    refine ⟨Nat.find hex, hle, ?_⟩
    cases hn : Nat.find hex with
    | zero =>
      rw [hn] at hfirst
      simp only [net, Finset.range_zero, Finset.sum_empty] at hfirst
      omega
    | succ m =>
      -- just before, the count was in range
      have hbefore := Nat.find_min hex (hn ▸ Nat.lt_succ_self m : m < Nat.find hex)
      have hm : m ≤ closed := by omega
      rw [hn, net_succ] at hfirst
      rw [net_succ]
      have hrange := h.range m
      have hnot : ¬ (net outcome m < 0 ∨ (size : ℤ) ≤ net outcome m) := fun hor => hbefore ⟨hm, hor⟩
      omega

/-- With a peer that closes the connection, a receive loop terminates exactly
when before that the bytes delivered, less the errors, reach the size of the
round, or the errors outnumber the bytes; above 2^31 the count is taken as the
loop test takes it. -/
theorem loop_terminates_iff (s : State (ℕ → Byte)) (size : ℕ) (outcome : ℕ → ℤ) (closed : ℕ)
    (hs : RoundStart size s) (hpos : 1 ≤ size) (hsize : size < 2 ^ 32)
    (hclosed : ClosesAt size outcome closed) :
    (LoopTerminates s outcome ↔ ∃ n ≤ closed, (size : ℤ) ≤ net outcome n % 2 ^ 32) ∧
      (size ≤ 2 ^ 31 → (LoopTerminates s outcome ↔
        ∃ n ≤ closed, net outcome n < 0 ∨ (size : ℤ) ≤ net outcome n)) := by
  have hiff : LoopTerminates s outcome ↔ ∃ n ≤ closed, (size : ℤ) ≤ net outcome n % 2 ^ 32 := by
    rw [loopTerminates_iff_test hs hclosed.range]
    simp only [moreExpected_ofInt_iff hsize, not_lt]
    constructor
    · rintro ⟨n, hn⟩
      rw [net_min_closed hclosed n] at hn
      exact ⟨min n closed, min_le_right n closed, hn⟩
    · rintro ⟨n, -, hn⟩
      exact ⟨n, hn⟩
  exact ⟨hiff, fun hsmall => hiff.trans (exists_failing_iff hpos hsmall hclosed)⟩

/-- The loop of `warm_up` is entered. -/
theorem exists_warmUp_start :
    ∃ s, step anyPeer (start constantly) .go = some s ∧ RoundStart 100 s :=
  ⟨_, rfl, Or.inl rfl, rfl, rfl, List.length_replicate⟩

/-- The echo arrives in two parts before the peer closes. -/
def twoParts (k : ℕ) : ℤ := if k = 0 then 40 else if k = 1 then 60 else 0

theorem loop_terminates_iff_two_parts :
    ∃ s, step anyPeer (start constantly) .go = some s ∧ LoopTerminates s twoParts := by
  obtain ⟨s, hstep, hs⟩ := exists_warmUp_start
  have hcloses : ClosesAt 100 twoParts 2 := by
    constructor
    · intro k
      unfold twoParts
      split_ifs <;> omega
    · intro k hk
      rw [twoParts, if_neg (by omega), if_neg (by omega)]
  refine ⟨s, hstep, ?_⟩
  apply (loop_terminates_iff s 100 twoParts 2 hs (by decide) (by decide) hcloses).1.mpr
  exact ⟨2, le_rfl, by decide⟩

/-- The peer closes the connection at once. -/
theorem not_loop_terminates :
    ¬ ∀ (s : State (ℕ → Byte)) (size : ℕ) (outcome : ℕ → ℤ) (closed : ℕ), RoundStart size s →
      1 ≤ size → size < 2 ^ 32 → ClosesAt size outcome closed → LoopTerminates s outcome := by
  intro hall
  obtain ⟨s, -, hs⟩ := exists_warmUp_start
  have hcloses : ClosesAt 100 (fun _ => 0) 0 := ⟨fun _ => by decide, fun _ _ => rfl⟩
  have hends := hall s 100 (fun _ => 0) 0 hs (by decide) (by decide) hcloses
  obtain ⟨n, hn⟩ := (loopTerminates_iff_test hs hcloses.range).mp hends
  have hnet : net (fun _ => 0) n = 0 := Finset.sum_const_zero
  rw [hnet] at hn
  exact hn (by decide)

end Rpi3Bench.NetworkRoundTrip
