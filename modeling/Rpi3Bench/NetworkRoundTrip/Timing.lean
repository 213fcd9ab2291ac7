import Rpi3Bench.CorrectedTimes
import Rpi3Bench.NetworkRoundTrip.Model

/-!
# The times of `network_round_trip`

What `tcp_ping` makes of the readings around its rounds, which follow one
another: `TCP_TEST_COUNT` of them for each size.
-/

namespace Rpi3Bench.NetworkRoundTrip

/-- The number of sizes from `START_PAYLOAD_SIZE` to `MAX_PAYLOAD_SIZE`. -/
def sizeCount : ℕ := (maxPayloadSize - startPayloadSize) / payloadIteration + 1

/-- The expression that `round_trip_time` is initialised with, before its
conversion. -/
def roundTripTime (start stop : Timespec (BitVec 32)) : ℚ :=
  Words.inlineDiff start stop - getTimeOverhead - syscallOverhead * 2

section Program

variable (clock : Clock)

/-- The round trips of size number `i`, each before its conversion. -/
def roundTripTimes (i : ℕ) : List ℚ :=
  (List.range tcpTestCount).map fun testIdx =>
    roundTripTime (clock.start (i * tcpTestCount + testIdx)).toTimespec
      (clock.stop (i * tcpTestCount + testIdx)).toTimespec

/-- `total_time` after the rounds of size number `i`. -/
def totalTime (i : ℕ) : Option ℕ := addTimes (roundTripTimes clock i) 0

/-- A line that `tcp_ping` prints. -/
structure Line where
  ipAddress : String
  sendSize : ℕ
  milliseconds : ℚ
  deriving DecidableEq

def timedLines (ipAddress : String) : Option (List Line) :=
  (List.range sizeCount).mapM fun i =>
    (totalTime clock i).map fun total =>
      { ipAddress := ipAddress
        sendSize := startPayloadSize + i * payloadIteration
        milliseconds := (total : ℚ) / 1000000 / tcpTestCount }

/-- Every total is the sum of its times. -/
def TotalsExact : Prop := ∀ i < sizeCount, TotalExact (roundTripTimes clock i) (totalTime clock i)

end Program

variable {clock : Clock}

theorem roundTripTime_eq (clock : Clock) (k : ℕ) :
    roundTripTime (clock.start k).toTimespec (clock.stop k).toTimespec =
      clock.interval k - 1034 := by
  rw [roundTripTime, clock.inlineDiff_eq, getTimeOverhead, syscallOverhead]
  ring

theorem neg_one_lt_roundTripTime_iff (clock : Clock) (k : ℕ) :
    -1 < roundTripTime (clock.start k).toTimespec (clock.stop k).toTimespec ↔
      1034 ≤ clock.interval k := by
  rw [roundTripTime_eq, neg_one_lt_sub_iff, Int.floor_ofNat]

/-- The totals are right when no round trip is shorter than what comes off it
and no sum exceeds 64 bits. -/
theorem totalsExact_iff :
    TotalsExact clock ↔ (∀ k < sizeCount * tcpTestCount, 1034 ≤ clock.interval k) ∧
      ∀ i < sizeCount, truncatedSum (roundTripTimes clock i) < 2 ^ 64 := by
  have hsite (i : ℕ) : (∀ x ∈ roundTripTimes clock i, -1 < x) ↔
      ∀ testIdx < tcpTestCount, 1034 ≤ clock.interval (i * tcpTestCount + testIdx) := by
    simp only [roundTripTimes, List.forall_mem_map, List.mem_range, neg_one_lt_roundTripTime_iff]
  simp only [TotalsExact, totalTime, totalExact_addTimes_iff, hsite]
  constructor
  · intro h
    refine ⟨?_, fun i hi => (h i hi).2⟩
    intro k hk
    have hdiv : k / tcpTestCount < sizeCount := Nat.div_lt_of_lt_mul (by rwa [Nat.mul_comm])
    have hmod : k % tcpTestCount < tcpTestCount := Nat.mod_lt _ (by decide)
    have hk' := (h (k / tcpTestCount) hdiv).1 (k % tcpTestCount) hmod
    rwa [Nat.mul_comm, Nat.div_add_mod] at hk'
  · rintro ⟨hlong, hsum⟩ i hi
    refine ⟨?_, hsum i hi⟩
    intro testIdx ht
    apply hlong
    simp only [sizeCount, maxPayloadSize, startPayloadSize, payloadIteration, tcpTestCount] at *
    omega

theorem truncatedSum_roundTripTimes_lt (clock : MonotonicClock) (i : ℕ) :
    truncatedSum (roundTripTimes clock.toClock i) < 2 ^ 64 := by
  apply clock.truncatedSum_lt (i * tcpTestCount) tcpTestCount
    (f := fun k => roundTripTime (clock.start k).toTimespec (clock.stop k).toTimespec)
  intro k
  rw [roundTripTime_eq]
  linarith

end Rpi3Bench.NetworkRoundTrip
