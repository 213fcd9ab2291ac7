import Rpi3Bench.ClockGettime
import Rpi3Bench.ConnectDisconnect
import Rpi3Bench.ContextSwitch.Timing
import Rpi3Bench.NetworkRoundTrip.Timing

/-!
# Unsigned variables for corrected times

Four programs keep times in unsigned variables.  Three of them subtract more
than the shortest of these times can be, and the fourth has 32 bits.
-/

namespace Rpi3Bench

/-- Each of the programs stores its times exactly. -/
structure StoresExactly (clock : Clock) (connect : ℕ → Bool) (ipAddress : String) : Prop where
  connectDisconnect :
    ConnectDisconnect.TotalsExact ⟨fun _ => true, connect, clock⟩ ipAddress
  tcpPing : NetworkRoundTrip.TotalsExact clock
  contextSwitch : ContextSwitch.TimeExact clock
  measureClocks : ClockGettime.EntriesExact clock

/-- Where each of them does: the intervals that are corrected are not shorter
than the correction, and no sum exceeds 64 bits, which it never does on a clock
that does not go back; the others are shorter than 2^32 nanoseconds. -/
theorem unsigned_times_exact_iff (clock : Clock) (connect : ℕ → Bool) (ipAddress : String) :
    (ConnectDisconnect.TotalsExact ⟨fun _ => true, connect, clock⟩ ipAddress ↔
        (∀ k < 2 * ConnectDisconnect.testCount, 751 ≤ clock.interval k) ∧
          truncatedSum (ConnectDisconnect.Env.connectTimes ⟨fun _ => true, connect, clock⟩) <
            2 ^ 64 ∧
          truncatedSum (ConnectDisconnect.Env.closeTimes ⟨fun _ => true, connect, clock⟩) <
            2 ^ 64) ∧
      (NetworkRoundTrip.TotalsExact clock ↔
        (∀ k < NetworkRoundTrip.sizeCount * NetworkRoundTrip.tcpTestCount,
          1034 ≤ clock.interval k) ∧
          ∀ i < NetworkRoundTrip.sizeCount,
            truncatedSum (NetworkRoundTrip.roundTripTimes clock i) < 2 ^ 64) ∧
      (ContextSwitch.TimeExact clock ↔ 438943469 ≤ clock.interval 0) ∧
      (ClockGettime.EntriesExact clock ↔
        ∀ k < ClockGettime.clockTestCount * ClockGettime.clockNames.length,
          clock.interval k < 2 ^ 32) ∧
      ∀ monotonic : MonotonicClock, monotonic.toClock = clock →
        truncatedSum (ConnectDisconnect.Env.connectTimes ⟨fun _ => true, connect, clock⟩) <
            2 ^ 64 ∧
          truncatedSum (ConnectDisconnect.Env.closeTimes ⟨fun _ => true, connect, clock⟩) <
            2 ^ 64 ∧
          ∀ i, truncatedSum (NetworkRoundTrip.roundTripTimes clock i) < 2 ^ 64 := by
  refine ⟨ConnectDisconnect.totalsExact_iff ipAddress fun _ => rfl,
    NetworkRoundTrip.totalsExact_iff, ContextSwitch.timeExact_iff,
    ClockGettime.entriesExact_iff, ?_⟩
  rintro monotonic rfl
  exact ⟨ConnectDisconnect.truncatedSum_connectTimes_lt _ _ monotonic,
    ConnectDisconnect.truncatedSum_closeTimes_lt _ _ monotonic,
    NetworkRoundTrip.truncatedSum_roundTripTimes_lt monotonic⟩

/-- A clock whose readings are half a microsecond apart. -/
def fastClock : MonotonicClock := .ticking 500 1000000000000 (by decide)

/-- A call that takes half a microsecond is shorter than every correction. -/
theorem not_unsigned_times_exact :
    ¬ ∀ (clock : Clock) (connect : ℕ → Bool) (ipAddress : String),
      StoresExactly clock connect ipAddress := by
  intro hall
  have h := (hall fastClock.toClock (fun _ => true) "127.0.0.1").connectDisconnect
  rw [ConnectDisconnect.totalsExact_iff _ fun _ => rfl] at h
  have hlong : 751 ≤ fastClock.interval 0 := h.1 0 (by decide)
  have hinterval : fastClock.interval 0 = 500 :=
    MonotonicClock.interval_ticking (by decide) (by decide)
  omega

end Rpi3Bench
