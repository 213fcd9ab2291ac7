import Rpi3Bench.CorrectedTimes

/-!
# Connecting and closing

`connect_disconnect` averages the times that a thousand calls of `connect` and
`close` take.  Only a build with `DEBUG` looks at what `connect` returned.
-/

namespace Rpi3Bench.ConnectDisconnect

/-- `TEST_COUNT`. -/
def testCount : ℕ := 1000

/-- What the calls of one run return, by iteration.  Interval `2 * count` of the
clock is around `connect`, the one after it around `close`. -/
structure Env where
  socket : ℕ → Bool
  connect : ℕ → Bool
  clock : Clock

structure Totals where
  connectTimeTotal : ℕ
  closeTimeTotal : ℕ
  deriving DecidableEq

/-- The totals, and the averages in milliseconds that the last line prints. -/
structure Report extends Totals where
  ipAddress : String
  connectTimeAvg : ℚ
  closeTimeAvg : ℚ
  deriving DecidableEq

/-- The expression that `connect_time` and `close_time` are initialised with,
before its conversion. -/
def correctedTime (start stop : Timespec (BitVec 32)) : ℚ :=
  Words.inlineDiff start stop - getTimeOverhead - syscallOverhead

section Program

variable (env : Env)

def Env.connectTime (count : ℕ) : ℚ :=
  correctedTime (env.clock.start (2 * count)).toTimespec (env.clock.stop (2 * count)).toTimespec

def Env.closeTime (count : ℕ) : ℚ :=
  correctedTime (env.clock.start (2 * count + 1)).toTimespec
    (env.clock.stop (2 * count + 1)).toTimespec

/-- The loop, over the iterations still to come. -/
def totalsFrom (debug : Bool) : List ℕ → Totals → Except Stop Totals
  | [], totals => .ok totals
  | count :: rest, totals =>
    if !env.socket count then .error (.exit "Failed to CREATE socket.")
    -- `#if defined(DEBUG)`; the other branch drops what `connect` returns
    else if debug && !env.connect count then .error (.exit "Failed to CONNECT to socket.\n")
    else do
      let connectTime ← convert (env.connectTime count) (toUnsigned 64 (env.connectTime count))
      let closeTime ← convert (env.closeTime count) (toUnsigned 64 (env.closeTime count))
      totalsFrom debug rest
        { connectTimeTotal := (totals.connectTimeTotal + connectTime) % 2 ^ 64
          closeTimeTotal := (totals.closeTimeTotal + closeTime) % 2 ^ 64 }

def connectDisconnect (debug : Bool) (ipAddress : String) : Except Stop Report := do
  let totals ← totalsFrom env debug (List.range testCount) ⟨0, 0⟩
  return { totals with
    ipAddress := ipAddress
    connectTimeAvg := totals.connectTimeTotal / (testCount * 1000000)
    closeTimeAvg := totals.closeTimeTotal / (testCount * 1000000) }

/-- The times of all iterations, as they are before their conversion. -/
def Env.connectTimes : List ℚ := (List.range testCount).map env.connectTime

def Env.closeTimes : List ℚ := (List.range testCount).map env.closeTime

end Program

/-! ## What a run reports -/

variable {env : Env} {debug : Bool} {ipAddress : String} {r : Report}

/-- The calls of one iteration let it go on. -/
def Env.GoesOn (env : Env) (debug : Bool) (count : ℕ) : Prop :=
  env.socket count = true ∧ (debug = true → env.connect count = true)

/-- The two totals are formed side by side. -/
theorem totalsFrom_eq_ok {counts : List ℕ} {totals result : Totals} :
    totalsFrom env debug counts totals = .ok result ↔
      (∀ count ∈ counts, env.GoesOn debug count) ∧
        addTimes (counts.map env.connectTime) totals.connectTimeTotal =
          some result.connectTimeTotal ∧
        addTimes (counts.map env.closeTime) totals.closeTimeTotal = some result.closeTimeTotal := by
  induction counts generalizing totals with
  | nil =>
    obtain ⟨c, d⟩ := totals
    obtain ⟨c', d'⟩ := result
    simp [totalsFrom, addTimes]
  | cons count rest ih =>
    rw [totalsFrom, List.forall_mem_cons, List.map_cons, List.map_cons, addTimes, addTimes]
    by_cases hon : env.GoesOn debug count
    · have hdebug : ¬ (debug && !env.connect count) = true := by
        intro h
        rw [Bool.and_eq_true, Bool.not_eq_true'] at h
        exact Bool.false_ne_true (h.2.symm.trans (hon.2 h.1))
      rw [if_neg (by simp [hon.1]), if_neg hdebug, except_bind_eq_ok]
      simp only [except_bind_eq_ok, convert_eq_ok, ih]
      cases hc : toUnsigned 64 (env.connectTime count) with
      | none => simp
      | some c =>
        cases hd : toUnsigned 64 (env.closeTime count) with
        | none => simp
        | some d => simp [hon]
    · apply iff_of_false _ fun h => hon h.1.1
      intro h
      split_ifs at h with hsocket hconnect
      · apply hon
        simp_all [Env.GoesOn]

/-- A run that reports, with its totals as sums in 64 bits. -/
theorem connectDisconnect_eq_ok :
    connectDisconnect env debug ipAddress = .ok r ↔
      (∀ count ∈ List.range testCount, env.GoesOn debug count) ∧
        addTimes env.connectTimes 0 = some r.connectTimeTotal ∧
        addTimes env.closeTimes 0 = some r.closeTimeTotal ∧
        r.ipAddress = ipAddress ∧
        r.connectTimeAvg = r.connectTimeTotal / (testCount * 1000000) ∧
        r.closeTimeAvg = r.closeTimeTotal / (testCount * 1000000) := by
  rw [connectDisconnect, except_bind_eq_ok]
  simp only [totalsFrom_eq_ok]
  constructor
  · rintro ⟨totals, ⟨hon, hconnect, hclose⟩, hr⟩
    cases hr
    exact ⟨hon, hconnect, hclose, rfl, rfl, rfl⟩
  · rintro ⟨hon, hconnect, hclose, hip, hconnectAvg, hcloseAvg⟩
    refine ⟨r.toTotals, ⟨hon, hconnect, hclose⟩, ?_⟩
    rw [← hip, ← hconnectAvg, ← hcloseAvg]
    rfl

/-- A run of the default build prints its line when the sockets are there and
the times fit. -/
theorem exists_report (ipAddress : String) (hsocket : ∀ count, env.socket count = true)
    (hconnect : ∀ x ∈ env.connectTimes, Representable 64 x)
    (hclose : ∀ x ∈ env.closeTimes, Representable 64 x) :
    ∃ r, connectDisconnect env false ipAddress = .ok r := by
  obtain ⟨c, hc⟩ := exists_addTimes hconnect
  obtain ⟨d, hd⟩ := exists_addTimes hclose
  refine ⟨⟨⟨c, d⟩, ipAddress, c / (testCount * 1000000), d / (testCount * 1000000)⟩,
    connectDisconnect_eq_ok.mpr ⟨?_, hc, hd, rfl, rfl, rfl⟩⟩
  intro count _
  exact ⟨hsocket count, fun h => absurd h Bool.false_ne_true⟩

/-- What comes off an interval is a reading of the clock and a system call. -/
theorem correctedTime_eq (clock : Clock) (k : ℕ) :
    correctedTime (clock.start k).toTimespec (clock.stop k).toTimespec =
      clock.interval k - 1503 / 2 := by
  rw [correctedTime, clock.inlineDiff_eq, getTimeOverhead, syscallOverhead]
  ring

theorem correctedTime_le (clock : Clock) (k : ℕ) :
    correctedTime (clock.start k).toTimespec (clock.stop k).toTimespec ≤ clock.interval k := by
  rw [correctedTime_eq]
  linarith

/-! ## Exact totals -/

/-- A run prints its line, and both totals are the sums of their times. -/
def TotalsExact (env : Env) (ipAddress : String) : Prop :=
  ∃ r, connectDisconnect env false ipAddress = .ok r ∧
    TotalExact env.connectTimes (some r.connectTimeTotal) ∧
    TotalExact env.closeTimes (some r.closeTimeTotal)

theorem neg_one_lt_correctedTime_iff (clock : Clock) (k : ℕ) :
    -1 < correctedTime (clock.start k).toTimespec (clock.stop k).toTimespec ↔
      751 ≤ clock.interval k := by
  have hfloor : ⌊(1503 / 2 : ℚ)⌋ = 751 := by
    rw [Int.floor_eq_iff]
    norm_num
  rw [correctedTime_eq, neg_one_lt_sub_iff, hfloor]

/-- All intervals are those around a `connect` and those around a `close`. -/
theorem neg_one_lt_times_iff :
    ((∀ x ∈ env.connectTimes, -1 < x) ∧ ∀ x ∈ env.closeTimes, -1 < x) ↔
      ∀ k < 2 * testCount, 751 ≤ env.clock.interval k := by
  simp only [Env.connectTimes, Env.closeTimes, List.forall_mem_map, List.mem_range,
    Env.connectTime, Env.closeTime, neg_one_lt_correctedTime_iff]
  constructor
  · rintro ⟨hconnect, hclose⟩ k hk
    rcases Nat.even_or_odd' k with ⟨count, rfl | rfl⟩
    · exact hconnect count (by omega)
    · exact hclose count (by omega)
  · intro h
    exact ⟨fun count hcount => h _ (by omega), fun count hcount => h _ (by omega)⟩

/-- The totals are right when no interval is shorter than what comes off it and
neither sum exceeds 64 bits. -/
theorem totalsExact_iff (ipAddress : String) (hsocket : ∀ count, env.socket count = true) :
    TotalsExact env ipAddress ↔ (∀ k < 2 * testCount, 751 ≤ env.clock.interval k) ∧
      truncatedSum env.connectTimes < 2 ^ 64 ∧ truncatedSum env.closeTimes < 2 ^ 64 := by
  rw [← neg_one_lt_times_iff]
  constructor
  · rintro ⟨r, hr, hconnect, hclose⟩
    obtain ⟨-, hc, hd, -⟩ := connectDisconnect_eq_ok.mp hr
    rw [← hc, totalExact_addTimes_iff] at hconnect
    rw [← hd, totalExact_addTimes_iff] at hclose
    exact ⟨⟨hconnect.1, hclose.1⟩, hconnect.2, hclose.2⟩
  · rintro ⟨⟨hconnect, hclose⟩, hconnectSum, hcloseSum⟩
    have hconnectExact := totalExact_addTimes_iff.mpr ⟨hconnect, hconnectSum⟩
    have hcloseExact := totalExact_addTimes_iff.mpr ⟨hclose, hcloseSum⟩
    obtain ⟨r, hr⟩ := exists_report ipAddress hsocket hconnectExact.1 hcloseExact.1
    obtain ⟨-, hc, hd, -⟩ := connectDisconnect_eq_ok.mp hr
    rw [hc] at hconnectExact
    rw [hd] at hcloseExact
    exact ⟨r, hr, hconnectExact, hcloseExact⟩

/-- On a clock that never goes back neither sum exceeds 64 bits. -/
theorem truncatedSum_connectTimes_lt (socket connect : ℕ → Bool) (clock : MonotonicClock) :
    truncatedSum (Env.connectTimes ⟨socket, connect, clock.toClock⟩) < 2 ^ 64 := by
  have hlt := (clock.everySecond 0).truncatedSum_lt 0 testCount
    (correctedTime_le (clock.everySecond 0).toClock)
  simp only [Nat.zero_add] at hlt
  exact hlt

theorem truncatedSum_closeTimes_lt (socket connect : ℕ → Bool) (clock : MonotonicClock) :
    truncatedSum (Env.closeTimes ⟨socket, connect, clock.toClock⟩) < 2 ^ 64 := by
  have hlt := (clock.everySecond 1).truncatedSum_lt 0 testCount
    (correctedTime_le (clock.everySecond 1).toClock)
  simp only [Nat.zero_add] at hlt
  exact hlt

/-! ## Averages over established connections -/

/-- The iterations whose `connect` succeeded. -/
def Env.established (env : Env) : List ℕ := (List.range testCount).filter env.connect

/-- The totals are sums over the established connections, and the averages are
these sums over their number. -/
structure OverEstablished (env : Env) (r : Report) : Prop where
  some : env.established ≠ []
  connectTotal : r.connectTimeTotal = truncatedSum (env.established.map env.connectTime)
  closeTotal : r.closeTimeTotal = truncatedSum (env.established.map env.closeTime)
  connectAvg : r.connectTimeAvg = truncatedSum (env.established.map env.connectTime) /
    (env.established.length * 1000000)
  closeAvg : r.closeTimeAvg = truncatedSum (env.established.map env.closeTime) /
    (env.established.length * 1000000)

theorem established_eq_range_iff :
    env.established = List.range testCount ↔ ∀ count < testCount, env.connect count = true := by
  rw [Env.established, List.filter_eq_self]
  simp only [List.mem_range]

theorem established_length_lt (h : ¬ ∀ count < testCount, env.connect count = true) :
    env.established.length < testCount := by
  rw [← established_eq_range_iff] at h
  have hsub : env.established.Sublist (List.range testCount) := List.filter_sublist
  have hle := hsub.length_le
  rw [List.length_range] at hle
  apply lt_of_le_of_ne hle
  intro heq
  exact h (hsub.eq_of_length (by rw [heq, List.length_range]))

theorem truncatedSum_eq_zero_iff {xs : List ℚ} : truncatedSum xs = 0 ↔ ∀ x ∈ xs, x < 1 := by
  rw [truncatedSum, List.sum_eq_zero_iff]
  simp only [List.forall_mem_map, Nat.floor_eq_zero]

theorem truncatedSum_map_eq_zero {l : List ℕ} {f : ℕ → ℚ} (h : ∀ k ∈ l, f k < 1) :
    truncatedSum (l.map f) = 0 := by
  rw [truncatedSum_eq_zero_iff, List.forall_mem_map]
  exact h

/-- A total that is the same with a smaller divisor is zero. -/
theorem eq_zero_of_average_eq {total n : ℕ} (hn : n ≠ 0) (hlt : n < testCount)
    (h : (total : ℚ) / (testCount * 1000000) = total / (n * 1000000)) : total = 0 := by
  by_contra hne
  have htotal : (total : ℚ) ≠ 0 := by exact_mod_cast hne
  have hcount : (n : ℚ) ≠ 0 := by exact_mod_cast hn
  rw [div_eq_div_iff (by norm_num [testCount]) (by positivity)] at h
  have hcast := mul_right_cancel₀ (by norm_num) (mul_left_cancel₀ htotal h)
  have heq : n = testCount := by exact_mod_cast hcast
  omega

variable {socket connect : ℕ → Bool} {clock : MonotonicClock}

/-- In a run that prints its line nothing overflows, so the totals are the sums
over all iterations. -/
theorem totals_eq (h : connectDisconnect ⟨socket, connect, clock.toClock⟩ debug ipAddress = .ok r) :
    r.connectTimeTotal = truncatedSum (Env.connectTimes ⟨socket, connect, clock.toClock⟩) ∧
      r.closeTimeTotal = truncatedSum (Env.closeTimes ⟨socket, connect, clock.toClock⟩) := by
  obtain ⟨-, hconnect, hclose, -⟩ := connectDisconnect_eq_ok.mp h
  rw [addTimes_eq_some (by positivity), Nat.zero_add] at hconnect hclose
  rw [hconnect.2, hclose.2]
  exact ⟨Nat.mod_eq_of_lt (truncatedSum_connectTimes_lt socket connect clock),
    Nat.mod_eq_of_lt (truncatedSum_closeTimes_lt socket connect clock)⟩

/-- When all connects succeeded the averages are what they should be. -/
theorem overEstablished_of_all
    (h : connectDisconnect ⟨socket, connect, clock.toClock⟩ debug ipAddress = .ok r)
    (hall : ∀ count < testCount, connect count = true) :
    OverEstablished ⟨socket, connect, clock.toClock⟩ r := by
  obtain ⟨hconnect, hclose⟩ := totals_eq h
  obtain ⟨-, -, -, -, hconnectAvg, hcloseAvg⟩ := connectDisconnect_eq_ok.mp h
  have hrange : Env.established ⟨socket, connect, clock.toClock⟩ = List.range testCount :=
    established_eq_range_iff.mpr hall
  constructor
  · rw [hrange, Ne, List.range_eq_nil]
    decide
  · rw [hrange, hconnect, Env.connectTimes]
  · rw [hrange, hclose, Env.closeTimes]
  · rw [hrange, hconnectAvg, hconnect, Env.connectTimes, List.length_range]
  · rw [hrange, hcloseAvg, hclose, Env.closeTimes, List.length_range]

/-- The build with `DEBUG` stops at a failed connect, so whatever it prints is
about established connections. -/
theorem debug_overEstablished
    (h : connectDisconnect ⟨socket, connect, clock.toClock⟩ true ipAddress = .ok r) :
    OverEstablished ⟨socket, connect, clock.toClock⟩ r := by
  obtain ⟨hon, -⟩ := connectDisconnect_eq_ok.mp h
  apply overEstablished_of_all h
  intro count hcount
  exact (hon count (List.mem_range.mpr hcount)).2 rfl

/-- When some connects succeeded and all times are below a nanosecond, nothing is
there to add. -/
theorem overEstablished_of_short
    (h : connectDisconnect ⟨socket, connect, clock.toClock⟩ debug ipAddress = .ok r)
    (hsome : ∃ count < testCount, connect count = true)
    (hshort : ∀ count < testCount, Env.connectTime ⟨socket, connect, clock.toClock⟩ count < 1 ∧
      Env.closeTime ⟨socket, connect, clock.toClock⟩ count < 1) :
    OverEstablished ⟨socket, connect, clock.toClock⟩ r := by
  set env : Env := ⟨socket, connect, clock.toClock⟩ with henv
  obtain ⟨hconnect, hclose⟩ := totals_eq h
  obtain ⟨-, -, -, -, hconnectAvg, hcloseAvg⟩ := connectDisconnect_eq_ok.mp h
  have hestablished : ∀ k ∈ env.established, env.connectTime k < 1 ∧ env.closeTime k < 1 := by
    intro k hk
    exact hshort k (List.mem_range.mp (List.mem_filter.mp hk).1)
  have hconnectSub : truncatedSum (env.established.map env.connectTime) = 0 :=
    truncatedSum_map_eq_zero fun k hk => (hestablished k hk).1
  have hcloseSub : truncatedSum (env.established.map env.closeTime) = 0 :=
    truncatedSum_map_eq_zero fun k hk => (hestablished k hk).2
  have hconnectZero : truncatedSum env.connectTimes = 0 :=
    truncatedSum_map_eq_zero fun k hk => (hshort k (List.mem_range.mp hk)).1
  have hcloseZero : truncatedSum env.closeTimes = 0 :=
    truncatedSum_map_eq_zero fun k hk => (hshort k (List.mem_range.mp hk)).2
  obtain ⟨count, hcount, hsucceeded⟩ := hsome
  constructor
  · exact List.ne_nil_of_mem (List.mem_filter.mpr ⟨List.mem_range.mpr hcount, hsucceeded⟩)
  · rw [hconnect, hconnectZero, hconnectSub]
  · rw [hclose, hcloseZero, hcloseSub]
  · rw [hconnectAvg, hconnect, hconnectZero, hconnectSub, Nat.cast_zero, zero_div, zero_div]
  · rw [hcloseAvg, hclose, hcloseZero, hcloseSub, Nat.cast_zero, zero_div, zero_div]

/-- With a failure among the connects the same totals are divided by two numbers,
so that averages over established connections are zero. -/
theorem OverEstablished.totals_eq_zero
    (hover : OverEstablished ⟨socket, connect, clock.toClock⟩ r)
    (h : connectDisconnect ⟨socket, connect, clock.toClock⟩ debug ipAddress = .ok r)
    (hfailed : ¬ ∀ count < testCount, connect count = true) :
    r.connectTimeTotal = 0 ∧ r.closeTimeTotal = 0 := by
  obtain ⟨-, -, -, -, hconnectAvg, hcloseAvg⟩ := connectDisconnect_eq_ok.mp h
  have hne : (Env.established ⟨socket, connect, clock.toClock⟩).length ≠ 0 := by
    rw [Ne, List.length_eq_zero_iff]
    exact hover.some
  have hlt : (Env.established ⟨socket, connect, clock.toClock⟩).length < testCount :=
    established_length_lt hfailed
  constructor
  · apply eq_zero_of_average_eq hne hlt
    rw [← hconnectAvg, hover.connectAvg, hover.connectTotal]
  · apply eq_zero_of_average_eq hne hlt
    rw [← hcloseAvg, hover.closeAvg, hover.closeTotal]

/-- The averages that the default build prints are over established connections
exactly when all connects succeeded, or when some did and all times of the run
are below a nanosecond, so that nothing was there to add. -/
theorem averages_established_iff (socket connect : ℕ → Bool) (clock : MonotonicClock)
    (ipAddress : String) (r : Report)
    (h : connectDisconnect ⟨socket, connect, clock.toClock⟩ false ipAddress = .ok r) :
    OverEstablished ⟨socket, connect, clock.toClock⟩ r ↔
      (∀ count < testCount, connect count = true) ∨
        (∃ count < testCount, connect count = true) ∧ ∀ count < testCount,
          Env.connectTime ⟨socket, connect, clock.toClock⟩ count < 1 ∧
            Env.closeTime ⟨socket, connect, clock.toClock⟩ count < 1 := by
  obtain ⟨hconnect, hclose⟩ := totals_eq h
  constructor
  · intro hover
    by_cases hall : ∀ count < testCount, connect count = true
    · exact Or.inl hall
    · right
      obtain ⟨hconnectZero, hcloseZero⟩ := hover.totals_eq_zero h hall
      rw [hconnect, truncatedSum_eq_zero_iff] at hconnectZero
      rw [hclose, truncatedSum_eq_zero_iff] at hcloseZero
      obtain ⟨count, hcount⟩ := List.exists_mem_of_ne_nil _ hover.some
      obtain ⟨hrange, hsome⟩ := List.mem_filter.mp hcount
      refine ⟨⟨count, List.mem_range.mp hrange, hsome⟩, ?_⟩
      intro k hk
      have hk := List.mem_range.mpr hk
      exact ⟨hconnectZero _ (List.mem_map_of_mem hk), hcloseZero _ (List.mem_map_of_mem hk)⟩
  · rintro (hall | ⟨hsome, hshort⟩)
    · exact overEstablished_of_all h hall
    · exact overEstablished_of_short h hsome hshort

/-- Every call takes a second. -/
def slowClock : MonotonicClock := .ticking 1000000000 4000000000000 (by decide)

theorem exists_report_slowClock (connect : ℕ → Bool) :
    ∃ r, connectDisconnect ⟨fun _ => true, connect, slowClock.toClock⟩ false "127.0.0.1" =
      .ok r := by
  have hrep (k : ℕ) (hk : k < 2000) : Representable 64 (correctedTime
      (slowClock.start k).toTimespec (slowClock.stop k).toTimespec) := by
    have hinterval : slowClock.interval k = 1000000000 :=
      MonotonicClock.interval_ticking (by decide) (by omega)
    rw [correctedTime_eq, hinterval, Representable]
    norm_num
  apply exists_report
  · exact fun _ => rfl
  · intro x hx
    obtain ⟨count, hcount, rfl⟩ := List.mem_map.mp hx
    have hlt : count < 1000 := List.mem_range.mp hcount
    exact hrep (2 * count) (by omega)
  · intro x hx
    obtain ⟨count, hcount, rfl⟩ := List.mem_map.mp hx
    have hlt : count < 1000 := List.mem_range.mp hcount
    exact hrep (2 * count + 1) (by omega)

theorem averages_established_iff_all :
    ∃ r, connectDisconnect ⟨fun _ => true, fun _ => true, slowClock.toClock⟩ false "127.0.0.1" =
      .ok r ∧ OverEstablished ⟨fun _ => true, fun _ => true, slowClock.toClock⟩ r := by
  obtain ⟨r, h⟩ := exists_report_slowClock fun _ => true
  exact ⟨r, h, (averages_established_iff (fun _ => true) (fun _ => true) slowClock "127.0.0.1" r
    h).mpr (Or.inl fun _ _ => rfl)⟩

/-- A host that refuses every connection after a second gets averages all the same. -/
theorem not_averages_established :
    ¬ ∀ (socket connect : ℕ → Bool) (clock : MonotonicClock) (ipAddress : String) (r : Report),
      connectDisconnect ⟨socket, connect, clock.toClock⟩ false ipAddress = .ok r →
        OverEstablished ⟨socket, connect, clock.toClock⟩ r := by
  intro hall
  obtain ⟨r, h⟩ := exists_report_slowClock fun _ => false
  have htotal := (hall (fun _ => true) (fun _ => false) slowClock "127.0.0.1" r h).connectTotal
  have hnone : Env.established ⟨fun _ => true, fun _ => false, slowClock.toClock⟩ = [] := by
    rw [Env.established, List.filter_eq_nil_iff]
    exact fun _ _ => Bool.false_ne_true
  have hinterval : slowClock.interval (2 * 0) = 1000000000 :=
    MonotonicClock.interval_ticking (by decide) (by decide)
  rw [hnone, List.map_nil, (totals_eq h).1, show truncatedSum [] = 0 from rfl,
    truncatedSum_eq_zero_iff] at htotal
  have hfirst := htotal _ (List.mem_map_of_mem (List.mem_range.mpr (show 0 < testCount by decide)))
  rw [Env.connectTime, correctedTime_eq, hinterval] at hfirst
  norm_num at hfirst

end Rpi3Bench.ConnectDisconnect
