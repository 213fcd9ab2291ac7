import Rpi3Bench.Common

/-!
# The fastest send of `peak_bandwidth`

`tcp_peak_bandwidth` reports the smallest time that one of its sends took,
whatever the send returned.
-/

namespace Rpi3Bench.PeakBandwidth

/-- `TEST_COUNT`. -/
def testCount : ℕ := 100

/-- `send_data_byte_size`. -/
def sendDataByteSize : ℕ := 12500000

/-- `ULLONG_MAX`. -/
def ullongMax : ℕ := 2 ^ 64 - 1

/-- An iteration of the loop: what `send` returned, and the readings of the
clock before and after it. -/
structure Iteration where
  sent : ℤ
  start : Timespec ℤ
  stop : Timespec ℤ

/-- What the calls of one run return; `iteration k` is the one with `idx = k`. -/
structure Env where
  malloc : Bool
  socket : Bool
  connect : Bool
  iteration : ℕ → Iteration

/-- The values that the last line prints. -/
structure Report where
  ipAddress : String
  byteSize : ℕ
  minTime : ℕ
  deriving DecidableEq

/-- The time of an iteration as the source writes it, before its conversion. -/
def Iteration.time (it : Iteration) : ℚ :=
  billion * (it.stop.tvSec - it.start.tvSec : ℤ) + (it.stop.tvNsec : ℚ) - (it.start.tvNsec : ℚ)
    - getTimeOverhead

/-- The loop, with the minimum so far. -/
def minTimeFrom : List Iteration → ℕ → Except Stop ℕ
  | [], minTime => .ok minTime
  | it :: rest, minTime =>
    match toUnsigned 64 it.time with
    | none => .error (.undefined it.time)
    -- what `send` returned plays no part
    | some time => minTimeFrom rest (if time < minTime then time else minTime)

def Env.iterations (env : Env) : List Iteration := (List.range testCount).map env.iteration

def tcpPeakBandwidth (env : Env) (ipAddress : String) : Except Stop Report :=
  if !env.malloc then .error (.exit "Failed allocate memory to send buffer.\n")
  else if !env.socket then .error (.exit "Failed to CREATE socket.")
  else if !env.connect then .error (.exit "Failed to CONNECT to socket.\n")
  else do
    let minTime ← minTimeFrom env.iterations ullongMax
    return { ipAddress := ipAddress, byteSize := sendDataByteSize, minTime := minTime }

/-! ## The loop -/

/-- The send of this iteration accepted everything. -/
def Iteration.Full (it : Iteration) : Prop := it.sent = sendDataByteSize

/-- The times of the iterations whose send accepted everything. -/
def fullTimes (its : List Iteration) : Set ℚ := {x | ∃ it ∈ its, it.Full ∧ x = it.time}

/-- The time fits the variable that holds it. -/
def Iteration.Representable (it : Iteration) : Prop := 0 ≤ it.time ∧ it.time < 2 ^ 64

variable {its : List Iteration} {it : Iteration} {m m₀ t : ℕ}

/-- All readings are whole, and so are the times. -/
theorem Iteration.exists_time_eq (it : Iteration) : ∃ z : ℤ, it.time = z := by
  refine ⟨1000000000 * (it.stop.tvSec - it.start.tvSec) + it.stop.tvNsec - it.start.tvNsec - 469,
    ?_⟩
  simp only [Iteration.time, billion, getTimeOverhead]
  push_cast
  rfl

theorem toUnsigned_time_eq_some : toUnsigned 64 it.time = some t → it.time = t := by
  intro h
  obtain ⟨z, hz⟩ := it.exists_time_eq
  rw [hz, toUnsigned_intCast] at h
  rw [hz, h.1, Int.cast_natCast]

theorem representable_iff : it.Representable ↔ ∃ t, toUnsigned 64 it.time = some t := by
  obtain ⟨z, hz⟩ := it.exists_time_eq
  simp only [Iteration.Representable, hz, toUnsigned_intCast]
  constructor
  · rintro ⟨hlow, hhigh⟩
    have hlow : 0 ≤ z := by exact_mod_cast hlow
    have hhigh : z < 2 ^ 64 := by exact_mod_cast hhigh
    exact ⟨z.toNat, (Int.toNat_of_nonneg hlow).symm, hhigh⟩
  · rintro ⟨t, rfl, hlt⟩
    exact ⟨by positivity, by exact_mod_cast hlt⟩

/-- With times that fit, the loop ends. -/
theorem exists_minTimeFrom (h : ∀ it ∈ its, it.Representable) (m₀ : ℕ) :
    ∃ m, minTimeFrom its m₀ = .ok m := by
  induction its generalizing m₀ with
  | nil => exact ⟨m₀, rfl⟩
  | cons it rest ih =>
    obtain ⟨t, ht⟩ := representable_iff.mp (h it List.mem_cons_self)
    rw [minTimeFrom, ht]
    exact ih (fun it' hin => h it' (List.mem_cons_of_mem it hin)) _

/-- The result of the loop is below its start and all the times, and one of these. -/
theorem minTimeFrom_spec (h : minTimeFrom its m₀ = .ok m) :
    (∀ it ∈ its, it.Representable) ∧ m ≤ m₀ ∧ (∀ it ∈ its, (m : ℚ) ≤ it.time) ∧
      (m = m₀ ∨ ∃ it ∈ its, (m : ℚ) = it.time) := by
  induction its generalizing m₀ with
  | nil =>
    cases h
    simp
  | cons it rest ih =>
    rw [minTimeFrom] at h
    cases ht : toUnsigned 64 it.time with
    | none =>
      rw [ht] at h
      cases h
    | some t =>
      rw [ht] at h
      obtain ⟨hrep, hle, hlower, hattained⟩ := ih h
      have htime := toUnsigned_time_eq_some ht
      have hmin : (if t < m₀ then t else m₀) ≤ t ∧ (if t < m₀ then t else m₀) ≤ m₀ := by
        split_ifs <;> omega
      refine ⟨?_, hle.trans hmin.2, ?_, ?_⟩
      · intro it' hin
        rcases List.mem_cons.mp hin with rfl | hin
        · exact representable_iff.mpr ⟨t, ht⟩
        · exact hrep it' hin
      · intro it' hin
        rcases List.mem_cons.mp hin with rfl | hin
        · rw [htime]
          exact_mod_cast hle.trans hmin.1
        · exact hlower it' hin
      · rcases hattained with heq | ⟨it', hin, heq⟩
        · split_ifs at heq with hlt
          · exact Or.inr ⟨it, List.mem_cons_self, by rw [htime, heq]⟩
          · exact Or.inl heq
        · exact Or.inr ⟨it', List.mem_cons_of_mem it hin, heq⟩

/-- The smallest time of all is the smallest one of the full sends exactly when
a full send has it. -/
theorem minTimeFrom_isLeast_iff :
    (∃ m, minTimeFrom its ullongMax = .ok m ∧ IsLeast (fullTimes its) m) ↔
      (∀ it ∈ its, it.Representable) ∧
        ∃ it ∈ its, it.Full ∧ ∀ it' ∈ its, it.time ≤ it'.time := by
  constructor
  · rintro ⟨m, hm, ⟨it, hin, hfull, htime⟩, -⟩
    obtain ⟨hrep, -, hlower, -⟩ := minTimeFrom_spec hm
    exact ⟨hrep, it, hin, hfull, fun it' hin' => htime ▸ hlower it' hin'⟩
  · rintro ⟨hrep, it, hin, hfull, hleast⟩
    obtain ⟨m, hm⟩ := exists_minTimeFrom hrep ullongMax
    obtain ⟨-, -, hlower, hattained⟩ := minTimeFrom_spec hm
    have hle : it.time ≤ m := by
      rcases hattained with heq | ⟨it', hin', heq⟩
      · -- no time that fits exceeds the start of the loop
        obtain ⟨t, ht⟩ := representable_iff.mp (hrep it hin)
        have hlt := (hrep it hin).2
        rw [toUnsigned_time_eq_some ht] at hlt ⊢
        have hlt : t < 2 ^ 64 := by exact_mod_cast hlt
        have htm : t ≤ m := by
          rw [heq, ullongMax]
          omega
        exact_mod_cast htm
      · exact heq ▸ hleast it' hin'
    have heq : (m : ℚ) = it.time := le_antisymm (hlower it hin) hle
    refine ⟨m, hm, ⟨it, hin, hfull, heq⟩, ?_⟩
    rintro x ⟨it', hin', -, rfl⟩
    exact hlower it' hin'

/-! ## The report -/

variable {env : Env} {ipAddress : String}

theorem tcpPeakBandwidth_eq_ok {r : Report} (hmalloc : env.malloc = true)
    (hsocket : env.socket = true) (hconnect : env.connect = true) :
    tcpPeakBandwidth env ipAddress = .ok r ↔
      minTimeFrom env.iterations ullongMax = .ok r.minTime ∧ r.ipAddress = ipAddress ∧
        r.byteSize = sendDataByteSize := by
  simp only [tcpPeakBandwidth, hmalloc, hsocket, hconnect, Bool.not_true, Bool.false_eq_true,
    if_false, except_bind_eq_ok]
  constructor
  · rintro ⟨m, hm, hr⟩
    cases hr
    exact ⟨hm, rfl, rfl⟩
  · obtain ⟨ip, size, time⟩ := r
    rintro ⟨hm, rfl, rfl⟩
    exact ⟨time, hm, rfl⟩

/-- Once connected, `tcp_peak_bandwidth` reports the smallest time of the sends
that accepted everything exactly when all times are representable and one of
these sends is the fastest of all. -/
theorem min_time_of_full_sends_iff (env : Env) (ipAddress : String) (hmalloc : env.malloc = true)
    (hsocket : env.socket = true) (hconnect : env.connect = true) :
    (∃ r, tcpPeakBandwidth env ipAddress = .ok r ∧
        IsLeast (fullTimes env.iterations) r.minTime) ↔
      (∀ it ∈ env.iterations, it.Representable) ∧
        ∃ it ∈ env.iterations, it.Full ∧ ∀ it' ∈ env.iterations, it.time ≤ it'.time := by
  rw [← minTimeFrom_isLeast_iff]
  simp only [tcpPeakBandwidth_eq_ok hmalloc hsocket hconnect]
  constructor
  · rintro ⟨r, ⟨hm, -, -⟩, hleast⟩
    exact ⟨r.minTime, hm, hleast⟩
  · rintro ⟨m, hm, hleast⟩
    exact ⟨⟨ipAddress, sendDataByteSize, m⟩, ⟨hm, rfl, rfl⟩, hleast⟩

/-- A run in which each send accepts everything in the same time. -/
def steady : Env := ⟨true, true, true, fun k => ⟨12500000, ⟨k, 0⟩, ⟨k, 100000000⟩⟩⟩

theorem time_steady {it : Iteration} (h : it ∈ steady.iterations) :
    it.Full ∧ it.time = 99999531 := by
  obtain ⟨k, -, rfl⟩ := List.mem_map.mp h
  refine ⟨rfl, ?_⟩
  simp only [steady, Iteration.time, billion, getTimeOverhead]
  norm_num

theorem min_time_of_full_sends_iff_steady :
    ∃ r, tcpPeakBandwidth steady "127.0.0.1" = .ok r ∧
      IsLeast (fullTimes steady.iterations) r.minTime := by
  apply (min_time_of_full_sends_iff steady "127.0.0.1" rfl rfl rfl).mpr
  refine ⟨?_, steady.iteration 0, List.mem_map_of_mem (by decide), rfl, ?_⟩
  · intro it hin
    rw [Iteration.Representable, (time_steady hin).2]
    norm_num
  · intro it hin
    rw [(time_steady hin).2, (time_steady (List.mem_map_of_mem (by decide))).2]

/-- A reading of the clock in nanoseconds. -/
def nanoseconds (t : Timespec ℤ) : ℤ := t.tvSec * 1000000000 + t.tvNsec

/-- A run on a machine that works: `send` accepts some of what it is given or
fails, and the clock is monotonic. -/
structure Env.Ordinary (env : Env) : Prop where
  connected : env.malloc = true ∧ env.socket = true ∧ env.connect = true
  sent : ∀ k, -1 ≤ (env.iteration k).sent ∧ (env.iteration k).sent ≤ sendDataByteSize
  forward : ∀ k, nanoseconds (env.iteration k).start ≤ nanoseconds (env.iteration k).stop
  monotonic : ∀ k, nanoseconds (env.iteration k).stop ≤ nanoseconds (env.iteration (k + 1)).start

/-- The first send fails at once, the others accept everything in a tenth of a
second. -/
def failingFirst : Env where
  malloc := true
  socket := true
  connect := true
  iteration
    | 0 => ⟨-1, ⟨0, 0⟩, ⟨0, 1000⟩⟩
    | k + 1 => ⟨12500000, ⟨k + 1, 0⟩, ⟨k + 1, 100000000⟩⟩

theorem ordinary_failingFirst : failingFirst.Ordinary := by
  refine ⟨⟨rfl, rfl, rfl⟩, ?_, ?_, ?_⟩
  · intro k
    cases k <;> simp [failingFirst, sendDataByteSize]
  · intro k
    cases k <;> simp [failingFirst, nanoseconds]
  · intro k
    cases k with
    | zero => decide
    | succ k =>
      simp only [failingFirst, nanoseconds]
      push_cast
      omega

/-- The failed send is the fastest, and its time is the one reported. -/
theorem not_min_time_of_full_sends :
    ¬ ∀ env : Env, env.Ordinary → ∃ r, tcpPeakBandwidth env "127.0.0.1" = .ok r ∧
      IsLeast (fullTimes env.iterations) r.minTime := by
  intro hall
  obtain ⟨r, hr, ⟨it, hin, hfull, htime⟩, -⟩ := hall failingFirst ordinary_failingFirst
  have hm := ((tcpPeakBandwidth_eq_ok rfl rfl rfl).mp hr).1
  have hle := (minTimeFrom_spec hm).2.2.1 (failingFirst.iteration 0)
    (List.mem_map_of_mem (by decide))
  obtain ⟨k, -, rfl⟩ := List.mem_map.mp hin
  rw [htime] at hle
  cases k with
  | zero => exact absurd (show (-1 : ℤ) = 12500000 from hfull) (by decide)
  | succ k =>
    simp only [failingFirst, Iteration.time, billion, getTimeOverhead] at hle
    norm_num at hle

end Rpi3Bench.PeakBandwidth
