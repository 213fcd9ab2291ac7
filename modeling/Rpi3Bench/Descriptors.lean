import Rpi3Bench.ConnectDisconnect
import Rpi3Bench.Library.Descriptors
import Rpi3Bench.PeakBandwidth

/-!
# The sockets of `connect_disconnect` and `peak_bandwidth`

The two programs with the descriptors that they use.  In this they do what they
do without as long as one descriptor is free, and they never hold another.
-/

namespace Rpi3Bench

open Descriptors

namespace ConnectDisconnect

/-- The loop, over the iterations still to come. -/
def socketsFrom (env : Env) (debug : Bool) : List ℕ → Totals → Run Stop Totals
  | [], totals => pure totals
  | count :: rest, totals => do
    let sock ← opens (env.socket count)
    if sock < 0 then
      close sock
      throw (.exit "Failed to CREATE socket.")
    else if debug && !env.connect count then
      close sock
      throw (.exit "Failed to CONNECT to socket.\n")
    else
      let connectTime ←
        compute (convert (env.connectTime count) (toUnsigned 64 (env.connectTime count)))
      close sock
      let closeTime ← compute (convert (env.closeTime count) (toUnsigned 64 (env.closeTime count)))
      socketsFrom env debug rest
        { connectTimeTotal := (totals.connectTimeTotal + connectTime) % 2 ^ 64
          closeTimeTotal := (totals.closeTimeTotal + closeTime) % 2 ^ 64 }

def connectDisconnectRun (env : Env) (debug : Bool) (ipAddress : String) : Run Stop Report := do
  let totals ← socketsFrom env debug (List.range testCount) ⟨0, 0⟩
  return { totals with
    ipAddress := ipAddress
    connectTimeAvg := totals.connectTimeTotal / (testCount * 1000000)
    closeTimeAvg := totals.closeTimeTotal / (testCount * 1000000) }

variable {env : Env} {debug : Bool} {fd : ℕ} {t : Table}

/-- The loop with its descriptors does what the loop without them does. -/
theorem socketsFrom_leads (h : t.lowest = some fd) (counts : List ℕ) (totals : Totals) :
    Leads fd Stop.Undefined (socketsFrom env debug counts totals)
      (totalsFrom env debug counts totals) t t := by
  have hnonneg : ¬(fd : ℤ) < 0 := not_lt.mpr (Int.natCast_nonneg fd)
  induction counts generalizing totals with
  | nil => exact Leads.pure totals
  | cons count rest ih =>
    rw [socketsFrom, totalsFrom]
    cases hsocket : env.socket count with
    | false =>
      apply Leads.opens_refused.bind
      exact Leads.close_none.bind (Leads.throw _)
    | true =>
      apply (Leads.opens h).bind
      rw [if_neg hnonneg, if_neg (by decide : ¬(!true) = true)]
      by_cases hconnect : (debug && !env.connect count) = true
      · rw [if_pos hconnect, if_pos hconnect]
        exact (Leads.close h).bind (Leads.throw _)
      · rw [if_neg hconnect, if_neg hconnect]
        cases hopen : convert (env.connectTime count) (toUnsigned 64 (env.connectTime count)) with
        | error stop =>
          -- the socket is still open, but nothing is left to say
          exact (Leads.compute_lost (convert_undefined hopen)).bind_error
        | ok connectTime =>
          apply (Leads.compute_ok connectTime).bind
          apply (Leads.close h).bind
          cases hclose : convert (env.closeTime count) (toUnsigned 64 (env.closeTime count)) with
          | error stop => exact (Leads.compute_lost (convert_undefined hclose)).bind_error
          | ok closeTime =>
            apply (Leads.compute_ok closeTime).bind
            exact ih _

theorem connectDisconnectRun_leads (h : t.lowest = some fd) (ipAddress : String) :
    Leads fd Stop.Undefined (connectDisconnectRun env debug ipAddress)
      (connectDisconnect env debug ipAddress) t t := by
  have hloop := @socketsFrom_leads env debug fd t h (List.range testCount) ⟨0, 0⟩
  rw [connectDisconnectRun, connectDisconnect]
  cases hresult : totalsFrom env debug (List.range testCount) ⟨0, 0⟩ with
  | error stop =>
    rw [hresult] at hloop
    exact hloop.bind_error
  | ok totals =>
    rw [hresult] at hloop
    exact hloop.bind (Leads.pure _)

/-- Without a free descriptor the first iteration is the last. -/
theorem connectDisconnectRun_full (h : t.lowest = none) (ipAddress : String) :
    Leads fd Stop.Undefined (connectDisconnectRun env debug ipAddress)
      (.error (.exit "Failed to CREATE socket.")) t t := by
  rw [connectDisconnectRun, testCount, List.range_succ_eq_map, socketsFrom]
  apply Leads.bind_error
  apply (Leads.opens_full _ h).bind
  exact Leads.close_none.bind (Leads.throw _)

end ConnectDisconnect

namespace PeakBandwidth

def tcpPeakBandwidthRun (env : Env) (ipAddress : String) : Run Stop Report :=
  if !env.malloc then throw (.exit "Failed allocate memory to send buffer.\n")
  else do
    let sock ← opens env.socket
    if sock < 0 then
      close sock
      throw (.exit "Failed to CREATE socket.")
    else if !env.connect then
      close sock
      throw (.exit "Failed to CONNECT to socket.\n")
    else
      let minTime ← compute (minTimeFrom env.iterations ullongMax)
      close sock
      return { ipAddress := ipAddress, byteSize := sendDataByteSize, minTime := minTime }

variable {env : Env} {fd : ℕ} {t : Table}

theorem minTimeFrom_undefined {its : List Iteration} {m : ℕ} {stop : Stop}
    (h : minTimeFrom its m = .error stop) : stop.Undefined := by
  induction its generalizing m with
  | nil => cases h
  | cons it rest ih =>
    rw [minTimeFrom] at h
    cases hconv : toUnsigned 64 it.time with
    | none =>
      rw [hconv] at h
      cases h
      exact ⟨it.time, rfl⟩
    | some time =>
      rw [hconv] at h
      exact ih h

theorem tcpPeakBandwidthRun_leads (h : t.lowest = some fd) (ipAddress : String) :
    Leads fd Stop.Undefined (tcpPeakBandwidthRun env ipAddress)
      (tcpPeakBandwidth env ipAddress) t t := by
  have hnonneg : ¬(fd : ℤ) < 0 := not_lt.mpr (Int.natCast_nonneg fd)
  rw [tcpPeakBandwidthRun, tcpPeakBandwidth]
  cases env.malloc with
  | false => exact Leads.throw _
  | true =>
    rw [if_neg (by decide : ¬(!true) = true), if_neg (by decide : ¬(!true) = true)]
    cases env.socket with
    | false =>
      apply Leads.opens_refused.bind
      exact Leads.close_none.bind (Leads.throw _)
    | true =>
      apply (Leads.opens h).bind
      rw [if_neg hnonneg, if_neg (by decide : ¬(!true) = true)]
      cases env.connect with
      | false => exact (Leads.close h).bind (Leads.throw _)
      | true =>
        rw [if_neg (by decide : ¬(!true) = true), if_neg (by decide : ¬(!true) = true)]
        cases hmin : minTimeFrom env.iterations ullongMax with
        | error stop => exact (Leads.compute_lost (minTimeFrom_undefined hmin)).bind_error
        | ok minTime =>
          apply (Leads.compute_ok minTime).bind
          exact (Leads.close h).bind (Leads.pure _)

theorem tcpPeakBandwidthRun_full (h : t.lowest = none) (hmalloc : env.malloc = true)
    (ipAddress : String) :
    Leads fd Stop.Undefined (tcpPeakBandwidthRun env ipAddress)
      (.error (.exit "Failed to CREATE socket.")) t t := by
  rw [tcpPeakBandwidthRun, hmalloc, if_neg (by decide : ¬(!true) = true)]
  apply (Leads.opens_full _ h).bind
  exact Leads.close_none.bind (Leads.throw _)

end PeakBandwidth

/-- The sockets of a run, however many iterations it has, all get the lowest free
descriptor and give it back; so one that is free is enough, and with none the
first socket fails. -/
theorem one_descriptor_suffices (t : Table) :
    (∀ fd, t.lowest = some fd →
      (∀ env debug ipAddress, Leads fd Stop.Undefined
        (ConnectDisconnect.connectDisconnectRun env debug ipAddress)
        (ConnectDisconnect.connectDisconnect env debug ipAddress) t t) ∧
      ∀ env ipAddress, Leads fd Stop.Undefined
        (PeakBandwidth.tcpPeakBandwidthRun env ipAddress)
        (PeakBandwidth.tcpPeakBandwidth env ipAddress) t t) ∧
    (t.lowest = none →
      (∀ env debug ipAddress fd, Leads fd Stop.Undefined
        (ConnectDisconnect.connectDisconnectRun env debug ipAddress)
        (.error (.exit "Failed to CREATE socket.")) t t) ∧
      ∀ env ipAddress fd, env.malloc = true → Leads fd Stop.Undefined
        (PeakBandwidth.tcpPeakBandwidthRun env ipAddress)
        (.error (.exit "Failed to CREATE socket.")) t t) := by
  refine ⟨fun fd h => ⟨?_, ?_⟩, fun h => ⟨?_, ?_⟩⟩
  · exact fun env debug ipAddress => ConnectDisconnect.connectDisconnectRun_leads h ipAddress
  · exact fun env ipAddress => PeakBandwidth.tcpPeakBandwidthRun_leads h ipAddress
  · exact fun env debug ipAddress fd => ConnectDisconnect.connectDisconnectRun_full h ipAddress
  · exact fun env ipAddress fd hmalloc =>
      PeakBandwidth.tcpPeakBandwidthRun_full h hmalloc ipAddress

/-- A table with the three standard streams and room for one descriptor more. -/
def fourDescriptors : Table := ⟨4, {0, 1, 2}⟩

theorem one_descriptor_suffices_four :
    (ConnectDisconnect.connectDisconnectRun
      ⟨fun _ => true, fun _ => true, ConnectDisconnect.slowClock.toClock⟩ false "127.0.0.1"
      ⟨fourDescriptors, []⟩).2.table = fourDescriptors := by
  have hlowest : fourDescriptors.lowest = some 3 := by decide
  have hleads := ((one_descriptor_suffices fourDescriptors).1 3 hlowest).1
    ⟨fun _ => true, fun _ => true, ConnectDisconnect.slowClock.toClock⟩ false "127.0.0.1"
  apply hleads.table
  intro stop hstop
  obtain ⟨r, hr⟩ := ConnectDisconnect.exists_report_slowClock fun _ => true
  rw [hr] at hstop
  cases hstop

end Rpi3Bench
