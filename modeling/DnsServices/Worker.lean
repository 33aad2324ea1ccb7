import Mathlib.Data.List.AList
import DnsServices.Dns
import DnsServices.H3
import DnsServices.Shared

namespace DnsServices.Microdoh3

/-!
# The worker

The single-threaded event loop of `worker.rs` as a step function.  Sockets,
clocks and the QUIC library are the environment: every action carries the
times, stream ids and results that the real calls return.  Of the QUIC library
only this is assumed: a connection never hands out a stream id twice.

Beside the program's own variables a worker has three history variables: the
number of accepted queries, the number of connections, and a list of
observations.  They are written and never read.
-/

open Http3 Shared

/-- A point in time, in nanoseconds. -/
abbrev Instant := Int

/-- A span of time, in nanoseconds. -/
abbrev Duration := Nat

/-- `Duration::from_secs` -/
def fromSecs (secs : Nat) : Duration := secs * 1000000000

/-- `Duration::from_millis` -/
def fromMillis (millis : Nat) : Duration := millis * 1000000

/-- `Instant::saturating_duration_since`. -/
def durationSince (now earlier : Instant) : Duration := (now - earlier).toNat

/-- `Instant::checked_sub`: seconds are a 64-bit signed integer. -/
def checkedSub (now : Instant) (span : Duration) : Option Instant :=
  if now - span < -(2 ^ 63 * 1000000000) then none else some (now - span)

/-- `u32::MAX` -/
def u32Max : Nat := 2 ^ 32 - 1

/-- `u32::saturating_add(1)`. -/
def saturatingSucc (value : Nat) : Nat := min (value + 1) u32Max

/-- GET is used for wire queries up to this size; larger use POST. -/
def getMaxDnsLen : Nat := 1400

/-- Max wire size we accept from local clients. -/
def maxDnsLen : Nat := 4096

/-- Max queries queued while handshaking; overflow gets SERVFAIL. -/
def maxQueued : Nat := 64

/-- Reconnects are at most so far apart. -/
def reconnectBackoffMax : Duration := fromSecs 5

/-- How often a worker publishes its measurement. -/
def scoreInterval : Duration := fromSecs 2

/-- Minimum time between two migrations of a worker. -/
def migrateMinInterval : Duration := fromSecs 180

/-- Seconds per worker index before a move to a new set. -/
def migrateStagger : Nat := 5

/-- How much better an address has to be, in percent. -/
def migrateRatioPct : Nat := 150

/-- The minimum for a worker whose connection keeps failing. -/
def failMigrateInterval : Duration := fromSecs 10

/-- An address and a port. -/
structure SocketAddr where
  ip : IpAddr
  port : UInt16
  deriving Repr, DecidableEq

/-- The parts of the upstream URL that requests use. -/
structure HttpsUrl where
  port : UInt16
  path : Bytes
  authority : Bytes
  deriving Repr, DecidableEq

/-- The options of a worker that its loop reads. -/
structure WorkerConfig where
  upstream : HttpsUrl
  token : Option Bytes
  timeout : Duration
  pad : Bool
  /-- Selects the score slot and the weighted address slot. -/
  childIdx : Nat
  deriving Repr, DecidableEq

/-- A client query that passed validation, numbered in order of acceptance. -/
structure AcceptedQuery where
  serial : Nat
  query : Bytes
  peer : SocketAddr
  valid : Dns.validateQuery query = .ok ()
  deriving DecidableEq

/-- A query whose request is in flight. -/
structure Pending extends AcceptedQuery where
  deadline : Instant
  started : Instant
  deriving DecidableEq

/-- A query received while the connection is handshaking. -/
structure QueuedQuery extends AcceptedQuery where
  deadline : Instant
  deriving DecidableEq

/-! ## Quality and migration policy -/

/-- Rolling quality measurement of the address this worker is using. -/
structure Quality where
  /-- EWMA of successful request latency, microseconds (0 = nothing yet). -/
  ewmaUs : Nat := 0
  ok : Nat := 0
  failed : Nat := 0
  deriving Repr, DecidableEq

namespace Quality

/-- A request was answered: its latency enters the average. -/
def onSuccess (quality : Quality) (latency : Duration) : Quality :=
  let us := min (latency / 1000) u32Max
  { quality with
    ok := saturatingSucc quality.ok
    ewmaUs :=
      if quality.ewmaUs = 0 then us else (quality.ewmaUs * 3 + us) / 4 }

/-- A request failed. -/
def onFailure (quality : Quality) : Quality :=
  { quality with failed := saturatingSucc quality.failed }

/-- Build the sample to publish. -/
def sample
    (quality : Quality)
    (addr : Option IpAddr)
    (flags : UInt32) :
    ScoreSample where
  addr := addr
  score := scoreFromRtt (UInt32.ofNat (min quality.ewmaUs u32Max))
  ok := UInt32.ofNat quality.ok
  fail := UInt32.ofNat quality.failed
  flags := flags
  updatedMonoSecs := 0

/-- Begin to count anew; the average stays. -/
def resetWindow (quality : Quality) : Quality :=
  { quality with ok := 0, failed := 0 }

end Quality

/-- State shared by the request path, the publisher and the migration policy. -/
structure Runtime where
  childIdx : Nat
  /-- Consecutive failed connects/losses on the current address. -/
  failStreak : Nat
  set : UpstreamSet
  myRemote : SocketAddr
  slot : Nat
  lastMigrate : Instant
  quality : Quality
  lastScore : Instant
  deriving Repr, DecidableEq

/-- `Runtime::new`; the caller has checked that the set has addresses. -/
def Runtime.new
    (set : UpstreamSet)
    (cfg : WorkerConfig)
    (now : Instant) :
    Runtime :=
  let slot := (set.slotFor cfg.childIdx).getD 0
  { childIdx := cfg.childIdx
    failStreak := 0
    set := set
    myRemote := ⟨set.addrs.getD slot (.v4 0 0 0 0), cfg.upstream.port⟩
    slot := slot
    lastMigrate := now
    quality := {}
    lastScore := now }

/-- Whether worker `idx` of `workers` may start a migration right now. -/
def migrationSlotOpen (nowSecs workers idx : Nat) : Bool :=
  let workers := max workers 1
  let slot := max migrateStagger 1
  nowSecs / slot % workers == idx % workers

/-- The best alternative to `current`: the last one of maximal weight. -/
def bestAlternative (set : UpstreamSet) (current : IpAddr) : Option IpAddr :=
  let candidates :=
    (set.addrs.zip set.weights).filter fun entry =>
      entry.2 > 0 && entry.1 != current
  (candidates.foldl
    (fun best entry =>
      match best with
      | none => some entry
      | some found => if entry.2 ≥ found.2 then some entry else some found)
    none).map Prod.fst

/-- Decide whether to move to a different upstream address. -/
def migrationTarget
    (rt : Runtime)
    (cfg : WorkerConfig)
    (now : Instant)
    (monoSecs : Nat) :
    Option IpAddr :=
  let current := rt.myRemote.ip
  let sinceMigrate := durationSince now rt.lastMigrate
  if rt.failStreak ≥ 2 then
    -- repeated failures: an early move, to a known better address only
    if sinceMigrate < failMigrateInterval then
      none
    else
      match bestAlternative rt.set current with
      | none =>
          none
      | some alt =>
          if rt.set.weightOf alt > rt.set.weightOf current then
            some alt
          else
            none
  else if sinceMigrate < migrateMinInterval then
    none
  else if !migrationSlotOpen monoSecs rt.set.workers.toNat rt.childIdx then
    none
  else
    match rt.set.slotFor cfg.childIdx with
    | none =>
        none
    | some slot =>
        match rt.set.addrs[slot]? with
        | none =>
            none
        | some target =>
            if target = current then
              none
            else
              let currentW := (rt.set.weightOf current).toNat
              let targetW := (rt.set.weightOf target).toNat
              -- hysteresis, or off an address devalued to zero
              if currentW = 0 ∨ targetW * 100 ≥ currentW * migrateRatioPct then
                some target
              else
                none

end DnsServices.Microdoh3
