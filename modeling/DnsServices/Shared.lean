import Mathlib.Data.List.Basic
import DnsServices.Bytes

namespace DnsServices.Shared

/-!
# Shared-memory data

The data types of `shared.rs`: stored addresses, the upstream set a worker
reads out of the resolve page, and the score sample it reports back.  The
fields keep the widths of the source.
-/

/-- Max upstream addresses stored. -/
def maxAddrs : Nat := 16

/-- The connection is up. -/
def flagConnected : UInt32 := 1

/-- The handshake is under way. -/
def flagHandshaking : UInt32 := 2

/-- The connection was resumed with early data. -/
def flagZeroRtt : UInt32 := 4

/-- Convert a measured RTT into the score the supervisor selects on. -/
def scoreFromRtt (rttUs : UInt32) : UInt32 :=
  if rttUs = 0 then
    -- nothing measured yet: unknown, not "instant"
    0
  else
    1000000 / rttUs

/-- An address of either family. -/
inductive IpAddr where
  | v4 (a b c d : UInt8)
  | v6 (octets : Vector UInt8 16)
  deriving Repr, DecidableEq

/-- One stored address (the padding bytes are left out). -/
structure RawAddr where
  bytes : Vector UInt8 16
  isV6 : UInt8
  deriving Repr, DecidableEq

namespace RawAddr

/-- All bytes zero. -/
def default : RawAddr where
  bytes := Vector.replicate 16 0
  isV6 := 0

/-- An address as the page stores it. -/
def fromIp : IpAddr → RawAddr
  | .v4 a b c d =>
      { bytes := #v[a, b, c, d, 0, 0, 0, 0, 0, 0, 0, 0, 0, 0, 0, 0]
        isV6 := 0 }
  | .v6 octets =>
      { bytes := octets
        isV6 := 1 }

/-- An address as the page has stored it. -/
def toIp (raw : RawAddr) : IpAddr :=
  if raw.isV6 = 1 then
    .v6 raw.bytes
  else
    .v4 raw.bytes[0] raw.bytes[1] raw.bytes[2] raw.bytes[3]

/-- All-zero bytes of a v4 address stand for "no address" in a score slot. -/
def isNone (raw : RawAddr) : Bool :=
  raw.bytes.toList.all (· == 0) && raw.isV6 == 0

@[simp] theorem toIp_fromIp (ip : IpAddr) : (fromIp ip).toIp = ip := by
  cases ip <;> rfl

theorem isNone_default : isNone default = true := by
  decide

/-- Only 0.0.0.0 is stored like a missing address. -/
theorem isNone_fromIp (ip : IpAddr) :
    (fromIp ip).isNone = true ↔ ip = .v4 0 0 0 0 := by
  cases ip with
  | v4 a b c d =>
      simp [isNone, fromIp]
  | v6 octets =>
      simp [isNone, fromIp]

end RawAddr

/-- What a worker reads out of the resolve page. -/
structure UpstreamSet where
  addrs : List IpAddr
  weights : List UInt32
  revision : UInt32
  workers : UInt32
  publishedMonoSecs : UInt64
  deriving Repr, DecidableEq

/-- The index at which the running sum of the weights passes the target. -/
def firstAbove (target : UInt64) : UInt64 → List UInt32 → Option Nat
  | _, [] =>
      none
  | acc, weight :: rest =>
      let acc := acc + weight.toUInt64
      if target < acc then
        some 0
      else
        (firstAbove target acc rest).map (· + 1)

namespace UpstreamSet

/-- Entries that have both an address and a weight. -/
def usable (set : UpstreamSet) : Nat :=
  min set.addrs.length set.weights.length

/-- Deterministically pick this worker's address slot. -/
def slotFor (set : UpstreamSet) (idx : Nat) : Option Nat :=
  let n := set.usable
  if n = 0 then
    none
  else
    let workers := (max set.workers 1).toUInt64
    let weights := set.weights.take n
    let total :=
      weights.foldl (fun sum weight => sum + weight.toUInt64) (0 : UInt64)
    if total = 0 then
      -- no information yet: spread evenly
      some (idx % n)
    else
      -- midpoint of this worker's slice, in units of total weight
      let target := (2 * UInt64.ofNat idx + 1) * total / (2 * workers)
      match firstAbove target 0 weights with
      | some i => some i
      | none => some (n - 1)

/-- The weight of an address: that of its first entry, or none. -/
def weightOf (set : UpstreamSet) (addr : IpAddr) : UInt32 :=
  match set.addrs.findIdx? (· == addr) with
  | some i => (set.weights[i]?).getD 0
  | none => 0

end UpstreamSet

/-- A decoded score reading. -/
structure ScoreSample where
  addr : Option IpAddr
  score : UInt32
  ok : UInt32
  fail : UInt32
  flags : UInt32
  updatedMonoSecs : UInt64
  deriving Repr, DecidableEq

/-- A listed address is found at a position no later than this one. -/
theorem exists_position
    {addrs : List IpAddr}
    {addr : IpAddr}
    {i : Nat}
    (listed : addrs[i]? = some addr) :
    ∃ first ≤ i, addrs.findIdx? (· == addr) = some first := by
  have found : ∃ first, addrs.findIdx? (· == addr) = some first := by
    rw [← Option.isSome_iff_exists, List.findIdx?_isSome, List.any_eq_true]
    exact ⟨addr, List.mem_of_getElem? listed, beq_self_eq_true addr⟩
  obtain ⟨first, position⟩ := found
  obtain ⟨_, _, unseen⟩ := List.findIdx?_eq_some_iff_getElem.mp position
  obtain ⟨inside, isAddr⟩ := List.getElem?_eq_some_iff.mp listed
  refine ⟨first, ?_, position⟩
  by_contra later
  exact unseen i (Nat.not_le.mp later) (beq_iff_eq.mpr isAddr)

end DnsServices.Shared
