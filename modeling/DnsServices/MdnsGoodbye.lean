import DnsServices.MdnsPacket
import DnsServices.MdnsWatch

namespace DnsServices.MdnsPublisher

open Runs

/-!
# Goodbyes for changed addresses

What the publisher sends when the addresses of the link have changed: goodbyes
with TTL zero for the records it had, then announcements of the new ones.
-/

section Code

/-- Announcements are sent twice. -/
def announceCount : Nat := 2

/-- Goodbyes are sent twice. -/
def goodbyeCount : Nat := 2

/-- RFC 6762 §8.3: unsolicited responses with the claimed records. -/
def runAnnounce (records : List RR) : List DnsMsg :=
  List.replicate announceCount (responseMsg records)

/-- RFC 6762 §10.1: responses with TTL=0 records. -/
def runGoodbye (records : List RR) : List DnsMsg :=
  List.replicate goodbyeCount (responseMsg (records.map (RR.withTtl 0)))

/-- The zone after an address change, and what was sent for the change. -/
structure Refresh where
  zone : HostnameZone
  goodbyes : List DnsMsg
  announcements : List DnsMsg
  deriving Repr, DecidableEq

/-- The body of `watchInterfaceAddresses` once the addresses are read. -/
def refreshAddresses
    (cfg : WatchConfig)
    (sendAnnounce sendGoodbye : Bool)
    (zone : HostnameZone)
    (addrs : List AddrEntry) : Refresh :=
  let records := cfg.recordsFor addrs
  match zone.replaceRecords records (buildNSEC cfg.fqdn records cfg.ttl) with
  | (_, none) =>
      { zone := zone, goodbyes := [], announcements := [] }
  | (replaced, some oldRecords) =>
      { zone := replaced
        goodbyes :=
          if sendGoodbye && decide (oldRecords.length > 0) then
            runGoodbye oldRecords
          else
            []
        announcements :=
          if sendAnnounce && decide (records.length > 0) then
            runAnnounce records
          else
            [] }

/-- The zone that `main` builds from the first reading of the addresses. -/
def WatchConfig.firstZone
    (cfg : WatchConfig)
    (addrs : List AddrEntry) : HostnameZone where
  records := cfg.recordsFor addrs
  nsec := buildNSEC cfg.fqdn (cfg.recordsFor addrs) cfg.ttl

end Code

section Withdrawal

/-- A refresh with the same records sends nothing. -/
theorem refreshAddresses_of_same
    {cfg : WatchConfig}
    {zone : HostnameZone}
    {addrs : List AddrEntry}
    (same : sameRecords zone.records (cfg.recordsFor addrs) = true)
    (sendAnnounce sendGoodbye : Bool) :
    refreshAddresses cfg sendAnnounce sendGoodbye zone addrs =
      { zone := zone, goodbyes := [], announcements := [] } := by
  simp [refreshAddresses, HostnameZone.replaceRecords, same]

/-- A refresh with other records takes leave of the old ones and announces the
new. -/
theorem refreshAddresses_of_changed
    {cfg : WatchConfig}
    {zone : HostnameZone}
    {addrs : List AddrEntry}
    (changed : sameRecords zone.records (cfg.recordsFor addrs) = false)
    (sendAnnounce sendGoodbye : Bool) :
    refreshAddresses cfg sendAnnounce sendGoodbye zone addrs =
      { zone := cfg.firstZone addrs
        goodbyes :=
          if sendGoodbye && decide (zone.records.length > 0) then
            runGoodbye zone.records
          else
            []
        announcements :=
          if sendAnnounce && decide ((cfg.recordsFor addrs).length > 0) then
            runAnnounce (cfg.recordsFor addrs)
          else
            [] } := by
  simp [refreshAddresses, HostnameZone.replaceRecords, changed, copyRecords,
    WatchConfig.firstZone]

/-- Acting on a list that was read again leaves the zone of
`refreshAddresses`. -/
theorem zone_proceed_reread
    {cfg : WatchConfig}
    {w : Watch}
    {addrs : List AddrEntry}
    (phase : w.phase = .reread (cfg.recordsFor addrs))
    (conflict sendAnnounce sendGoodbye : Bool) :
    (w.proceed cfg conflict).zone =
      (refreshAddresses cfg sendAnnounce sendGoodbye w.zone addrs).zone := by
  cases same : sameRecords w.zone.records (cfg.recordsFor addrs) with
  | true =>
      rw [Watch.proceed_reread_of_same phase same,
        refreshAddresses_of_same same]
  | false =>
      rw [Watch.proceed_reread_of_changed phase same,
        refreshAddresses_of_changed same]
      rfl

/-- Every goodbye is for an address that the zone no longer has. -/
def OnlyWithdrawn (refresh : Refresh) : Prop :=
  ∀ msg ∈ refresh.goodbyes, ∀ r ∈ msg.answer, ∀ ip,
    r.address = some ip → ip ∉ addresses refresh.zone.records

theorem address_withTtl (ttl : UInt32) (r : RR) :
    (r.withTtl ttl).address = r.address := by
  cases r <;> rfl

/-- The goodbyes for a list of records name the addresses of all of them. -/
theorem forall_runGoodbye_iff
    (records : List RR)
    (gone : IP → Prop) :
    (∀ msg ∈ runGoodbye records, ∀ r ∈ msg.answer, ∀ ip,
        r.address = some ip → gone ip) ↔
      ∀ ip ∈ addresses records, gone ip := by
  constructor
  · intro all ip member
    obtain ⟨r, rMember, address⟩ := mem_addresses.mp member
    refine all (responseMsg (records.map (RR.withTtl 0))) ?_
      (r.withTtl 0) (List.mem_map_of_mem rMember) ip ?_
    · simp [runGoodbye, goodbyeCount]
    · rw [address_withTtl, address]
  · intro all msg sent r member ip address
    rw [List.eq_of_mem_replicate sent] at member
    obtain ⟨old, oldMember, rfl⟩ := List.mem_map.mp member
    rw [address_withTtl] at address
    exact all ip (mem_addresses.mpr ⟨old, oldMember, address⟩)

/-- A change withdraws what it says goodbye to exactly if it counts as none,
or if the old and the new addresses have nothing in common. -/
theorem onlyWithdrawn_iff
    (cfg : WatchConfig)
    (sendAnnounce : Bool)
    (zone : HostnameZone)
    (addrs : List AddrEntry) :
    OnlyWithdrawn (refreshAddresses cfg sendAnnounce true zone addrs) ↔
      sameRecords zone.records (cfg.recordsFor addrs) = true ∨
        Disjoint (addresses zone.records)
          (addresses (cfg.recordsFor addrs)) := by
  cases same : sameRecords zone.records (cfg.recordsFor addrs) with
  | true =>
      rw [refreshAddresses_of_same same]
      simp [OnlyWithdrawn]
  | false =>
      rw [refreshAddresses_of_changed same, Finset.disjoint_left]
      simp only [OnlyWithdrawn, Bool.true_and, decide_eq_true_eq,
        Bool.false_eq_true, false_or]
      split
      · exact forall_runGoodbye_iff zone.records _
      · rename_i empty
        have none : zone.records = [] :=
          List.length_eq_zero_iff.mp (Nat.eq_zero_of_not_pos empty)
        simp [none, addresses]

/-- The zone after one more address list. -/
def refreshZone
    (cfg : WatchConfig)
    (sendAnnounce : Bool)
    (zone : HostnameZone)
    (addrs : List AddrEntry) : HostnameZone :=
  (refreshAddresses cfg sendAnnounce true zone addrs).zone

/-- Over any sequence of address lists, goodbyes are only sent for withdrawn
addresses exactly if every list counts as unchanged or shares no address with
the records it replaces. -/
theorem onlyWithdrawn_run_iff
    (cfg : WatchConfig)
    (sendAnnounce : Bool)
    (first : List AddrEntry)
    (changes : List (List AddrEntry)) :
    AllSteps (refreshZone cfg sendAnnounce)
        (fun zone addrs =>
          OnlyWithdrawn (refreshAddresses cfg sendAnnounce true zone addrs))
        (cfg.firstZone first) changes ↔
      AllSteps (refreshZone cfg sendAnnounce)
        (fun zone addrs =>
          sameRecords zone.records (cfg.recordsFor addrs) = true ∨
            Disjoint (addresses zone.records)
              (addresses (cfg.recordsFor addrs)))
        (cfg.firstZone first) changes :=
  allSteps_congr (onlyWithdrawn_iff cfg sendAnnounce) _ changes

/-- The link gains a second address, and the first one is sent with TTL
zero. -/
theorem not_onlyWithdrawn_gained_address :
    ¬ AllSteps (refreshZone Watch.plainWatch false)
        (fun zone addrs =>
          OnlyWithdrawn
            (refreshAddresses Watch.plainWatch false true zone addrs))
        (Watch.plainWatch.firstZone [some [10, 0, 0, 1]])
        [[some [10, 0, 0, 1], some [10, 0, 0, 2]]] := by
  rintro ⟨withdrawn, _⟩
  rw [onlyWithdrawn_iff] at withdrawn
  exact absurd withdrawn (by decide)

end Withdrawal

end DnsServices.MdnsPublisher
