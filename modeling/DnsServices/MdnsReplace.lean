import DnsServices.MdnsWatch

namespace DnsServices.MdnsPublisher

/-!
# Replacing the records

`replaceRecords` keeps the old records if there are as many new ones and every
old record has an equal among them.  An interface may list an address more than
once, so a repeated address can make room for one that nobody notices.
-/

section HostRecords

variable
  {name : String}
  {ttl : UInt32}
  {r r' : RR}

/-- The address tells the record. -/
theorem HostRecord.eq_of_address_eq
    (first : HostRecord name ttl r)
    (second : HostRecord name ttl r')
    (same : r.address = r'.address) :
    r = r' := by
  cases first with
  | a isV4 =>
      cases second with
      | a _ =>
          cases same
          rfl
      | aaaa notV4 =>
          cases same
          exact (IP.length_ne_four notV4 isV4).elim
  | aaaa notV4 =>
      cases second with
      | a isV4 =>
          cases same
          exact (IP.length_ne_four notV4 isV4).elim
      | aaaa _ =>
          cases same
          rfl

/-- A host record has the same data as itself. -/
theorem HostRecord.rrdataEqual_self (made : HostRecord name ttl r) :
    rrdataEqual r r = true := by
  cases made with
  | a isV4 =>
      simp [rrdataEqual, IP.equal]
  | aaaa notV4 =>
      simp [rrdataEqual, IP.equal]

/-- A host record carries an address. -/
theorem HostRecord.exists_address (made : HostRecord name ttl r) :
    ∃ ip, r.address = some ip := by
  cases made with
  | a isV4 =>
      exact ⟨_, rfl⟩
  | aaaa notV4 =>
      exact ⟨_, rfl⟩

end HostRecords

section Replacing

variable
  {name : String}
  {ttl : UInt32}
  {old new : List RR}

/-- Records of one host count as unchanged exactly if there are as many and no
old address is missing. -/
theorem sameRecords_iff
    (oldMade : ∀ r ∈ old, HostRecord name ttl r)
    (newMade : ∀ r ∈ new, HostRecord name ttl r) :
    sameRecords old new = true ↔
      old.length = new.length ∧ addresses old ⊆ addresses new := by
  constructor
  · intro same
    refine ⟨?_, ?_⟩
    · rw [sameRecords] at same
      split at same
      · cases same
      · rename_i asMany
        exact not_not.mp asMany
    · exact
        addresses_subset_of_sameRecords
          (fun r member => (oldMade r member).published)
          (fun r member => (newMade r member).published) same
  · rintro ⟨asMany, subset⟩
    rw [sameRecords, if_neg (not_not.mpr asMany), List.all_eq_true]
    intro r member
    obtain ⟨ip, address⟩ := (oldMade r member).exists_address
    obtain ⟨r', member', address'⟩ :=
      mem_addresses.mp (subset (mem_addresses.mpr ⟨r, member, address⟩))
    have same : r = r' :=
      (oldMade r member).eq_of_address_eq (newMade r' member')
        (address.trans address'.symm)
    rw [List.any_eq_true]
    refine ⟨r', member', ?_⟩
    simp [← same, (oldMade r member).rrdataEqual_self]

/-- `replaceRecords` reports no change only if both lists denote the same
addresses, and the zone denotes those of the new list after the call. -/
def FollowsAddresses
    (zone : HostnameZone)
    (records : List RR)
    (nsec : Option RR) : Prop :=
  ((zone.replaceRecords records nsec).2 = none →
      addresses zone.records = addresses records) ∧
    addresses (zone.replaceRecords records nsec).1.records =
      addresses records

/-- An address change is noticed exactly if it is not the case that both lists
are of one length and the new addresses are the old ones and more. -/
theorem followsAddresses_iff
    (name : String)
    (ttl : UInt32)
    (oldIps newIps : List IP)
    (oldNsec newNsec : Option RR) :
    FollowsAddresses
        { records := recordsForIPs name oldIps ttl, nsec := oldNsec }
        (recordsForIPs name newIps ttl) newNsec ↔
      ¬ ((recordsForIPs name oldIps ttl).length =
            (recordsForIPs name newIps ttl).length ∧
          addresses (recordsForIPs name oldIps ttl) ⊂
            addresses (recordsForIPs name newIps ttl)) := by
  have unchanged :=
    sameRecords_iff
      (fun r (member : r ∈ recordsForIPs name oldIps ttl) =>
        hostRecord_of_mem_recordsForIPs member)
      (fun r (member : r ∈ recordsForIPs name newIps ttl) =>
        hostRecord_of_mem_recordsForIPs member)
  rw [FollowsAddresses, HostnameZone.replaceRecords]
  cases same :
      sameRecords (recordsForIPs name oldIps ttl)
        (recordsForIPs name newIps ttl) with
  | true =>
      obtain ⟨asMany, subset⟩ := unchanged.mp same
      simp only [if_true, true_implies, and_self]
      constructor
      · rintro equal ⟨-, -, more⟩
        exact more equal.ge
      · intro noMore
        by_contra different
        exact noMore ⟨asMany, subset.ssubset_of_ne different⟩
  | false =>
      refine iff_of_true ?_ ?_
      · simp [copyRecords]
      · rintro ⟨asMany, subset, -⟩
        rw [unchanged.mpr ⟨asMany, subset⟩] at same
        cases same

/-- A second address takes the place of the repeated first one. -/
theorem not_followsAddresses_repeated :
    ¬ FollowsAddresses
        { records :=
            recordsForIPs "host.local." [[10, 0, 0, 1], [10, 0, 0, 1]] 120
          nsec :=
            buildNSEC "host.local."
              (recordsForIPs "host.local." [[10, 0, 0, 1], [10, 0, 0, 1]] 120)
              120 }
        (recordsForIPs "host.local." [[10, 0, 0, 1], [10, 0, 0, 2]] 120)
        (buildNSEC "host.local."
          (recordsForIPs "host.local." [[10, 0, 0, 1], [10, 0, 0, 2]] 120)
          120) := by
  rintro ⟨-, follows⟩
  revert follows
  decide

end Replacing

end DnsServices.MdnsPublisher
