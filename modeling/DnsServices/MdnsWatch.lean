import Mathlib.Data.Finset.Basic
import DnsServices.MdnsRecord
import DnsServices.Runs

namespace DnsServices.MdnsPublisher

open Runs

/-!
# Watching the interface addresses

The publisher reads the link's addresses once, probes, announces, and only
then subscribes to address changes; from there on every event makes it read
the list again.  The kernel may change the list between any two of these
steps, and the netlink subscription delivers one event per change, in order.
-/

section Code

/-- An entry of the kernel's address list, which may carry no IP. -/
abbrev AddrEntry := Option IP

/-- The addresses of an interface, without the entries that have none. -/
def getInterfaceIPs (addrs : List AddrEntry) : List IP :=
  addrs.filterMap id

/-- The options that decide what the watcher publishes. -/
structure WatchConfig where
  fqdn : String
  ttl : UInt32
  linkIndex : Nat
  skipProbe : Bool
  deriving Repr, DecidableEq

/-- The records for the addresses the kernel lists. -/
def WatchConfig.recordsFor
    (cfg : WatchConfig)
    (addrs : List AddrEntry) : List RR :=
  recordsForIPs cfg.fqdn (getInterfaceIPs addrs) cfg.ttl

/-- Where `main` and then `watchInterfaceAddresses` stand. -/
inductive Phase where
  /-- About to read the addresses for the first time. -/
  | starting
  | probing
  | announcing
  /-- About to call `AddrSubscribe`. -/
  | subscribing
  /-- Waiting for an event. -/
  | waiting
  /-- An event of the link was received. -/
  | received
  /-- The list was read again. -/
  | reread (records : List RR)
  /-- Goodbyes and announcements for changed records. -/
  | publishing
  /-- `log.Fatalf`. -/
  | exited
  deriving Repr, DecidableEq

/-- The kernel's list for the link, the undelivered events by link index, and
the program. -/
structure Watch where
  kernel : List AddrEntry
  events : List Nat
  phase : Phase
  zone : HostnameZone
  deriving Repr, DecidableEq

/-- One step of the kernel or of the program. -/
inductive WatchAction where
  /-- The kernel changes the addresses of the link. -/
  | change (addrs : List AddrEntry)
  /-- The addresses of another link change. -/
  | changeOther (linkIndex : Nat)
  /-- The program goes on; `conflict` is the outcome of a probe. -/
  | proceed (conflict : Bool)
  deriving Repr, DecidableEq

namespace Watch

/-- The program has not read the addresses yet. -/
def start (addrs : List AddrEntry) : Watch where
  kernel := addrs
  events := []
  phase := .starting
  zone := { records := [], nsec := none }

/-- The subscription is active. -/
def subscribed (w : Watch) : Bool :=
  match w.phase with
  | .starting => false
  | .probing => false
  | .announcing => false
  | .subscribing => false
  | .exited => false
  | .waiting => true
  | .received => true
  | .reread _ => true
  | .publishing => true

/-- The kernel tells a subscriber of a change. -/
def notify (w : Watch) (linkIndex : Nat) : Watch :=
  if w.subscribed then
    { w with events := w.events ++ [linkIndex] }
  else
    w

/-- The next step of the program, in the phase it is in. -/
def proceed
    (cfg : WatchConfig)
    (w : Watch)
    (conflict : Bool) : Watch :=
  match w.phase with
  | .starting =>
      let records := cfg.recordsFor w.kernel
      if records.length = 0 then
        { w with phase := .exited }
      else
        { w with
          phase := .probing
          zone :=
            { records := records
              nsec := buildNSEC cfg.fqdn records cfg.ttl } }
  | .probing =>
      if !cfg.skipProbe && conflict then
        { w with phase := .exited }
      else
        { w with phase := .announcing }
  | .announcing => { w with phase := .subscribing }
  | .subscribing => { w with phase := .waiting }
  | .waiting =>
      match w.events with
      | [] => w
      | linkIndex :: rest =>
          if linkIndex ≠ cfg.linkIndex then
            { w with events := rest }
          else
            { w with events := rest, phase := .received }
  | .received => { w with phase := .reread (cfg.recordsFor w.kernel) }
  | .reread records =>
      match w.zone.replaceRecords records
          (buildNSEC cfg.fqdn records cfg.ttl) with
      | (_, none) => { w with phase := .waiting }
      | (zone, some _) => { w with phase := .publishing, zone := zone }
  | .publishing => { w with phase := .waiting }
  | .exited => w

/-- One step of the kernel or of the program. -/
def step (cfg : WatchConfig) (w : Watch) : WatchAction → Watch
  | .change addrs =>
      Watch.notify { w with kernel := addrs } cfg.linkIndex
  | .changeOther linkIndex =>
      if linkIndex = cfg.linkIndex then
        w
      else
        w.notify linkIndex
  | .proceed conflict => w.proceed cfg conflict

end Watch

end Code

section Addresses

/-- The address a record publishes. -/
def RR.address : RR → Option IP
  | a _ ip => some ip
  | aaaa _ ip => some ip
  | nsec _ _ _ => none
  | other _ _ => none

/-- The set of addresses that records denote. -/
def addresses (records : List RR) : Finset IP :=
  (records.filterMap RR.address).toFinset

/-- The addresses of a record list are those of its records. -/
theorem mem_addresses {records : List RR} {ip : IP} :
    ip ∈ addresses records ↔ ∃ r ∈ records, r.address = some ip := by
  simp [addresses]

/-- What an address record of the publisher looks like: IPv4 addresses have
four bytes, and the others are in no IPv4 form. -/
def RR.Published : RR → Prop
  | a _ ip => ip.length = 4
  | aaaa _ ip => ip.to4 = []
  | nsec _ _ _ => False
  | other _ _ => False

theorem IP.length_to4 {ip : IP} (isV4 : ip.to4 ≠ []) :
    ip.to4.length = 4 := by
  rw [IP.to4] at isV4 ⊢
  split
  · assumption
  · split
    · rename_i mapped
      rw [List.length_drop, mapped.1]
    · rename_i notFour notMapped
      simp [notFour, notMapped] at isV4

theorem IP.length_ne_four {ip : IP} (notV4 : ip.to4 = []) :
    ip.length ≠ 4 := by
  intro four
  rw [IP.to4, if_pos four] at notV4
  rw [notV4] at four
  simp at four

/-- The header of a record that the publisher makes. -/
def hostHeader (name : String) (rrtype : UInt16) (ttl : UInt32) : Header where
  name := name
  rrtype := rrtype
  rrclass := classINET ||| cacheFlushBit
  ttl := ttl

/-- The records that `recordsForIPs` makes. -/
inductive HostRecord (name : String) (ttl : UInt32) : RR → Prop where
  | a {ip : IP} (isV4 : ip.length = 4) :
      HostRecord name ttl (.a (hostHeader name typeA ttl) ip)
  | aaaa {ip : IP} (notV4 : ip.to4 = []) :
      HostRecord name ttl (.aaaa (hostHeader name typeAAAA ttl) ip)

/-- Every record made for an address list is a host record. -/
theorem hostRecord_of_mem_recordsForIPs
    {name : String}
    {ips : List IP}
    {ttl : UInt32}
    {r : RR}
    (member : r ∈ recordsForIPs name ips ttl) :
    HostRecord name ttl r := by
  obtain ⟨ip, _, made⟩ := List.mem_filterMap.mp member
  rw [recordForIP] at made
  split at made
  · cases made
  · split at made
    · rename_i isV4
      cases made
      exact .a (IP.length_to4 isV4)
    · rename_i notV4
      cases made
      exact .aaaa (not_not.mp notV4)

theorem HostRecord.published
    {name : String}
    {ttl : UInt32}
    {r : RR}
    (made : HostRecord name ttl r) :
    r.Published := by
  cases made with
  | a isV4 =>
      exact isV4
  | aaaa notV4 =>
      exact notV4

theorem published_of_mem_recordsForIPs
    {name : String}
    {ips : List IP}
    {ttl : UInt32}
    {r : RR}
    (member : r ∈ recordsForIPs name ips ttl) :
    r.Published :=
  (hostRecord_of_mem_recordsForIPs member).published

/-- Equal rdata of published records is the same address. -/
theorem address_eq_of_rrdataEqual
    {first second : RR}
    (firstPublished : first.Published)
    (secondPublished : second.Published)
    (equal : rrdataEqual first second = true) :
    first.address = second.address := by
  cases first with
  | a _ x =>
      cases second with
      | a _ y =>
          have firstLength : x.length = 4 := firstPublished
          have secondLength : y.length = 4 := secondPublished
          simp only [rrdataEqual, IP.equal, firstLength, secondLength,
            if_true, beq_iff_eq] at equal
          rw [equal]
          rfl
      | _ =>
          simp [rrdataEqual] at equal
  | aaaa _ x =>
      cases second with
      | aaaa _ y =>
          have firstLength := IP.length_ne_four firstPublished
          have secondLength := IP.length_ne_four secondPublished
          simp only [rrdataEqual, IP.equal, firstLength, secondLength,
            false_and, and_false, if_false] at equal
          split at equal
          · rw [beq_iff_eq.mp equal]
            rfl
          · cases equal
      | _ =>
          simp [rrdataEqual] at equal
  | nsec _ _ _ =>
      exact firstPublished.elim
  | other _ _ =>
      exact firstPublished.elim

/-- Records taken as unchanged are all among the new ones. -/
theorem addresses_subset_of_sameRecords
    {old new : List RR}
    (oldPublished : ∀ r ∈ old, r.Published)
    (newPublished : ∀ r ∈ new, r.Published)
    (same : sameRecords old new = true) :
    addresses old ⊆ addresses new := by
  intro ip member
  obtain ⟨r, rMember, rAddress⟩ := mem_addresses.mp member
  have matched : ∃ r' ∈ new, rrdataEqual r r' = true := by
    rw [sameRecords] at same
    split at same
    · cases same
    · obtain ⟨r', r'Member, both⟩ :=
        List.any_eq_true.mp (List.all_eq_true.mp same r rMember)
      exact ⟨r', r'Member, (Bool.and_eq_true_iff.mp both).2⟩
  obtain ⟨r', r'Member, equal⟩ := matched
  refine mem_addresses.mpr ⟨r', r'Member, ?_⟩
  rw [← address_eq_of_rrdataEqual (oldPublished r rMember)
    (newPublished r' r'Member) equal, rAddress]

end Addresses

section Changes

namespace Watch

/-- Nothing about the link is left to deliver or to act on. -/
def Settled (cfg : WatchConfig) (w : Watch) : Prop :=
  (w.phase = .waiting ∨ w.phase = .publishing) ∧ cfg.linkIndex ∉ w.events

/-- Once the subscription is active and no event is outstanding, the zone
denotes the addresses of the link. -/
def UpToDate (cfg : WatchConfig) (w : Watch) : Prop :=
  w.Settled cfg →
    addresses w.zone.records = addresses (cfg.recordsFor w.kernel)

/-- The link has the addresses of the first reading when the subscription
starts, and a list that counts as unchanged brings no new address. -/
def Catches (cfg : WatchConfig) (w : Watch) : WatchAction → Prop
  | .proceed _ =>
      match w.phase with
      | .subscribing =>
          addresses (cfg.recordsFor w.kernel) = addresses w.zone.records
      | .reread records =>
          cfg.linkIndex ∉ w.events →
            sameRecords w.zone.records records = true →
            addresses records ⊆ addresses w.zone.records
      | _ => True
  | .change _ => True
  | .changeOther _ => True

instance (cfg : WatchConfig) (w : Watch) : Decidable (w.Settled cfg) :=
  inferInstanceAs (Decidable (_ ∧ _))

instance (cfg : WatchConfig) (w : Watch) : Decidable (w.UpToDate cfg) :=
  inferInstanceAs (Decidable (_ → _))

/-- What holds in every run: events wait only for a subscriber, and a list
read again is the kernel's unless another event is on its way. -/
structure Consistent (cfg : WatchConfig) (w : Watch) : Prop where
  quiet : w.subscribed = false → w.events = []
  zonePublished : ∀ r ∈ w.zone.records, r.Published
  rereadPublished : ∀ records, w.phase = .reread records →
    ∀ r ∈ records, r.Published
  rereadCurrent : ∀ records, w.phase = .reread records →
    cfg.linkIndex ∉ w.events → records = cfg.recordsFor w.kernel

theorem consistent_start (cfg : WatchConfig) (addrs : List AddrEntry) :
    (start addrs).Consistent cfg where
  quiet := fun _ => rfl
  zonePublished := by simp [start]
  rereadPublished := by simp [start]
  rereadCurrent := by simp [start]

theorem consistent_notify
    {cfg : WatchConfig}
    {w : Watch}
    (inv : w.Consistent cfg)
    (linkIndex : Nat) :
    (w.notify linkIndex).Consistent cfg := by
  rw [notify]
  split
  · rename_i active
    refine ⟨?_, inv.zonePublished, inv.rereadPublished, ?_⟩
    · intro inactive
      have same : w.subscribed = false := inactive
      rw [active] at same
      cases same
    · intro records phase notQueued
      refine inv.rereadCurrent records phase ?_
      intro queued
      exact notQueued (List.mem_append_left _ queued)
  · exact inv

/-- A change of the link is queued, or nobody reads the list again. -/
theorem consistent_change
    {cfg : WatchConfig}
    {w : Watch}
    (inv : w.Consistent cfg)
    (addrs : List AddrEntry) :
    (Watch.notify { w with kernel := addrs } cfg.linkIndex).Consistent
      cfg := by
  rw [notify]
  split
  · rename_i active
    refine ⟨?_, inv.zonePublished, inv.rereadPublished, ?_⟩
    · intro inactive
      exact (Bool.eq_false_iff.mp inactive active).elim
    · intro records _ notQueued
      exact (notQueued (by simp)).elim
  · rename_i inactive
    rw [Bool.not_eq_true] at inactive
    refine ⟨inv.quiet, inv.zonePublished, inv.rereadPublished, ?_⟩
    intro records phase
    have reading : w.phase = .reread records := phase
    simp [subscribed, reading] at inactive

theorem published_recordsFor
    (cfg : WatchConfig)
    (addrs : List AddrEntry) :
    ∀ r ∈ cfg.recordsFor addrs, r.Published :=
  fun _ member => published_of_mem_recordsForIPs member

/-- A list that counts as unchanged is dropped. -/
theorem proceed_reread_of_same
    {cfg : WatchConfig}
    {w : Watch}
    {records : List RR}
    (phase : w.phase = .reread records)
    (same : sameRecords w.zone.records records = true)
    (conflict : Bool) :
    w.proceed cfg conflict = { w with phase := .waiting } := by
  simp [proceed, phase, HostnameZone.replaceRecords, same]

/-- Any other list is published. -/
theorem proceed_reread_of_changed
    {cfg : WatchConfig}
    {w : Watch}
    {records : List RR}
    (phase : w.phase = .reread records)
    (changed : sameRecords w.zone.records records = false)
    (conflict : Bool) :
    w.proceed cfg conflict =
      { w with
        phase := .publishing
        zone :=
          { records := records
            nsec := buildNSEC cfg.fqdn records cfg.ttl } } := by
  simp [proceed, phase, HostnameZone.replaceRecords, changed, copyRecords]

theorem consistent_proceed
    {cfg : WatchConfig}
    {w : Watch}
    (inv : w.Consistent cfg)
    (conflict : Bool) :
    (w.proceed cfg conflict).Consistent cfg := by
  cases phase : w.phase with
  | starting =>
      have quiet := inv.quiet (by simp [subscribed, phase])
      simp only [proceed, phase]
      split
      · exact ⟨fun _ => quiet, inv.zonePublished, by simp, by simp⟩
      · exact ⟨fun _ => quiet, published_recordsFor cfg w.kernel, by simp,
          by simp⟩
  | probing =>
      have quiet := inv.quiet (by simp [subscribed, phase])
      simp only [proceed, phase]
      split
      · exact ⟨fun _ => quiet, inv.zonePublished, by simp, by simp⟩
      · exact ⟨fun _ => quiet, inv.zonePublished, by simp, by simp⟩
  | announcing =>
      have quiet := inv.quiet (by simp [subscribed, phase])
      simp only [proceed, phase]
      exact ⟨fun _ => quiet, inv.zonePublished, by simp, by simp⟩
  | subscribing =>
      simp only [proceed, phase]
      exact ⟨by simp [subscribed], inv.zonePublished, by simp, by simp⟩
  | waiting =>
      simp only [proceed, phase]
      split
      · exact inv
      · split
        · exact ⟨by simp [subscribed], inv.zonePublished, by simp, by simp⟩
        · exact ⟨by simp [subscribed], inv.zonePublished, by simp, by simp⟩
  | received =>
      simp only [proceed, phase]
      refine ⟨by simp [subscribed], inv.zonePublished, ?_, ?_⟩
      · rintro records same
        cases same
        exact published_recordsFor cfg w.kernel
      · rintro records same _
        cases same
        rfl
  | reread records =>
      cases same : sameRecords w.zone.records records with
      | true =>
          rw [proceed_reread_of_same phase same]
          exact ⟨by simp [subscribed], inv.zonePublished, by simp, by simp⟩
      | false =>
          rw [proceed_reread_of_changed phase same]
          exact ⟨by simp [subscribed], inv.rereadPublished records phase,
            by simp, by simp⟩
  | publishing =>
      simp only [proceed, phase]
      exact ⟨by simp [subscribed], inv.zonePublished, by simp, by simp⟩
  | exited =>
      simp only [proceed, phase]
      exact inv

/-- Every step keeps the watcher consistent. -/
theorem consistent_step
    (cfg : WatchConfig)
    (w : Watch)
    (action : WatchAction)
    (inv : w.Consistent cfg) :
    (w.step cfg action).Consistent cfg := by
  cases action with
  | change addrs =>
      exact consistent_change inv addrs
  | changeOther linkIndex =>
      rw [step]
      split
      · exact inv
      · exact consistent_notify inv linkIndex
  | proceed conflict =>
      exact consistent_proceed inv conflict

/-- An event keeps a settled state only if it is another link's. -/
theorem upToDate_changeOther
    {cfg : WatchConfig}
    {w : Watch}
    (current : w.UpToDate cfg)
    (linkIndex : Nat) :
    (w.notify linkIndex).UpToDate cfg := by
  rw [notify]
  split
  · rintro ⟨phase, notQueued⟩
    refine current ⟨phase, ?_⟩
    intro queued
    exact notQueued (List.mem_append_left _ queued)
  · exact current

/-- After a change of the link nothing is settled. -/
theorem upToDate_change
    (cfg : WatchConfig)
    (w : Watch)
    (addrs : List AddrEntry) :
    (Watch.notify { w with kernel := addrs } cfg.linkIndex).UpToDate
      cfg := by
  rw [notify]
  split
  · rintro ⟨_, notQueued⟩
    exact (notQueued (by simp)).elim
  · rename_i inactive
    rintro ⟨phase, _⟩
    rcases phase with phase | phase
    · have waiting : w.phase = .waiting := phase
      simp [subscribed, waiting] at inactive
    · have publishing : w.phase = .publishing := phase
      simp [subscribed, publishing] at inactive

/-- Outside of waiting and publishing nothing is settled. -/
theorem upToDate_of_phase
    {cfg : WatchConfig}
    {w : Watch}
    (notWaiting : w.phase ≠ .waiting)
    (notPublishing : w.phase ≠ .publishing) :
    w.UpToDate cfg := by
  rintro ⟨phase, _⟩
  rcases phase with phase | phase
  · exact (notWaiting phase).elim
  · exact (notPublishing phase).elim

/-- A list read again leaves the zone up to date unless it was dropped with a
new address in it. -/
theorem upToDate_proceed_reread_iff
    {cfg : WatchConfig}
    {w : Watch}
    {records : List RR}
    (inv : w.Consistent cfg)
    (phase : w.phase = .reread records)
    (conflict : Bool) :
    (w.proceed cfg conflict).UpToDate cfg ↔
      (cfg.linkIndex ∉ w.events →
        sameRecords w.zone.records records = true →
        addresses records ⊆ addresses w.zone.records) := by
  cases same : sameRecords w.zone.records records with
  | true =>
      rw [proceed_reread_of_same phase same]
      have kept :=
        addresses_subset_of_sameRecords inv.zonePublished
          (inv.rereadPublished records phase) same
      constructor
      · intro current notQueued _
        have equal := current ⟨Or.inl rfl, notQueued⟩
        rw [inv.rereadCurrent records phase notQueued]
        exact equal.ge
      · rintro noneNew ⟨_, notQueued⟩
        have subset := noneNew notQueued rfl
        rw [inv.rereadCurrent records phase notQueued] at subset kept
        exact subset_antisymm kept subset
  | false =>
      rw [proceed_reread_of_changed phase same]
      refine iff_of_true ?_ (by simp)
      rintro ⟨_, notQueued⟩
      exact congrArg addresses (inv.rereadCurrent records phase notQueued)

/-- A watcher that was up to date stays so exactly when its step catches what
changed. -/
theorem upToDate_proceed_iff
    {cfg : WatchConfig}
    {w : Watch}
    (inv : w.Consistent cfg)
    (current : w.UpToDate cfg)
    (conflict : Bool) :
    (w.proceed cfg conflict).UpToDate cfg ↔
      w.Catches cfg (.proceed conflict) := by
  cases phase : w.phase with
  | starting =>
      simp only [Catches, phase, iff_true, proceed]
      split
      · exact upToDate_of_phase (by simp) (by simp)
      · exact upToDate_of_phase (by simp) (by simp)
  | probing =>
      simp only [Catches, phase, iff_true, proceed]
      split
      · exact upToDate_of_phase (by simp) (by simp)
      · exact upToDate_of_phase (by simp) (by simp)
  | announcing =>
      simp only [Catches, phase, iff_true, proceed]
      exact upToDate_of_phase (by simp) (by simp)
  | subscribing =>
      have quiet := inv.quiet (by simp [subscribed, phase])
      simp only [Catches, phase, proceed]
      constructor
      · intro started
        exact (started ⟨Or.inl rfl, by simp [quiet]⟩).symm
      · intro equal _
        exact equal.symm
  | waiting =>
      simp only [Catches, phase, iff_true, proceed]
      split
      · exact current
      · rename_i linkIndex rest queue
        split
        · rename_i otherLink
          rintro ⟨_, notQueued⟩
          refine current ⟨Or.inl phase, ?_⟩
          rw [queue, List.mem_cons, not_or]
          exact ⟨fun same => otherLink same.symm, notQueued⟩
        · exact upToDate_of_phase (by simp) (by simp)
  | received =>
      simp only [Catches, phase, iff_true, proceed]
      exact upToDate_of_phase (by simp) (by simp)
  | reread records =>
      simp only [Catches, phase]
      exact upToDate_proceed_reread_iff inv phase conflict
  | publishing =>
      simp only [Catches, phase, iff_true, proceed]
      rintro ⟨_, notQueued⟩
      exact current ⟨Or.inr phase, notQueued⟩
  | exited =>
      simp only [Catches, phase, iff_true, proceed]
      exact current

/-- A step leaves the zone up to date exactly if it catches the change. -/
theorem upToDate_step_iff
    (cfg : WatchConfig)
    (w : Watch)
    (action : WatchAction)
    (inv : w.Consistent cfg)
    (current : w.UpToDate cfg) :
    (w.step cfg action).UpToDate cfg ↔ w.Catches cfg action := by
  cases action with
  | change addrs =>
      exact iff_of_true (upToDate_change cfg w addrs) trivial
  | changeOther linkIndex =>
      refine iff_of_true ?_ trivial
      rw [step]
      split
      · exact current
      · exact upToDate_changeOther current linkIndex
  | proceed conflict =>
      exact upToDate_proceed_iff inv current conflict

/-- Whatever the kernel does between the steps, the zone denotes the link's
addresses in every settled state exactly if nothing changed between the first
reading and the subscription, and no list with a new address counted as
unchanged. -/
theorem upToDate_run_iff
    (cfg : WatchConfig)
    (addrs : List AddrEntry)
    (actions : List WatchAction) :
    AllStates (step cfg) (UpToDate cfg) (start addrs) actions ↔
      AllSteps (step cfg) (Catches cfg) (start addrs) actions :=
  allStates_iff_allSteps (consistent_step cfg) (upToDate_step_iff cfg)
    (consistent_start cfg addrs)
    (upToDate_of_phase (by simp [start]) (by simp [start])) actions

/-- A watcher of link 2 that probes. -/
def plainWatch : WatchConfig where
  fqdn := "host.local."
  ttl := 120
  linkIndex := 2
  skipProbe := false

/-- The address changes while the publisher probes. -/
def changeWhileProbing : List WatchAction :=
  [.proceed false, .change [some [10, 0, 0, 2]], .proceed false,
    .proceed false, .proceed false]

/-- The link has one address with two masks, and one of the entries becomes
another address. -/
def changeOfRepeated : List WatchAction :=
  [.proceed false, .proceed false, .proceed false, .proceed false,
    .change [some [10, 0, 0, 1], some [10, 0, 0, 2]],
    .proceed false, .proceed false, .proceed false]

/-- The first change is lost between the reading and the subscription, the
second in the comparison with the old records. -/
theorem not_upToDate_changes :
    ¬ (changeWhileProbing.foldl (step plainWatch)
          (start [some [10, 0, 0, 1]])).UpToDate plainWatch ∧
      ¬ (changeOfRepeated.foldl (step plainWatch)
          (start [some [10, 0, 0, 1], some [10, 0, 0, 1]])).UpToDate
        plainWatch := by
  decide

end Watch

end Changes

end DnsServices.MdnsPublisher
