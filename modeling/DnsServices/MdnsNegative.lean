import DnsServices.MdnsPacket
import DnsServices.MdnsWatch

namespace DnsServices.MdnsPublisher

open Runs

/-!
# Negative answers

The zone keeps its NSEC record beside the address records and replaces both
together, or neither.  The NSEC record is therefore that of the records in
every state of the watcher, and a negative answer denies only types the zone
does not have.
-/

section Answering

/-- The class of a question without the QU bit. -/
def Question.inClass (q : Question) : UInt16 :=
  q.qclass &&& ~~~quBit

/-- A question is for a record of the zone. -/
def Question.asksFor (q : Question) (r : RR) : Bool :=
  (q.inClass == classINET || q.inClass == classANY) &&
    (equalFold r.header.name q.name &&
      (q.qtype == typeANY || r.header.rrtype == q.qtype))

/-- A question may be answered with the NSEC record of the zone. -/
def Question.deniedBy (q : Question) (nsec : RR) : Bool :=
  q.qtype != typeANY && equalFold nsec.header.name q.name &&
    q.inClass == classINET

namespace HostnameZone

/-- The records that answer a question, before they are copied. -/
def answering (zone : HostnameZone) (q : Question) : List RR :=
  if zone.records.filter q.asksFor = [] then
    (zone.nsec.filter q.deniedBy).toList
  else
    zone.records.filter q.asksFor

/-- With a class that is answered, the question selects by name and type. -/
theorem filter_asksFor_of_class
    (records : List RR)
    {q : Question}
    (answered : q.inClass = classINET ∨ q.inClass = classANY) :
    records.filter q.asksFor =
      records.filter fun r =>
        equalFold r.header.name q.name &&
          (q.qtype == typeANY || r.header.rrtype == q.qtype) := by
  refine List.filter_congr ?_
  intro r _
  rcases answered with inet | any
  · simp [Question.asksFor, inet]
  · simp [Question.asksFor, any]

/-- `Records` copies the records that answer the question. -/
theorem zoneRecords_eq
    (zone : HostnameZone)
    (q : Question)
    (legacy : Bool) :
    zone.zoneRecords q legacy =
      (zone.answering q).map (answerCopy legacy) := by
  unfold zoneRecords answering
  dsimp only
  split
  next other =>
    have foreign : ∀ r, q.asksFor r = false := by
      intro r
      simp [Question.asksFor, Question.inClass, other.1, other.2]
    have noNsec : zone.nsec.filter q.deniedBy = none := by
      rw [Option.filter_eq_none_iff]
      intro nsec _
      simp [Question.deniedBy, Question.inClass, other.1]
    simp [List.filter_eq_nil_iff, foreign, noNsec]
  next answered =>
    have answered : q.inClass = classINET ∨ q.inClass = classANY := by
      rw [not_and_or, not_not, not_not] at answered
      exact answered
    rw [filter_asksFor_of_class zone.records answered]
    cases zone.nsec with
    | none =>
        dsimp only
        split
        next none =>
          simp [none]
        next =>
          rfl
    | some nsec =>
        dsimp only
        split
        next denied =>
          obtain ⟨none, typed, named, inet⟩ := denied
          have isDenied : q.deniedBy nsec = true := by
            simp [Question.deniedBy, Question.inClass, typed, named, inet]
          simp [List.length_eq_zero_iff.mp none, Option.filter, isDenied]
        next notDenied =>
          split
          next none =>
            have isAnswered : q.deniedBy nsec = false := by
              rw [← Bool.not_eq_true]
              intro isDenied
              simp only [Question.deniedBy, Bool.and_eq_true, bne_iff_ne,
                beq_iff_eq] at isDenied
              exact notDenied
                ⟨by simp [none], isDenied.1.1, isDenied.1.2, isDenied.2⟩
            simp [none, isAnswered]
          next =>
            rfl

end HostnameZone

end Answering

section Types

/-- The types of a zone's records. -/
def recordTypes (records : List RR) : List UInt16 :=
  records.map (·.header.rrtype)

/-- The bitmap of the NSEC record that `buildNSEC` makes. -/
def typeBitMap (records : List RR) : List UInt16 :=
  (recordTypes records).dedup.insertionSort (· ≤ ·)

/-- The bitmap names the types that some record has. -/
theorem mem_typeBitMap {records : List RR} {rrtype : UInt16} :
    rrtype ∈ typeBitMap records ↔
      ∃ r ∈ records, r.header.rrtype = rrtype := by
  rw [typeBitMap, (List.perm_insertionSort _ _).mem_iff, List.mem_dedup,
    recordTypes, List.mem_map]

/-- No type is listed twice, and the types increase. -/
theorem pairwise_typeBitMap (records : List RR) :
    (typeBitMap records).Pairwise (· < ·) := by
  have sorted : (typeBitMap records).Pairwise (· ≤ ·) :=
    List.pairwise_insertionSort _ _
  have once : (typeBitMap records).Nodup :=
    (List.perm_insertionSort _ _).nodup_iff.mpr (List.nodup_dedup _)
  refine (sorted.and once).imp ?_
  rintro first second ⟨le, ne⟩
  exact UInt16.lt_of_le_of_ne le ne

/-- A zone with records gets an NSEC record over their types. -/
theorem buildNSEC_eq
    {name : String}
    {records : List RR}
    {ttl : UInt32}
    (some : records ≠ []) :
    buildNSEC name records ttl =
      .some
        (.nsec (hostHeader name typeNSEC ttl) name (typeBitMap records)) :=
  if_neg some

end Types

section Zones

/-- The zone holds address records of the host and the NSEC record that goes
with them. -/
structure HostZone
    (name : String)
    (ttl : UInt32)
    (zone : HostnameZone) : Prop where
  made : ∀ r ∈ zone.records, HostRecord name ttl r
  nsec : zone.nsec = buildNSEC name zone.records ttl

/-- The zone of a host with the given addresses. -/
def hostZone
    (name : String)
    (ips : List IP)
    (ttl : UInt32) : HostnameZone where
  records := recordsForIPs name ips ttl
  nsec := buildNSEC name (recordsForIPs name ips ttl) ttl

/-- The zone built for a host is a host zone. -/
theorem hostZone_host (name : String) (ips : List IP) (ttl : UInt32) :
    HostZone name ttl (hostZone name ips ttl) where
  made := fun _ member => hostRecord_of_mem_recordsForIPs member
  nsec := rfl

theorem HostRecord.name_eq
    {name : String}
    {ttl : UInt32}
    {r : RR}
    (made : HostRecord name ttl r) :
    r.header.name = name := by
  cases made with
  | a _ =>
      rfl
  | aaaa _ =>
      rfl

theorem HostRecord.rrtype_ne_any
    {name : String}
    {ttl : UInt32}
    {r : RR}
    (made : HostRecord name ttl r) :
    r.header.rrtype ≠ typeANY := by
  cases made with
  | a _ =>
      exact (by decide : typeA ≠ typeANY)
  | aaaa _ =>
      exact (by decide : typeAAAA ≠ typeANY)

/-- An NSEC record in an answer is not the copy of an address record. -/
theorem HostRecord.answerCopy_ne_nsec
    {name : String}
    {ttl : UInt32}
    {r : RR}
    (made : HostRecord name ttl r)
    (legacy : Bool)
    (hdr : Header)
    (nextDomain : String)
    (types : List UInt16) :
    answerCopy legacy r ≠ .nsec hdr nextDomain types := by
  cases made with
  | a _ =>
      cases legacy <;> simp [answerCopy, RR.withClass]
  | aaaa _ =>
      cases legacy <;> simp [answerCopy, RR.withClass]

/-- Negative answers never contradict the zone. -/
structure Truthful (name : String) (zone : HostnameZone) : Prop where
  negative :
    ∀ q legacy hdr nextDomain types,
      .nsec hdr nextDomain types ∈ zone.zoneRecords q legacy →
        q.qclass &&& ~~~quBit = classINET ∧
          equalFold name q.name = true ∧
          zone.records ≠ [] ∧
          (∀ r ∈ zone.records, r.header.rrtype ≠ q.qtype) ∧
          q.qtype ∉ types ∧
          zone.zoneRecords q legacy = [.nsec hdr nextDomain types]
  bitmap :
    if zone.records = [] then
      zone.nsec = none
    else
      ∃ hdr types,
        zone.nsec = some (.nsec hdr name types) ∧
          types.Pairwise (· < ·) ∧
          ∀ rrtype, rrtype ∈ types ↔
            ∃ r ∈ zone.records, r.header.rrtype = rrtype
  positive :
    ∀ q legacy,
      q.qclass &&& ~~~quBit = classINET →
        equalFold name q.name = true →
        (∃ r ∈ zone.records, r.header.rrtype = q.qtype) →
        zone.zoneRecords q legacy =
          (zone.records.filter (·.header.rrtype == q.qtype)).map
            (answerCopy legacy)

variable
  {name : String}
  {ttl : UInt32}
  {zone : HostnameZone}
  (host : HostZone name ttl zone)

include host

/-- The NSEC record of a host zone lists its types, sorted and without
repetition. -/
theorem HostZone.bitmap :
    if zone.records = [] then
      zone.nsec = none
    else
      ∃ hdr types,
        zone.nsec = some (.nsec hdr name types) ∧
          types.Pairwise (· < ·) ∧
          ∀ rrtype, rrtype ∈ types ↔
            ∃ r ∈ zone.records, r.header.rrtype = rrtype := by
  rw [host.nsec]
  split
  next empty =>
    exact if_pos empty
  next some =>
    exact
      ⟨_, _, buildNSEC_eq some, pairwise_typeBitMap zone.records,
        fun _ => mem_typeBitMap⟩

/-- A question that gets no address record although it is answered asks for a
type the zone does not have. -/
theorem HostZone.rrtype_ne_of_filter_eq_nil
    {q : Question}
    (inet : q.inClass = classINET)
    (named : equalFold name q.name = true)
    (none : zone.records.filter q.asksFor = []) :
    ∀ r ∈ zone.records, r.header.rrtype ≠ q.qtype := by
  intro r member same
  refine List.filter_eq_nil_iff.mp none r member ?_
  simp [Question.asksFor, inet, (host.made r member).name_eq, named, same]

/-- A denial comes only when the name exists without the type. -/
theorem HostZone.negative
    (q : Question)
    (legacy : Bool)
    (hdr : Header)
    (nextDomain : String)
    (types : List UInt16)
    (denies : .nsec hdr nextDomain types ∈ zone.zoneRecords q legacy) :
    q.qclass &&& ~~~quBit = classINET ∧
      equalFold name q.name = true ∧
      zone.records ≠ [] ∧
      (∀ r ∈ zone.records, r.header.rrtype ≠ q.qtype) ∧
      q.qtype ∉ types ∧
      zone.zoneRecords q legacy = [.nsec hdr nextDomain types] := by
  rw [HostnameZone.zoneRecords_eq] at denies ⊢
  obtain ⟨r, answers, copied⟩ := List.mem_map.mp denies
  have none : zone.records.filter q.asksFor = [] := by
    by_contra found
    rw [HostnameZone.answering, if_neg found] at answers
    exact (host.made r (List.mem_filter.mp answers).1).answerCopy_ne_nsec
      legacy hdr nextDomain types copied
  have only : zone.answering q = [r] := by
    rw [HostnameZone.answering, if_pos none] at answers ⊢
    rw [Option.mem_toList] at answers
    rw [answers]
    rfl
  rw [HostnameZone.answering, if_pos none, Option.mem_toList,
    Option.filter_eq_some_iff, host.nsec] at answers
  obtain ⟨built, denied⟩ := answers
  have some : zone.records ≠ [] := by
    intro empty
    rw [empty] at built
    cases built
  rw [buildNSEC_eq some] at built
  cases built
  simp only [Question.deniedBy, Bool.and_eq_true, bne_iff_ne,
    beq_iff_eq] at denied
  obtain ⟨⟨typed, named⟩, inet⟩ := denied
  have absent := host.rrtype_ne_of_filter_eq_nil inet named none
  refine ⟨inet, named, some, absent, ?_, ?_⟩
  · have same : typeBitMap zone.records = types := by
      cases legacy <;> cases copied <;> rfl
    rw [← same, mem_typeBitMap]
    rintro ⟨r, member, same⟩
    exact absent r member same
  · rw [only, List.map_singleton, copied]

/-- A type that exists is answered with all its records. -/
theorem HostZone.positive
    (q : Question)
    (legacy : Bool)
    (inet : q.qclass &&& ~~~quBit = classINET)
    (named : equalFold name q.name = true)
    (present : ∃ r ∈ zone.records, r.header.rrtype = q.qtype) :
    zone.zoneRecords q legacy =
      (zone.records.filter (·.header.rrtype == q.qtype)).map
        (answerCopy legacy) := by
  obtain ⟨r, member, typed⟩ := present
  have notAny : q.qtype ≠ typeANY := by
    rw [← typed]
    exact (host.made r member).rrtype_ne_any
  have asked :
      zone.records.filter q.asksFor =
        zone.records.filter (·.header.rrtype == q.qtype) := by
    refine List.filter_congr ?_
    intro r member
    simp [Question.asksFor, Question.inClass, inet,
      (host.made r member).name_eq, named, notAny]
  have found : zone.records.filter q.asksFor ≠ [] := by
    rw [asked]
    exact List.ne_nil_of_mem (List.mem_filter.mpr ⟨member, by simp [typed]⟩)
  rw [HostnameZone.zoneRecords_eq, HostnameZone.answering, if_neg found,
    asked]

/-- A host zone never denies what it has. -/
theorem HostZone.truthful : Truthful name zone where
  negative := host.negative
  bitmap := host.bitmap
  positive := host.positive

end Zones

section Runs

namespace Watch

/-- The zone and a list that was read again are those of the host. -/
structure KeepsHost (cfg : WatchConfig) (w : Watch) : Prop where
  zone : HostZone cfg.fqdn cfg.ttl w.zone
  rereadMade : ∀ records, w.phase = .reread records →
    ∀ r ∈ records, HostRecord cfg.fqdn cfg.ttl r

theorem keepsHost_start (cfg : WatchConfig) (addrs : List AddrEntry) :
    (start addrs).KeepsHost cfg where
  zone := ⟨by simp [start], rfl⟩
  rereadMade := by simp [start]

/-- Records for an address list are host records. -/
theorem hostRecord_recordsFor
    (cfg : WatchConfig)
    (addrs : List AddrEntry) :
    ∀ r ∈ cfg.recordsFor addrs, HostRecord cfg.fqdn cfg.ttl r :=
  fun _ member => hostRecord_of_mem_recordsForIPs member

/-- An event changes neither the zone nor what was read. -/
theorem keepsHost_notify
    {cfg : WatchConfig}
    {w : Watch}
    (inv : w.KeepsHost cfg)
    (linkIndex : Nat) :
    (w.notify linkIndex).KeepsHost cfg := by
  rw [notify]
  split
  · exact ⟨inv.zone, inv.rereadMade⟩
  · exact inv

theorem keepsHost_proceed
    {cfg : WatchConfig}
    {w : Watch}
    (inv : w.KeepsHost cfg)
    (conflict : Bool) :
    (w.proceed cfg conflict).KeepsHost cfg := by
  cases phase : w.phase with
  | starting =>
      simp only [proceed, phase]
      split
      · exact ⟨inv.zone, by simp⟩
      · exact ⟨⟨hostRecord_recordsFor cfg w.kernel, rfl⟩, by simp⟩
  | probing =>
      simp only [proceed, phase]
      split
      · exact ⟨inv.zone, by simp⟩
      · exact ⟨inv.zone, by simp⟩
  | announcing =>
      simp only [proceed, phase]
      exact ⟨inv.zone, by simp⟩
  | subscribing =>
      simp only [proceed, phase]
      exact ⟨inv.zone, by simp⟩
  | waiting =>
      simp only [proceed, phase]
      split
      · exact inv
      · split
        · exact ⟨inv.zone, by simp⟩
        · exact ⟨inv.zone, by simp⟩
  | received =>
      simp only [proceed, phase]
      refine ⟨inv.zone, ?_⟩
      intro records same
      cases same
      exact hostRecord_recordsFor cfg w.kernel
  | reread records =>
      -- The records and the NSEC record change together or not at all.
      cases same : sameRecords w.zone.records records with
      | true =>
          rw [proceed_reread_of_same phase same]
          exact ⟨inv.zone, by simp⟩
      | false =>
          rw [proceed_reread_of_changed phase same]
          exact ⟨⟨inv.rereadMade records phase, rfl⟩, by simp⟩
  | publishing =>
      simp only [proceed, phase]
      exact ⟨inv.zone, by simp⟩
  | exited =>
      simp only [proceed, phase]
      exact inv

/-- Every step of the watcher keeps the zone a host zone. -/
theorem keepsHost_step
    (cfg : WatchConfig)
    (w : Watch)
    (action : WatchAction)
    (inv : w.KeepsHost cfg) :
    (w.step cfg action).KeepsHost cfg := by
  cases action with
  | change addrs =>
      have changed : KeepsHost cfg { w with kernel := addrs } :=
        ⟨inv.zone, inv.rereadMade⟩
      exact keepsHost_notify changed cfg.linkIndex
  | changeOther linkIndex =>
      rw [step]
      split
      · exact inv
      · exact keepsHost_notify inv linkIndex
  | proceed conflict =>
      exact keepsHost_proceed inv conflict

/-- Whatever the kernel does to the addresses, in every state of the watcher
the zone denies only what it does not have, and answers with all that it
has. -/
theorem truthful_run
    (cfg : WatchConfig)
    (addrs : List AddrEntry)
    (actions : List WatchAction) :
    AllStates (step cfg) (fun w => Truthful cfg.fqdn w.zone) (start addrs)
      actions :=
  allStates_of_invariant (keepsHost_step cfg)
    (fun _ inv => inv.zone.truthful) (keepsHost_start cfg addrs) actions

example :
    (([.proceed false].foldl (step plainWatch)
        (start [some [10, 0, 0, 1]])).zone.zoneRecords
      { name := "Host.local.", qtype := typeAAAA, qclass := 0x8001 } true) =
      [.nsec
        { name := "host.local.", rrtype := typeNSEC, rrclass := classINET,
          ttl := 120 }
        "host.local." [typeA]] := by
  decide +kernel

end Watch

end Runs

end DnsServices.MdnsPublisher
