import DnsServices.MdnsTiebreak

namespace DnsServices.MdnsPublisher

/-!
# Packets of the mDNS publisher

What the receive loop does with a datagram in each state of the server: nothing
while the server is pending, conflict detection while it probes, and answers
once it runs.  The server and the messages it sends are the result of a call.
-/

section Messages

/-- The fields of a message header that are read or set. -/
structure MsgHdr where
  id : UInt16
  response : Bool
  opcode : Nat
  authoritative : Bool
  truncated : Bool
  rcode : Nat
  deriving Repr, DecidableEq

/-- A whole message. -/
structure DnsMsg extends Msg where
  hdr : MsgHdr
  answer : List RR
  extra : List RR
  deriving Repr, DecidableEq

/-- The opcode of queries and their responses. -/
def opcodeQuery : Nat := 0

/-- The header of everything the publisher sends in response. -/
def responseHdr : MsgHdr where
  id := 0
  response := true
  opcode := opcodeQuery
  authoritative := true
  truncated := false
  rcode := 0

/-- A response with the given answers. -/
def responseMsg (answer : List RR) : DnsMsg where
  question := []
  ns := []
  hdr := responseHdr
  answer := answer
  extra := []

/-- A message handed to a socket. -/
inductive Sent where
  /-- To the multicast group, over all sockets. -/
  | multicast (msg : DnsMsg)
  /-- To the source of the query. -/
  | unicast (msg : DnsMsg)
  deriving Repr, DecidableEq

end Messages

section Answers

/-- The class of a question for any class. -/
def classANY : UInt16 := 255

/-- The port of multicast DNS. -/
def mdnsPort : UInt16 := 5353

/-- RFC 6762 §6.7: TTL in legacy unicast responses should not exceed 10s. -/
def legacyUnicastMaxTTL : UInt32 := 10

/-- A copy with another class. -/
def RR.withClass (rrclass : UInt16) : RR → RR
  | a hdr address => a { hdr with rrclass := rrclass } address
  | aaaa hdr address => aaaa { hdr with rrclass := rrclass } address
  | nsec hdr nextDomain typeBitMap =>
      nsec { hdr with rrclass := rrclass } nextDomain typeBitMap
  | other hdr rdata => other { hdr with rrclass := rrclass } rdata

/-- The copy of a zone record that answers a query. -/
def answerCopy (legacy : Bool) (r : RR) : RR :=
  -- legacy unicast responses must not have the cache-flush bit
  if legacy then r.withClass classINET else r

namespace HostnameZone

/-- The records that answer a question, or the negative response. -/
def zoneRecords (z : HostnameZone) (q : Question) (legacy : Bool) : List RR :=
  let qclass := q.qclass &&& ~~~quBit
  if qclass ≠ classINET ∧ qclass ≠ classANY then
    []
  else
    let found :=
      z.records.filter fun r =>
        equalFold r.header.name q.name &&
          (q.qtype == typeANY || r.header.rrtype == q.qtype)
    match z.nsec with
    | none =>
        found.map (answerCopy legacy)
    | some nsec =>
        if found.length = 0 ∧ q.qtype ≠ typeANY ∧
            equalFold nsec.header.name q.name ∧ qclass = classINET then
          [answerCopy legacy nsec]
        else
          found.map (answerCopy legacy)

/-- The querier knows the record, for half of its time to live at least. -/
def isKnownAnswer (r : RR) (known : List RR) : Bool :=
  known.any fun k =>
    equalFold k.header.name r.header.name &&
      k.header.rrtype == r.header.rrtype &&
      -- compare class ignoring cache-flush bit
      k.header.rrclass &&& ~~~cacheFlushBit ==
        r.header.rrclass &&& ~~~cacheFlushBit &&
      rrdataEqual k r &&
      decide (r.header.ttl / 2 ≤ k.header.ttl)

/-- Remove records that the querier already knows with a TTL at least half
the true TTL. -/
def filterKnownAnswers (records known : List RR) : List RR :=
  if known.length = 0 ∨ records.length = 0 then
    records
  else
    records.filter fun r => !isKnownAnswer r known

end HostnameZone

/-- The TTL of a legacy answer, applied after known-answer suppression. -/
def capTtl (r : RR) : RR :=
  if r.header.ttl > legacyUnicastMaxTTL then
    r.withTtl legacyUnicastMaxTTL
  else
    r

/-- The answers to one question that are sent. -/
def answersTo
    (zone : HostnameZone)
    (legacy : Bool)
    (known : List RR)
    (q : Question) : List RR :=
  let records :=
    HostnameZone.filterKnownAnswers (zone.zoneRecords q legacy) known
  if legacy then records.map capTtl else records

/-- Handle an incoming mDNS query in the running state. -/
def answerQuery
    (zone : HostnameZone)
    (msg : DnsMsg)
    (fromPort : UInt16) : List Sent :=
  let legacy := fromPort != mdnsPort
  let byUnicast := fun q : Question => legacy || q.qclass &&& quBit != 0
  let unicastAnswer :=
    (msg.question.filter byUnicast).flatMap
      (answersTo zone legacy msg.answer)
  let multicastAnswer :=
    (msg.question.filter fun q => !byUnicast q).flatMap
      (answersTo zone legacy msg.answer)
  (if multicastAnswer.length > 0 then
    [.multicast (responseMsg multicastAnswer)]
  else
    []) ++
  if unicastAnswer.length > 0 then
    let resp := responseMsg unicastAnswer
    if legacy then
      -- repeat the query ID and the question given in the query message
      [.unicast
        { resp with
          hdr.id := msg.hdr.id
          question := msg.question }]
    else
      [.unicast resp]
  else
    []

end Answers

section Packets

/-- What the receive loop does with incoming packets. -/
inductive ServerState where
  | pending
  | probing
  | running
  deriving Repr, DecidableEq

/-- A datagram: what `Unpack` makes of it, and its source port. -/
structure Packet where
  msg : Option DnsMsg
  fromPort : UInt16
  deriving Repr, DecidableEq

/-- A server that has seen no conflict. -/
def newMDNSServer (zone : HostnameZone) (probeName : String) : MdnsServer where
  zone := zone
  probeName := probeName
  conflictDetected := false

namespace MdnsServer

/-- Whether a record is for the name that is being probed. -/
def isProbed (s : MdnsServer) (rr : RR) : Bool :=
  equalFold rr.header.name s.probeName

/-- Record a conflict if a response contains a record for the name we are
probing. -/
def checkConflict (s : MdnsServer) (msg : DnsMsg) : MdnsServer :=
  if msg.answer.any s.isProbed then
    { s with conflictDetected := true }
  else if msg.ns.any s.isProbed then
    { s with conflictDetected := true }
  else if msg.extra.any s.isProbed then
    { s with conflictDetected := true }
  else
    s

/-- Dispatch a packet based on the server state, which is loaded first. -/
def handlePacket
    (s : MdnsServer)
    (state : ServerState)
    (packet : Packet) : MdnsServer × List Sent :=
  if state = .pending then
    (s, [])
  else
    match packet.msg with
    | none =>
        (s, [])
    | some msg =>
        if msg.hdr.opcode ≠ opcodeQuery then
          (s, [])
        else if msg.hdr.rcode ≠ 0 then
          (s, [])
        else if msg.hdr.truncated then
          (s, [])
        else if state = .probing then
          if msg.hdr.response then
            (s.checkConflict msg, [])
          else
            (s.handleProbeTiebreak msg.toMsg, [])
        else if !msg.hdr.response then
          (s, answerQuery s.zone msg packet.fromPort)
        else
          -- responses are ignored
          (s, [])

/-- Packets one after the other, each with the state it is delivered in. -/
def deliver
    (s : MdnsServer)
    (deliveries : List (ServerState × Packet)) : MdnsServer :=
  deliveries.foldl
    (fun s delivery => (s.handlePacket delivery.1 delivery.2).1) s

end MdnsServer

end Packets

section Conflicts

/-- A message that is looked at: a query opcode, no error, not truncated. -/
def DnsMsg.Regular (msg : DnsMsg) : Prop :=
  msg.hdr.opcode = opcodeQuery ∧ msg.hdr.rcode = 0 ∧ msg.hdr.truncated = false

namespace MdnsServer

/-- A response with a record for the probed name, in any section. -/
def AnswersProbe (s : MdnsServer) (msg : DnsMsg) : Prop :=
  msg.Regular ∧ msg.hdr.response = true ∧
    ∃ rr ∈ msg.answer ++ msg.ns ++ msg.extra, s.isProbed rr = true

/-- A query for the probed name whose proposed records win. -/
def OutprobesUs (s : MdnsServer) (msg : DnsMsg) : Prop :=
  msg.Regular ∧ msg.hdr.response = false ∧
    (∃ q ∈ msg.question, equalFold q.name s.probeName = true) ∧
    s.theyWinTiebreak (msg.ns.filter s.isProbed) = true

/-- A packet that is a conflict for a probing host.  RFC 6762 §6: responses
from any other source port than 5353 are silently ignored. -/
def IsConflict (s : MdnsServer) (packet : Packet) : Prop :=
  ∃ msg, packet.msg = some msg ∧
    (s.AnswersProbe msg ∧ packet.fromPort = mdnsPort ∨ s.OutprobesUs msg)

/-- A response for the probed name from another source port. -/
def IsStray (s : MdnsServer) (packet : Packet) : Prop :=
  ∃ msg, packet.msg = some msg ∧
    s.AnswersProbe msg ∧ packet.fromPort ≠ mdnsPort

/-- The conflict check changes the conflict flag only. -/
theorem checkConflict_eq (s : MdnsServer) (msg : DnsMsg) :
    s.checkConflict msg =
      { s with
        conflictDetected :=
          s.conflictDetected ||
            (msg.answer ++ msg.ns ++ msg.extra).any s.isProbed } := by
  simp only [checkConflict, List.any_append]
  cases msg.answer.any s.isProbed with
  | true =>
      simp
  | false =>
      cases msg.ns.any s.isProbed with
      | true =>
          simp
      | false =>
          cases msg.extra.any s.isProbed with
          | true =>
              simp
          | false =>
              simp

/-- Without records of theirs nobody defers. -/
theorem theyWinTiebreak_nil (s : MdnsServer) :
    s.theyWinTiebreak [] = false := by
  rw [← Bool.not_eq_true, theyWinTiebreak_iff]
  simp [sortedKeys, LexCompare.sortSlice]

/-- The tiebreak changes the conflict flag only. -/
theorem handleProbeTiebreak_eq (s : MdnsServer) (msg : Msg) :
    s.handleProbeTiebreak msg =
      { s with
        conflictDetected :=
          s.conflictDetected ||
            ((msg.question.any fun q => equalFold q.name s.probeName) &&
              s.theyWinTiebreak (msg.ns.filter s.isProbed)) } := by
  have sameFilter :
      (msg.ns.filter fun rr => equalFold rr.header.name s.probeName) =
        msg.ns.filter s.isProbed := rfl
  rw [handleProbeTiebreak, sameFilter]
  cases asked : msg.question.any fun q => equalFold q.name s.probeName with
  | false =>
      simp
  | true =>
      simp only [if_true, Bool.true_and]
      split
      · rename_i empty
        rw [List.length_eq_zero_iff.mp empty, theyWinTiebreak_nil]
        simp
      · cases wins : s.theyWinTiebreak (msg.ns.filter s.isProbed) with
        | true =>
            simp
        | false =>
            simp

/-- What the code takes for a conflict, whatever the source port. -/
def Reacts (s : MdnsServer) (packet : Packet) : Prop :=
  ∃ msg, packet.msg = some msg ∧ (s.AnswersProbe msg ∨ s.OutprobesUs msg)

/-- A server reacts to a conflict, and to a response from another source port.
-/
theorem reacts_iff (s : MdnsServer) (packet : Packet) :
    s.Reacts packet ↔ s.IsConflict packet ∨ s.IsStray packet := by
  constructor
  · rintro ⟨msg, unpacked, answers | outprobes⟩
    · by_cases port : packet.fromPort = mdnsPort
      · exact Or.inl ⟨msg, unpacked, Or.inl ⟨answers, port⟩⟩
      · exact Or.inr ⟨msg, unpacked, answers, port⟩
    · exact Or.inl ⟨msg, unpacked, Or.inr outprobes⟩
  · rintro (⟨msg, unpacked, ⟨answers, _⟩ | outprobes⟩ |
      ⟨msg, unpacked, answers, _⟩)
    · exact ⟨msg, unpacked, Or.inl answers⟩
    · exact ⟨msg, unpacked, Or.inr outprobes⟩
    · exact ⟨msg, unpacked, Or.inl answers⟩

/-- The zone and the name stay; only the conflict can be raised. -/
structure Raised (s reached : MdnsServer) (raised : Prop) : Prop where
  zone : reached.zone = s.zone
  probeName : reached.probeName = s.probeName
  conflict :
    reached.conflictDetected = true ↔ s.conflictDetected = true ∨ raised

theorem raised_self (s : MdnsServer) {raised : Prop} (never : ¬ raised) :
    Raised s s raised :=
  ⟨rfl, rfl, by simp [never]⟩

/-- What counts as a conflict does not change on the way. -/
theorem Raised.reacts_eq
    {s reached : MdnsServer}
    {raised : Prop}
    (stays : Raised s reached raised) :
    reached.Reacts = s.Reacts := by
  have sameProbed : reached.isProbed = s.isProbed := by
    funext rr
    rw [isProbed, isProbed, stays.probeName]
  funext packet
  simp only [Reacts, AnswersProbe, OutprobesUs, theyWinTiebreak, sameProbed,
    stays.zone, stays.probeName]

/-- A message that is not looked at is none of the two kinds. -/
theorem not_reacts_of_irregular
    {s : MdnsServer}
    {packet : Packet}
    {msg : DnsMsg}
    (unpacked : packet.msg = some msg)
    (irregular : ¬ msg.Regular) :
    ¬ s.Reacts packet := by
  rintro ⟨found, same, answers | outprobes⟩
  · rw [unpacked] at same
    cases same
    exact irregular answers.1
  · rw [unpacked] at same
    cases same
    exact irregular outprobes.1

/-- While probing, a regular message raises the conflict as its kind says. -/
theorem raised_probing
    {s : MdnsServer}
    {packet : Packet}
    {msg : DnsMsg}
    (unpacked : packet.msg = some msg)
    (regular : msg.Regular) :
    Raised s
      (if msg.hdr.response then s.checkConflict msg
        else s.handleProbeTiebreak msg.toMsg)
      (s.Reacts packet) := by
  cases kind : msg.hdr.response with
  | true =>
      rw [if_pos rfl, checkConflict_eq]
      refine ⟨rfl, rfl, ?_⟩
      simp only [Bool.or_eq_true, List.any_eq_true]
      refine or_congr_right ?_
      constructor
      · intro named
        exact ⟨msg, unpacked, Or.inl ⟨regular, kind, named⟩⟩
      · rintro ⟨found, same, answers | outprobes⟩
        · rw [unpacked] at same
          cases same
          exact answers.2.2
        · rw [unpacked] at same
          cases same
          rw [outprobes.2.1] at kind
          cases kind
  | false =>
      rw [if_neg (by simp), handleProbeTiebreak_eq]
      refine ⟨rfl, rfl, ?_⟩
      simp only [Bool.or_eq_true, Bool.and_eq_true, List.any_eq_true]
      refine or_congr_right ?_
      constructor
      · rintro ⟨asked, wins⟩
        exact ⟨msg, unpacked, Or.inr ⟨regular, kind, asked, wins⟩⟩
      · rintro ⟨found, same, answers | outprobes⟩
        · rw [unpacked] at same
          cases same
          rw [answers.2.1] at kind
          cases kind
        · rw [unpacked] at same
          cases same
          exact outprobes.2.2

/-- One packet raises the conflict exactly if the server is probing and the
packet is of one of the two kinds. -/
theorem raised_handlePacket
    (s : MdnsServer)
    (state : ServerState)
    (packet : Packet) :
    Raised s (s.handlePacket state packet).1
      (state = .probing ∧ s.Reacts packet) := by
  unfold handlePacket
  split
  · rename_i pending
    exact raised_self s (by simp [pending])
  · split
    · rename_i broken
      refine raised_self s ?_
      rintro ⟨_, msg, unpacked, _⟩
      rw [broken] at unpacked
      cases unpacked
    · rename_i msg unpacked
      have dropped (irregular : ¬ msg.Regular) :
          Raised s s (state = .probing ∧ s.Reacts packet) :=
        raised_self s fun raised =>
          not_reacts_of_irregular unpacked irregular raised.2
      split
      · rename_i opcode
        exact dropped fun regular => opcode regular.1
      · rename_i opcode
        split
        · rename_i rcode
          exact dropped fun regular => rcode regular.2.1
        · rename_i rcode
          split
          · rename_i truncated
            exact dropped fun regular => by simp [regular.2.2] at truncated
          · rename_i whole
            split
            · rename_i probing
              have raised := raised_probing (s := s) unpacked
                ⟨not_not.mp opcode, not_not.mp rcode, by simpa using whole⟩
              simp only [probing, true_and]
              split at raised
              · rename_i response
                rw [if_pos response]
                exact raised
              · rename_i query
                rw [if_neg query]
                exact raised
            · rename_i running
              split
              · exact raised_self s (by simp [running])
              · exact raised_self s (by simp [running])

/-- Some packet that is delivered while the server probes has a property. -/
def SomeProbed
    (holds : Packet → Prop)
    (deliveries : List (ServerState × Packet)) : Prop :=
  ∃ delivery ∈ deliveries, delivery.1 = .probing ∧ holds delivery.2

/-- Whatever the packets are, the conflict ends up raised exactly if the code
takes one of those it gets while probing for a conflict. -/
theorem raised_deliver
    (s : MdnsServer)
    (deliveries : List (ServerState × Packet)) :
    Raised s (s.deliver deliveries) (SomeProbed s.Reacts deliveries) := by
  induction deliveries generalizing s with
  | nil =>
      exact raised_self s (by simp [SomeProbed])
  | cons delivery rest inductionHypothesis =>
      have first := raised_handlePacket s delivery.1 delivery.2
      have later :=
        inductionHypothesis (s.handlePacket delivery.1 delivery.2).1
      rw [first.reacts_eq] at later
      refine ⟨later.zone.trans first.zone,
        later.probeName.trans first.probeName, ?_⟩
      rw [deliver, List.foldl_cons, ← deliver, later.conflict,
        first.conflict, or_assoc]
      simp [SomeProbed]

/-- Conflict detection raises the conflict for the right packets: those of a
real conflict that arrive while the server probes. -/
def DetectsConflicts
    (s : MdnsServer)
    (deliveries : List (ServerState × Packet)) : Prop :=
  (s.deliver deliveries).conflictDetected = true ↔
    SomeProbed s.IsConflict deliveries

/-- Conflict detection of a new server reacts to the right packets exactly if
no response for its name comes from another source port while it probes, or
if there is a real conflict anyway. -/
theorem detectsConflicts_iff
    (zone : HostnameZone)
    (probeName : String)
    (deliveries : List (ServerState × Packet)) :
    (newMDNSServer zone probeName).DetectsConflicts deliveries ↔
      ¬ SomeProbed (newMDNSServer zone probeName).IsStray deliveries ∨
        SomeProbed (newMDNSServer zone probeName).IsConflict deliveries := by
  have raised :=
    (raised_deliver (newMDNSServer zone probeName) deliveries).conflict
  have kinds :
      SomeProbed (newMDNSServer zone probeName).Reacts deliveries ↔
        SomeProbed (newMDNSServer zone probeName).IsConflict deliveries ∨
          SomeProbed (newMDNSServer zone probeName).IsStray deliveries := by
    simp only [SomeProbed, reacts_iff, and_or_left, exists_or]
  have notYet : (newMDNSServer zone probeName).conflictDetected = false := rfl
  rw [DetectsConflicts, raised, notYet, kinds]
  simp only [Bool.false_eq_true, false_or]
  constructor
  · intro exact
    by_cases stray :
        SomeProbed (newMDNSServer zone probeName).IsStray deliveries
    · exact Or.inr (exact.mp (Or.inr stray))
    · exact Or.inl stray
  · rintro (noStray | conflict)
    · simp [noStray]
    · simp [conflict]

/-- A response from port 40000 that has an address record for the probed
name. -/
def strayResponse : Packet where
  msg := some (responseMsg (recordsForIPs "host.local." [[10, 0, 0, 9]] 120))
  fromPort := 40000

/-- A zone with one address record and no NSEC record. -/
def probedZone : HostnameZone where
  records := recordsForIPs "host.local." [[10, 0, 0, 1]] 120
  nsec := none

/-- The stray response makes the probe fail although it is to be ignored. -/
theorem not_detectsConflicts_strayResponse :
    ¬ (newMDNSServer probedZone "host.local.").DetectsConflicts
        [(.probing, strayResponse)] := by
  intro detects
  have raised :
      ((newMDNSServer probedZone "host.local.").deliver
        [(.probing, strayResponse)]).conflictDetected = true := by
    decide
  obtain ⟨delivery, member, _, msg, unpacked, kind⟩ := detects.mp raised
  rw [List.mem_singleton.mp member] at unpacked kind
  cases unpacked
  rcases kind with ⟨_, rightPort⟩ | ⟨_, query, _⟩
  · exact absurd rightPort (by decide)
  · cases query

end MdnsServer

end Conflicts

end DnsServices.MdnsPublisher
