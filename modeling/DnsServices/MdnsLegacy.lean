import DnsServices.MdnsMemory

namespace DnsServices.MdnsPublisher

open Cells

/-!
# Legacy and multicast answers

A query from another port than 5353 gets a conventional unicast answer: class
IN, a small TTL, its own id and questions.  The others get mDNS answers with the
cache-flush bit and the full TTL.  Which records are withheld depends on neither,
since the class is stripped before and the TTL capped behind the comparison.
-/

section Copies

/-- The zone records that answer a question and are not known to the querier
with their full TTL. -/
def unknownTo
    (zone : HostnameZone)
    (known : List RR)
    (q : Question) : List RR :=
  (zone.answering q).filter fun r => !HostnameZone.isKnownAnswer r known

/-- The records of the host and its NSEC record have one class and TTL. -/
theorem HostZone.header_of_mem_answering
    {name : String}
    {ttl : UInt32}
    {zone : HostnameZone}
    (host : HostZone name ttl zone)
    {q : Question}
    {r : RR}
    (member : r ∈ zone.answering q) :
    r.header.rrclass = classINET ||| cacheFlushBit ∧ r.header.ttl = ttl := by
  have inZone := (zone.answering_sublist q).subset member
  rcases List.mem_append.mp inZone with address | nsec
  · cases host.made r address with
    | a _ =>
        exact ⟨rfl, rfl⟩
    | aaaa _ =>
        exact ⟨rfl, rfl⟩
  · rw [Option.mem_toList, host.nsec, buildNSEC] at nsec
    split at nsec
    · cases nsec
    · cases nsec
      exact ⟨rfl, rfl⟩

@[simp] theorem header_withClass (rrclass : UInt16) (r : RR) :
    (r.withClass rrclass).header = { r.header with rrclass := rrclass } := by
  cases r <;> rfl

@[simp] theorem header_withTtl (ttl : UInt32) (r : RR) :
    (r.withTtl ttl).header = { r.header with ttl := ttl } := by
  cases r <;> rfl

theorem rrdataEqual_withClass (known : RR) (rrclass : UInt16) (r : RR) :
    rrdataEqual known (r.withClass rrclass) = rrdataEqual known r := by
  cases known <;> cases r <;> rfl

/-- Without the cache-flush bit a record is known as before. -/
theorem isKnownAnswer_answerCopy
    {r : RR}
    (flush : r.header.rrclass = classINET ||| cacheFlushBit)
    (legacy : Bool)
    (known : List RR) :
    HostnameZone.isKnownAnswer (answerCopy legacy r) known =
      HostnameZone.isKnownAnswer r known := by
  cases legacy with
  | false =>
      rfl
  | true =>
      have stripped :
          (classINET ||| cacheFlushBit) &&& ~~~cacheFlushBit =
            classINET &&& ~~~cacheFlushBit := by
        decide
      simp only [HostnameZone.isKnownAnswer, answerCopy, if_true,
        header_withClass, rrdataEqual_withClass, flush, stripped]

/-- A host zone keeps the records that the querier does not know. -/
theorem HostZone.keptFor_eq
    {name : String}
    {ttl : UInt32}
    {zone : HostnameZone}
    (host : HostZone name ttl zone)
    (legacy : Bool)
    (known : List RR)
    (q : Question) :
    keptFor zone legacy known q = unknownTo zone known q := by
  refine List.filter_congr ?_
  intro r member
  rw [isKnownAnswer_answerCopy (host.header_of_mem_answering member).1]

/-- A legacy copy has class IN and at most ten seconds to live. -/
theorem sentCopy_legacy (r : RR) :
    sentCopy true r =
      (r.withClass classINET).withTtl
        (min r.header.ttl legacyUnicastMaxTTL) := by
  have least :
      min r.header.ttl legacyUnicastMaxTTL =
        if r.header.ttl ≤ legacyUnicastMaxTTL then r.header.ttl
        else legacyUnicastMaxTTL :=
    rfl
  have ttl : (r.withClass classINET).header.ttl = r.header.ttl := by
    simp
  rw [sentCopy, if_pos rfl, capTtl, ttl, least]
  by_cases short : r.header.ttl ≤ legacyUnicastMaxTTL
  · rw [if_neg (UInt32.not_lt.mpr short), if_pos short]
    cases r <;> rfl
  · rw [if_pos (UInt32.not_le.mp short), if_neg short]

/-- What a copy loses is the class and the TTL. -/
theorem restore_sentCopy (legacy : Bool) (r : RR) :
    ((sentCopy legacy r).withClass r.header.rrclass).withTtl r.header.ttl =
      r := by
  cases legacy with
  | true =>
      rw [sentCopy_legacy]
      cases r <;> rfl
  | false =>
      cases r <;> rfl

/-- Records of one class and TTL are told apart by their copies. -/
theorem sentCopy_inj
    {first second : RR}
    (sameClass : first.header.rrclass = second.header.rrclass)
    (sameTtl : first.header.ttl = second.header.ttl)
    (legacy : Bool)
    (same : sentCopy legacy first = sentCopy legacy second) :
    first = second := by
  rw [← restore_sentCopy legacy first, ← restore_sentCopy legacy second, same,
    sameClass, sameTtl]

end Copies

section Rules

/-- The answers that go to the multicast group. -/
def multicastAnswers (sent : List Sent) : List RR :=
  sent.flatMap fun
    | .multicast msg =>
        msg.answer
    | .unicast _ =>
        []

/-- The answers that go to the source of the query. -/
def unicastAnswers (sent : List Sent) : List RR :=
  sent.flatMap fun
    | .multicast _ =>
        []
    | .unicast msg =>
        msg.answer

/-- Each kind of source port is answered by its own rules, with the same
records. -/
structure SeparatesLegacy
    (zone : HostnameZone)
    (ttl : UInt32)
    (query : DnsMsg)
    (fromPort : UInt16)
    (sent : List Sent) : Prop where
  legacy :
    fromPort ≠ mdnsPort →
      multicastAnswers sent = [] ∧
        unicastAnswers sent =
          query.question.flatMap fun q =>
            (unknownTo zone query.answer q).map (sentCopy true)
  legacyMessage :
    fromPort ≠ mdnsPort →
      ∀ s ∈ sent, ∃ response,
        s = .unicast response ∧
          response.hdr.id = query.hdr.id ∧
          response.question = query.question ∧
          ∀ r ∈ response.answer,
            r.header.rrclass = classINET ∧
              r.header.ttl = min ttl legacyUnicastMaxTTL
  multicast :
    fromPort = mdnsPort →
      multicastAnswers sent =
          (query.question.filter (·.qclass &&& quBit == 0)).flatMap
            (unknownTo zone query.answer) ∧
        unicastAnswers sent =
          (query.question.filter (·.qclass &&& quBit != 0)).flatMap
            (unknownTo zone query.answer)
  multicastMessage :
    fromPort = mdnsPort →
      ∀ s ∈ sent,
        s.msg.hdr.id = 0 ∧
          s.msg.question = [] ∧
          ∀ r ∈ s.msg.answer,
            r.header.rrclass = classINET ||| cacheFlushBit ∧
              r.header.ttl = ttl
  withheld :
    ∀ q, query.question = [q] →
      ∀ r ∈ zone.answering q,
        sentCopy (isLegacy fromPort) r ∉ sent.flatMap (·.msg.answer) ↔
          HostnameZone.isKnownAnswer r query.answer = true

/-- Both messages together hold all answers; one without answers is not
sent. -/
theorem answers_answerQuery
    (zone : HostnameZone)
    (query : DnsMsg)
    (fromPort : UInt16) :
    multicastAnswers (answerQuery zone query fromPort) =
        answersToAll zone query fromPort
          (query.question.filter (!·.byUnicast fromPort)) ∧
      unicastAnswers (answerQuery zone query fromPort) =
        answersToAll zone query fromPort
          (query.question.filter (·.byUnicast fromPort)) ∧
      (answerQuery zone query fromPort).flatMap (·.msg.answer) =
        answersToAll zone query fromPort
            (query.question.filter (!·.byUnicast fromPort)) ++
          answersToAll zone query fromPort
            (query.question.filter (·.byUnicast fromPort)) := by
  rw [answerQuery_eq]
  generalize answersToAll zone query fromPort
    (query.question.filter (!·.byUnicast fromPort)) = multicast
  generalize answersToAll zone query fromPort
    (query.question.filter (·.byUnicast fromPort)) = unicast
  cases multicast with
  | nil =>
      cases unicast with
      | nil =>
          exact ⟨rfl, rfl, rfl⟩
      | cons r rest =>
          simp [multicastAnswers, unicastAnswers, Sent.msg]
  | cons r rest =>
      cases unicast with
      | nil =>
          simp [multicastAnswers, unicastAnswers, Sent.msg, responseMsg]
      | cons r' rest' =>
          simp [multicastAnswers, unicastAnswers, Sent.msg, responseMsg]

variable
  {name : String}
  {ttl : UInt32}
  {zone : HostnameZone}
  (host : HostZone name ttl zone)

include host

/-- The answers of a host zone are the unknown records of each question, copied
for sending. -/
theorem HostZone.answersToAll_eq
    (query : DnsMsg)
    (fromPort : UInt16)
    (questions : List Question) :
    answersToAll zone query fromPort questions =
      questions.flatMap fun q =>
        (unknownTo zone query.answer q).map
          (sentCopy (isLegacy fromPort)) := by
  unfold answersToAll
  refine List.flatMap_congr ?_
  intro q _
  rw [host.keptFor_eq]

/-- What the copies in an answer section look like. -/
theorem HostZone.header_of_mem_answersToAll
    {query : DnsMsg}
    {fromPort : UInt16}
    {questions : List Question}
    {r : RR}
    (member : r ∈ answersToAll zone query fromPort questions) :
    if isLegacy fromPort then
      r.header.rrclass = classINET ∧
        r.header.ttl = min ttl legacyUnicastMaxTTL
    else
      r.header.rrclass = classINET ||| cacheFlushBit ∧
        r.header.ttl = ttl := by
  rw [host.answersToAll_eq] at member
  obtain ⟨q, -, copied⟩ := List.mem_flatMap.mp member
  obtain ⟨original, answers, rfl⟩ := List.mem_map.mp copied
  have header :=
    host.header_of_mem_answering (List.mem_filter.mp answers).1
  cases isLegacy fromPort with
  | true =>
      rw [if_pos rfl, sentCopy_legacy]
      simp [header.2]
  | false =>
      exact header

/-- A matching record is withheld exactly when it is a known answer. -/
theorem HostZone.withheld
    {query : DnsMsg}
    {q : Question}
    (single : query.question = [q])
    (fromPort : UInt16)
    {r : RR}
    (answers : r ∈ zone.answering q) :
    sentCopy (isLegacy fromPort) r ∉
        (answerQuery zone query fromPort).flatMap (·.msg.answer) ↔
      HostnameZone.isKnownAnswer r query.answer = true := by
  have all :
      (answerQuery zone query fromPort).flatMap (·.msg.answer) =
        (unknownTo zone query.answer q).map (sentCopy (isLegacy fromPort)) := by
    rw [(answers_answerQuery zone query fromPort).2.2, host.answersToAll_eq,
      host.answersToAll_eq, single]
    cases toSource : q.byUnicast fromPort with
    | true =>
        simp [toSource]
    | false =>
        simp [toSource]
  rw [all, List.mem_map]
  constructor
  · intro absent
    by_contra unknown
    refine absent ⟨r, List.mem_filter.mpr ⟨answers, ?_⟩, rfl⟩
    simpa using unknown
  · rintro known ⟨r', kept, copied⟩
    rw [unknownTo, List.mem_filter] at kept
    have header := host.header_of_mem_answering answers
    have header' := host.header_of_mem_answering kept.1
    have same : r' = r :=
      sentCopy_inj (header'.1.trans header.1.symm)
        (header'.2.trans header.2.symm) _ copied
    rw [same, known] at kept
    cases kept.2

omit host in
/-- A query from any port but 5353 is a legacy query. -/
theorem isLegacy_of_ne {fromPort : UInt16} (other : fromPort ≠ mdnsPort) :
    isLegacy fromPort = true := by
  simp [isLegacy, other]

omit host in
theorem isLegacy_mdnsPort : isLegacy mdnsPort = false := by
  decide

/-- A legacy query is answered to its source alone. -/
theorem HostZone.legacyAnswers
    (query : DnsMsg)
    {fromPort : UInt16}
    (other : fromPort ≠ mdnsPort) :
    multicastAnswers (answerQuery zone query fromPort) = [] ∧
      unicastAnswers (answerQuery zone query fromPort) =
        query.question.flatMap fun q =>
          (unknownTo zone query.answer q).map (sentCopy true) := by
  obtain ⟨multicast, unicast, -⟩ := answers_answerQuery zone query fromPort
  have toSource : ∀ q : Question, q.byUnicast fromPort = true := fun q => by
    simp [Question.byUnicast, isLegacy_of_ne other]
  rw [multicast, unicast, host.answersToAll_eq, host.answersToAll_eq,
    isLegacy_of_ne other]
  simp [toSource]

/-- A legacy reply repeats id and question, has plain classes and capped TTLs.
-/
theorem HostZone.legacyMessage
    {query : DnsMsg}
    {fromPort : UInt16}
    (other : fromPort ≠ mdnsPort)
    {sent : Sent}
    (member : sent ∈ answerQuery zone query fromPort) :
    ∃ response,
      sent = .unicast response ∧
        response.hdr.id = query.hdr.id ∧
        response.question = query.question ∧
        ∀ r ∈ response.answer,
          r.header.rrclass = classINET ∧
            r.header.ttl = min ttl legacyUnicastMaxTTL := by
  have legacy := isLegacy_of_ne other
  obtain ⟨some, multicast | unicast⟩ := mem_answerQuery member
  · rw [multicast] at some
    refine (some ?_).elim
    simp [Sent.msg, responseMsg, answersToAll, Question.byUnicast, legacy]
  · refine ⟨_, unicast, ?_, ?_, ?_⟩
    · simp [unicastResponse, legacy]
    · simp [unicastResponse, legacy]
    · intro r answer
      rw [answer_unicastResponse] at answer
      have header := host.header_of_mem_answersToAll answer
      rwa [legacy, if_pos rfl] at header

/-- A query from port 5353 is answered to the group, or to its source where a
question asks for that. -/
theorem HostZone.multicastAnswers_eq (query : DnsMsg) :
    multicastAnswers (answerQuery zone query mdnsPort) =
        (query.question.filter (·.qclass &&& quBit == 0)).flatMap
          (unknownTo zone query.answer) ∧
      unicastAnswers (answerQuery zone query mdnsPort) =
        (query.question.filter (·.qclass &&& quBit != 0)).flatMap
          (unknownTo zone query.answer) := by
  obtain ⟨multicast, unicast, -⟩ := answers_answerQuery zone query mdnsPort
  have asked : ∀ q : Question,
      q.byUnicast mdnsPort = (q.qclass &&& quBit != 0) := fun q => by
    simp [Question.byUnicast, isLegacy_mdnsPort]
  have whole : sentCopy false = id := rfl
  rw [multicast, unicast, host.answersToAll_eq, host.answersToAll_eq,
    isLegacy_mdnsPort, whole]
  simp [asked, bne]

/-- A multicast response has no id, no question and cache-flush classes. -/
theorem HostZone.multicastMessage
    {query : DnsMsg}
    {sent : Sent}
    (member : sent ∈ answerQuery zone query mdnsPort) :
    sent.msg.hdr.id = 0 ∧
      sent.msg.question = [] ∧
      ∀ r ∈ sent.msg.answer,
        r.header.rrclass = classINET ||| cacheFlushBit ∧
          r.header.ttl = ttl := by
  have plain : sent.msg.hdr = responseHdr ∧ sent.msg.question = [] := by
    rcases (mem_answerQuery member).2 with multicast | unicast
    · rw [multicast]
      exact ⟨rfl, rfl⟩
    · rw [unicast]
      exact ⟨rfl, rfl⟩
  refine ⟨?_, plain.2, ?_⟩
  · rw [plain.1]
    rfl
  · intro r answer
    rw [answer_of_mem_answerQuery member] at answer
    have header := host.header_of_mem_answersToAll answer
    rwa [isLegacy_mdnsPort, if_neg Bool.false_ne_true] at header

/-- A host zone keeps legacy and multicast answers apart. -/
theorem HostZone.separatesLegacy (query : DnsMsg) (fromPort : UInt16) :
    SeparatesLegacy zone ttl query fromPort
      (answerQuery zone query fromPort) where
  legacy := host.legacyAnswers query
  legacyMessage := fun other _ member => host.legacyMessage other member
  multicast := by
    rintro rfl
    exact host.multicastAnswers_eq query
  multicastMessage := by
    rintro rfl sent member
    exact host.multicastMessage member
  withheld := fun _ single _ answers => host.withheld single fromPort answers

omit host in
/-- Whatever is asked from whichever port, a stored zone is answered by the
rules for the port, with the same records withheld, and stays as it is. -/
theorem answerQueryIn_separatesLegacy
    (name : String)
    (ips : List IP)
    (ttl : UInt32)
    {memory : Memory RR}
    {refs : ZoneRefs}
    (stored : Stored memory refs (hostZone name ips ttl))
    (query : DnsMsg)
    (fromPort : UInt16) :
    SeparatesLegacy (hostZone name ips ttl) ttl query fromPort
        (answerQueryIn memory refs query fromPort).2 ∧
      Stored (answerQueryIn memory refs query fromPort).1 refs
        (hostZone name ips ttl) := by
  obtain ⟨grown, sent⟩ := answerQueryIn_spec stored query fromPort
  refine ⟨?_, stored.extend grown⟩
  rw [sent]
  exact (hostZone_host name ips ttl).separatesLegacy query fromPort

/-- The zone with one address in two cells. -/
def oneAddressMemory : Memory RR where
  value
    | 0 =>
        .a (hostHeader "host.local." typeA 120) [10, 0, 0, 1]
    | _ =>
        .nsec (hostHeader "host.local." typeNSEC 120) "host.local." [typeA]
  next := 2

omit host in
/-- One address asked for in both families from port 40000. -/
theorem answerQueryIn_separatesLegacy_oneAddress :
    SeparatesLegacy (hostZone "host.local." [[10, 0, 0, 1]] 120) 120
        (hostQuery [typeA, typeAAAA]) 40000
        (answerQueryIn oneAddressMemory { records := [0], nsec := some 1 }
          (hostQuery [typeA, typeAAAA]) 40000).2 ∧
      Stored
        (answerQueryIn oneAddressMemory { records := [0], nsec := some 1 }
          (hostQuery [typeA, typeAAAA]) 40000).1
        { records := [0], nsec := some 1 }
        (hostZone "host.local." [[10, 0, 0, 1]] 120) :=
  answerQueryIn_separatesLegacy "host.local." [[10, 0, 0, 1]] 120
    ⟨by decide +kernel, by decide +kernel, by decide⟩ _ _

end Rules

end DnsServices.MdnsPublisher
