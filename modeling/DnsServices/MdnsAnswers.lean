import Mathlib.Data.List.Pairwise
import DnsServices.MdnsKnown
import DnsServices.MdnsNegative

namespace DnsServices.MdnsPublisher

/-!
# Answer sections

An answer section is put together question by question: each adds copies of
the zone records that answer it and are not withheld.  Nothing looks at what an
earlier question added, so questions that share a record repeat it.
-/

section Copies

/-- The copy of a zone record that is sent. -/
def sentCopy (legacy : Bool) (r : RR) : RR :=
  if legacy then capTtl (r.withClass classINET) else r

/-- The zone records that answer a question and are not withheld. -/
def keptFor
    (zone : HostnameZone)
    (legacy : Bool)
    (known : List RR)
    (q : Question) : List RR :=
  (zone.answering q).filter fun r =>
    !HostnameZone.isKnownAnswer (answerCopy legacy r) known

/-- Each question is answered with copies of zone records. -/
theorem answersTo_eq
    (zone : HostnameZone)
    (legacy : Bool)
    (known : List RR)
    (q : Question) :
    answersTo zone legacy known q =
      (keptFor zone legacy known q).map (sentCopy legacy) := by
  unfold answersTo keptFor
  rw [HostnameZone.zoneRecords_eq, filterKnownAnswers_eq, List.filter_map]
  cases legacy with
  | true =>
      simp [sentCopy, answerCopy, Function.comp_def]
  | false =>
      simp [sentCopy, answerCopy, Function.comp_def]

end Copies

section Sections

/-- Whether a query came from a resolver that knows no multicast. -/
def isLegacy (fromPort : UInt16) : Bool :=
  fromPort != mdnsPort

/-- A question that is answered to its source. -/
def Question.byUnicast (q : Question) (fromPort : UInt16) : Bool :=
  isLegacy fromPort || q.qclass &&& quBit != 0

/-- The answers to some questions of a query, in order. -/
def answersToAll
    (zone : HostnameZone)
    (query : DnsMsg)
    (fromPort : UInt16)
    (questions : List Question) : List RR :=
  questions.flatMap fun q =>
    (keptFor zone (isLegacy fromPort) query.answer q).map
      (sentCopy (isLegacy fromPort))

/-- Answering many questions answers them one after another. -/
theorem answersToAll_eq
    (zone : HostnameZone)
    (query : DnsMsg)
    (fromPort : UInt16)
    (questions : List Question) :
    answersToAll zone query fromPort questions =
      questions.flatMap
        (answersTo zone (isLegacy fromPort) query.answer) := by
  unfold answersToAll
  rw [List.flatMap_congr fun q _ => (answersTo_eq zone _ query.answer q).symm]

/-- The response that goes to the source of a query. -/
def unicastResponse
    (query : DnsMsg)
    (fromPort : UInt16)
    (answer : List RR) : DnsMsg :=
  if isLegacy fromPort then
    { responseMsg answer with
      hdr.id := query.hdr.id
      question := query.question }
  else
    responseMsg answer

/-- The message of a response. -/
def Sent.msg : Sent → DnsMsg
  | .multicast msg =>
      msg
  | .unicast msg =>
      msg

/-- The questions that a message answers. -/
def Sent.questions (query : DnsMsg) (fromPort : UInt16) :
    Sent → List Question
  | .multicast _ =>
      query.question.filter (!·.byUnicast fromPort)
  | .unicast _ =>
      query.question.filter (·.byUnicast fromPort)

variable
  {zone : HostnameZone}
  {query : DnsMsg}
  {fromPort : UInt16}
  {sent : Sent}

/-- The messages that are sent for a query: none without answers. -/
theorem answerQuery_eq
    (zone : HostnameZone)
    (query : DnsMsg)
    (fromPort : UInt16) :
    answerQuery zone query fromPort =
      let multicast :=
        answersToAll zone query fromPort
          (query.question.filter (!·.byUnicast fromPort))
      let unicast :=
        answersToAll zone query fromPort
          (query.question.filter (·.byUnicast fromPort))
      (if multicast.length > 0 then
        [.multicast (responseMsg multicast)]
      else
        []) ++
      if unicast.length > 0 then
        [.unicast (unicastResponse query fromPort unicast)]
      else
        [] := by
  unfold unicastResponse
  rw [answersToAll_eq, answersToAll_eq]
  cases legacy : isLegacy fromPort with
  | true =>
      have port : (fromPort != mdnsPort) = true := legacy
      simp only [answerQuery, Question.byUnicast, legacy, port, if_true]
  | false =>
      have port : (fromPort != mdnsPort) = false := legacy
      simp only [answerQuery, Question.byUnicast, legacy, port,
        Bool.false_eq_true, if_false]

@[simp] theorem answer_unicastResponse (answer : List RR) :
    (unicastResponse query fromPort answer).answer = answer := by
  unfold unicastResponse
  split
  · rfl
  · rfl

/-- A message goes to the group or to the source, with some answers. -/
theorem mem_answerQuery
    (member : sent ∈ answerQuery zone query fromPort) :
    sent.msg.answer ≠ [] ∧
      (sent =
          .multicast
            (responseMsg
              (answersToAll zone query fromPort
                (query.question.filter (!·.byUnicast fromPort)))) ∨
        sent =
          .unicast
            (unicastResponse query fromPort
              (answersToAll zone query fromPort
                (query.question.filter (·.byUnicast fromPort))))) := by
  rw [answerQuery_eq] at member
  rcases List.mem_append.mp member with multicast | unicast
  · split at multicast
    next some =>
      rw [List.mem_singleton.mp multicast]
      exact ⟨List.ne_nil_of_length_pos some, .inl rfl⟩
    next =>
      cases multicast
  · split at unicast
    next some =>
      rw [List.mem_singleton.mp unicast]
      refine ⟨?_, .inr rfl⟩
      rw [Sent.msg, answer_unicastResponse]
      exact List.ne_nil_of_length_pos some
    next =>
      cases unicast

/-- A message holds the answers to its questions. -/
theorem answer_of_mem_answerQuery
    (member : sent ∈ answerQuery zone query fromPort) :
    sent.msg.answer =
      answersToAll zone query fromPort (sent.questions query fromPort) := by
  rcases (mem_answerQuery member).2 with multicast | unicast
  · rw [multicast]
    rfl
  · rw [unicast]
    exact answer_unicastResponse _

end Sections

section Entries

theorem sameRdata_self (r : RR) : SameRdata r r := by
  cases r with
  | a _ ip =>
      exact .inl rfl
  | aaaa _ ip =>
      exact .inl rfl
  | nsec _ nextDomain types =>
      exact ⟨equalFold_self nextDomain, List.Subset.refl _,
        List.Subset.refl _⟩
  | other _ rdata =>
      exact rfl

theorem SameAddress.symm
    {first second : IP}
    (same : SameAddress first second) :
    SameAddress second first := by
  rcases same with same | ⟨same, some⟩
  · exact .inl same.symm
  · exact .inr ⟨same.symm, same ▸ some⟩

theorem equalFold_symm
    {first second : String}
    (same : equalFold first second = true) :
    equalFold second first = true := by
  rw [equalFold, beq_iff_eq] at same ⊢
  exact same.symm

theorem SameRdata.symm
    {first second : RR}
    (same : SameRdata first second) :
    SameRdata second first := by
  cases first with
  | a _ x =>
      cases second with
      | a _ y =>
          exact SameAddress.symm same
      | _ =>
          exact same.elim
  | aaaa _ x =>
      cases second with
      | aaaa _ y =>
          exact SameAddress.symm same
      | _ =>
          exact same.elim
  | nsec _ nextDomain types =>
      cases second with
      | nsec _ nextDomain' types' =>
          obtain ⟨domains, subset, superset⟩ := same
          exact ⟨equalFold_symm domains, superset, subset⟩
      | _ =>
          exact same.elim
  | other _ rdata =>
      cases second with
      | other _ rdata' =>
          exact Eq.symm same
      | _ =>
          exact same.elim

/-- The same name, type and data. -/
def SameEntry (first second : RR) : Prop :=
  equalFold first.header.name second.header.name = true ∧
    first.header.rrtype = second.header.rrtype ∧
    SameRdata first second

/-- The same name, type, class and data. -/
def SameRecord (first second : RR) : Prop :=
  SameEntry first second ∧ first.header.rrclass = second.header.rrclass

theorem sameRecord_self (r : RR) : SameRecord r r :=
  ⟨⟨equalFold_self r.header.name, rfl, sameRdata_self r⟩, rfl⟩

theorem SameEntry.symm
    {first second : RR}
    (same : SameEntry first second) :
    SameEntry second first :=
  ⟨equalFold_symm same.1, same.2.1.symm, same.2.2.symm⟩

/-- A change of the class or the TTL leaves the entry. -/
theorem sameEntry_withClass (rrclass : UInt16) (first second : RR) :
    SameEntry (first.withClass rrclass) (second.withClass rrclass) ↔
      SameEntry first second := by
  cases first <;> cases second <;> rfl

/-- Capping the TTL does not change which records are one entry. -/
theorem sameEntry_capTtl (first second : RR) :
    SameEntry (capTtl first) (capTtl second) ↔
      SameEntry first second := by
  have capped : ∀ r, ∃ ttl, capTtl r = r.withTtl ttl := by
    intro r
    unfold capTtl
    split
    · exact ⟨_, rfl⟩
    · exact ⟨r.header.ttl, by cases r <;> rfl⟩
  obtain ⟨ttl, first'⟩ := capped first
  obtain ⟨ttl', second'⟩ := capped second
  rw [first', second']
  cases first <;> cases second <;> rfl

/-- Copying for sending does not change which records are one entry. -/
theorem sameEntry_sentCopy (legacy : Bool) (first second : RR) :
    SameEntry (sentCopy legacy first) (sentCopy legacy second) ↔
      SameEntry first second := by
  cases legacy with
  | true =>
      exact (sameEntry_capTtl _ _).trans (sameEntry_withClass _ _ _)
  | false =>
      exact Iff.rfl

end Entries

section Repeats

/-- No two records of the zone, the NSEC record included, are one entry. -/
def HostnameZone.Distinct (zone : HostnameZone) : Prop :=
  (zone.records ++ zone.nsec.toList).Pairwise fun first second =>
    ¬ SameEntry first second

/-- No record stands in a list twice. -/
def NoRepeats (records : List RR) : Prop :=
  records.Pairwise fun first second => ¬ SameRecord first second

/-- A question is answered from the zone, in its order. -/
theorem HostnameZone.answering_sublist
    (zone : HostnameZone)
    (q : Question) :
    (zone.answering q).Sublist (zone.records ++ zone.nsec.toList) := by
  unfold answering
  split
  · refine List.Sublist.trans ?_ (List.sublist_append_right _ _)
    cases zone.nsec with
    | none =>
        exact List.Sublist.refl _
    | some nsec =>
        rw [Option.filter_some]
        split
        · exact List.Sublist.refl _
        · exact List.nil_sublist _
  · exact List.filter_sublist.trans (List.sublist_append_left _ _)

variable
  {zone : HostnameZone}
  {query : DnsMsg}
  {fromPort : UInt16}

/-- What known-answer suppression keeps comes from the zone, in its order. -/
theorem keptFor_sublist
    (zone : HostnameZone)
    (legacy : Bool)
    (known : List RR)
    (q : Question) :
    (keptFor zone legacy known q).Sublist
      (zone.records ++ zone.nsec.toList) :=
  List.filter_sublist.trans (zone.answering_sublist q)

/-- One question is not answered with a record twice. -/
theorem noRepeats_keptFor
    (distinct : zone.Distinct)
    (legacy : Bool)
    (known : List RR)
    (q : Question) :
    NoRepeats ((keptFor zone legacy known q).map (sentCopy legacy)) := by
  have apart := distinct.sublist (keptFor_sublist zone legacy known q)
  rw [NoRepeats, List.pairwise_map]
  refine apart.imp ?_
  intro first second other same
  exact other ((sameEntry_sentCopy legacy first second).mp same.1)

/-- Copies of zone records are one record exactly if they are copies of one. -/
theorem sameRecord_sentCopy_iff
    (distinct : zone.Distinct)
    (legacy : Bool)
    {first second : RR}
    (firstMember : first ∈ zone.records ++ zone.nsec.toList)
    (secondMember : second ∈ zone.records ++ zone.nsec.toList) :
    SameRecord (sentCopy legacy first) (sentCopy legacy second) ↔
      first = second := by
  constructor
  · intro same
    by_contra other
    have : Std.Symm fun first second : RR => ¬ SameEntry first second :=
      ⟨fun _ _ other same => other same.symm⟩
    exact List.Pairwise.forall distinct firstMember secondMember other
      ((sameEntry_sentCopy legacy first second).mp same.1)
  · rintro rfl
    exact sameRecord_self _

/-- A section repeats a record exactly if two of its questions are answered
with one zone record. -/
theorem noRepeats_answersToAll_iff
    (distinct : zone.Distinct)
    (questions : List Question) :
    NoRepeats (answersToAll zone query fromPort questions) ↔
      questions.Pairwise fun q q' =>
        ∀ r ∈ keptFor zone (isLegacy fromPort) query.answer q,
          r ∉ keptFor zone (isLegacy fromPort) query.answer q' := by
  have within : ∀ q ∈ questions,
      ((keptFor zone (isLegacy fromPort) query.answer q).map
        (sentCopy (isLegacy fromPort))).Pairwise
          fun first second => ¬ SameRecord first second :=
    fun q _ => noRepeats_keptFor distinct _ query.answer q
  rw [NoRepeats, answersToAll, List.pairwise_flatMap, and_iff_right within]
  refine List.Pairwise.iff ?_
  intro q q'
  have inZone : ∀ q,
      ∀ r ∈ keptFor zone (isLegacy fromPort) query.answer q,
        r ∈ zone.records ++ zone.nsec.toList :=
    fun q _ member => (keptFor_sublist zone _ _ q).subset member
  simp only [List.forall_mem_map]
  constructor
  · intro other r first second
    refine other r first r second ?_
    exact sameRecord_self _
  · intro other r first r' second same
    rw [sameRecord_sentCopy_iff distinct _ (inZone q r first)
      (inZone q' r' second)] at same
    rw [← same] at second
    exact other r first second

/-- A message repeats a record exactly if two of the questions that it answers
are answered with one zone record that is not withheld. -/
theorem noRepeats_answerQuery_iff
    (distinct : zone.Distinct)
    {sent : Sent}
    (member : sent ∈ answerQuery zone query fromPort) :
    NoRepeats sent.msg.answer ↔
      (sent.questions query fromPort).Pairwise fun q q' =>
        ∀ r ∈ keptFor zone (isLegacy fromPort) query.answer q,
          r ∉ keptFor zone (isLegacy fromPort) query.answer q' := by
  rw [answer_of_mem_answerQuery member]
  exact noRepeats_answersToAll_iff distinct _

/-- A zone with one address. -/
def oneAddressZone : HostnameZone :=
  hostZone "host.local." [[10, 0, 0, 1]] 120

theorem distinct_oneAddressZone : oneAddressZone.Distinct := by
  have entries :
      oneAddressZone.records ++ oneAddressZone.nsec.toList =
        [.a (hostHeader "host.local." typeA 120) [10, 0, 0, 1],
          .nsec (hostHeader "host.local." typeNSEC 120) "host.local."
            [typeA]] := by
    decide +kernel
  rw [HostnameZone.Distinct, entries, List.pairwise_pair]
  exact fun same => same.2.2

/-- A query for `host.local.` with questions of the given types. -/
def hostQuery (qtypes : List UInt16) : DnsMsg where
  question := qtypes.map fun qtype =>
    { name := "host.local.", qtype := qtype, qclass := classINET }
  ns := []
  hdr := { responseHdr with response := false, authoritative := false }
  answer := []
  extra := []

/-- An address of each family. -/
def bothFamilies : List IP :=
  [[10, 0, 0, 1], [0x20, 1, 0xd, 0xb8, 0, 0, 0, 0, 0, 0, 0, 0, 0, 0, 0, 1]]

/-- A zone with an address of each family. -/
def bothFamiliesZone : HostnameZone :=
  hostZone "host.local." bothFamilies 120

/-- A zone with one address of each family has no two equal records. -/
theorem distinct_bothFamiliesZone : bothFamiliesZone.Distinct := by
  have types :
      (bothFamiliesZone.records ++ bothFamiliesZone.nsec.toList).Pairwise
        fun first second => first.header.rrtype ≠ second.header.rrtype := by
    decide +kernel
  exact types.imp fun other same => other same.2.1

/-- The two questions for the addresses of a host are answered with one record
each, so nothing is repeated. -/
theorem noRepeats_twoQuestions :
    Sent.multicast
          (responseMsg (recordsForIPs "host.local." bothFamilies 120)) ∈
        answerQuery bothFamiliesZone (hostQuery [typeA, typeAAAA])
          mdnsPort ∧
      NoRepeats (recordsForIPs "host.local." bothFamilies 120) := by
  have member :
      Sent.multicast
          (responseMsg (recordsForIPs "host.local." bothFamilies 120)) ∈
        answerQuery bothFamiliesZone (hostQuery [typeA, typeAAAA])
          mdnsPort := by
    decide +kernel
  refine ⟨member,
    (noRepeats_answerQuery_iff distinct_bothFamiliesZone member).mpr ?_⟩
  have two :
      (Sent.multicast
          (responseMsg
            (recordsForIPs "host.local." bothFamilies 120))).questions
          (hostQuery [typeA, typeAAAA]) mdnsPort =
        (hostQuery [typeA, typeAAAA]).question := by
    decide +kernel
  rw [two]
  refine List.pairwise_pair.mpr ?_
  decide +kernel

/-- The record is sent once for the type of the address and once for all
types. -/
theorem repeats_overlappingQuestions :
    ∃ sent ∈ answerQuery oneAddressZone (hostQuery [typeA, typeANY]) mdnsPort,
      oneAddressZone.Distinct ∧ ¬ NoRepeats sent.msg.answer := by
  refine
    ⟨.multicast
        (responseMsg
          [.a (hostHeader "host.local." typeA 120) [10, 0, 0, 1],
            .a (hostHeader "host.local." typeA 120) [10, 0, 0, 1]]),
      by decide +kernel, distinct_oneAddressZone, ?_⟩
  intro once
  exact List.pairwise_pair.mp once (sameRecord_self _)

end Repeats

end DnsServices.MdnsPublisher
