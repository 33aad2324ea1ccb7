import DnsServices.Cells
import DnsServices.MdnsAnswers

namespace DnsServices.MdnsPublisher

open Cells

/-!
# Answers in memory

The zone, the answers and the messages hold pointers to records.  `Records`
copies each record before it strips the class, and `answerQuery` caps the TTL
of the copies in place.  Run on memory, the code sends what `answerQuery` says
and leaves the zone as it was.
-/

section Code

/-- A zone as it is stored. -/
structure ZoneRefs where
  records : List Ref
  nsec : Option Ref
  deriving Repr, DecidableEq

/-- `dns.Copy`, and for legacy queries the class of the copy. -/
def copyRecord
    (legacy : Bool)
    (memory : Memory RR)
    (ref : Ref) : Memory RR × Ref :=
  let (memory, rCopy) := memory.alloc (memory.value ref)
  if legacy then
    (memory.modify rCopy (RR.withClass classINET), rCopy)
  else
    (memory, rCopy)

/-- One turn of the loop of `Records`. -/
def recordsStep
    (q : Question)
    (legacy : Bool)
    (found : Memory RR × List Ref)
    (ref : Ref) : Memory RR × List Ref :=
  let (memory, out) := found
  let h := (memory.value ref).header
  if !equalFold h.name q.name then
    (memory, out)
  else if q.qtype ≠ typeANY ∧ h.rrtype ≠ q.qtype then
    (memory, out)
  else
    let (memory, rCopy) := copyRecord legacy memory ref
    (memory, out ++ [rCopy])

/-- `Records`. -/
def recordsIn
    (memory : Memory RR)
    (zone : ZoneRefs)
    (q : Question)
    (legacy : Bool) : Memory RR × List Ref :=
  let qclass := q.qclass &&& ~~~quBit
  if qclass ≠ classINET ∧ qclass ≠ classANY then
    (memory, [])
  else
    let (memory, out) :=
      zone.records.foldl (recordsStep q legacy) (memory, [])
    match zone.nsec with
    | none =>
        (memory, out)
    | some nsec =>
        if out.length = 0 ∧ q.qtype ≠ typeANY ∧
            equalFold (memory.value nsec).header.name q.name ∧
            qclass = classINET then
          let (memory, rCopy) := copyRecord legacy memory nsec
          (memory, out ++ [rCopy])
        else
          (memory, out)

/-- `filterKnownAnswers`. -/
def filterKnownIn
    (memory : Memory RR)
    (records : List Ref)
    (known : List RR) : List Ref :=
  if known.length = 0 ∨ records.length = 0 then
    records
  else
    records.filter fun ref =>
      !HostnameZone.isKnownAnswer (memory.value ref) known

/-- Cap the TTL of a record in place. -/
def capTtlIn (memory : Memory RR) (ref : Ref) : Memory RR :=
  if (memory.value ref).header.ttl > legacyUnicastMaxTTL then
    memory.modify ref (RR.withTtl legacyUnicastMaxTTL)
  else
    memory

/-- The answers to one question; without any, the loop of `answerQuery` goes
on to the next question. -/
def answersIn
    (memory : Memory RR)
    (zone : ZoneRefs)
    (legacy : Bool)
    (known : List RR)
    (q : Question) : Memory RR × List Ref :=
  let (memory, records) := recordsIn memory zone q legacy
  if records.length = 0 then
    (memory, [])
  else
    let records := filterKnownIn memory records known
    if records.length = 0 then
      (memory, [])
    else if legacy then
      (records.foldl capTtlIn memory, records)
    else
      (memory, records)

/-- The answer sections while the questions are gone through. -/
structure Sections where
  memory : Memory RR
  unicastAnswer : List Ref
  multicastAnswer : List Ref

/-- One turn of the loop of `answerQuery`. -/
def answerQuestion
    (zone : ZoneRefs)
    (known : List RR)
    (fromPort : UInt16)
    (sections : Sections)
    (q : Question) : Sections :=
  let legacy := fromPort != mdnsPort
  let (memory, records) := answersIn sections.memory zone legacy known q
  if legacy || q.qclass &&& quBit != 0 then
    { sections with
      memory := memory
      unicastAnswer := sections.unicastAnswer ++ records }
  else
    { sections with
      memory := memory
      multicastAnswer := sections.multicastAnswer ++ records }

/-- `answerQuery` on memory: the memory it leaves, and the messages, which are
packed at the end. -/
def answerQueryIn
    (memory : Memory RR)
    (zone : ZoneRefs)
    (msg : DnsMsg)
    (fromPort : UInt16) : Memory RR × List Sent :=
  let sections :=
    msg.question.foldl (answerQuestion zone msg.answer fromPort)
      { memory := memory, unicastAnswer := [], multicastAnswer := [] }
  let unicastAnswer := sections.unicastAnswer.map sections.memory.value
  let multicastAnswer := sections.multicastAnswer.map sections.memory.value
  (sections.memory,
    (if multicastAnswer.length > 0 then
      [.multicast (responseMsg multicastAnswer)]
    else
      []) ++
    if unicastAnswer.length > 0 then
      [.unicast (unicastResponse msg fromPort unicastAnswer)]
    else
      [])

end Code

section Refinement

/-- The zone that references denote. -/
structure Stored
    (memory : Memory RR)
    (refs : ZoneRefs)
    (zone : HostnameZone) : Prop where
  records : refs.records.map memory.value = zone.records
  nsec : refs.nsec.map memory.value = zone.nsec
  allocated : ∀ ref ∈ refs.records ++ refs.nsec.toList, ref < memory.next

variable
  {memory memory' : Memory RR}
  {refs : ZoneRefs}
  {zone : HostnameZone}

/-- An extended memory still holds the zone. -/
theorem Stored.extend
    (stored : Stored memory refs zone)
    (grown : Memory.Extends memory memory') :
    Stored memory' refs zone := by
  have inRecords : ∀ ref ∈ refs.records, ref < memory.next := fun ref member =>
    stored.allocated ref (List.mem_append_left _ member)
  refine ⟨?_, ?_, ?_⟩
  · rw [grown.map_value inRecords, stored.records]
  · rw [← stored.nsec]
    refine Option.map_congr ?_
    intro ref nsec
    refine grown.same ref (stored.allocated ref (List.mem_append_right _ ?_))
    exact Option.mem_toList.mpr nsec
  · intro ref member
    exact Nat.lt_of_lt_of_le (stored.allocated ref member) grown.next_le

/-- Fresh references that denote some records. -/
structure Fresh
    (first memory : Memory RR)
    (out : List Ref)
    (records : List RR) : Prop where
  grown : Memory.Extends first memory
  fresh : ∀ ref ∈ out, first.next ≤ ref ∧ ref < memory.next
  denotes : out.map memory.value = records

/-- Copying a record adds one cell with the copy and changes no other. -/
theorem copyRecord_spec
    (legacy : Bool)
    (memory : Memory RR)
    (ref : Ref) :
    Memory.Extends memory (copyRecord legacy memory ref).1 ∧
      (copyRecord legacy memory ref).2 = memory.next ∧
      (copyRecord legacy memory ref).1.next = memory.next + 1 ∧
      (copyRecord legacy memory ref).1.value memory.next =
        answerCopy legacy (memory.value ref) := by
  have copied := Memory.extends_alloc memory (memory.value ref)
  have stored := Memory.value_alloc memory (memory.value ref)
  cases legacy with
  | true =>
      refine ⟨copied.modify (Nat.le_refl _) _, rfl, rfl, ?_⟩
      exact (Memory.value_modify _ _).trans
        (congrArg (RR.withClass classINET) stored)
  | false =>
      exact ⟨copied, rfl, rfl, stored⟩

variable
  {first : Memory RR}
  {out : List Ref}
  {records : List RR}

/-- One more copy. -/
theorem Fresh.copyRecord
    (fresh : Fresh first memory out records)
    (legacy : Bool)
    (ref : Ref) :
    Fresh first (copyRecord legacy memory ref).1
      (out ++ [(copyRecord legacy memory ref).2])
      (records ++ [answerCopy legacy (memory.value ref)]) := by
  obtain ⟨grown, isNext, next, value⟩ := copyRecord_spec legacy memory ref
  refine ⟨fresh.grown.trans grown, ?_, ?_⟩
  · rw [isNext, next, List.forall_mem_append, List.forall_mem_singleton]
    refine ⟨?_, fresh.grown.next_le, Nat.lt_succ_self _⟩
    intro old member
    obtain ⟨atLeast, below⟩ := fresh.fresh old member
    exact ⟨atLeast, Nat.lt_succ_of_lt below⟩
  · have kept : out.map (MdnsPublisher.copyRecord legacy memory ref).1.value =
        out.map memory.value :=
      grown.map_value fun old member => (fresh.fresh old member).2
    rw [List.map_append, kept, fresh.denotes, List.map_singleton, isNext,
      value]

/-- A record that `Records` selects. -/
def selects (q : Question) (r : RR) : Bool :=
  equalFold r.header.name q.name &&
    (q.qtype == typeANY || r.header.rrtype == q.qtype)

/-- One step of the record loop copies a selected record and skips any other. -/
theorem recordsStep_eq
    (q : Question)
    (legacy : Bool)
    (memory : Memory RR)
    (out : List Ref)
    (ref : Ref) :
    recordsStep q legacy (memory, out) ref =
      if selects q (memory.value ref) then
        ((copyRecord legacy memory ref).1,
          out ++ [(copyRecord legacy memory ref).2])
      else
        (memory, out) := by
  unfold recordsStep selects
  dsimp only
  cases equalFold (memory.value ref).header.name q.name with
  | false =>
      simp
  | true =>
      by_cases any : q.qtype = typeANY
      · simp [any]
      · by_cases typed : (memory.value ref).header.rrtype = q.qtype
        · simp [any, typed]
        · simp [any, typed]

/-- The loop of `Records` appends copies of the records it selects. -/
theorem Fresh.foldl_recordsStep
    (fresh : Fresh first memory out records)
    (q : Question)
    (legacy : Bool)
    (stored : List Ref)
    (allocated : ∀ ref ∈ stored, ref < first.next) :
    Fresh first (stored.foldl (recordsStep q legacy) (memory, out)).1
      (stored.foldl (recordsStep q legacy) (memory, out)).2
      (records ++
        ((stored.map first.value).filter (selects q)).map
          (answerCopy legacy)) := by
  induction stored generalizing memory out records with
  | nil =>
      simpa using fresh
  | cons ref rest inductionHypothesis =>
      rw [List.forall_mem_cons] at allocated
      have value : memory.value ref = first.value ref :=
        fresh.grown.same ref allocated.1
      rw [List.foldl_cons, List.map_cons, List.filter_cons, recordsStep_eq,
        value]
      cases selects q (first.value ref) with
      | true =>
          have copied := fresh.copyRecord legacy ref
          rw [value] at copied
          simpa using inductionHypothesis copied allocated.2
      | false =>
          simpa using inductionHypothesis fresh allocated.2

theorem Fresh.nil (memory : Memory RR) : Fresh memory memory [] [] :=
  ⟨Memory.Extends.refl memory, by simp, rfl⟩

/-- `Records` on memory returns fresh copies of what it returns. -/
theorem fresh_recordsIn
    (stored : Stored memory refs zone)
    (q : Question)
    (legacy : Bool) :
    Fresh memory (recordsIn memory refs q legacy).1
      (recordsIn memory refs q legacy).2 (zone.zoneRecords q legacy) := by
  have found :=
    (Fresh.nil memory).foldl_recordsStep q legacy refs.records
      (fun ref member => stored.allocated ref (List.mem_append_left _ member))
  rw [stored.records, List.nil_append] at found
  have selected :
      (fun r : RR =>
        equalFold r.header.name q.name &&
          (q.qtype == typeANY || r.header.rrtype == q.qtype)) =
        selects q :=
    rfl
  unfold recordsIn HostnameZone.zoneRecords
  dsimp only
  rw [selected]
  split
  next =>
    exact Fresh.nil memory
  next =>
    cases nsecRef : refs.nsec with
    | none =>
        have none : zone.nsec = none := by
          rw [← stored.nsec, nsecRef]
          rfl
        rw [none]
        exact found
    | some nsec =>
        have some : zone.nsec = some (memory.value nsec) := by
          rw [← stored.nsec, nsecRef]
          rfl
        have allocated : nsec < memory.next :=
          stored.allocated nsec (by simp [nsecRef])
        have value := found.grown.same nsec allocated
        have asMany :
            (refs.records.foldl (recordsStep q legacy) (memory, [])).2.length =
              (zone.records.filter (selects q)).length := by
          have lengths := congrArg List.length found.denotes
          simpa using lengths
        rw [some]
        dsimp only
        rw [asMany, value]
        split
        next denied =>
          have none : zone.records.filter (selects q) = [] :=
            List.length_eq_zero_iff.mp denied.1
          have copied := found.copyRecord legacy nsec
          rw [value, none] at copied
          exact copied
        next =>
          exact found

/-- Suppression keeps some of the fresh copies. -/
theorem Fresh.filterKnownIn
    (fresh : Fresh first memory out records)
    (known : List RR) :
    Fresh first memory (filterKnownIn memory out known)
      (HostnameZone.filterKnownAnswers records known) := by
  have lengths : out.length = records.length := by
    rw [← fresh.denotes, List.length_map]
  unfold MdnsPublisher.filterKnownIn HostnameZone.filterKnownAnswers
  rw [lengths]
  split
  next =>
    exact fresh
  next =>
    refine ⟨fresh.grown, ?_, ?_⟩
    · intro ref member
      exact fresh.fresh ref (List.mem_filter.mp member).1
    · rw [← fresh.denotes, List.filter_map]
      rfl

theorem capTtl_idempotent (r : RR) : capTtl (capTtl r) = capTtl r := by
  unfold capTtl
  split
  next =>
    have capped : (r.withTtl legacyUnicastMaxTTL).header.ttl =
        legacyUnicastMaxTTL := by
      cases r <;> rfl
    rw [capped, if_neg (by decide)]
  next =>
    rfl

/-- Capping in place changes a record as `capTtl` does. -/
theorem capTtlIn_eq (memory : Memory RR) (ref : Ref) :
    capTtlIn memory ref = memory.modify ref capTtl := by
  unfold capTtlIn Memory.modify capTtl
  split
  next =>
    rfl
  next =>
    rw [Function.update_eq_self]

/-- The records of a legacy answer, capped in place. -/
theorem Fresh.capAll (fresh : Fresh first memory out records) :
    Fresh first (out.foldl capTtlIn memory) out (records.map capTtl) := by
  have all : out.foldl capTtlIn memory = memory.modifyAll out capTtl := by
    rw [Memory.modifyAll]
    exact List.foldl_ext _ _ _ fun memory ref _ => capTtlIn_eq memory ref
  rw [all]
  refine ⟨?_, ?_, ?_⟩
  · exact fresh.grown.modifyAll (fun ref member => (fresh.fresh ref member).1)
      capTtl
  · rw [Memory.next_modifyAll]
    exact fresh.fresh
  · rw [Memory.map_value_modifyAll capTtl_idempotent, fresh.denotes]

/-- One question is answered with fresh copies of its answers. -/
theorem fresh_answersIn
    (stored : Stored memory refs zone)
    (legacy : Bool)
    (known : List RR)
    (q : Question) :
    Fresh memory (answersIn memory refs legacy known q).1
      (answersIn memory refs legacy known q).2
      (answersTo zone legacy known q) := by
  have found := fresh_recordsIn stored q legacy
  have kept := found.filterKnownIn known
  unfold answersIn answersTo
  dsimp only
  split
  next none =>
    have empty : zone.zoneRecords q legacy = [] := by
      rw [← found.denotes, List.length_eq_zero_iff.mp none, List.map_nil]
    rw [empty]
    refine ⟨found.grown, by simp, ?_⟩
    cases legacy with
    | true =>
        simp [HostnameZone.filterKnownAnswers]
    | false =>
        simp [HostnameZone.filterKnownAnswers]
  next =>
    split
    next none =>
      have empty :
          HostnameZone.filterKnownAnswers (zone.zoneRecords q legacy) known =
            [] := by
        rw [← kept.denotes, List.length_eq_zero_iff.mp none, List.map_nil]
      rw [empty]
      refine ⟨kept.grown, by simp, ?_⟩
      cases legacy with
      | true =>
          rfl
      | false =>
          rfl
    next =>
      cases legacy with
      | true =>
          exact kept.capAll
      | false =>
          exact kept

/-- The sections denote the answers so far, and the memory they started from
is untouched. -/
structure Holds
    (first : Memory RR)
    (sections : Sections)
    (unicast multicast : List RR) : Prop where
  grown : Memory.Extends first sections.memory
  allocated :
    ∀ ref ∈ sections.unicastAnswer ++ sections.multicastAnswer,
      ref < sections.memory.next
  unicast : sections.unicastAnswer.map sections.memory.value = unicast
  multicast : sections.multicastAnswer.map sections.memory.value = multicast

/-- Answering a question selects, suppresses and splits its answers by section.
-/
theorem answerQuestion_eq
    (refs : ZoneRefs)
    (known : List RR)
    (fromPort : UInt16)
    (sections : Sections)
    (q : Question) :
    answerQuestion refs known fromPort sections q =
      let answers :=
        answersIn sections.memory refs (isLegacy fromPort) known q
      { memory := answers.1
        unicastAnswer :=
          sections.unicastAnswer ++
            if q.byUnicast fromPort then answers.2 else []
        multicastAnswer :=
          sections.multicastAnswer ++
            if q.byUnicast fromPort then [] else answers.2 } := by
  unfold answerQuestion
  dsimp only
  cases toSource : q.byUnicast fromPort with
  | true =>
      rw [Question.byUnicast, isLegacy] at toSource
      simp [toSource, isLegacy]
  | false =>
      rw [Question.byUnicast, isLegacy] at toSource
      simp [toSource, isLegacy]

/-- What is in the sections is untouched by a further question. -/
theorem Holds.answerQuestion
    {sections : Sections}
    {unicast multicast : List RR}
    (holds : Holds first sections unicast multicast)
    (stored : Stored first refs zone)
    (known : List RR)
    (fromPort : UInt16)
    (q : Question) :
    Holds first (answerQuestion refs known fromPort sections q)
      (unicast ++
        if q.byUnicast fromPort then
          answersTo zone (isLegacy fromPort) known q
        else
          [])
      (multicast ++
        if q.byUnicast fromPort then
          []
        else
          answersTo zone (isLegacy fromPort) known q) := by
  have answered :=
    fresh_answersIn (stored.extend holds.grown) (isLegacy fromPort) known q
  have below : ∀ ref ∈ sections.unicastAnswer ++ sections.multicastAnswer,
      ref <
        (answersIn sections.memory refs (isLegacy fromPort) known q).1.next :=
    fun ref member =>
      Nat.lt_of_lt_of_le (holds.allocated ref member) answered.grown.next_le
  have oldUnicast :=
    answered.grown.map_value fun ref member =>
      holds.allocated ref (List.mem_append_left _ member)
  have oldMulticast :=
    answered.grown.map_value fun ref member =>
      holds.allocated ref (List.mem_append_right _ member)
  rw [holds.unicast] at oldUnicast
  rw [holds.multicast] at oldMulticast
  rw [List.forall_mem_append] at below
  have new := fun ref member => (answered.fresh ref member).2
  rw [answerQuestion_eq]
  cases q.byUnicast fromPort with
  | true =>
      refine ⟨holds.grown.trans answered.grown, ?_, ?_, ?_⟩
      · simp only [if_true, List.append_nil, List.forall_mem_append]
        exact ⟨⟨below.1, new⟩, below.2⟩
      · simp only [if_true, List.map_append, oldUnicast, answered.denotes]
      · simp only [if_true, List.append_nil, oldMulticast]
  | false =>
      refine ⟨holds.grown.trans answered.grown, ?_, ?_, ?_⟩
      · simp only [Bool.false_eq_true, if_false, List.append_nil,
          List.forall_mem_append]
        exact ⟨below.1, below.2, new⟩
      · simp only [Bool.false_eq_true, if_false, List.append_nil, oldUnicast]
      · simp only [Bool.false_eq_true, if_false, List.map_append,
          oldMulticast, answered.denotes]

/-- All questions, one after the other. -/
theorem Holds.foldl_answerQuestion
    {sections : Sections}
    {unicast multicast : List RR}
    (holds : Holds first sections unicast multicast)
    (stored : Stored first refs zone)
    (known : List RR)
    (fromPort : UInt16)
    (questions : List Question) :
    Holds first
      (questions.foldl (MdnsPublisher.answerQuestion refs known fromPort)
        sections)
      (unicast ++
        (questions.filter (·.byUnicast fromPort)).flatMap
          (answersTo zone (isLegacy fromPort) known))
      (multicast ++
        (questions.filter (!·.byUnicast fromPort)).flatMap
          (answersTo zone (isLegacy fromPort) known)) := by
  induction questions generalizing sections unicast multicast with
  | nil =>
      simpa using holds
  | cons q rest inductionHypothesis =>
      have later :=
        inductionHypothesis (holds.answerQuestion stored known fromPort q)
      rw [List.foldl_cons]
      cases toSource : q.byUnicast fromPort with
      | true =>
          simpa [toSource] using later
      | false =>
          simpa [toSource] using later

/-- Run on memory, `answerQuery` sends what it says and extends the memory. -/
theorem answerQueryIn_spec
    (stored : Stored memory refs zone)
    (query : DnsMsg)
    (fromPort : UInt16) :
    Memory.Extends memory (answerQueryIn memory refs query fromPort).1 ∧
      (answerQueryIn memory refs query fromPort).2 =
        answerQuery zone query fromPort := by
  have start :
      Holds memory
        { memory := memory, unicastAnswer := [], multicastAnswer := [] }
        [] [] :=
    ⟨Memory.Extends.refl memory, by simp, rfl, rfl⟩
  have all :=
    start.foldl_answerQuestion stored query.answer fromPort query.question
  rw [← answersToAll_eq, ← answersToAll_eq, List.nil_append,
    List.nil_append] at all
  refine ⟨all.grown, ?_⟩
  rw [answerQuery_eq, answerQueryIn]
  dsimp only
  rw [all.unicast, all.multicast]

end Refinement

end DnsServices.MdnsPublisher
