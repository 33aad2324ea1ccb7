import DnsServices.MdnsListener

namespace DnsServices.MdnsPublisher

open RecordCache Runs

/-!
# What listeners go on to know

After its announcements a listener knows every address of a host for the time to
live, unless an answer names a part of the addresses of one family: the
cache-flush bit says that there are no others.  The goodbyes that precede the
announcements are also for addresses that are kept, and the second announcement
makes good for them.
-/

section Messages

/-- A message makes a record stay for a time to live. -/
def Announces (ttl : UInt32) (msg : DnsMsg) (key : CacheKey) : Prop :=
  (∃ r ∈ msg.answer, CacheKey.of r = key) ∧
    ∀ r ∈ msg.answer, CacheKey.of r = key → r.header.ttl = ttl

/-- A message does a record no harm. -/
def Safe (ttl : UInt32) (msg : DnsMsg) (key : CacheKey) : Prop :=
  Announces ttl msg key ∨ Apart msg key

/-- A message that has a record of a family has all of the family. -/
def Whole (zone : HostnameZone) (msg : DnsMsg) : Prop :=
  ∀ r ∈ msg.answer, ∀ other ∈ zone.records,
    cacheRules.setOf (CacheKey.of r) = cacheRules.setOf (CacheKey.of other) →
      ∃ sent ∈ msg.answer, CacheKey.of sent = CacheKey.of other

variable
  {name : String}
  {ttl : UInt32}
  {zone : HostnameZone}
  {msg : DnsMsg}
  {key : CacheKey}
  {now : Nat}

theorem toNat_ttl_ne_zero (positive : ttl ≠ 0) : ttl.toNat * 1000 ≠ 0 := by
  have some : ttl.toNat ≠ 0 := fun zero => positive (UInt32.toNat_inj.mp zero)
  omega

/-- A heard announcement lasts for its whole TTL. -/
theorem lasts_listen_announces
    (positive : ttl ≠ 0)
    (announces : Announces ttl msg key)
    (cache : Cache CacheKey) :
    Lasts (now + ttl.toNat * 1000) (listen now msg cache key) := by
  obtain ⟨⟨r, member, same⟩, constant⟩ := announces
  have heardTtl :
      ∀ heard ∈ msg.answer.map heardRecord, heard.key = key →
        heard.ttl = ttl.toNat * 1000 := by
    intro heard isHeard sameKey
    obtain ⟨other, isOther, rfl⟩ := List.mem_map.mp isHeard
    rw [heardRecord, constant other isOther sameKey]
  have kept :
      listen now msg cache key =
        some { received := now, expires := now + ttl.toNat * 1000 } :=
    hear_announced (toNat_ttl_ne_zero positive) heardTtl
      (List.mem_map_of_mem member) same cache
  exact ⟨_, kept, Nat.le_refl _⟩

/-- An announcement is no goodbye. -/
theorem not_isGoodbye_of_announces
    (positive : ttl ≠ 0)
    (announces : Announces ttl msg key) :
    msg.isGoodbye = false := by
  obtain ⟨⟨r, member, same⟩, constant⟩ := announces
  rw [← Bool.not_eq_true, isGoodbye_iff]
  intro all
  exact positive ((constant r member same).symm.trans (all r member))

/-- A response made of host records announces each of them. -/
theorem announces_responseMsg
    {records : List RR}
    (made : ∀ r ∈ records, HostRecord name ttl r)
    (member : key ∈ records.map CacheKey.of) :
    Announces ttl (responseMsg records) key := by
  obtain ⟨r, isRecord, rfl⟩ := List.mem_map.mp member
  refine ⟨⟨r, isRecord, rfl⟩, ?_⟩
  intro other isOther _
  cases made other isOther <;> rfl

/-- An answer with whole families flushes no published address. -/
theorem HostZone.safe_of_whole
    (host : HostZone name ttl zone)
    {query : DnsMsg}
    {sent : Sent}
    (isSent : sent ∈ answerQuery zone query mdnsPort)
    (whole : Whole zone sent.msg)
    (member : key ∈ zone.records.map CacheKey.of) :
    Safe ttl sent.msg key := by
  obtain ⟨original, inZone, rfl⟩ := List.mem_map.mp member
  by_cases apart : Apart sent.msg (CacheKey.of original)
  · exact .inr apart
  · left
    simp only [Apart, not_forall, not_not] at apart
    obtain ⟨r, answers, sameSet⟩ := apart
    refine ⟨whole r answers original inZone sameSet, ?_⟩
    intro other isOther _
    exact ((host.multicastMessage isSent).2.2 other isOther).2

theorem HostRecord.rrtype_ne_typeNSEC
    {r : RR}
    (made : HostRecord name ttl r) :
    r.header.rrtype ≠ typeNSEC := by
  cases made with
  | a _ =>
      exact (by decide : typeA ≠ typeNSEC)
  | aaaa _ =>
      exact (by decide : typeAAAA ≠ typeNSEC)

/-- A question for one address of a family is for all of it. -/
theorem HostZone.mem_answering_of_same_type
    (host : HostZone name ttl zone)
    {q : Question}
    {first second : RR}
    (answers : first ∈ zone.answering q)
    (inZone : second ∈ zone.records)
    (sameType : first.header.rrtype = second.header.rrtype) :
    second ∈ zone.answering q := by
  have isAddress := (host.made second inZone).rrtype_ne_typeNSEC
  have found : first ∈ zone.records.filter q.asksFor := by
    rw [HostnameZone.answering] at answers
    split at answers
    next =>
      rw [Option.mem_toList, host.nsec, buildNSEC] at answers
      obtain ⟨isNsec, -⟩ := Option.mem_filter_iff.mp answers
      split at isNsec
      · cases isNsec
      · cases isNsec
        exact absurd sameType.symm isAddress
    next =>
      exact answers
  have asked := (List.mem_filter.mp found).2
  have sameName : first.header.name = second.header.name :=
    (host.made first (List.mem_filter.mp found).1).name_eq.trans
      (host.made second inZone).name_eq.symm
  rw [HostnameZone.answering, if_neg (List.ne_nil_of_mem found),
    List.mem_filter]
  refine ⟨inZone, ?_⟩
  rwa [Question.asksFor, ← sameName, ← sameType]

/-- A query without known answers is answered with whole families. -/
theorem HostZone.whole_of_no_known
    (host : HostZone name ttl zone)
    {query : DnsMsg}
    (noKnown : query.answer = [])
    {sent : Sent}
    (isSent : sent ∈ answerQuery zone query mdnsPort) :
    Whole zone sent.msg := by
  intro r answers other inZone sameSet
  have sameType : r.header.rrtype = other.header.rrtype :=
    congrArg (fun set => set.2.1) sameSet
  rw [answer_of_mem_answerQuery isSent, host.answersToAll_eq,
    isLegacy_mdnsPort] at answers ⊢
  obtain ⟨q, asked, copied⟩ := List.mem_flatMap.mp answers
  obtain ⟨original, kept, rfl⟩ := List.mem_map.mp copied
  refine ⟨other, List.mem_flatMap.mpr ⟨q, asked, ?_⟩, rfl⟩
  refine List.mem_map.mpr ⟨other, List.mem_filter.mpr ⟨?_, ?_⟩, rfl⟩
  · exact host.mem_answering_of_same_type (List.mem_filter.mp kept).1 inZone
      sameType
  · rw [noKnown]
    rfl

/-- An answer that leaves out a part of a family, because the querier knows it
already, takes that part away from whoever hears the answer. -/
theorem HostZone.endsBy_listen_part
    (host : HostZone name ttl zone)
    {query : DnsMsg}
    {sent : Sent}
    (isSent : sent ∈ answerQuery zone query mdnsPort)
    {r : RR}
    (answers : r ∈ sent.msg.answer)
    (sameSet :
      cacheRules.setOf (CacheKey.of r) = cacheRules.setOf key)
    (leftOut : ∀ other ∈ sent.msg.answer, CacheKey.of other ≠ key)
    {cache : Cache CacheKey}
    (old : Old cacheRules now (cache key)) :
    EndsBy (now + 1000) (listen now sent.msg cache key) := by
  have flush : (heardRecord r).flush = true := by
    rw [heardRecord, ((host.multicastMessage isSent).2.2 r answers).1]
    exact
      (by decide :
        ((classINET ||| cacheFlushBit) &&& cacheFlushBit != 0) = true)
  refine endsBy_hear_flushed ?_ (List.mem_map_of_mem answers) flush sameSet old
  intro heard isHeard
  obtain ⟨other, isOther, rfl⟩ := List.mem_map.mp isHeard
  exact leftOut other isOther

end Messages

section Remembering

namespace Audience

variable {p : Publisher} {delay : Nat} {s : Audience} {key : CacheKey}

/-- No query is answered with a part of a family. -/
def AnswersWhole (s : Audience) : AudienceAction → Prop
  | .ask packet _ =>
      ∀ query, packet.msg = some query →
        ∀ sent ∈ answerQuery s.zone query mdnsPort, Whole s.zone sent.msg
  | .advance _ =>
      True
  | .change _ =>
      True
  | .leave =>
      True
  | .publish =>
      True
  | .hear _ _ =>
      True
  | .foreign _ =>
      True

instance decidableWhole (zone : HostnameZone) (msg : DnsMsg) :
    Decidable (Whole zone msg) :=
  inferInstanceAs
    (Decidable
      (∀ r ∈ msg.answer, ∀ other ∈ zone.records,
        cacheRules.setOf (CacheKey.of r) =
            cacheRules.setOf (CacheKey.of other) →
          ∃ sent ∈ msg.answer, CacheKey.of sent = CacheKey.of other))

instance decidableAnswersWhole (s : Audience) :
    ∀ action, Decidable (s.AnswersWhole action)
  | .ask packet _ =>
      inferInstanceAs
        (Decidable
          (∀ query ∈ packet.msg, ∀ sent ∈ answerQuery s.zone query mdnsPort,
            Whole s.zone sent.msg))
  | .advance _ => isTrue trivial
  | .change _ => isTrue trivial
  | .leave => isTrue trivial
  | .publish => isTrue trivial
  | .hear _ _ => isTrue trivial
  | .foreign _ => isTrue trivial

/-- The last announcement is still to be sent, and by then what does harm to the
record will have been heard. -/
def Pending (ttl : UInt32) (delay : Nat) (s : Audience) (key : CacheKey) :
    Prop :=
  ∃ before last, s.outbox = before ++ [last] ∧
    last.pause = announceInterval ∧ Announces ttl last.msg key ∧
      ∀ flight ∈ s.inFlight, ¬ Safe ttl flight.msg key →
        flight.sentAt + delay < dueAt s.now s.lastSent s.outbox

/-- Everything has been sent, and nothing on its way does harm. -/
def Settled (ttl : UInt32) (s : Audience) (key : CacheKey) : Prop :=
  s.outbox = [] ∧ (∀ flight ∈ s.inFlight, Safe ttl flight.msg key) ∧
    ((∃ flight ∈ s.inFlight,
        Announces ttl flight.msg key ∧ flight.sentAt ≤ s.announcedAt) ∨
      Lasts (s.announcedAt + ttl.toNat * 1000) (s.cache key))

/-- What a listener should know is about to be announced, or is announced and
kept. -/
structure Told (p : Publisher) (delay : Nat) (s : Audience) : Prop where
  steady : Steady p delay s
  known : ∀ key ∈ s.published,
    s.Pending p.ttl delay key ∨ s.Settled p.ttl key

/-- A published address is in the zone of a publisher that is not leaving. -/
theorem mem_zone_of_mem_published (member : key ∈ s.published) :
    s.leaving = false ∧ key ∈ s.zone.records.map CacheKey.of := by
  rw [published] at member
  split at member
  · cases member
  next stays =>
    exact ⟨Bool.eq_false_iff.mpr stays, member⟩

/-- What is published is an address of the host. -/
theorem Steady.names
    (steady : Steady p delay s)
    (member : key ∈ s.published) :
    p.Names key := by
  obtain ⟨r, inZone, rfl⟩ :=
    List.mem_map.mp (mem_zone_of_mem_published member).2
  have made := steady.host.made r inZone
  exact ⟨congrArg foldName made.name_eq, made.rrtype_ne_typeNSEC⟩

/-- With the announcements at the end of the outbox, what is on its way will
have been heard before the second one. -/
theorem pending_runAnnounce
    (short : delay < announceInterval)
    (flights : ∀ flight ∈ s.inFlight, flight.sentAt ≤ s.now)
    {records : List RR}
    (made : ∀ r ∈ records, HostRecord p.fqdn p.ttl r)
    (member : key ∈ records.map CacheKey.of)
    (ends : paced announceInterval (runAnnounce records) <:+ s.outbox) :
    s.Pending p.ttl delay key := by
  obtain ⟨before, outbox⟩ := ends
  rw [paced_runAnnounce, List.append_cons] at outbox
  refine ⟨_, _, outbox.symm, rfl, announces_responseMsg made member, ?_⟩
  intro flight isFlight _
  have due := pause_le_dueAt_of_ne_nil
    (List.append_ne_nil_of_right_ne_nil before
      (List.cons_ne_nil { pause := 0, msg := responseMsg records } []))
    s.now s.lastSent
    { pause := announceInterval, msg := responseMsg records }
  have sent := flights flight isFlight
  rw [outbox] at due
  dsimp only at due
  omega

theorem Pending.send
    (pending : s.Pending p.ttl delay key)
    {more : List Flight}
    (safe : ∀ flight ∈ more, Safe p.ttl flight.msg key) :
    Pending p.ttl delay { s with inFlight := s.inFlight ++ more } key := by
  obtain ⟨before, last, outbox, pause, announces, flights⟩ := pending
  refine ⟨before, last, outbox, pause, announces, ?_⟩
  intro flight member harms
  rcases List.mem_append.mp member with old | new
  · exact flights flight old harms
  · exact absurd (safe flight new) harms

theorem Settled.send
    (settled : s.Settled p.ttl key)
    {more : List Flight}
    (safe : ∀ flight ∈ more, Safe p.ttl flight.msg key) :
    Settled p.ttl { s with inFlight := s.inFlight ++ more } key := by
  obtain ⟨outbox, flights, announced⟩ := settled
  refine ⟨outbox, ?_, announced.imp_left ?_⟩
  · intro flight member
    rcases List.mem_append.mp member with old | new
    · exact flights flight old
    · exact safe flight new
  · rintro ⟨flight, member, announces⟩
    exact ⟨flight, List.mem_append_left _ member, announces⟩

/-- The message that is sent may be the last announcement. -/
theorem pending_publish
    (positive : p.ttl ≠ 0)
    (short : delay < announceInterval)
    (steady : Steady p delay s)
    (pending : s.Pending p.ttl delay key)
    {next : Paced}
    {rest : List Paced}
    (outbox : s.outbox = next :: rest)
    (slept : s.lastSent + next.pause ≤ s.now) :
    let sent : Audience :=
      { s with
        outbox := rest
        lastSent := s.now
        inFlight := s.inFlight ++ [{ msg := next.msg, sentAt := s.now }]
        goodbyeAt := if next.msg.isGoodbye then s.now else s.goodbyeAt
        announcedAt := if next.msg.isGoodbye then s.announcedAt else s.now }
    sent.Pending p.ttl delay key ∨ sent.Settled p.ttl key := by
  intro sent
  obtain ⟨before, last, split, pause, announces, flights⟩ := pending
  rw [outbox] at split
  rw [outbox, dueAt_cons_of_le slept] at flights
  cases before with
  | nil =>
      obtain ⟨rfl, rfl⟩ := List.cons.inj split
      right
      refine ⟨rfl, ?_,
        .inl ⟨{ msg := next.msg, sentAt := s.now }, ?_, announces, ?_⟩⟩
      · intro flight member
        rcases List.mem_append.mp member with old | new
        · -- whatever does harm is too old to be on its way
          by_contra harms
          have early := flights flight old harms
          exact absurd (steady.flights flight old).2 (Nat.not_le.mpr early)
        · rw [List.mem_singleton.mp new]
          exact .inl announces
      · exact List.mem_append_right _ List.mem_cons_self
      · dsimp only [sent]
        rw [not_isGoodbye_of_announces positive announces]
        exact Nat.le_refl _
  | cons first between =>
      rw [List.cons_append] at split
      obtain ⟨rfl, rfl⟩ := List.cons.inj split
      left
      refine ⟨between, last, rfl, pause, announces, ?_⟩
      intro flight member harms
      rcases List.mem_append.mp member with old | new
      · exact flights flight old harms
      · have due := pause_le_dueAt (Nat.le_refl s.now) between last
        rw [List.mem_singleton.mp new]
        dsimp only [sent]
        omega

/-- The listener hears a message that does no harm. -/
theorem settled_hear
    (positive : p.ttl ≠ 0)
    (steady : Steady p delay s)
    (settled : s.Settled p.ttl key)
    {flight : Flight}
    (isFlight : flight ∈ s.inFlight)
    (again : Bool) :
    Settled p.ttl
      { s with
        cache := listen s.now flight.msg s.cache
        inFlight := if again then s.inFlight else s.inFlight.erase flight }
      key := by
  obtain ⟨outbox, flights, announced⟩ := settled
  refine ⟨outbox, fun other member => flights other (mem_of_mem_heard member),
    ?_⟩
  rcases flights flight isFlight with announces | apart
  · right
    refine (lasts_listen_announces positive announces s.cache).mono ?_
    have before := steady.announced
    dsimp only
    omega
  · refine announced.imp ?_ ?_
    · rintro ⟨other, member, announces, sentBefore⟩
      refine ⟨other, mem_heard_of_ne ?_ member again, announces, sentBefore⟩
      rintro rfl
      obtain ⟨⟨r, isRecord, same⟩, -⟩ := announces
      exact apart r isRecord (congrArg cacheRules.setOf same)
    · intro lasts
      dsimp only
      rwa [listen_apart apart]

/-- At the start the announcement of every address is still to come. -/
theorem told_start
    (announces : p.skipAnnounce = false)
    (short : delay < announceInterval)
    (cache : Cache CacheKey) :
    Told p delay (start p cache) where
  steady := steady_start p delay cache
  known := by
    intro key member
    left
    refine pending_runAnnounce short
      (fun _ isFlight => absurd isFlight List.not_mem_nil)
      (p.host_firstZone p.addrs).made (mem_zone_of_mem_published member).2 ?_
    rw [start]
    dsimp only
    rw [announces]
    exact List.suffix_refl _

/-- Every prompt step keeps each published address told or about to be. -/
theorem told_step
    (announces : p.skipAnnounce = false)
    (positive : p.ttl ≠ 0)
    (short : delay < announceInterval)
    (told : Told p delay s)
    {action : AudienceAction}
    (prompt : s.Prompt p delay action)
    (whole : s.AnswersWhole action) :
    Told p delay (s.step p action) := by
  have steady : Steady p delay (s.step p action) :=
    steady_step told.steady prompt
  cases action with
  | advance ms =>
      refine ⟨steady, ?_⟩
      intro key member
      refine (told.known key member).imp_left ?_
      rintro ⟨before, last, outbox, pause, announces, flights⟩
      refine ⟨before, last, outbox, pause, announces, ?_⟩
      intro flight isFlight harms
      exact (flights flight isFlight harms).trans_le
        (dueAt_mono (Nat.le_add_right _ _) (Nat.le_refl _) _)
  | change addrs =>
      rcases change_cases p s addrs with same | ⟨-, -, changed⟩
      · rw [same]
        exact told
      · rw [changed] at steady ⊢
        refine ⟨steady, ?_⟩
        intro key member
        have isNew := (mem_zone_of_mem_published member).2
        have some : (p.recordsFor addrs).length > 0 :=
          length_pos_of_mem_keys isNew
        left
        refine pending_runAnnounce short
          (fun flight isFlight => (steady.flights flight isFlight).1)
          steady.host.made isNew ?_
        dsimp only
        rw [announces, decide_eq_true some]
        exact List.suffix_append _ _
  | leave =>
      rcases leave_cases p s with same | ⟨-, -, left⟩
      · rw [same]
        exact told
      · rw [left] at steady ⊢
        refine ⟨steady, ?_⟩
        intro key member
        cases (mem_zone_of_mem_published member).1
  | publish =>
      rcases publish_cases p s with same | ⟨next, rest, outbox, slept, sent⟩
      · rw [same]
        exact told
      · rw [sent] at steady ⊢
        refine ⟨steady, ?_⟩
        intro key member
        rcases told.known key member with pending | settled
        · exact pending_publish positive short told.steady pending outbox slept
        · rw [settled.1] at outbox
          cases outbox
  | ask packet direct =>
      refine ⟨steady, ?_⟩
      intro key member
      have safe :
          ∀ flight ∈
            ((newMDNSServer s.zone p.fqdn).handlePacket .running
              packet).2.filterMap (s.answer packet direct),
            Safe p.ttl flight.msg key := by
        intro flight new
        obtain ⟨-, query, unpacked, sent, isSent, same⟩ :=
          mem_answers told.steady.host new
        rw [same]
        exact told.steady.host.safe_of_whole isSent
          (whole query unpacked sent isSent)
          (mem_zone_of_mem_published member).2
      exact (told.known key member).imp (·.send safe) (·.send safe)
  | hear flight again =>
      rcases hear_cases p s flight again with same | ⟨isFlight, heard⟩
      · rw [same]
        exact told
      · rw [heard] at steady ⊢
        refine ⟨steady, ?_⟩
        intro key member
        rcases told.known key member with pending | settled
        · obtain ⟨before, last, outbox, pause, announces, flights⟩ := pending
          exact .inl ⟨before, last, outbox, pause, announces,
            fun other isOther => flights other (mem_of_mem_heard isOther)⟩
        · exact .inr (settled_hear positive told.steady settled isFlight again)
  | foreign msg =>
      refine ⟨steady, ?_⟩
      intro key member
      have names : p.Names key := told.steady.names member
      refine (told.known key member).imp_right ?_
      rintro ⟨outbox, flights, announced⟩
      refine ⟨outbox, flights, announced.imp_right ?_⟩
      intro lasts
      rw [step]
      dsimp only
      rwa [listen_apart (apart_of_name prompt names.name)]

/--
If no answer leaves out a part of a family, a listener that has heard the last
announcement knows every address that the host publishes for the time to live,
whatever the delays and the questions, also those addresses that it was told
goodbye to in between.
-/
theorem remembers_run
    (p : Publisher)
    (announces : p.skipAnnounce = false)
    (positive : p.ttl ≠ 0)
    (delay : Nat)
    (short : delay < announceInterval)
    (cache : Cache CacheKey)
    (actions : List AudienceAction)
    (prompt :
      AllSteps (step p)
        (fun s action => s.Prompt p delay action ∧ s.AnswersWhole action)
        (start p cache) actions)
    (s : Audience)
    (reached : s = (start p cache).run p actions)
    (idle : s.outbox = [])
    (heard : s.announcedAt + delay < s.now)
    (fresh : s.now < s.announcedAt + p.ttl.toNat * 1000) :
    ∀ key ∈ s.published, Live s.now (s.cache key) := by
  intro key member
  have keeps (s : Audience) (action : AudienceAction)
      (meets : s.Prompt p delay action ∧ s.AnswersWhole action)
      (told : Told p delay s) :
      Told p delay (s.step p action) :=
    told_step announces positive short told meets.1 meets.2
  have told : Told p delay s := by
    rw [reached]
    exact prompt.invariant keeps (told_start announces short cache)
  rcases told.known key member with pending | ⟨-, -, announced | lasts⟩
  · obtain ⟨before, last, outbox, -⟩ := pending
    rw [idle] at outbox
    simp at outbox
  · obtain ⟨flight, isFlight, -, sentBefore⟩ := announced
    have inTime := (told.steady.flights flight isFlight).2
    omega
  · exact lasts.live fresh

/-- A query names no known answers. -/
def AsksAll : AudienceAction → Prop
  | .ask packet _ =>
      ∀ query, packet.msg = some query → query.answer = []
  | .advance _ =>
      True
  | .change _ =>
      True
  | .leave =>
      True
  | .publish =>
      True
  | .hear _ _ =>
      True
  | .foreign _ =>
      True

instance decidableAsksAll : ∀ action, Decidable (AsksAll action)
  | .ask packet _ =>
      inferInstanceAs (Decidable (∀ query ∈ packet.msg, query.answer = []))
  | .advance _ => isTrue trivial
  | .change _ => isTrue trivial
  | .leave => isTrue trivial
  | .publish => isTrue trivial
  | .hear _ _ => isTrue trivial
  | .foreign _ => isTrue trivial

/-- A query without known answers is answered with whole families. -/
theorem Steady.answersWhole
    (steady : Steady p delay s)
    {action : AudienceAction}
    (asksAll : AsksAll action) :
    s.AnswersWhole action := by
  cases action with
  | ask packet direct =>
      intro query unpacked sent isSent
      exact steady.host.whole_of_no_known (asksAll query unpacked) isSent
  | advance _ => trivial
  | change _ => trivial
  | leave => trivial
  | publish => trivial
  | hear _ _ => trivial
  | foreign _ => trivial

/-- Nothing is left out while nobody names known answers. -/
theorem answersWhole_of_asksAll
    {cache : Cache CacheKey}
    {actions : List AudienceAction}
    (asked :
      AllSteps (step p) (fun s action => s.Prompt p delay action ∧
        AsksAll action) (start p cache) actions) :
    AllSteps (step p)
      (fun s action => s.Prompt p delay action ∧ s.AnswersWhole action)
      (start p cache) actions := by
  have keeps (s : Audience) (action : AudienceAction)
      (meets : s.Prompt p delay action ∧ AsksAll action)
      (steady : Steady p delay s) :
      Steady p delay (s.step p action) :=
    steady_step steady meets.1
  have gives (s : Audience) (action : AudienceAction)
      (meets : s.Prompt p delay action ∧ AsksAll action)
      (steady : Steady p delay s) :
      s.Prompt p delay action ∧ s.AnswersWhole action :=
    ⟨meets.1, steady.answersWhole meets.2⟩
  exact asked.under keeps gives (steady_start p delay cache)

/-- The address that was kept is known again, and so is the new one. -/
theorem remembers_run_gainsAddress :
    let s :=
      (start (contender 1) fun _ => none).run (contender 1) gainsAddress
    s.published =
        ((contender 1).recordsFor gainedAddrs).map CacheKey.of ∧
      ∀ key ∈ s.published, Live s.now (s.cache key) := by
  intro s
  refine ⟨by decide +kernel, ?_⟩
  exact remembers_run (contender 1) rfl (by decide) 50 (by decide)
    (fun _ => none) gainsAddress (answersWhole_of_asksAll (by decide +kernel))
    s rfl (by decide +kernel) (by decide +kernel) (by decide +kernel)

end Audience

end Remembering

section Parts

namespace Audience

variable {p : Publisher} {delay : Nat} {s : Audience} {key : CacheKey}

/-- No message that is heard makes a record stay. -/
def Unasserted (key : CacheKey) : AudienceAction → Prop
  | .hear flight _ =>
      ¬ Asserts flight.msg key
  | .foreign msg =>
      ¬ Asserts msg key
  | .advance _ =>
      True
  | .change _ =>
      True
  | .leave =>
      True
  | .publish =>
      True
  | .ask _ _ =>
      True

instance decidableAsserts (msg : DnsMsg) (key : CacheKey) :
    Decidable (Asserts msg key) :=
  inferInstanceAs
    (Decidable (∃ r ∈ msg.answer, CacheKey.of r = key ∧ r.header.ttl ≠ 0))

instance decidableUnasserted (key : CacheKey) :
    ∀ action, Decidable (Unasserted key action)
  | .hear flight _ => inferInstanceAs (Decidable (¬ Asserts flight.msg key))
  | .foreign msg => inferInstanceAs (Decidable (¬ Asserts msg key))
  | .advance _ => isTrue trivial
  | .change _ => isTrue trivial
  | .leave => isTrue trivial
  | .publish => isTrue trivial
  | .ask _ _ => isTrue trivial

/-- A record that goes does not come back by itself. -/
theorem endsBy_step
    {deadline : Nat}
    (ends : EndsBy deadline (s.cache key))
    {action : AudienceAction}
    (unasserted : Unasserted key action) :
    EndsBy deadline ((s.step p action).cache key) := by
  cases action with
  | hear flight again =>
      rcases hear_cases p s flight again with same | ⟨-, heard⟩
      · rw [same]
        exact ends
      · rw [heard]
        exact endsBy_listen ends unasserted
  | foreign msg =>
      exact endsBy_listen ends unasserted
  | change addrs =>
      rcases change_cases p s addrs with same | ⟨-, -, changed⟩
      · rw [same]
        exact ends
      · rw [changed]
        exact ends
  | leave =>
      rcases leave_cases p s with same | ⟨-, -, left⟩
      · rw [same]
        exact ends
      · rw [left]
        exact ends
  | publish =>
      rcases publish_cases p s with same | ⟨next, rest, -, -, sent⟩
      · rw [same]
        exact ends
      · rw [sent]
        exact ends
  | advance ms =>
      exact ends
  | ask packet direct =>
      exact ends

/--
Why answers have to be whole: an answer from which known-answer suppression has
taken a part of a family makes every listener that hears it, sooner or later,
forget that part in a second, if nothing else names it, whether the host
publishes it or not.
-/
theorem forgetsPart_run
    (p : Publisher)
    (delay : Nat)
    (cache : Cache CacheKey)
    (actions : List AudienceAction)
    (prompt : AllSteps (step p) (Prompt p delay) (start p cache) actions)
    (asked : Audience)
    (reached : asked = (start p cache).run p actions)
    {query : DnsMsg}
    {sent : Sent}
    (isSent : sent ∈ answerQuery asked.zone query mdnsPort)
    (between : List AudienceAction)
    {flight : Flight}
    (isFlight : flight ∈ (asked.run p between).inFlight)
    (carries : flight.msg = sent.msg)
    (key : CacheKey)
    (part : ∃ r ∈ sent.msg.answer,
      cacheRules.setOf (CacheKey.of r) = cacheRules.setOf key)
    (leftOut : ∀ r ∈ sent.msg.answer, CacheKey.of r ≠ key)
    (old : Old cacheRules (asked.run p between).now
      ((asked.run p between).cache key))
    (again : Bool)
    (more : List AudienceAction)
    (unasserted : ∀ action ∈ more, Unasserted key action) :
    let s := asked.run p between
    let later := (s.step p (.hear flight again)).run p more
    s.now + 1000 ≤ later.now → ¬ Live later.now (later.cache key) := by
  intro s later passed
  have steady : Steady p delay asked := by
    rw [reached]
    exact prompt.invariant (fun _ _ prompt steady => steady_step steady prompt)
      (steady_start p delay cache)
  have heard :
      EndsBy (s.now + 1000) ((s.step p (.hear flight again)).cache key) := by
    obtain ⟨r, answers, sameSet⟩ := part
    rw [step, if_pos isFlight, carries]
    exact steady.host.endsBy_listen_part isSent answers sameSet leftOut old
  have keeps (s' : Audience) (action : AudienceAction)
      (unasserted : Unasserted key action)
      (ends : EndsBy (s.now + 1000) (s'.cache key)) :
      EndsBy (s.now + 1000) ((s'.step p action).cache key) :=
    endsBy_step ends unasserted
  have ends : EndsBy (s.now + 1000) (later.cache key) :=
    (allSteps_of_forall_mem unasserted _).invariant keeps heard
  exact ends.not_live passed

/-- A query that knows one of the addresses already. -/
def queryForRest : DnsMsg :=
  { hostQuery [typeA] with answer := (contender 1).records }

/-- A second passes after the last announcement. -/
def secondAfterwards : List AudienceAction :=
  gainsAddress ++ [.advance 1000]

/-- Somebody asks for the rest, and the answer takes its time. -/
def asksForRest : List AudienceAction :=
  [.ask { msg := some queryForRest, fromPort := mdnsPort } false, .advance 20]

/-- The answer that names the new address only takes the other one from the
listener, although the host publishes both. -/
theorem forgetsPart_run_asksForRest :
    let asked :=
      (start (contender 1) fun _ => none).run (contender 1)
        secondAfterwards
    let s := asked.run (contender 1) asksForRest
    let rest := responseMsg ((contender 2).recordsFor (contender 2).addrs)
    let later :=
      (s.step (contender 1) (.hear { msg := rest, sentAt := 3200 } false)).run
        (contender 1) [.advance 1000]
    ∀ key ∈ (contender 1).records.map CacheKey.of,
      key ∈ later.published ∧ ¬ Live later.now (later.cache key) := by
  intro asked s rest later
  have keys :
      (contender 1).records.map CacheKey.of =
        [CacheKey.of (.a (hostHeader "host.local." typeA 120)
          [10, 0, 0, 1])] := by
    decide +kernel
  rw [keys]
  intro key member
  rw [List.mem_singleton.mp member]
  refine ⟨by decide +kernel, ?_⟩
  have isSent :
      Sent.multicast rest ∈ answerQuery asked.zone queryForRest mdnsPort := by
    decide +kernel
  have isFlight : { msg := rest, sentAt := 3200 } ∈ s.inFlight := by
    decide +kernel
  have old :
      Old cacheRules s.now
        (s.cache
          (CacheKey.of (.a (hostHeader "host.local." typeA 120)
            [10, 0, 0, 1]))) := by
    unfold Old
    decide +kernel
  exact forgetsPart_run (contender 1) 50 (fun _ => none)
    secondAfterwards (by decide +kernel) asked rfl isSent asksForRest isFlight
    rfl _ (by decide +kernel) (by decide +kernel) old false [.advance 1000]
    (by decide +kernel) (by decide +kernel)

end Audience

end Parts

end DnsServices.MdnsPublisher
