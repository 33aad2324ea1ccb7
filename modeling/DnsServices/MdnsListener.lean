import DnsServices.MdnsLink
import DnsServices.RecordCache

namespace DnsServices.MdnsPublisher

open RecordCache Runs

/-!
# What listeners remember of a publisher

A publisher that runs, and the cache of a listener on its link.  Announcements
and goodbyes are sent with sleeps in between, by `main` at first, then by the
goroutine that watches the addresses, and by `main` again once a signal has
come; the receive goroutines answer queries from the zone all the while.  A
message is heard some time after it was made, in any order, and perhaps more
than once.
-/

section Code

/-- The sleep between goodbyes, in milliseconds. -/
def goodbyeInterval : Nat := 100

/-- A message, and the sleep before it. -/
structure Paced where
  pause : Nat
  msg : DnsMsg
  deriving Repr, DecidableEq

/-- A loop that sleeps before every message but the first. -/
def paced (interval : Nat) : List DnsMsg → List Paced
  | [] =>
      []
  | first :: rest =>
      { pause := 0, msg := first } ::
        rest.map fun msg => { pause := interval, msg := msg }

/-- A name as it is compared, in lower case. -/
def foldName (name : String) : List Char :=
  name.toList.map Char.toLower

/-- A record in a cache: its name in any case, class, type and data. -/
structure CacheKey where
  name : List Char
  record : Key
  deriving DecidableEq

/-- The place of a record in a cache. -/
def CacheKey.of (r : RR) : CacheKey where
  name := foldName r.header.name
  record := Key.of r

/-- RFC 6762 §10: a set has one name, type and class, and what goes stays for
one more second. -/
def cacheRules : Rules CacheKey (List Char × UInt16 × UInt16) where
  setOf := fun key => (key.name, key.record.rrtype, key.record.rrclass)
  grace := 1000

/-- What a cache hears of a record; its times are milliseconds. -/
def heardRecord (r : RR) : Heard CacheKey where
  key := CacheKey.of r
  ttl := r.header.ttl.toNat * 1000
  flush := r.header.rrclass &&& cacheFlushBit != 0

/-- A listener reads the answer section of a response. -/
def listen
    (now : Nat)
    (msg : DnsMsg)
    (cache : Cache CacheKey) : Cache CacheKey :=
  cacheRules.hear now (msg.answer.map heardRecord) cache

/-- A message on its way to the listener. -/
structure Flight where
  msg : DnsMsg
  sentAt : Nat
  deriving Repr, DecidableEq

/-- A message of withdrawn records. -/
def DnsMsg.isGoodbye (msg : DnsMsg) : Bool :=
  msg.answer.all fun r => r.header.ttl == 0

/-- A publisher that runs, the messages it has on their way, and the cache of
one listener. -/
structure Audience where
  now : Nat
  zone : HostnameZone
  /-- `main` has got a signal. -/
  leaving : Bool
  /-- What the goroutine that sends has still to send. -/
  outbox : List Paced
  lastSent : Nat
  inFlight : List Flight
  cache : Cache CacheKey
  /-- When the last goodbye was sent (history only). -/
  goodbyeAt : Nat
  /-- When the last announcement was sent (history only). -/
  announcedAt : Nat

/-- One step of the publisher, of its querents, of the listener or of the clock.
-/
inductive AudienceAction where
  /-- Time passes. -/
  | advance (ms : Nat)
  /-- The watching goroutine has read the addresses again. -/
  | change (addrs : List AddrEntry)
  /-- A signal: the watching goroutine is stopped, and goodbyes are sent. -/
  | leave
  /-- The next message is sent. -/
  | publish
  /-- A packet is handled; the listener may be its source. -/
  | ask (packet : Packet) (direct : Bool)
  /-- The listener hears a message, perhaps not for the last time. -/
  | hear (flight : Flight) (again : Bool)
  /-- The listener hears somebody else. -/
  | foreign (msg : DnsMsg)

namespace Audience

/-- The publisher begins to run; the listener may know of other hosts. -/
def start (p : Publisher) (cache : Cache CacheKey) : Audience where
  now := 0
  zone := p.firstZone p.addrs
  leaving := false
  outbox :=
    if p.skipAnnounce then
      []
    else
      paced announceInterval (runAnnounce p.records)
  lastSent := 0
  inFlight := []
  cache := cache
  goodbyeAt := 0
  announcedAt := 0

/-- An answer that reaches the listener. -/
def answer
    (s : Audience)
    (packet : Packet)
    (direct : Bool) : Sent → Option Flight
  | .multicast msg =>
      some { msg := msg, sentAt := s.now }
  | .unicast msg =>
      -- a resolver that knows no multicast is no listener
      if direct && !isLegacy packet.fromPort then
        some { msg := msg, sentAt := s.now }
      else
        none

/-- One step; address changes and the shutdown wait until everything is sent. -/
def step (p : Publisher) (s : Audience) : AudienceAction → Audience
  | .advance ms =>
      { s with now := s.now + ms }
  | .change addrs =>
      if s.outbox.isEmpty && !s.leaving then
        let refreshed :=
          refreshAddresses p.toWatchConfig (!p.skipAnnounce) (!p.skipGoodbye)
            s.zone addrs
        { s with
          zone := refreshed.zone
          outbox :=
            paced goodbyeInterval refreshed.goodbyes ++
              paced announceInterval refreshed.announcements }
      else
        s
  | .leave =>
      if s.outbox.isEmpty && !s.leaving then
        { s with
          leaving := true
          outbox :=
            if p.skipGoodbye then
              []
            else
              paced goodbyeInterval (runGoodbye s.zone.snapshotRecords) }
      else
        s
  | .publish =>
      match s.outbox with
      | [] =>
          s
      | next :: rest =>
          if s.lastSent + next.pause ≤ s.now then
            { s with
              outbox := rest
              lastSent := s.now
              inFlight := s.inFlight ++ [{ msg := next.msg, sentAt := s.now }]
              goodbyeAt := if next.msg.isGoodbye then s.now else s.goodbyeAt
              announcedAt :=
                if next.msg.isGoodbye then s.announcedAt else s.now }
          else
            s
  | .ask packet direct =>
      let sent :=
        ((newMDNSServer s.zone p.fqdn).handlePacket .running packet).2
      { s with
        inFlight := s.inFlight ++ sent.filterMap (s.answer packet direct) }
  | .hear flight again =>
      if flight ∈ s.inFlight then
        { s with
          cache := listen s.now flight.msg s.cache
          inFlight := if again then s.inFlight else s.inFlight.erase flight }
      else
        s
  | .foreign msg =>
      { s with cache := listen s.now msg s.cache }

/-- Steps in any order. -/
def run (p : Publisher) (s : Audience) (actions : List AudienceAction) :
    Audience :=
  actions.foldl (step p) s

/-- The earliest time at which everything in a list can have been sent. -/
def dueAt (now lastSent : Nat) : List Paced → Nat
  | [] =>
      now
  | next :: rest =>
      dueAt (max now (lastSent + next.pause)) (max now (lastSent + next.pause))
        rest

/-- Every message is heard within the delay, a host that leaves makes no answer
so late that it may be heard after the last goodbye, and nobody else speaks for
the name. -/
def Prompt
    (p : Publisher)
    (delay : Nat)
    (s : Audience) : AudienceAction → Prop
  | .advance ms =>
      ∀ flight ∈ s.inFlight, s.now + ms ≤ flight.sentAt + delay
  | .ask _ _ =>
      s.leaving = true → s.now + delay < dueAt s.now s.lastSent s.outbox
  | .foreign msg =>
      ∀ r ∈ msg.answer, equalFold r.header.name p.fqdn = false
  | .change _ =>
      True
  | .leave =>
      True
  | .publish =>
      True
  | .hear _ _ =>
      True

instance decidablePrompt (p : Publisher) (delay : Nat) (s : Audience) :
    ∀ action, Decidable (s.Prompt p delay action)
  | .advance ms =>
      inferInstanceAs
        (Decidable (∀ flight ∈ s.inFlight, s.now + ms ≤ flight.sentAt + delay))
  | .ask _ _ =>
      inferInstanceAs
        (Decidable
          (s.leaving = true → s.now + delay < dueAt s.now s.lastSent s.outbox))
  | .foreign msg =>
      inferInstanceAs
        (Decidable
          (∀ r ∈ msg.answer, equalFold r.header.name p.fqdn = false))
  | .change _ => isTrue trivial
  | .leave => isTrue trivial
  | .publish => isTrue trivial
  | .hear _ _ => isTrue trivial

/-- What listeners should know of the host. -/
def published (s : Audience) : List CacheKey :=
  if s.leaving then [] else s.zone.records.map CacheKey.of

end Audience

end Code

section Messages

/-- Two names are equal exactly when they fold to the same one. -/
theorem equalFold_iff (first second : String) :
    equalFold first second = true ↔ foldName first = foldName second := by
  rw [equalFold, beq_iff_eq, foldName, foldName]

/-- A message makes a record stay. -/
def Asserts (msg : DnsMsg) (key : CacheKey) : Prop :=
  ∃ r ∈ msg.answer, CacheKey.of r = key ∧ r.header.ttl ≠ 0

/-- A goodbye for a record. -/
def Withdraws (msg : DnsMsg) (key : CacheKey) : Prop :=
  msg.isGoodbye = true ∧ ∃ r ∈ msg.answer, CacheKey.of r = key

/-- A message has no record of the set of a record. -/
def Apart (msg : DnsMsg) (key : CacheKey) : Prop :=
  ∀ r ∈ msg.answer, cacheRules.setOf (CacheKey.of r) ≠ cacheRules.setOf key

variable
  {msg : DnsMsg}
  {key : CacheKey}
  {cache : Cache CacheKey}
  {now : Nat}

/-- A record is heard as a goodbye exactly when its TTL is 0. -/
theorem ttl_heardRecord (r : RR) :
    (heardRecord r).ttl = 0 ↔ r.header.ttl = 0 := by
  have positive : 1000 ≠ 0 := by
    omega
  rw [heardRecord, Nat.mul_eq_zero, or_iff_left positive, ← UInt32.toNat_inj]
  rfl

theorem isGoodbye_iff :
    msg.isGoodbye = true ↔ ∀ r ∈ msg.answer, r.header.ttl = 0 := by
  simp [DnsMsg.isGoodbye]

/-- A goodbye asserts nothing. -/
theorem not_asserts_of_isGoodbye (goodbye : msg.isGoodbye = true) :
    ¬ Asserts msg key := by
  rintro ⟨r, member, -, positive⟩
  exact positive (isGoodbye_iff.mp goodbye r member)

/-- Without an assertion every record under the key is a goodbye. -/
theorem silent_of_not_asserts (silent : ¬ Asserts msg key) :
    ∀ heard ∈ msg.answer.map heardRecord, heard.key = key → heard.ttl = 0 := by
  intro heard isHeard same
  obtain ⟨r, member, rfl⟩ := List.mem_map.mp isHeard
  rw [ttl_heardRecord]
  by_contra positive
  exact silent ⟨r, member, same, positive⟩

/-- A message that does not assert the key cannot prolong its entry. -/
theorem endsBy_listen
    {deadline : Nat}
    (ends : EndsBy deadline (cache key))
    (silent : ¬ Asserts msg key) :
    EndsBy deadline (listen now msg cache key) :=
  ends.hear (silent_of_not_asserts silent)

/-- A withdrawn record is forgotten within a second. -/
theorem endsBy_listen_withdraws
    (withdraws : Withdraws msg key)
    (cache : Cache CacheKey) :
    EndsBy (now + 1000) (listen now msg cache key) := by
  obtain ⟨goodbye, r, member, same⟩ := withdraws
  exact endsBy_hear_withdrawn
    (silent_of_not_asserts (not_asserts_of_isGoodbye goodbye))
    (List.mem_map_of_mem member) same cache

/-- A message about other names leaves the entry alone. -/
theorem listen_apart (apart : Apart msg key) :
    listen now msg cache key = cache key := by
  refine hear_apart ?_ cache
  intro heard isHeard
  obtain ⟨r, member, rfl⟩ := List.mem_map.mp isHeard
  exact apart r member

/-- Other names are other sets. -/
theorem apart_of_name
    {name : String}
    (others : ∀ r ∈ msg.answer, equalFold r.header.name name = false)
    (named : key.name = foldName name) :
    Apart msg key := by
  intro r member same
  have sameName : foldName r.header.name = key.name :=
    congrArg Prod.fst same
  rw [named, ← equalFold_iff, others r member] at sameName
  cases sameName

end Messages

section Pacing

namespace Audience

theorem le_dueAt (now lastSent : Nat) (outbox : List Paced) :
    now ≤ dueAt now lastSent outbox := by
  induction outbox generalizing now lastSent with
  | nil =>
      exact Nat.le_refl _
  | cons next rest inductionHypothesis =>
      exact (Nat.le_max_left _ _).trans (inductionHypothesis _ _)

theorem dueAt_mono
    {now later lastSent lastLater : Nat}
    (passes : now ≤ later)
    (sends : lastSent ≤ lastLater)
    (outbox : List Paced) :
    dueAt now lastSent outbox ≤ dueAt later lastLater outbox := by
  induction outbox generalizing now later lastSent lastLater with
  | nil =>
      exact passes
  | cons next rest inductionHypothesis =>
      have slept : max now (lastSent + next.pause) ≤
          max later (lastLater + next.pause) := by
        omega
      exact inductionHypothesis slept slept

/-- What is paced behind a run of messages waits for the last of them. -/
theorem dueAt_append_of_ne_nil
    {before : List Paced}
    (some : before ≠ [])
    (now lastSent : Nat)
    (after : List Paced) :
    dueAt now lastSent (before ++ after) =
      dueAt (dueAt now lastSent before) (dueAt now lastSent before) after := by
  induction before generalizing now lastSent with
  | nil =>
      exact absurd rfl some
  | cons next rest inductionHypothesis =>
      cases rest with
      | nil =>
          rfl
      | cons second others =>
          exact inductionHypothesis (List.cons_ne_nil _ _) _ _

/-- A longer outbox is done no earlier. -/
theorem dueAt_le_append
    (now lastSent : Nat)
    (before after : List Paced) :
    dueAt now lastSent before ≤ dueAt now lastSent (before ++ after) := by
  cases before with
  | nil =>
      exact le_dueAt _ _ _
  | cons next rest =>
      rw [dueAt_append_of_ne_nil (List.cons_ne_nil _ _)]
      exact le_dueAt _ _ _

/-- The last message waits for its own sleep at least. -/
theorem pause_le_dueAt
    {now lastSent : Nat}
    (slept : now ≤ lastSent)
    (before : List Paced)
    (last : Paced) :
    now + last.pause ≤ dueAt now lastSent (before ++ [last]) := by
  cases before with
  | nil =>
      simp only [List.nil_append, dueAt]
      omega
  | cons next rest =>
      have first := le_dueAt now lastSent (next :: rest)
      rw [dueAt_append_of_ne_nil (List.cons_ne_nil _ _)]
      generalize dueAt now lastSent (next :: rest) = due at first ⊢
      simp only [dueAt]
      omega

/-- The last message waits at least its own pause. -/
theorem pause_le_dueAt_of_ne_nil
    {before : List Paced}
    (some : before ≠ [])
    (now lastSent : Nat)
    (last : Paced) :
    now + last.pause ≤ dueAt now lastSent (before ++ [last]) := by
  have first := le_dueAt now lastSent before
  rw [dueAt_append_of_ne_nil some]
  simp only [dueAt]
  omega

/-- A message that is sent in time delays nothing behind it. -/
theorem dueAt_cons_of_le
    {now lastSent : Nat}
    {next : Paced}
    (slept : lastSent + next.pause ≤ now)
    (rest : List Paced) :
    dueAt now lastSent (next :: rest) = dueAt now now rest := by
  rw [dueAt, Nat.max_eq_left slept]

end Audience

end Pacing

section Steps

namespace Audience

variable {p : Publisher} {s : Audience}

theorem change_cases (p : Publisher) (s : Audience) (addrs : List AddrEntry) :
    s.step p (.change addrs) = s ∨
      s.outbox = [] ∧ s.leaving = false ∧
        s.step p (.change addrs) =
          { s with
            zone := p.firstZone addrs
            outbox :=
              paced goodbyeInterval
                  (if !p.skipGoodbye && decide (s.zone.records.length > 0) then
                    runGoodbye s.zone.records
                  else
                    []) ++
                paced announceInterval
                  (if !p.skipAnnounce &&
                      decide ((p.recordsFor addrs).length > 0) then
                    runAnnounce (p.recordsFor addrs)
                  else
                    []) } := by
  rw [step]
  split
  next ready =>
    rw [Bool.and_eq_true, List.isEmpty_iff, Bool.not_eq_true'] at ready
    obtain ⟨idle, stays⟩ := ready
    cases same : sameRecords s.zone.records (p.recordsFor addrs) with
    | true =>
        left
        rw [refreshAddresses_of_same same]
        cases s
        cases idle
        rfl
    | false =>
        right
        rw [refreshAddresses_of_changed same]
        exact ⟨idle, stays, rfl⟩
  next =>
    exact .inl rfl

theorem leave_cases (p : Publisher) (s : Audience) :
    s.step p .leave = s ∨
      s.outbox = [] ∧ s.leaving = false ∧
        s.step p .leave =
          { s with
            leaving := true
            outbox :=
              if p.skipGoodbye then
                []
              else
                paced goodbyeInterval (runGoodbye s.zone.records) } := by
  rw [step]
  split
  next ready =>
    rw [Bool.and_eq_true, List.isEmpty_iff, Bool.not_eq_true'] at ready
    exact .inr ⟨ready.1, ready.2, rfl⟩
  next =>
    exact .inl rfl

theorem publish_cases (p : Publisher) (s : Audience) :
    s.step p .publish = s ∨
      ∃ next rest, s.outbox = next :: rest ∧ s.lastSent + next.pause ≤ s.now ∧
        s.step p .publish =
          { s with
            outbox := rest
            lastSent := s.now
            inFlight := s.inFlight ++ [{ msg := next.msg, sentAt := s.now }]
            goodbyeAt := if next.msg.isGoodbye then s.now else s.goodbyeAt
            announcedAt :=
              if next.msg.isGoodbye then s.announcedAt else s.now } := by
  rw [step]
  split
  next =>
    exact .inl rfl
  next next rest outbox =>
    split
    next slept =>
      exact .inr ⟨next, rest, outbox, slept, rfl⟩
    next =>
      exact .inl rfl

theorem hear_cases (p : Publisher) (s : Audience) (flight : Flight)
    (again : Bool) :
    s.step p (.hear flight again) = s ∨
      flight ∈ s.inFlight ∧
        s.step p (.hear flight again) =
          { s with
            cache := listen s.now flight.msg s.cache
            inFlight :=
              if again then s.inFlight else s.inFlight.erase flight } := by
  rw [step]
  split
  next inFlight =>
    exact .inr ⟨inFlight, rfl⟩
  next =>
    exact .inl rfl

/-- What was still on its way after a message was heard was so before. -/
theorem mem_of_mem_heard
    {flight other : Flight}
    {again : Bool}
    (member : other ∈
      if again then s.inFlight else s.inFlight.erase flight) :
    other ∈ s.inFlight := by
  cases again with
  | true =>
      exact member
  | false =>
      exact List.mem_of_mem_erase member

/-- Another message stays on its way. -/
theorem mem_heard_of_ne
    {flight other : Flight}
    (differs : other ≠ flight)
    (member : other ∈ s.inFlight)
    (again : Bool) :
    other ∈ if again then s.inFlight else s.inFlight.erase flight := by
  cases again with
  | true =>
      exact member
  | false =>
      exact (List.mem_erase_of_ne differs).mpr member

end Audience

end Steps

section Answers

variable {p : Publisher} {s : Audience}

/-- Answers to a query from port 5353 are records of the zone, or deny that
there are any. -/
theorem HostZone.mem_answer
    {name : String}
    {ttl : UInt32}
    {zone : HostnameZone}
    (host : HostZone name ttl zone)
    {query : DnsMsg}
    {sent : Sent}
    (member : sent ∈ answerQuery zone query mdnsPort)
    {r : RR}
    (answers : r ∈ sent.msg.answer) :
    r ∈ zone.records ∨ r.header.rrtype = typeNSEC := by
  rw [answer_of_mem_answerQuery member, host.answersToAll_eq] at answers
  obtain ⟨q, -, copied⟩ := List.mem_flatMap.mp answers
  obtain ⟨original, kept, rfl⟩ := List.mem_map.mp copied
  have inZone :=
    (zone.answering_sublist q).subset (List.mem_filter.mp kept).1
  rw [isLegacy_mdnsPort]
  rcases List.mem_append.mp inZone with address | nsec
  · exact .inl address
  · right
    rw [Option.mem_toList, host.nsec, buildNSEC] at nsec
    split at nsec
    · cases nsec
    · cases nsec
      rfl

/-- What reaches the listener is an answer to a query from port 5353. -/
theorem Audience.mem_answers
    {packet : Packet}
    {direct : Bool}
    (host : HostZone p.fqdn p.ttl s.zone)
    {flight : Flight}
    (member : flight ∈
      ((newMDNSServer s.zone p.fqdn).handlePacket .running packet).2.filterMap
        (s.answer packet direct)) :
    flight.sentAt = s.now ∧
      ∃ query, packet.msg = some query ∧
        ∃ sent ∈ answerQuery s.zone query mdnsPort,
          flight.msg = sent.msg := by
  obtain ⟨sent, isSent, reaches⟩ := List.mem_filterMap.mp member
  obtain ⟨-, query, unpacked, answers⟩ := MdnsServer.mem_handlePacket isSent
  have fromMdns :
      packet.fromPort = mdnsPort →
        ∃ query, packet.msg = some query ∧
          ∃ sent' ∈ answerQuery s.zone query mdnsPort,
            sent.msg = sent'.msg := by
    intro port
    exact ⟨query, unpacked, sent, port ▸ answers, rfl⟩
  cases sent with
  | multicast msg =>
      cases reaches
      refine ⟨rfl, fromMdns ?_⟩
      by_contra other
      obtain ⟨response, isUnicast, -⟩ := host.legacyMessage other answers
      cases isUnicast
  | unicast msg =>
      rw [Audience.answer] at reaches
      split at reaches
      next toListener =>
        cases reaches
        refine ⟨rfl, fromMdns ?_⟩
        rw [Bool.and_eq_true, Bool.not_eq_true'] at toListener
        simpa [isLegacy] using toListener.2
      next =>
        cases reaches

end Answers

section Steady

namespace Audience

variable {p : Publisher} {delay : Nat} {s : Audience}

/-- Nothing that is on its way is older than the delay. -/
structure Steady (p : Publisher) (delay : Nat) (s : Audience) : Prop where
  host : HostZone p.fqdn p.ttl s.zone
  sent : s.lastSent ≤ s.now
  goodbye : s.goodbyeAt ≤ s.now
  announced : s.announcedAt ≤ s.now
  flights : ∀ flight ∈ s.inFlight,
    flight.sentAt ≤ s.now ∧ s.now ≤ flight.sentAt + delay

/-- The system starts with a host zone and nothing in flight. -/
theorem steady_start
    (p : Publisher)
    (delay : Nat)
    (cache : Cache CacheKey) :
    Steady p delay (start p cache) where
  host := p.host_firstZone p.addrs
  sent := Nat.le_refl _
  goodbye := Nat.le_refl _
  announced := Nat.le_refl _
  flights := fun _ member => absurd member List.not_mem_nil

/-- Every prompt step keeps the system steady. -/
theorem steady_step
    (steady : Steady p delay s)
    {action : AudienceAction}
    (prompt : s.Prompt p delay action) :
    Steady p delay (s.step p action) := by
  obtain ⟨host, sent, goodbye, announced, flights⟩ := steady
  cases action with
  | advance ms =>
      have passes : s.now ≤ s.now + ms := Nat.le_add_right _ _
      refine ⟨host, sent.trans passes, goodbye.trans passes,
        announced.trans passes, ?_⟩
      intro flight member
      exact ⟨(flights flight member).1.trans passes, prompt flight member⟩
  | change addrs =>
      rcases change_cases p s addrs with same | ⟨-, -, changed⟩
      · rw [same]
        exact ⟨host, sent, goodbye, announced, flights⟩
      · rw [changed]
        exact ⟨p.host_firstZone addrs, sent, goodbye, announced, flights⟩
  | leave =>
      rcases leave_cases p s with same | ⟨-, -, left⟩
      · rw [same]
        exact ⟨host, sent, goodbye, announced, flights⟩
      · rw [left]
        exact ⟨host, sent, goodbye, announced, flights⟩
  | publish =>
      rcases publish_cases p s with same | ⟨next, rest, -, slept, published⟩
      · rw [same]
        exact ⟨host, sent, goodbye, announced, flights⟩
      · rw [published]
        refine ⟨host, Nat.le_refl _, ?_, ?_, ?_⟩
        · dsimp only
          split
          · exact Nat.le_refl _
          · exact goodbye
        · dsimp only
          split
          · exact announced
          · exact Nat.le_refl _
        · intro flight member
          rcases List.mem_append.mp member with old | new
          · exact flights flight old
          · rw [List.mem_singleton.mp new]
            exact ⟨Nat.le_refl _, Nat.le_add_right _ _⟩
  | ask packet direct =>
      refine ⟨host, sent, goodbye, announced, ?_⟩
      intro flight member
      rcases List.mem_append.mp member with old | new
      · exact flights flight old
      · rw [(mem_answers host new).1]
        exact ⟨Nat.le_refl _, Nat.le_add_right _ _⟩
  | hear flight again =>
      rcases hear_cases p s flight again with same | ⟨-, heard⟩
      · rw [same]
        exact ⟨host, sent, goodbye, announced, flights⟩
      · rw [heard]
        refine ⟨host, sent, goodbye, announced, ?_⟩
        intro other member
        exact flights other (mem_of_mem_heard member)
  | foreign msg =>
      exact ⟨host, sent, goodbye, announced, flights⟩

end Audience

end Steady

section Forgetting

/-- A key for an address of the host. -/
structure Publisher.Names (p : Publisher) (key : CacheKey) : Prop where
  name : key.name = foldName p.fqdn
  isAddress : key.record.rrtype ≠ typeNSEC

/-- Only records of the zone are asserted by an answer. -/
theorem HostZone.mem_of_asserts
    {name : String}
    {ttl : UInt32}
    {zone : HostnameZone}
    (host : HostZone name ttl zone)
    {query : DnsMsg}
    {sent : Sent}
    (member : sent ∈ answerQuery zone query mdnsPort)
    {key : CacheKey}
    (isAddress : key.record.rrtype ≠ typeNSEC)
    (asserts : Asserts sent.msg key) :
    key ∈ zone.records.map CacheKey.of := by
  obtain ⟨r, answers, rfl, -⟩ := asserts
  rcases host.mem_answer member answers with inZone | nsec
  · exact List.mem_map_of_mem inZone
  · exact absurd nsec isAddress

theorem length_pos_of_mem_keys
    {records : List RR}
    {key : CacheKey}
    (member : key ∈ records.map CacheKey.of) :
    records.length > 0 := by
  rw [← List.length_map CacheKey.of]
  exact List.length_pos_of_mem member

theorem key_withTtl (ttl : UInt32) (r : RR) :
    CacheKey.of (r.withTtl ttl) = CacheKey.of r := by
  cases r <;> rfl

/-- The goodbye for a list of records. -/
def goodbyeMsg (records : List RR) : DnsMsg :=
  responseMsg (records.map (RR.withTtl 0))

theorem isGoodbye_goodbyeMsg (records : List RR) :
    (goodbyeMsg records).isGoodbye = true := by
  simp [isGoodbye_iff, goodbyeMsg, responseMsg]

/-- A goodbye message withdraws every record it lists. -/
theorem withdraws_goodbyeMsg
    {records : List RR}
    {key : CacheKey}
    (member : key ∈ records.map CacheKey.of) :
    Withdraws (goodbyeMsg records) key := by
  obtain ⟨r, isRecord, rfl⟩ := List.mem_map.mp member
  exact ⟨isGoodbye_goodbyeMsg records, r.withTtl 0,
    List.mem_map_of_mem isRecord, key_withTtl 0 r⟩

/-- Two goodbyes, the second after the goodbye interval. -/
theorem paced_runGoodbye (records : List RR) :
    paced goodbyeInterval (runGoodbye records) =
      [{ pause := 0, msg := goodbyeMsg records },
        { pause := goodbyeInterval, msg := goodbyeMsg records }] :=
  rfl

/-- Two announcements, the second after the announce interval. -/
theorem paced_runAnnounce (records : List RR) :
    paced announceInterval (runAnnounce records) =
      [{ pause := 0, msg := responseMsg records },
        { pause := announceInterval, msg := responseMsg records }] :=
  rfl

namespace Audience

variable {p : Publisher} {delay : Nat} {s : Audience} {key : CacheKey}

/-- A goodbye for the record is still to be sent, and everything on its way
that asserts the record will have been heard by then. -/
def Ahead (delay : Nat) (s : Audience) (key : CacheKey) : Prop :=
  ∃ before last after, s.outbox = before ++ last :: after ∧
    Withdraws last.msg key ∧
      ∀ flight ∈ s.inFlight, Asserts flight.msg key →
        flight.sentAt + delay < dueAt s.now s.lastSent (before ++ [last])

/-- Nothing on its way asserts the record, and a goodbye for it is on its way
or the listener will have forgotten it a second after the last one. -/
def Gone (delay : Nat) (s : Audience) (key : CacheKey) : Prop :=
  (∀ flight ∈ s.inFlight, ¬ Asserts flight.msg key) ∧
    ((∃ flight ∈ s.inFlight,
        Withdraws flight.msg key ∧ flight.sentAt ≤ s.goodbyeAt) ∨
      EndsBy (s.goodbyeAt + delay + 1000) (s.cache key))

/-- What a listener should not know is gone, or a goodbye for it is still to be
sent. -/
structure Tidy (p : Publisher) (delay : Nat) (s : Audience) : Prop where
  steady : Steady p delay s
  /-- Announcements are of what is published. -/
  outbox : ∀ next ∈ s.outbox, ∀ key, Asserts next.msg key → key ∈ s.published
  /-- A host that leaves says goodbye to all it has. -/
  farewell : s.leaving = true →
    ∀ next ∈ s.outbox, next.msg = goodbyeMsg s.zone.records
  rest : ∀ key, p.Names key → key ∉ s.published →
    s.Ahead delay key ∨ s.Gone delay key

/-- With goodbyes for the record in the outbox, what is on its way will have
been heard before the second one. -/
theorem ahead_runGoodbye
    (short : delay < goodbyeInterval)
    (flights : ∀ flight ∈ s.inFlight, flight.sentAt ≤ s.now)
    {records : List RR}
    (member : key ∈ records.map CacheKey.of)
    (begins : paced goodbyeInterval (runGoodbye records) <+: s.outbox) :
    s.Ahead delay key := by
  obtain ⟨after, outbox⟩ := begins
  refine ⟨[{ pause := 0, msg := goodbyeMsg records }],
    { pause := goodbyeInterval, msg := goodbyeMsg records }, after,
    outbox.symm, withdraws_goodbyeMsg member, ?_⟩
  intro flight isFlight _
  have due := pause_le_dueAt_of_ne_nil
    (List.cons_ne_nil { pause := 0, msg := goodbyeMsg records } []) s.now
    s.lastSent { pause := goodbyeInterval, msg := goodbyeMsg records }
  have sent := flights flight isFlight
  dsimp only at due
  omega

/-- With an empty outbox no goodbye is to come. -/
theorem not_ahead_of_idle (idle : s.outbox = []) : ¬ s.Ahead delay key := by
  rintro ⟨before, last, after, outbox, -⟩
  rw [idle] at outbox
  simp at outbox

/-- What is sent without asserting the record changes nothing. -/
theorem Ahead.send
    (ahead : s.Ahead delay key)
    {more : List Flight}
    (silent : ∀ flight ∈ more, ¬ Asserts flight.msg key) :
    Ahead delay { s with inFlight := s.inFlight ++ more } key := by
  obtain ⟨before, last, after, outbox, withdraws, flights⟩ := ahead
  refine ⟨before, last, after, outbox, withdraws, ?_⟩
  intro flight member asserts
  rcases List.mem_append.mp member with old | new
  · exact flights flight old asserts
  · exact absurd asserts (silent flight new)

/-- Sending messages that do not assert a gone key keeps it gone. -/
theorem Gone.send
    (gone : s.Gone delay key)
    {more : List Flight}
    (silent : ∀ flight ∈ more, ¬ Asserts flight.msg key) :
    Gone delay { s with inFlight := s.inFlight ++ more } key := by
  obtain ⟨flights, goodbye⟩ := gone
  refine ⟨?_, ?_⟩
  · intro flight member
    rcases List.mem_append.mp member with old | new
    · exact flights flight old
    · exact silent flight new
  · refine goodbye.imp_left ?_
    rintro ⟨flight, member, withdraws⟩
    exact ⟨flight, List.mem_append_left _ member, withdraws⟩

/-- A goodbye to come stays to come while time passes. -/
theorem ahead_advance (ahead : s.Ahead delay key) (ms : Nat) :
    Ahead delay { s with now := s.now + ms } key := by
  obtain ⟨before, last, after, outbox, withdraws, flights⟩ := ahead
  refine ⟨before, last, after, outbox, withdraws, ?_⟩
  intro flight member asserts
  exact (flights flight member asserts).trans_le
    (dueAt_mono (Nat.le_add_right _ _) (Nat.le_refl _) _)

/-- The message that is sent may be the goodbye for the record. -/
theorem ahead_publish
    (steady : Steady p delay s)
    (ahead : s.Ahead delay key)
    {next : Paced}
    {rest : List Paced}
    (outbox : s.outbox = next :: rest)
    (slept : s.lastSent + next.pause ≤ s.now)
    (silent : ¬ Asserts next.msg key) :
    let sent : Audience :=
      { s with
        outbox := rest
        lastSent := s.now
        inFlight := s.inFlight ++ [{ msg := next.msg, sentAt := s.now }]
        goodbyeAt := if next.msg.isGoodbye then s.now else s.goodbyeAt
        announcedAt := if next.msg.isGoodbye then s.announcedAt else s.now }
    sent.Ahead delay key ∨ sent.Gone delay key := by
  intro sent
  obtain ⟨before, last, after, split, withdraws, flights⟩ := ahead
  rw [outbox] at split
  have silentNew :
      ∀ flight ∈ [({ msg := next.msg, sentAt := s.now } : Flight)],
        ¬ Asserts flight.msg key :=
    List.forall_mem_singleton.mpr silent
  cases before with
  | nil =>
      obtain ⟨rfl, rfl⟩ := List.cons.inj split
      right
      refine ⟨?_,
        .inl ⟨{ msg := next.msg, sentAt := s.now }, ?_, withdraws, ?_⟩⟩
      · intro flight member
        rcases List.mem_append.mp member with old | new
        · -- whatever asserts the record is too old to be on its way
          intro asserts
          have early := flights flight old asserts
          rw [List.nil_append, dueAt_cons_of_le slept, dueAt] at early
          exact absurd (steady.flights flight old).2 (Nat.not_le.mpr early)
        · exact silentNew flight new
      · exact List.mem_append_right _ List.mem_cons_self
      · dsimp only [sent]
        rw [if_pos withdraws.1]
  | cons first between =>
      obtain ⟨rfl, rfl⟩ := List.cons.inj split
      left
      refine ⟨between, last, after, rfl, withdraws, ?_⟩
      intro flight member asserts
      rcases List.mem_append.mp member with old | new
      · have early := flights flight old asserts
        rwa [List.cons_append, dueAt_cons_of_le slept] at early
      · exact absurd asserts (silentNew flight new)

/-- Publishing a message that does not assert a gone key keeps it gone. -/
theorem gone_publish
    (steady : Steady p delay s)
    (gone : s.Gone delay key)
    {next : Paced}
    (rest : List Paced)
    (silent : ¬ Asserts next.msg key) :
    Gone delay
      { s with
        outbox := rest
        lastSent := s.now
        inFlight := s.inFlight ++ [{ msg := next.msg, sentAt := s.now }]
        goodbyeAt := if next.msg.isGoodbye then s.now else s.goodbyeAt
        announcedAt := if next.msg.isGoodbye then s.announcedAt else s.now }
      key := by
  have silentNew :
      ∀ flight ∈ [({ msg := next.msg, sentAt := s.now } : Flight)],
        ¬ Asserts flight.msg key :=
    List.forall_mem_singleton.mpr silent
  obtain ⟨flights, goodbye⟩ := gone.send silentNew
  have later :
      s.goodbyeAt ≤ if next.msg.isGoodbye then s.now else s.goodbyeAt := by
    split
    · exact steady.goodbye
    · exact Nat.le_refl _
  refine ⟨flights, ?_⟩
  rcases goodbye with ⟨flight, member, withdraws, sentBefore⟩ | ends
  · exact .inl ⟨flight, member, withdraws, sentBefore.trans later⟩
  · refine .inr (ends.mono ?_)
    dsimp only
    omega

/-- The listener hears a message that does not assert the record. -/
theorem gone_hear
    (steady : Steady p delay s)
    (gone : s.Gone delay key)
    {flight : Flight}
    (isFlight : flight ∈ s.inFlight)
    (again : Bool) :
    Gone delay
      { s with
        cache := listen s.now flight.msg s.cache
        inFlight := if again then s.inFlight else s.inFlight.erase flight }
      key := by
  obtain ⟨flights, goodbye⟩ := gone
  refine ⟨fun other member => flights other (mem_of_mem_heard member), ?_⟩
  rcases goodbye with ⟨withdrawing, member, withdraws, sentBefore⟩ | ends
  · by_cases same : withdrawing = flight
    · subst same
      have inTime := (steady.flights withdrawing isFlight).2
      refine .inr ((endsBy_listen_withdraws withdraws s.cache).mono ?_)
      dsimp only
      omega
    · exact .inl
        ⟨withdrawing, mem_heard_of_ne same member again, withdraws, sentBefore⟩
  · exact .inr (endsBy_listen ends (flights flight isFlight))

theorem not_asserts_goodbyeMsg (records : List RR) (key : CacheKey) :
    ¬ Asserts (goodbyeMsg records) key :=
  not_asserts_of_isGoodbye (isGoodbye_goodbyeMsg records)

/-- An announcement asserts only the records it was made of. -/
theorem mem_of_asserts_announcement
    {records : List RR}
    {next : Paced}
    (member : next ∈ paced announceInterval (runAnnounce records))
    (asserts : Asserts next.msg key) :
    key ∈ records.map CacheKey.of := by
  have isAnnouncement : next.msg = responseMsg records := by
    rw [paced_runAnnounce] at member
    rcases List.mem_cons.mp member with rfl | second
    · rfl
    · rw [List.mem_singleton.mp second]
  rw [isAnnouncement] at asserts
  obtain ⟨r, isRecord, rfl, -⟩ := asserts
  exact List.mem_map_of_mem isRecord

theorem msg_of_mem_runGoodbye
    {records : List RR}
    {next : Paced}
    (member : next ∈ paced goodbyeInterval (runGoodbye records)) :
    next.msg = goodbyeMsg records := by
  rw [paced_runGoodbye] at member
  rcases List.mem_cons.mp member with rfl | second
  · rfl
  · rw [List.mem_singleton.mp second]

/-- A cache that does not know the name is tidy. -/
theorem tidy_start
    {cache : Cache CacheKey}
    (unknown : ∀ key, p.Names key → cache key = none) :
    Tidy p delay (start p cache) where
  steady := steady_start p delay cache
  outbox := by
    intro next member key asserts
    rw [start] at member
    dsimp only at member
    split at member
    · cases member
    · exact mem_of_asserts_announcement member asserts
  farewell := by
    intro leaving
    cases leaving
  rest := by
    intro key names _
    refine .inr ⟨fun _ member => absurd member List.not_mem_nil, .inr ?_⟩
    have none : (start p cache).cache key = none := unknown key names
    intro kept isKept
    rw [none] at isKept
    cases isKept

/-- With nothing to send, an address that the zone does not have is gone. -/
theorem Tidy.gone_of_idle
    (tidy : Tidy p delay s)
    (idle : s.outbox = [])
    (stays : s.leaving = false)
    (names : p.Names key)
    (absent : key ∉ s.zone.records.map CacheKey.of) :
    s.Gone delay key := by
  refine (tidy.rest key names ?_).resolve_left (not_ahead_of_idle idle)
  rwa [published, stays, if_neg Bool.false_ne_true]

theorem tidy_change
    (short : delay < goodbyeInterval)
    (goodbyes : p.skipGoodbye = false)
    (tidy : Tidy p delay s)
    (addrs : List AddrEntry) :
    Tidy p delay (s.step p (.change addrs)) := by
  have steady : Steady p delay (s.step p (.change addrs)) :=
    steady_step tidy.steady trivial
  rcases change_cases p s addrs with same | ⟨idle, stays, changed⟩
  · rw [same]
    exact tidy
  · rw [changed] at steady ⊢
    refine ⟨steady, ?_, ?_, ?_⟩
    · intro next member key asserts
      simp only [published, stays, Bool.false_eq_true, if_false]
      rcases List.mem_append.mp member with goodbye | announcement
      · split at goodbye
        · rw [msg_of_mem_runGoodbye goodbye] at asserts
          exact absurd asserts (not_asserts_goodbyeMsg _ _)
        · cases goodbye
      · split at announcement
        · exact mem_of_asserts_announcement announcement asserts
        · cases announcement
    · intro leaving
      rw [stays] at leaving
      cases leaving
    · intro key names unpublished
      by_cases had : key ∈ s.zone.records.map CacheKey.of
      · have some : s.zone.records.length > 0 := length_pos_of_mem_keys had
        left
        refine ahead_runGoodbye short
          (fun flight member => (steady.flights flight member).1) had ?_
        rw [goodbyes, decide_eq_true some]
        exact List.prefix_append _ _
      · exact .inr (tidy.gone_of_idle idle stays names had)

theorem tidy_leave
    (short : delay < goodbyeInterval)
    (goodbyes : p.skipGoodbye = false)
    (tidy : Tidy p delay s) :
    Tidy p delay (s.step p .leave) := by
  have steady : Steady p delay (s.step p .leave) :=
    steady_step tidy.steady trivial
  rcases leave_cases p s with same | ⟨idle, stays, left⟩
  · rw [same]
    exact tidy
  · rw [left] at steady ⊢
    have isGoodbye :
        ∀ next ∈
          (if p.skipGoodbye then
            []
          else
            paced goodbyeInterval (runGoodbye s.zone.records)),
          next.msg = goodbyeMsg s.zone.records := by
      intro next member
      rw [goodbyes] at member
      exact msg_of_mem_runGoodbye member
    refine ⟨steady, ?_, fun _ => isGoodbye, ?_⟩
    · intro next member key asserts
      rw [isGoodbye next member] at asserts
      exact absurd asserts (not_asserts_goodbyeMsg _ _)
    · intro key names _
      by_cases had : key ∈ s.zone.records.map CacheKey.of
      · left
        refine ahead_runGoodbye short
          (fun flight member => (steady.flights flight member).1) had ?_
        rw [goodbyes]
        exact List.prefix_refl _
      · exact .inr (tidy.gone_of_idle idle stays names had)

theorem tidy_publish (tidy : Tidy p delay s) :
    Tidy p delay (s.step p .publish) := by
  have steady : Steady p delay (s.step p .publish) :=
    steady_step tidy.steady trivial
  rcases publish_cases p s with same | ⟨next, rest, outbox, slept, sent⟩
  · rw [same]
    exact tidy
  · have isNext : next ∈ s.outbox := outbox ▸ List.mem_cons_self
    have isRest : ∀ other ∈ rest, other ∈ s.outbox := fun other member =>
      outbox ▸ List.mem_cons_of_mem _ member
    rw [sent] at steady ⊢
    refine ⟨steady, ?_, ?_, ?_⟩
    · exact fun other member => tidy.outbox other (isRest other member)
    · exact fun leaving other member =>
        tidy.farewell leaving other (isRest other member)
    · intro key names unpublished
      have silent : ¬ Asserts next.msg key := fun asserts =>
        unpublished (tidy.outbox next isNext key asserts)
      rcases tidy.rest key names unpublished with ahead | gone
      · exact ahead_publish tidy.steady ahead outbox slept silent
      · exact .inr (gone_publish tidy.steady gone rest silent)

theorem tidy_ask
    (tidy : Tidy p delay s)
    {packet : Packet}
    {direct : Bool}
    (prompt : s.Prompt p delay (.ask packet direct)) :
    Tidy p delay (s.step p (.ask packet direct)) := by
  have steady : Steady p delay (s.step p (.ask packet direct)) :=
    steady_step tidy.steady prompt
  rw [step] at steady ⊢
  refine ⟨steady, tidy.outbox, tidy.farewell, ?_⟩
  intro key names unpublished
  have host := tidy.steady.host
  by_cases inZone : key ∈ s.zone.records.map CacheKey.of
  · -- only a host that leaves answers with what it does not publish
    have leaving : s.leaving = true := by
      by_contra stays
      rw [published, if_neg stays] at unpublished
      exact unpublished inZone
    have early : s.now + delay < dueAt s.now s.lastSent s.outbox :=
      prompt leaving
    rcases List.eq_nil_or_concat s.outbox with idle | ⟨before, last, outbox⟩
    · rw [idle, dueAt] at early
      omega
    · left
      rw [List.concat_eq_append] at outbox
      have isLast : last ∈ s.outbox := by
        rw [outbox]
        exact List.mem_append_right _ List.mem_cons_self
      refine ⟨before, last, [], outbox, ?_, ?_⟩
      · rw [tidy.farewell leaving last isLast]
        exact withdraws_goodbyeMsg inZone
      · intro flight member asserts
        dsimp only
        rw [← outbox]
        rcases List.mem_append.mp member with old | new
        · rcases tidy.rest key names unpublished with ahead | gone
          · obtain ⟨before', last', after', split, -, flights⟩ := ahead
            refine (flights flight old asserts).trans_le ?_
            rw [split, List.append_cons before' last' after']
            exact dueAt_le_append _ _ _ _
          · exact absurd asserts (gone.1 flight old)
        · rw [(mem_answers host new).1]
          exact early
  · have silent :
        ∀ flight ∈
          ((newMDNSServer s.zone p.fqdn).handlePacket .running
            packet).2.filterMap (s.answer packet direct),
          ¬ Asserts flight.msg key := by
      intro flight new asserts
      obtain ⟨-, query, -, sent, isSent, same⟩ := mem_answers host new
      rw [same] at asserts
      exact inZone (host.mem_of_asserts isSent names.isAddress asserts)
    exact (tidy.rest key names unpublished).imp (·.send silent) (·.send silent)

/-- Every prompt step keeps the cache tidy. -/
theorem tidy_step
    (short : delay < goodbyeInterval)
    (goodbyes : p.skipGoodbye = false)
    (tidy : Tidy p delay s)
    {action : AudienceAction}
    (prompt : s.Prompt p delay action) :
    Tidy p delay (s.step p action) := by
  have steady : Steady p delay (s.step p action) :=
    steady_step tidy.steady prompt
  cases action with
  | advance ms =>
      refine ⟨steady, tidy.outbox, tidy.farewell, ?_⟩
      intro key names unpublished
      exact (tidy.rest key names unpublished).imp_left (ahead_advance · ms)
  | change addrs =>
      exact tidy_change short goodbyes tidy addrs
  | leave =>
      exact tidy_leave short goodbyes tidy
  | publish =>
      exact tidy_publish tidy
  | ask packet direct =>
      exact tidy_ask tidy prompt
  | hear flight again =>
      rcases hear_cases p s flight again with same | ⟨isFlight, heard⟩
      · rw [same]
        exact tidy
      · rw [heard] at steady ⊢
        refine ⟨steady, tidy.outbox, tidy.farewell, ?_⟩
        intro key names unpublished
        rcases tidy.rest key names unpublished with ahead | gone
        · obtain ⟨before, last, after, outbox, withdraws, flights⟩ := ahead
          exact .inl ⟨before, last, after, outbox, withdraws,
            fun other member => flights other (mem_of_mem_heard member)⟩
        · exact .inr (gone_hear tidy.steady gone isFlight again)
  | foreign msg =>
      refine ⟨steady, tidy.outbox, tidy.farewell, ?_⟩
      intro key names unpublished
      refine (tidy.rest key names unpublished).imp_right ?_
      rintro ⟨flights, goodbye⟩
      refine ⟨flights, goodbye.imp_right ?_⟩
      intro ends
      rw [step]
      dsimp only
      rwa [listen_apart (apart_of_name prompt names.name)]

/--
However messages are delayed within the bound, repeated and reordered, and
whatever is asked meanwhile: a second after the last goodbye was heard a
listener knows no address that the host does not publish, through any number of
address changes and after the host has left.
-/
theorem forgets_run
    (p : Publisher)
    (goodbyes : p.skipGoodbye = false)
    (delay : Nat)
    (short : delay < goodbyeInterval)
    (cache : Cache CacheKey)
    (unknown : ∀ key, p.Names key → cache key = none)
    (actions : List AudienceAction)
    (prompt : AllSteps (step p) (Prompt p delay) (start p cache) actions)
    (s : Audience)
    (reached : s = (start p cache).run p actions)
    (said : ∀ next ∈ s.outbox, next.msg.isGoodbye = false)
    (passed : s.goodbyeAt + delay + 1000 ≤ s.now) :
    ∀ key, p.Names key → Live s.now (s.cache key) → key ∈ s.published := by
  intro key names live
  have tidy : Tidy p delay s := by
    rw [reached]
    exact prompt.invariant
      (fun s action prompt tidy => tidy_step short goodbyes tidy prompt)
      (tidy_start unknown)
  by_contra unpublished
  rcases tidy.rest key names unpublished with ahead | ⟨-, goodbye | ends⟩
  · obtain ⟨before, last, after, outbox, withdraws, -⟩ := ahead
    have isLast : last ∈ s.outbox := by
      rw [outbox]
      exact List.mem_append_right _ List.mem_cons_self
    exact absurd withdraws.1 (Bool.eq_false_iff.mp (said last isLast))
  · obtain ⟨flight, member, -, sentBefore⟩ := goodbye
    have inTime := (tidy.steady.flights flight member).2
    omega
  · exact ends.not_live passed live

/-- The link of the publisher gains a second address. -/
def gainedAddrs : List AddrEntry :=
  [some [10, 0, 0, 1], some [10, 0, 0, 2]]

/-- A publisher announces its address and gets a second one; a query is
answered while the change is announced. -/
def gainsAddress : List AudienceAction :=
  let p := contender 1
  let first := responseMsg p.records
  let both := responseMsg (p.recordsFor gainedAddrs)
  let goodbye := goodbyeMsg p.records
  let query : Packet :=
    { msg := some (hostQuery [typeA]), fromPort := mdnsPort }
  [.publish, .hear { msg := first, sentAt := 0 } false, .advance 1000,
    .publish, .hear { msg := first, sentAt := 1000 } false,
    .change gainedAddrs, .publish,
    .hear { msg := goodbye, sentAt := 1000 } true, .advance 40,
    .hear { msg := goodbye, sentAt := 1000 } false, .advance 60, .publish,
    .hear { msg := goodbye, sentAt := 1100 } false, .publish,
    .ask query false, .hear { msg := both, sentAt := 1100 } false,
    .hear { msg := both, sentAt := 1100 } false, .advance 1000, .publish,
    .hear { msg := both, sentAt := 2100 } false, .advance 100]

/-- Then it leaves. -/
def leavesAfterwards : List AudienceAction :=
  let goodbye := goodbyeMsg ((contender 1).recordsFor gainedAddrs)
  gainsAddress ++
    [.leave, .publish, .hear { msg := goodbye, sentAt := 2200 } false,
      .advance 100, .publish, .hear { msg := goodbye, sentAt := 2300 } false,
      .advance 1100]

/-- An address change and a departure, with all messages heard. -/
theorem forgets_run_leavesAfterwards :
    let s :=
      (start (contender 1) fun _ => none).run (contender 1) leavesAfterwards
    s.published = [] ∧
      ∀ key, (contender 1).Names key → Live s.now (s.cache key) →
        key ∈ s.published := by
  intro s
  refine ⟨by decide +kernel, ?_⟩
  exact forgets_run (contender 1) rfl 50 (by decide) (fun _ => none)
    (fun _ _ => rfl) leavesAfterwards (by decide +kernel) s rfl
    (by decide +kernel) (by decide +kernel)

end Audience

end Forgetting

end DnsServices.MdnsPublisher
