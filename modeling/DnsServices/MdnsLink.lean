import Mathlib.Data.Fintype.EquivFin
import Mathlib.Order.WellFounded
import DnsServices.MdnsGoodbye
import DnsServices.MdnsLegacy

namespace DnsServices.MdnsPublisher

open Runs

/-!
# Publishers on one link

Any number of publishers share a link.  Each is the goroutine of `main`, which
probes, announces and sleeps in between, the goroutine that watches the
addresses, and the receive goroutines, which load the server state first and
act on the packet later.  The network may lose, repeat, delay and reorder what
is sent, and a multicast message also comes back to its sender.
-/

section Code

/-- Probes are sent three times. -/
def probeCount : Nat := 3

/-- The sleep between probes and after the last one, in milliseconds. -/
def probeInterval : Nat := 250

/-- The sleep between announcements, in milliseconds. -/
def announceInterval : Nat := 1000

/-- The header of a probe. -/
def probeHdr : MsgHdr where
  id := 0
  response := false
  opcode := opcodeQuery
  authoritative := true
  truncated := false
  rcode := 0

/-- The whole query that probing sends. -/
def probeQuery (name : String) (ourRecords : List RR) : DnsMsg where
  toMsg := probeMsg name ourRecords
  hdr := probeHdr
  answer := []
  extra := []

/-- The socket is bound to port 5353, which is the source port of everything
that is sent. -/
def mdnsPacket (msg : DnsMsg) : Packet where
  msg := some msg
  fromPort := mdnsPort

/-- A publisher that gets as far as its sockets: `main` refuses to go on
without a usable address. -/
structure Publisher extends WatchConfig where
  addrs : List AddrEntry
  skipAnnounce : Bool
  skipGoodbye : Bool
  usable : toWatchConfig.recordsFor addrs ≠ []

namespace Publisher

/-- The records that `main` builds once, for the zone, the probes and the
first announcements. -/
def records (p : Publisher) : List RR :=
  p.recordsFor p.addrs

/-- The server of a publisher, with the zone of its first addresses. -/
def server (p : Publisher) : MdnsServer :=
  newMDNSServer (p.firstZone p.addrs) p.fqdn

end Publisher

/-- Where the goroutine of `main` stands. -/
inductive MainPhase where
  /-- In the random delay before the first probe. -/
  | delayed
  /-- In the loop of `runProbe`, with so many probes sent. -/
  | probing (probes : Nat)
  /-- `runProbe` has returned without an error. -/
  | probed
  /-- Answering queries, with so many announcements sent. -/
  | running (announcements : Nat)
  /-- `log.Fatalf`: the process is gone. -/
  | failed
  deriving Repr, DecidableEq

namespace MainPhase

/-- The state that the receive goroutines load. -/
def state : MainPhase → ServerState
  | delayed => .pending
  | probing _ => .probing
  | probed => .probing
  | running _ => .running
  | failed => .probing

/-- Probing is over and was won, or skipped. -/
def isRunning : MainPhase → Bool
  | running _ => true
  | delayed => false
  | probing _ => false
  | probed => false
  | failed => false

end MainPhase

/-- When the goroutine of `main` did what it has done. -/
structure Times where
  /-- The state became `probing`. -/
  probing : Nat
  /-- Each probe was sent. -/
  probe : Nat → Nat
  /-- The conflict flag was read. -/
  checked : Nat
  /-- The state became `running`. -/
  running : Nat
  /-- The last announcement was sent. -/
  announced : Nat

/-- One publisher at work. -/
structure LinkHost where
  server : MdnsServer
  phase : MainPhase
  /-- What the watching goroutine has still to send. -/
  outbox : List DnsMsg
  times : Times

namespace LinkHost

/-- A publisher that has not begun to probe. -/
def start (p : Publisher) : LinkHost where
  server := p.server
  phase := .delayed
  outbox := []
  times := { probing := 0, probe := fun _ => 0, checked := 0, running := 0, announced := 0 }

/-- The goroutine of `main` goes on after a sleep, and may multicast. -/
def wake
    (p : Publisher)
    (now : Nat)
    (h : LinkHost) : LinkHost × List DnsMsg :=
  match h.phase with
  | .delayed =>
      if p.skipProbe then
        ({ h with phase := .running 0, times.running := now }, [])
      else
        -- activate conflict detection
        ({ h with phase := .probing 0, times.probing := now }, [])
  | .probing probes =>
      if probes < probeCount then
        ({ h with
            phase := .probing (probes + 1)
            times.probe := Function.update h.times.probe probes now },
          [probeQuery h.server.probeName p.records])
      else if h.server.conflictDetected then
        ({ h with phase := .failed, times.checked := now }, [])
      else
        ({ h with phase := .probed, times.checked := now }, [])
  | .probed =>
      ({ h with phase := .running 0, times.running := now }, [])
  | .running announcements =>
      if !p.skipAnnounce && decide (announcements < announceCount) then
        ({ h with
            phase := .running (announcements + 1)
            times.announced := now },
          [responseMsg p.records])
      else
        (h, [])
  | .failed =>
      (h, [])

/-- The rest of `handlePacket`, once the state was loaded. -/
def handle
    (h : LinkHost)
    (state : ServerState)
    (packet : Packet) : LinkHost × List Sent :=
  if h.phase = .failed then
    (h, [])
  else
    let (server, sent) := h.server.handlePacket state packet
    ({ h with server := server }, sent)

/-- The watching goroutine has read the addresses again. -/
def refresh
    (p : Publisher)
    (addrs : List AddrEntry)
    (h : LinkHost) : LinkHost :=
  let refreshed :=
    refreshAddresses p.toWatchConfig (!p.skipAnnounce) (!p.skipGoodbye)
      h.server.zone addrs
  { h with
    server.zone := refreshed.zone
    outbox := refreshed.goodbyes ++ refreshed.announcements }

/-- `main` is through with announcing, and the watching goroutine with what it
had to send. -/
def watching (p : Publisher) (h : LinkHost) : Bool :=
  match h.phase with
  | .running announcements =>
      (p.skipAnnounce || announcements == announceCount) && h.outbox.isEmpty
  | .delayed => false
  | .probing _ => false
  | .probed => false
  | .failed => false

end LinkHost

variable {ι : Type} [DecidableEq ι]

/-- A message on the link.  Without a source it comes from another device, and
without a destination it goes to the group. -/
structure Carried (ι : Type) where
  source : Option ι
  dest : Option ι
  sentAt : Nat
  packet : Packet
  deriving Repr, DecidableEq

/-- A message reaches a host: it was sent to the group or to the host. -/
def Carried.For {ι : Type} (carried : Carried ι) (i : ι) : Prop :=
  carried.dest = none ∨ carried.dest = some i

/-- A packet that a receive goroutine has read, with the state it loaded. -/
structure Receipt (ι : Type) where
  host : ι
  carried : Carried ι
  readAt : Nat
  state : ServerState
  deriving Repr, DecidableEq

/-- Publishers on one link, and the packets on it: sent ones stay, so that they
may arrive late, again or never. -/
structure Link (ι : Type) where
  now : Nat
  hosts : ι → LinkHost
  /-- Everything that was ever sent. -/
  sent : List (Carried ι)
  inHand : List (Receipt ι)
  /-- What was acted on, and when. -/
  handled : List (Receipt ι × Nat)

/-- One step of the link, of a publisher or of another device. -/
inductive LinkAction (ι : Type) where
  /-- Time passes. -/
  | advance (ms : Nat)
  | wake (i : ι)
  /-- A receive goroutine reads a packet and loads the state. -/
  | receive (i : ι) (carried : Carried ι)
  | dispatch (receipt : Receipt ι)
  /-- Another device sends a packet. -/
  | foreign (dest : Option ι) (packet : Packet)
  | refresh (i : ι) (addrs : List AddrEntry)
  /-- The watching goroutine sends what is next. -/
  | publish (i : ι)
  deriving Repr, DecidableEq

namespace Link

/-- Nobody has sent anything. -/
def start (ps : ι → Publisher) : Link ι where
  now := 0
  hosts := fun i => LinkHost.start (ps i)
  sent := []
  inHand := []
  handled := []

/-- Put a publisher in. -/
def setHost (link : Link ι) (i : ι) (h : LinkHost) : Link ι :=
  { link with hosts := Function.update link.hosts i h }

/-- Packets go onto the link. -/
def send (link : Link ι) (carried : List (Carried ι)) : Link ι :=
  { link with sent := link.sent ++ carried }

/-- A message to the group. -/
def multicast (link : Link ι) (i : ι) (msg : DnsMsg) : Carried ι where
  source := some i
  dest := none
  sentAt := link.now
  packet := mdnsPacket msg

/-- An answer on its way; a response to another device leaves the model. -/
def answer
    (link : Link ι)
    (i : ι)
    (source : Option ι) : Sent → Option (Carried ι)
  | .multicast msg => some (link.multicast i msg)
  | .unicast msg =>
      source.map fun querier =>
        { source := some i
          dest := some querier
          sentAt := link.now
          packet := mdnsPacket msg }

/-- One step; packets that are received are handled later, in the state that was
loaded then. -/
def step
    (ps : ι → Publisher)
    (link : Link ι) : LinkAction ι → Link ι
  | .advance ms => { link with now := link.now + ms }
  | .wake i =>
      let (h, sent) := (link.hosts i).wake (ps i) link.now
      (link.setHost i h).send (sent.map (link.multicast i))
  | .receive i carried =>
      { link with
        inHand :=
          link.inHand ++
            [{ host := i
               carried := carried
               readAt := link.now
               state := (link.hosts i).phase.state }] }
  | .dispatch receipt =>
      let (h, sent) :=
        (link.hosts receipt.host).handle receipt.state receipt.carried.packet
      let acted :=
        (link.setHost receipt.host h).send
          (sent.filterMap (link.answer receipt.host receipt.carried.source))
      { acted with
        inHand := link.inHand.erase receipt
        handled := link.handled ++ [(receipt, link.now)] }
  | .foreign dest packet =>
      link.send
        [{ source := none
           dest := dest
           sentAt := link.now
           packet := packet }]
  | .refresh i addrs =>
      link.setHost i ((link.hosts i).refresh (ps i) addrs)
  | .publish i =>
      let h := link.hosts i
      (link.setHost i { h with outbox := h.outbox.tail }).send
        (h.outbox.head?.toList.map (link.multicast i))

/-- What can happen on the link.  A packet may be read as often as the network
repeats it, or never, and no other device claims a name that is probed. -/
def Possible
    (ps : ι → Publisher)
    (link : Link ι) : LinkAction ι → Prop
  | .advance _ => True
  | .wake _ => True
  | .receive i carried => carried ∈ link.sent ∧ carried.For i
  | .dispatch receipt => receipt ∈ link.inHand
  | .foreign _ packet => ∀ i, ¬ (ps i).server.Reacts packet
  | .refresh i _ => (link.hosts i).watching (ps i) = true
  | .publish _ => True

end Link

end Code

section Names

/-- Two publishers want one name. -/
def Publisher.SameName (p q : Publisher) : Prop :=
  equalFold p.fqdn q.fqdn = true

theorem Publisher.sameName_self (p : Publisher) : p.SameName p :=
  equalFold_self p.fqdn

/-- Folded equality is transitive. -/
theorem equalFold_trans
    {first second third : String}
    (left : equalFold first second = true)
    (right : equalFold second third = true) :
    equalFold first third = true := by
  rw [equalFold, beq_iff_eq] at left right ⊢
  exact left.trans right

/-- The proposed records of `p` make `q` defer. -/
def Publisher.Beats (p q : Publisher) : Prop :=
  win q.records p.records = true

/-- A publisher beats another whose sorted keys precede its own, greater keys
first. -/
theorem Publisher.beats_iff (p q : Publisher) :
    p.Beats q ↔
      List.Lex (· > ·) (sortedKeys q.records) (sortedKeys p.records) :=
  win_iff q.records p.records

/-- Every record of a publisher is about its own name. -/
theorem Publisher.name_of_mem_records
    {p : Publisher}
    {r : RR}
    (member : r ∈ p.records) :
    r.header.name = p.fqdn :=
  (hostRecord_of_mem_recordsForIPs member).name_eq

/-- The first zone of a publisher is a host zone. -/
theorem Publisher.host_firstZone (p : Publisher) (addrs : List AddrEntry) :
    HostZone p.fqdn p.ttl (p.firstZone addrs) where
  made := fun _ member => hostRecord_of_mem_recordsForIPs member
  nsec := rfl

/-- A response about one name only. -/
structure ResponseFor (name : String) (msg : DnsMsg) : Prop where
  response : msg.hdr.response = true
  named : ∀ rr ∈ msg.answer ++ msg.ns ++ msg.extra, rr.header.name = name

/-- A response made of records of one name is a response for it. -/
theorem responseFor_responseMsg
    {name : String}
    {answer : List RR}
    (named : ∀ rr ∈ answer, rr.header.name = name) :
    ResponseFor name (responseMsg answer) where
  response := rfl
  named := by
    simpa [responseMsg] using named

/-- A host zone answers with records of its own name. -/
theorem HostZone.name_of_mem_answering
    {name : String}
    {ttl : UInt32}
    {zone : HostnameZone}
    (host : HostZone name ttl zone)
    {q : Question}
    {r : RR}
    (member : r ∈ zone.answering q) :
    r.header.name = name := by
  have inZone := (zone.answering_sublist q).subset member
  rcases List.mem_append.mp inZone with address | nsec
  · exact (host.made r address).name_eq
  · rw [Option.mem_toList, host.nsec, buildNSEC] at nsec
    split at nsec
    · cases nsec
    · cases nsec
      rfl

theorem name_sentCopy (legacy : Bool) (r : RR) :
    (sentCopy legacy r).header.name = r.header.name := by
  unfold sentCopy capTtl
  split
  · split
    · simp
    · simp
  · rfl

/-- Whatever a host answers is about its own name. -/
theorem HostZone.responseFor_of_mem_answerQuery
    {name : String}
    {ttl : UInt32}
    {zone : HostnameZone}
    (host : HostZone name ttl zone)
    {query : DnsMsg}
    {fromPort : UInt16}
    {sent : Sent}
    (member : sent ∈ answerQuery zone query fromPort) :
    ResponseFor name sent.msg := by
  have named (questions : List Question) :
      ∀ rr ∈ answersToAll zone query fromPort questions,
        rr.header.name = name := by
    intro rr answers
    rw [host.answersToAll_eq] at answers
    obtain ⟨q, -, copied⟩ := List.mem_flatMap.mp answers
    obtain ⟨original, kept, rfl⟩ := List.mem_map.mp copied
    rw [name_sentCopy]
    exact host.name_of_mem_answering (List.mem_filter.mp kept).1
  rcases (mem_answerQuery member).2 with multicast | unicast
  · rw [multicast]
    exact responseFor_responseMsg (named _)
  · rw [unicast, Sent.msg, unicastResponse]
    split
    · exact ⟨rfl, by simpa [responseMsg] using named _⟩
    · exact responseFor_responseMsg (named _)

/-- A server that does not run sends nothing. -/
theorem MdnsServer.mem_handlePacket
    {s : MdnsServer}
    {state : ServerState}
    {packet : Packet}
    {sent : Sent}
    (member : sent ∈ (s.handlePacket state packet).2) :
    state = .running ∧
      ∃ msg, packet.msg = some msg ∧
        sent ∈ answerQuery s.zone msg packet.fromPort := by
  unfold handlePacket at member
  split at member
  · cases member
  · rename_i notPending
    split at member
    · cases member
    · rename_i msg unpacked
      split at member
      · cases member
      · split at member
        · cases member
        · split at member
          · cases member
          · split at member
            · split at member
              · cases member
              · cases member
            · rename_i notProbing
              split at member
              · refine ⟨?_, msg, unpacked, member⟩
                cases state with
                | pending =>
                    exact absurd rfl notPending
                | probing =>
                    exact absurd rfl notProbing
                | running =>
                    rfl
              · cases member

end Names

section Hosts

theorem MainPhase.state_eq_pending_iff (phase : MainPhase) :
    phase.state = .pending ↔ phase = .delayed := by
  cases phase <;> simp [state]

theorem MainPhase.state_eq_running_iff (phase : MainPhase) :
    phase.state = .running ↔ phase.isRunning = true := by
  cases phase <;> simp [state, isRunning]

variable {p : Publisher} {now : Nat} {h : LinkHost}

/-- What the goroutine of `main` does when it goes on: the host it leaves and
the messages it multicasts. -/
inductive Woken
    (p : Publisher)
    (now : Nat)
    (h : LinkHost) : LinkHost → List DnsMsg → Prop where
  | skip
      (delayed : h.phase = .delayed)
      (skips : p.skipProbe = true) :
      Woken p now h
        { h with phase := .running 0, times.running := now } []
  | activate
      (delayed : h.phase = .delayed)
      (probes : p.skipProbe = false) :
      Woken p now h
        { h with phase := .probing 0, times.probing := now } []
  | probe
      {probes : Nat}
      (probing : h.phase = .probing probes)
      (more : probes < probeCount) :
      Woken p now h
        { h with
          phase := .probing (probes + 1)
          times.probe := Function.update h.times.probe probes now }
        [probeQuery h.server.probeName p.records]
  | conflict
      {probes : Nat}
      (probing : h.phase = .probing probes)
      (all : probeCount ≤ probes)
      (flagged : h.server.conflictDetected = true) :
      Woken p now h { h with phase := .failed, times.checked := now } []
  | clear
      {probes : Nat}
      (probing : h.phase = .probing probes)
      (all : probeCount ≤ probes)
      (unflagged : h.server.conflictDetected = false) :
      Woken p now h { h with phase := .probed, times.checked := now } []
  | run
      (probed : h.phase = .probed) :
      Woken p now h
        { h with phase := .running 0, times.running := now } []
  | announce
      {announcements : Nat}
      (running : h.phase = .running announcements) :
      Woken p now h
        { h with
          phase := .running (announcements + 1)
          times.announced := now }
        [responseMsg p.records]
  | idle : Woken p now h h []

theorem woken_wake (p : Publisher) (now : Nat) (h : LinkHost) :
    Woken p now h (h.wake p now).1 (h.wake p now).2 := by
  unfold LinkHost.wake
  split
  next delayed =>
    split
    next skips =>
      exact .skip delayed skips
    next probes =>
      exact .activate delayed (by simpa using probes)
  next probes probing =>
    split
    next more =>
      exact .probe probing more
    next all =>
      split
      next flagged =>
        exact .conflict probing (by omega) flagged
      next unflagged =>
        exact .clear probing (by omega) (by simpa using unflagged)
  next probed =>
    exact .run probed
  next announcements running =>
    split
    · exact .announce running
    · exact .idle
  next =>
    exact .idle

/-- Acting on a packet changes nothing but the conflict flag. -/
structure Acted
    (state : ServerState)
    (packet : Packet)
    (h acted : LinkHost) : Prop where
  phase : acted.phase = h.phase
  outbox : acted.outbox = h.outbox
  times : acted.times = h.times
  zone : acted.server.zone = h.server.zone
  name : acted.server.probeName = h.server.probeName
  kept : h.server.conflictDetected = true →
    acted.server.conflictDetected = true
  raised : acted.server.conflictDetected = true →
    h.server.conflictDetected = true ∨
      state = .probing ∧ h.server.Reacts packet
  raises : h.phase ≠ .failed → state = .probing → h.server.Reacts packet →
    acted.server.conflictDetected = true

theorem acted_handle
    (h : LinkHost)
    (state : ServerState)
    (packet : Packet) :
    Acted state packet h (h.handle state packet).1 := by
  unfold LinkHost.handle
  split
  next failed =>
    exact ⟨rfl, rfl, rfl, rfl, rfl, id, Or.inl, fun other => absurd failed other⟩
  next =>
    have raised := MdnsServer.raised_handlePacket h.server state packet
    exact ⟨rfl, rfl, rfl, raised.zone, raised.probeName,
      fun already => raised.conflict.mpr (Or.inl already), raised.conflict.mp,
      fun _ probing reacts => raised.conflict.mpr (Or.inr ⟨probing, reacts⟩)⟩

/-- Only packets that were read while the server ran are answered. -/
theorem mem_handle
    {state : ServerState}
    {packet : Packet}
    {sent : Sent}
    (member : sent ∈ (h.handle state packet).2) :
    state = .running ∧
      ∃ msg, packet.msg = some msg ∧
        sent ∈ answerQuery h.server.zone msg packet.fromPort := by
  unfold LinkHost.handle at member
  split at member
  · cases member
  · exact MdnsServer.mem_handlePacket member

/-- What stays true of one publisher, given what excuses a conflict. -/
structure HostSound
    (p : Publisher)
    (excused : Prop)
    (h : LinkHost) : Prop where
  name : h.server.probeName = p.fqdn
  zone : HostZone p.fqdn p.ttl h.server.zone
  first : h.phase.isRunning = false →
    h.server.zone = p.firstZone p.addrs
  outbox : ∀ msg ∈ h.outbox,
    h.phase.isRunning = true ∧ ResponseFor p.fqdn msg
  flagged : h.phase.isRunning = false →
    h.server.conflictDetected = true → excused
  failed : h.phase = .failed → h.server.conflictDetected = true

variable {excused : Prop}

/-- A weaker excuse leaves a host sound. -/
theorem HostSound.mono
    (sound : HostSound p excused h)
    {weaker : Prop}
    (implies : excused → weaker) :
    HostSound p weaker h :=
  { sound with
    flagged := fun waiting flag => implies (sound.flagged waiting flag) }

theorem hostSound_start (p : Publisher) (excused : Prop) :
    HostSound p excused (LinkHost.start p) where
  name := rfl
  zone := p.host_firstZone p.addrs
  first := fun _ => rfl
  outbox := by simp [LinkHost.start]
  flagged := by simp [LinkHost.start, Publisher.server, newMDNSServer]
  failed := by simp [LinkHost.start]

/-- A host that runs goes on running. -/
theorem Woken.running
    {woken : LinkHost}
    {sent : List DnsMsg}
    (wakes : Woken p now h woken sent)
    (running : h.phase.isRunning = true) :
    woken.phase.isRunning = true := by
  cases wakes with
  | skip _ _ =>
      rfl
  | activate delayed _ =>
      simp [delayed, MainPhase.isRunning] at running
  | probe probing _ =>
      simp [probing, MainPhase.isRunning] at running
  | conflict probing _ _ =>
      simp [probing, MainPhase.isRunning] at running
  | clear probing _ _ =>
      simp [probing, MainPhase.isRunning] at running
  | run _ =>
      rfl
  | announce _ =>
      rfl
  | idle =>
      exact running

/-- Only the phase of a host changes, and a running host goes on running. -/
theorem HostSound.rephase
    (sound : HostSound p excused h)
    {phase : MainPhase}
    {times : Times}
    (stays : h.phase.isRunning = true → phase.isRunning = true)
    (failed : phase = .failed → h.server.conflictDetected = true) :
    HostSound p excused { h with phase := phase, times := times } := by
  have waits (waiting : phase.isRunning = false) :
      h.phase.isRunning = false := by
    cases before : h.phase.isRunning with
    | false =>
        rfl
    | true =>
        rw [stays before] at waiting
        cases waiting
  exact
    { name := sound.name
      zone := sound.zone
      first := fun waiting => sound.first (waits waiting)
      outbox := fun msg member =>
        ⟨stays (sound.outbox msg member).1, (sound.outbox msg member).2⟩
      flagged := fun waiting => sound.flagged (waits waiting)
      failed := failed }

theorem HostSound.wake
    {woken : LinkHost}
    {sent : List DnsMsg}
    (sound : HostSound p excused h)
    (wakes : Woken p now h woken sent) :
    HostSound p excused woken := by
  have stays := wakes.running
  cases wakes with
  | skip _ _ =>
      exact sound.rephase stays nofun
  | activate _ _ =>
      exact sound.rephase stays nofun
  | probe _ _ =>
      exact sound.rephase stays nofun
  | conflict _ _ flagged =>
      exact sound.rephase stays fun _ => flagged
  | clear _ _ _ =>
      exact sound.rephase stays nofun
  | run _ =>
      exact sound.rephase stays nofun
  | announce _ =>
      exact sound.rephase stays nofun
  | idle =>
      exact sound

/-- Only probes are sent before the host runs. -/
theorem HostSound.legit_woken
    {woken : LinkHost}
    {sent : List DnsMsg}
    (sound : HostSound p excused h)
    (wakes : Woken p now h woken sent)
    {msg : DnsMsg}
    (member : msg ∈ sent) :
    msg = probeQuery p.fqdn p.records ∨
      woken.phase.isRunning = true ∧ ResponseFor p.fqdn msg := by
  cases wakes with
  | probe _ _ =>
      rw [List.mem_singleton.mp member, sound.name]
      exact Or.inl rfl
  | announce _ =>
      rw [List.mem_singleton.mp member]
      refine Or.inr ⟨rfl, responseFor_responseMsg ?_⟩
      intro rr
      exact Publisher.name_of_mem_records
  | skip _ _ =>
      cases member
  | activate _ _ =>
      cases member
  | conflict _ _ _ =>
      cases member
  | clear _ _ _ =>
      cases member
  | run _ =>
      cases member
  | idle =>
      cases member

/-- The server still takes the same packets for conflicts. -/
theorem HostSound.reacts_eq
    (sound : HostSound p excused h)
    (waiting : h.phase.isRunning = false) :
    h.server.Reacts = p.server.Reacts := by
  have same : MdnsServer.Raised p.server h.server
      (h.server.conflictDetected = true) :=
    { zone := sound.first waiting
      probeName := sound.name
      conflict := by simp [Publisher.server, newMDNSServer] }
  exact same.reacts_eq

/-- Handling a packet keeps a host sound when every conflict has an excuse. -/
theorem HostSound.act
    {state : ServerState}
    {packet : Packet}
    {acted : LinkHost}
    (sound : HostSound p excused h)
    (acts : Acted state packet h acted)
    (conflict : p.server.Reacts packet → excused) :
    HostSound p excused acted where
  name := acts.name.trans sound.name
  zone := acts.zone ▸ sound.zone
  first := by
    rw [acts.phase, acts.zone]
    exact sound.first
  outbox := by
    rw [acts.phase, acts.outbox]
    exact sound.outbox
  flagged := by
    rw [acts.phase]
    intro waiting flag
    rcases acts.raised flag with already | ⟨-, reacts⟩
    · exact sound.flagged waiting already
    · rw [sound.reacts_eq waiting] at reacts
      exact conflict reacts
  failed := by
    rw [acts.phase]
    exact fun failed => acts.kept (sound.failed failed)

/-- Only a running publisher watches its addresses. -/
theorem isRunning_of_watching
    (watching : h.watching p = true) :
    h.phase.isRunning = true := by
  unfold LinkHost.watching at watching
  split at watching
  next running =>
    rw [running]
    rfl
  all_goals cases watching

/-- What the watching goroutine sends is about the name. -/
theorem HostSound.responseFor_refresh
    (sound : HostSound p excused h)
    {addrs : List AddrEntry}
    {msg : DnsMsg}
    (member : msg ∈ (h.refresh p addrs).outbox) :
    ResponseFor p.fqdn msg := by
  have made (records : List RR)
      (named : ∀ r ∈ records, r.header.name = p.fqdn)
      (ttl : UInt32) :
      ResponseFor p.fqdn (responseMsg (records.map (RR.withTtl ttl))) := by
    refine responseFor_responseMsg ?_
    intro rr copied
    obtain ⟨r, original, rfl⟩ := List.mem_map.mp copied
    rw [header_withTtl_name]
    exact named r original
  unfold LinkHost.refresh at member
  cases same : sameRecords h.server.zone.records
      (p.toWatchConfig.recordsFor addrs) with
  | true =>
      rw [refreshAddresses_of_same same] at member
      cases member
  | false =>
      rw [refreshAddresses_of_changed same] at member
      dsimp only at member
      rcases List.mem_append.mp member with goodbye | announcement
      · split at goodbye
        · rw [List.eq_of_mem_replicate goodbye]
          exact made _ (fun r inZone => (sound.zone.made r inZone).name_eq) 0
        · cases goodbye
      · split at announcement
        · rw [List.eq_of_mem_replicate announcement]
          refine responseFor_responseMsg ?_
          intro r published
          exact (hostRecord_of_mem_recordsForIPs published).name_eq
        · cases announcement

theorem HostSound.refresh
    (sound : HostSound p excused h)
    (running : h.phase.isRunning = true)
    (addrs : List AddrEntry) :
    HostSound p excused (h.refresh p addrs) where
  name := sound.name
  zone := by
    unfold LinkHost.refresh
    cases same : sameRecords h.server.zone.records
        (p.toWatchConfig.recordsFor addrs) with
    | true =>
        rw [refreshAddresses_of_same same]
        exact sound.zone
    | false =>
        rw [refreshAddresses_of_changed same]
        exact p.host_firstZone addrs
  first := by
    intro waiting
    rw [LinkHost.refresh, running] at waiting
    cases waiting
  outbox := fun msg member => ⟨running, sound.responseFor_refresh member⟩
  flagged := by
    intro waiting
    rw [LinkHost.refresh, running] at waiting
    cases waiting
  failed := sound.failed

end Hosts

section Safety

variable {ι : Type} {ps : ι → Publisher} {link : Link ι}

/-- The publisher has won its probing. -/
def Link.Running (link : Link ι) (i : ι) : Prop :=
  (link.hosts i).phase.isRunning = true

/-- A message of a publisher is its probe or, once it runs, a response for its
name; other devices do not disturb. -/
def Legit
    (ps : ι → Publisher)
    (running : ι → Prop)
    (carried : Carried ι) : Prop :=
  match carried.source with
  | some j =>
      carried.packet =
          mdnsPacket (probeQuery (ps j).fqdn (ps j).records) ∨
        running j ∧
          ∃ msg, carried.packet = mdnsPacket msg ∧
            ResponseFor (ps j).fqdn msg
  | none => ∀ i, ¬ (ps i).server.Reacts carried.packet

/-- Some publisher of the same name runs, or proposes records that win. -/
def Excused
    (ps : ι → Publisher)
    (running : ι → Prop)
    (i : ι) : Prop :=
  ∃ j, (ps j).SameName (ps i) ∧ (running j ∨ (ps j).Beats (ps i))

theorem Legit.mono
    {running later : ι → Prop}
    {carried : Carried ι}
    (legit : Legit ps running carried)
    (stays : ∀ i, running i → later i) :
    Legit ps later carried := by
  unfold Legit at legit ⊢
  split at legit
  next =>
    exact legit.imp_right fun response => ⟨stays _ response.1, response.2⟩
  next =>
    exact legit

theorem Excused.mono
    {running later : ι → Prop}
    {i : ι}
    (excused : Excused ps running i)
    (stays : ∀ i, running i → later i) :
    Excused ps later i := by
  obtain ⟨j, same, reason⟩ := excused
  exact ⟨j, same, reason.imp_left (stays j)⟩

/-- A probe is taken for a conflict exactly if it is for the same name and wins
the tiebreak. -/
theorem reacts_probe_iff (p q : Publisher) :
    p.server.Reacts (mdnsPacket (probeQuery q.fqdn q.records)) ↔
      q.SameName p ∧ q.Beats p := by
  -- all proposed records have the name of the question
  have kept (same : q.SameName p) :
      (probeRecords q.records).filter p.server.isProbed =
        probeRecords q.records := by
    rw [List.filter_eq_self]
    intro rr copied
    obtain ⟨r, original, rfl⟩ := List.mem_map.mp copied
    rw [MdnsServer.isProbed, header_withTtl_name,
      Publisher.name_of_mem_records original]
    exact same
  have decision (same : q.SameName p) :
      p.server.theyWinTiebreak
          ((probeRecords q.records).filter p.server.isProbed) = true ↔
        q.Beats p := by
    rw [kept same, theyWinTiebreak_iff, sortedKeys_probeRecords, q.beats_iff]
    exact Iff.rfl
  constructor
  · rintro ⟨msg, unpacked, answers | outprobes⟩
    · cases unpacked
      cases answers.2.1
    · cases unpacked
      obtain ⟨-, -, ⟨question, asked, same⟩, wins⟩ := outprobes
      rw [List.mem_singleton.mp asked] at same
      exact ⟨same, (decision same).mp wins⟩
  · rintro ⟨same, beats⟩
    refine ⟨_, rfl, Or.inr ⟨⟨rfl, rfl, rfl⟩, rfl, ?_, (decision same).mpr beats⟩⟩
    exact ⟨_, List.mem_singleton.mpr rfl, same⟩

/-- Whatever a probing host takes for a conflict is excused. -/
theorem Legit.excused
    {running : ι → Prop}
    {carried : Carried ι}
    {i : ι}
    (legit : Legit ps running carried)
    (reacts : (ps i).server.Reacts carried.packet) :
    Excused ps running i := by
  unfold Legit at legit
  split at legit
  next j _ =>
    rcases legit with probe | ⟨runs, msg, packet, response⟩
    · rw [probe] at reacts
      have beats := (reacts_probe_iff (ps i) (ps j)).mp reacts
      exact ⟨j, beats.1, Or.inr beats.2⟩
    · rw [packet] at reacts
      obtain ⟨_, unpacked, answers | outprobes⟩ := reacts
      · cases unpacked
        obtain ⟨-, -, rr, member, probed⟩ := answers
        rw [MdnsServer.isProbed, response.named rr member] at probed
        exact ⟨j, probed, Or.inl runs⟩
      · cases unpacked
        have query := outprobes.2.1
        rw [response.response] at query
        cases query
  next =>
    exact absurd reacts (legit i)

/-- What holds of the link in every run. -/
structure Sound (ps : ι → Publisher) (link : Link ι) : Prop where
  hosts : ∀ i,
    HostSound (ps i) (Excused ps link.Running i) (link.hosts i)
  sent : ∀ carried ∈ link.sent, Legit ps link.Running carried
  inHand : ∀ receipt ∈ link.inHand,
    receipt.carried ∈ link.sent ∧
      (receipt.state = .running → link.Running receipt.host)

/-- A link on which nobody has sent is sound. -/
theorem sound_start (ps : ι → Publisher) : Sound ps (Link.start ps) where
  hosts := fun i => hostSound_start (ps i) _
  sent := by simp [Link.start]
  inHand := by simp [Link.start]

theorem Sound.send
    (sound : Sound ps link)
    {carried : List (Carried ι)}
    (legit : ∀ one ∈ carried, Legit ps link.Running one) :
    Sound ps (link.send carried) where
  hosts := sound.hosts
  sent := by
    intro one member
    rcases List.mem_append.mp member with before | new
    · exact sound.sent one before
    · exact legit one new
  inHand := fun receipt member =>
    ⟨List.mem_append_left _ (sound.inHand receipt member).1,
      (sound.inHand receipt member).2⟩

/-- A probe, or the response of a running publisher, is legitimate. -/
theorem legit_multicast
    {i : ι}
    {now : Link ι}
    {msg : DnsMsg}
    (legit : msg = probeQuery (ps i).fqdn (ps i).records ∨
      link.Running i ∧ ResponseFor (ps i).fqdn msg) :
    Legit ps link.Running (now.multicast i msg) := by
  rcases legit with rfl | ⟨running, response⟩
  · exact Or.inl rfl
  · exact Or.inr ⟨running, msg, rfl, response⟩

/-- Of the publishers that want one name, the proposals of one lose to those
of no other. -/
theorem exists_unbeaten [Finite ι] (ps : ι → Publisher) (i : ι) :
    ∃ j, (ps j).SameName (ps i) ∧
      ∀ k, (ps k).SameName (ps j) → ¬ (ps k).Beats (ps j) := by
  let later : ι → ι → Prop := fun k j =>
    List.Lex (· > ·) (sortedKeys (ps j).records) (sortedKeys (ps k).records)
  have transitive : IsTrans ι later :=
    ⟨fun _ _ _ left right =>
      List.lex_trans (fun below above => lt_trans above below) right left⟩
  have irreflexive : Std.Irrefl later :=
    ⟨fun j => irrefl (sortedKeys (ps j).records)⟩
  have founded := Finite.wellFounded_of_trans_of_irrefl later
  obtain ⟨j, same, unbeaten⟩ :=
    founded.has_min { j | (ps j).SameName (ps i) }
      ⟨i, (ps i).sameName_self⟩
  refine ⟨j, same, ?_⟩
  intro k named beats
  exact unbeaten k (equalFold_trans named same)
    (((ps k).beats_iff (ps j)).mp beats)

variable [DecidableEq ι]

@[simp] theorem Link.hosts_setHost_self
    (link : Link ι)
    (i : ι)
    (h : LinkHost) :
    (link.setHost i h).hosts i = h := by
  simp [setHost]

/-- Replacing one host leaves the others. -/
theorem Link.hosts_setHost_of_ne
    (link : Link ι)
    {i j : ι}
    (other : j ≠ i)
    (h : LinkHost) :
    (link.setHost i h).hosts j = link.hosts j := by
  simp [setHost, other]

/-- Replacing a host by a sound one keeps the link sound. -/
theorem Sound.setHost
    (sound : Sound ps link)
    {i : ι}
    {h : LinkHost}
    (stays : link.Running i → h.phase.isRunning = true)
    (replaced : HostSound (ps i) (Excused ps link.Running i) h) :
    Sound ps (link.setHost i h) := by
  have runs (j : ι) (running : link.Running j) :
      (link.setHost i h).Running j := by
    unfold Link.Running
    by_cases same : j = i
    · subst same
      rw [Link.hosts_setHost_self]
      exact stays running
    · rw [Link.hosts_setHost_of_ne link same]
      exact running
  refine ⟨?_, fun carried member => (sound.sent carried member).mono runs,
    fun receipt member => ?_⟩
  · intro j
    by_cases same : j = i
    · subst same
      rw [Link.hosts_setHost_self]
      exact replaced.mono fun excused => excused.mono runs
    · rw [Link.hosts_setHost_of_ne link same]
      exact (sound.hosts j).mono fun excused => excused.mono runs
  · obtain ⟨sent, loaded⟩ := sound.inHand receipt member
    exact ⟨sent, fun running => runs _ (loaded running)⟩

/-- Waking a host keeps the link sound. -/
theorem Sound.wake (sound : Sound ps link) (i : ι) :
    Sound ps (link.step ps (.wake i)) := by
  have wakes := woken_wake (ps i) link.now (link.hosts i)
  have replaced := sound.setHost wakes.running ((sound.hosts i).wake wakes)
  refine replaced.send ?_
  intro carried member
  obtain ⟨msg, sent, rfl⟩ := List.mem_map.mp member
  refine legit_multicast (((sound.hosts i).legit_woken wakes sent).imp_right ?_)
  intro response
  refine ⟨?_, response.2⟩
  simpa [Link.Running] using response.1

theorem Sound.receive
    (sound : Sound ps link)
    {i : ι}
    {carried : Carried ι}
    (sent : carried ∈ link.sent) :
    Sound ps (link.step ps (.receive i carried)) where
  hosts := sound.hosts
  sent := sound.sent
  inHand := by
    intro receipt member
    rcases List.mem_append.mp member with before | new
    · exact sound.inHand receipt before
    · rw [List.mem_singleton.mp new]
      exact ⟨sent, (MainPhase.state_eq_running_iff _).mp⟩

/-- Acting on a received packet keeps the link sound. -/
theorem Sound.dispatch
    (sound : Sound ps link)
    {receipt : Receipt ι}
    (member : receipt ∈ link.inHand) :
    Sound ps (link.step ps (.dispatch receipt)) := by
  obtain ⟨sent, loaded⟩ := sound.inHand receipt member
  have acts := acted_handle (link.hosts receipt.host) receipt.state
    receipt.carried.packet
  have stays : link.Running receipt.host →
      ((link.hosts receipt.host).handle receipt.state
        receipt.carried.packet).1.phase.isRunning = true := by
    intro running
    rw [acts.phase]
    exact running
  have replaced := sound.setHost stays
    ((sound.hosts receipt.host).act acts fun reacts =>
      (sound.sent receipt.carried sent).excused reacts)
  have answered :
      Sound ps
        ((link.setHost receipt.host
          ((link.hosts receipt.host).handle receipt.state
            receipt.carried.packet).1).send
          (((link.hosts receipt.host).handle receipt.state
            receipt.carried.packet).2.filterMap
              (link.answer receipt.host receipt.carried.source))) := by
    refine replaced.send ?_
    intro carried answers
    obtain ⟨reply, replied, carries⟩ := List.mem_filterMap.mp answers
    obtain ⟨running, msg, -, answering⟩ := mem_handle replied
    have response :=
      (sound.hosts receipt.host).zone.responseFor_of_mem_answerQuery answering
    have runs :
        (link.setHost receipt.host
          ((link.hosts receipt.host).handle receipt.state
            receipt.carried.packet).1).Running receipt.host := by
      simpa [Link.Running] using stays (loaded running)
    cases reply with
    | multicast msg =>
        cases carries
        exact legit_multicast (Or.inr ⟨runs, response⟩)
    | unicast msg =>
        obtain ⟨querier, -, rfl⟩ := Option.map_eq_some_iff.mp carries
        exact Or.inr ⟨runs, msg, rfl, response⟩
  exact
    { hosts := answered.hosts
      sent := answered.sent
      inHand := fun other still =>
        answered.inHand other (List.mem_of_mem_erase still) }

theorem Sound.publish (sound : Sound ps link) (i : ι) :
    Sound ps (link.step ps (.publish i)) := by
  have host := sound.hosts i
  have shorter : HostSound (ps i) (Excused ps link.Running i)
      { link.hosts i with outbox := (link.hosts i).outbox.tail } :=
    { host with
      outbox := fun msg member =>
        host.outbox msg (List.mem_of_mem_tail member) }
  refine Sound.send (Sound.setHost sound (i := i) ?_ shorter) ?_
  · exact fun running => running
  intro carried member
  obtain ⟨msg, sent, rfl⟩ := List.mem_map.mp member
  have inOutbox : msg ∈ (link.hosts i).outbox :=
    List.mem_of_mem_head? (Option.mem_toList.mp sent)
  refine legit_multicast (Or.inr ⟨?_, (host.outbox msg inOutbox).2⟩)
  simpa [Link.Running] using (host.outbox msg inOutbox).1

/-- Every step that is possible keeps the invariant. -/
theorem sound_step
    (link : Link ι)
    (action : LinkAction ι)
    (possible : link.Possible ps action)
    (sound : Sound ps link) :
    Sound ps (link.step ps action) := by
  cases action with
  | advance ms =>
      exact ⟨sound.hosts, sound.sent, sound.inHand⟩
  | wake i =>
      exact sound.wake i
  | receive i carried =>
      exact sound.receive possible.1
  | dispatch receipt =>
      exact sound.dispatch possible
  | foreign dest packet =>
      refine sound.send ?_
      intro carried member
      rw [List.mem_singleton.mp member]
      exact possible
  | refresh i addrs =>
      have running := isRunning_of_watching possible
      exact sound.setHost (fun _ => running)
        ((sound.hosts i).refresh running addrs)
  | publish i =>
      exact sound.publish i

/-- Every possible run keeps the link sound. -/
theorem sound_run
    {actions : List (LinkAction ι)}
    (possible : AllSteps (Link.step ps) (Link.Possible ps) (Link.start ps)
      actions) :
    Sound ps (actions.foldl (Link.step ps) (Link.start ps)) :=
  possible.invariant sound_step (sound_start ps)

/-- However the network loses, repeats, delays and reorders the messages and
however the goroutines are scheduled, not all publishers that want a name lose
it: one of them at least has not failed. -/
theorem exists_not_failed
    [Finite ι]
    {actions : List (LinkAction ι)}
    (possible : AllSteps (Link.step ps) (Link.Possible ps) (Link.start ps)
      actions)
    (i : ι) :
    ∃ j, (ps j).SameName (ps i) ∧
      ((actions.foldl (Link.step ps) (Link.start ps)).hosts j).phase ≠
        .failed := by
  have sound := sound_run possible
  obtain ⟨j, same, unbeaten⟩ := exists_unbeaten ps i
  by_cases failed :
      ((actions.foldl (Link.step ps) (Link.start ps)).hosts j).phase = .failed
  · -- the best host can only have failed because another one answered
    have waiting :
        ((actions.foldl (Link.step ps)
          (Link.start ps)).hosts j).phase.isRunning = false := by
      rw [failed]
      rfl
    obtain ⟨k, named, running | beats⟩ :=
      (sound.hosts j).flagged waiting ((sound.hosts j).failed failed)
    · refine ⟨k, equalFold_trans named same, ?_⟩
      intro failedToo
      rw [Link.Running, failedToo] at running
      cases running
    · exact absurd beats (unbeaten k named)
  · exact ⟨j, same, failed⟩

/-- A publisher of `host.local.` with one IPv4 address. -/
def contender (last : UInt8) : Publisher where
  fqdn := "host.local."
  ttl := 120
  linkIndex := 2
  skipProbe := false
  addrs := [some [10, 0, 0, last]]
  skipAnnounce := false
  skipGoodbye := false
  usable := by simp [WatchConfig.recordsFor, getInterfaceIPs, recordsForIPs,
    recordForIP, IP.isLinkLocalUnicast, IP.isLoopback, IP.to4]

/-- Two publishers with the addresses 10.0.0.1 and 10.0.0.2. -/
def rivals : Fin 2 → Publisher :=
  fun i => if i = 0 then contender 1 else contender 2

/-- The first probe of a publisher, sent at a time. -/
def firstProbe (i : Fin 2) (sentAt : Nat) : Carried (Fin 2) where
  source := some i
  dest := none
  sentAt := sentAt
  packet := mdnsPacket (probeQuery (rivals i).fqdn (rivals i).records)

/-- The second publisher reads a probe of the first one, goes through its own
probes and gives up. -/
def raceOfTwo : List (LinkAction (Fin 2)) :=
  [.wake 0, .wake 1, .wake 0, .receive 1 (firstProbe 0 0),
    .dispatch
      { host := 1
        carried := firstProbe 0 0
        readAt := 0
        state := .probing },
    .wake 1, .wake 1, .wake 1, .wake 1]

/-- Of two rivals for one name the weaker fails and the other is left. -/
theorem exists_not_failed_rivals :
    ((raceOfTwo.foldl (Link.step rivals) (Link.start rivals)).hosts 1).phase =
        .failed ∧
      ∃ j, (rivals j).SameName (rivals 1) ∧
        ((raceOfTwo.foldl (Link.step rivals)
          (Link.start rivals)).hosts j).phase ≠ .failed := by
  refine ⟨by decide +kernel, exists_not_failed ?_ 1⟩
  refine ⟨trivial, trivial, trivial, ⟨?_, Or.inl rfl⟩, ?_,
    trivial, trivial, trivial, trivial, trivial⟩
  · exact List.mem_singleton.mpr rfl
  · exact List.mem_singleton.mpr rfl

end Safety

end DnsServices.MdnsPublisher
