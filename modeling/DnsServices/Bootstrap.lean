import DnsServices.Candidates
import DnsServices.Worker

namespace DnsServices.Microdoh3.Bootstrap

open Shared

/-!
# Bootstrap resolution of the upstream's host name

The synchronous half of `bootstrap.rs`: reading an answer, the query loop, and
the resolution at startup.  Building and parsing packets is left to
`simple-dns`; the socket, the clock and what arrives are the environment's.
-/

section Code

/-- How long a round of queries waits for its answers. -/
def queryTimeout : Duration := fromSecs 3

/-- Rounds of queries before a resolution fails. -/
def maxAttempts : Nat := 3

/-- Fallback TTL if the answer carries none. -/
def defaultTtl : UInt32 := 300

/-- Minimum refresh interval. -/
def minTtl : UInt32 := 30

/-- `u32::MAX` -/
def maxTtl : UInt32 := 0xFFFFFFFF

/-- The kinds of `io::ErrorKind` that the resolver tells apart. -/
inductive ErrorKind where
  | notFound
  | timedOut
  | other
  deriving Repr, DecidableEq

/-- `io::Error` -/
structure IoError where
  kind : ErrorKind
  text : String
  deriving Repr, DecidableEq

/-- Why a resolution fails. -/
inductive BootstrapError where
  | io (error : IoError)
  | packet (text : String)
  | noRecords (host : String)
  deriving Repr, DecidableEq

/-- The `Display` text of an error. -/
def BootstrapError.toText : BootstrapError → String
  | .io error =>
      "io: " ++ error.text
  | .packet text =>
      "dns packet: " ++ text
  | .noRecords host =>
      "no A/AAAA records for " ++ host

/-- The two kinds of queries that are sent for a host. -/
inductive QType where
  | aaaa
  | a
  deriving Repr, DecidableEq

/-- The record data that `parse_response` tells apart. -/
inductive RData where
  | a (first second third fourth : UInt8)
  | aaaa (octets : Vector UInt8 16)
  | other
  deriving Repr, DecidableEq

/-- What the resolver reads of an answer record. -/
structure ResourceRecord where
  ttl : UInt32
  rdata : RData
  deriving Repr, DecidableEq

/-- What the resolver reads of a reply. -/
structure Packet where
  id : UInt16
  answers : List ResourceRecord
  deriving Repr, DecidableEq

/-- What the resolver calls of `simple-dns`: `Packet::parse`, and the calls
that make up `build_query`. -/
structure SimpleDns where
  parse : Bytes → Option Packet
  buildQuery : String → QType → UInt16 → Except String Bytes

/-- Addresses and the minimum TTL. -/
abbrev Answer := List IpAddr × UInt32

/-- The address of an address record. -/
def RData.ip : RData → Option IpAddr
  | .a first second third fourth =>
      some (.v4 first second third fourth)
  | .aaaa octets =>
      some (.v6 octets)
  | .other =>
      none

/-- One turn of the loop over the answers of a packet. -/
def collect (found : Answer) (record : ResourceRecord) : Answer :=
  match record.rdata.ip with
  | some ip =>
      (found.1 ++ [ip], min found.2 record.ttl)
  | none =>
      found

/-- The addresses of a packet's answers and the least of their TTLs. -/
def readAnswers (records : List ResourceRecord) : Answer :=
  let (ips, ttl) := records.foldl collect ([], maxTtl)
  (ips, if ttl = maxTtl then defaultTtl else ttl)

/-- Extract matching A/AAAA answers and the minimum TTL; none when the packet's
id does not match. -/
def parseResponse
    (parse : Bytes → Option Packet)
    (buf : Bytes)
    (wantId : UInt16) : Option Answer :=
  match parse buf with
  | none =>
      none
  | some packet =>
      if packet.id ≠ wantId then none else some (readAnswers packet.answers)

/-- Cheap per-process random id, from a clock that reads nanoseconds since the
epoch. -/
def randId (clock : Int) : UInt16 :=
  let nanos : UInt32 :=
    if clock < 0 then 0 else UInt32.ofNat (clock.toNat % 1000000000)
  nanos.toUInt16 ^^^ (nanos >>> 16).toUInt16

/-- What one round of the query loop met. -/
inductive Attempt where
  | sendFailed (error : IoError)
  | received (buf : Bytes)
  | receiveFailed (error : IoError)
  deriving Repr, DecidableEq

/-- The loop of `query`, with the error of the latest round that had one. -/
def queryLoop
    (parse : Bytes → Option Packet)
    (id : UInt16) :
    List Attempt → Option IoError → Except BootstrapError Answer
  | [], lastErr =>
      .error (.io (lastErr.getD ⟨.timedOut, "no response"⟩))
  | .sendFailed error :: rest, _ =>
      queryLoop parse id rest (some error)
  | .received buf :: rest, lastErr =>
      match parseResponse parse buf id with
      | some answer =>
          .ok answer
      | none =>
          -- A response that does not parse or match is only logged.
          queryLoop parse id rest lastErr
  | .receiveFailed error :: rest, _ =>
      queryLoop parse id rest (some error)

/-- What one query meets: the clock that its id is read from, the socket it
binds and sets up, and the rounds of the loop. -/
structure Exchange where
  clock : Int
  socket : Except IoError Unit
  rounds : List Attempt
  deriving Repr

/-- One DNS question round trip with retries. -/
def query
    (dns : SimpleDns)
    (host : String)
    (qtype : QType)
    (exchange : Exchange) : Except BootstrapError Answer :=
  let id := randId exchange.clock
  match dns.buildQuery host qtype id with
  | .error text =>
      .error (.packet text)
  | .ok _ =>
      match exchange.socket with
      | .error error =>
          .error (.io error)
      | .ok _ =>
          queryLoop dns.parse id (exchange.rounds.take maxAttempts) none

/-- Cached resolution result with TTL expiry. -/
structure ResolveState where
  addrs : List IpAddr
  expiresAt : Instant
  deriving Repr, DecidableEq

/-- One turn of the loop over the two question types. -/
def resolveStep
    (dns : SimpleDns)
    (host : String)
    (exchanges : QType → Exchange)
    (found : Answer)
    (qtype : QType) : Answer :=
  match query dns host qtype (exchanges qtype) with
  | .ok (ips, ttl) =>
      (found.1 ++ ips, min found.2 ttl)
  | .error _ =>
      -- A failed query is only logged.
      found

/-- Resolve `host` to A and AAAA records; `literal` is what
`host.parse::<IpAddr>` gives. -/
def resolve
    (dns : SimpleDns)
    (host : String)
    (literal : Option IpAddr)
    (exchanges : QType → Exchange)
    (now : Instant) : Except BootstrapError ResolveState :=
  match literal with
  | some ip =>
      .ok { addrs := [ip], expiresAt := now + fromSecs (86400 * 365) }
  | none =>
      let (addrs, ttl) :=
        [.aaaa, .a].foldl (resolveStep dns host exchanges) ([], maxTtl)
      if addrs.isEmpty then
        .error (.noRecords host)
      else
        let ttl := if ttl = maxTtl ∨ ttl = 0 then defaultTtl else ttl
        .ok { addrs, expiresAt := now + fromSecs ttl.toNat }

/-- Resolve `host`, returning the TTL-bounded state plus the upstream socket
addresses, IPv6 first. -/
def resolveUpstream
    (dns : SimpleDns)
    (host : String)
    (literal : Option IpAddr)
    (exchanges : QType → Exchange)
    (port : UInt16)
    (now : Instant) : Except IoError (ResolveState × List SocketAddr) :=
  match resolve dns host literal exchanges now with
  | .error error =>
      .error ⟨.notFound, error.toText⟩
  | .ok state =>
      let v6 := (state.addrs.filter isIpv6).map (SocketAddr.mk · port)
      let v4 := (state.addrs.filter (!isIpv6 ·)).map (SocketAddr.mk · port)
      .ok (state, v6 ++ v4)

end Code

section Answers

theorem parseResponse_eq_some_iff
    {parse : Bytes → Option Packet}
    {buf : Bytes}
    {wantId : UInt16}
    {answer : Answer} :
    parseResponse parse buf wantId = some answer ↔
      ∃ packet,
        parse buf = some packet ∧ packet.id = wantId ∧
          readAnswers packet.answers = answer := by
  unfold parseResponse
  cases parse buf with
  | none =>
      simp
  | some packet =>
      by_cases same : packet.id = wantId
      · simp [same]
      · simp [same]

/-- Collecting appends the addresses of the records in their order. -/
theorem foldl_collect_fst (records : List ResourceRecord) (found : Answer) :
    (records.foldl collect found).1 =
      found.1 ++ records.filterMap (·.rdata.ip) := by
  induction records generalizing found with
  | nil =>
      simp
  | cons record rest inductionHypothesis =>
      rw [List.foldl_cons, inductionHypothesis, collect]
      cases addressed : record.rdata.ip with
      | none =>
          simp [addressed]
      | some ip =>
          simp [addressed]

/-- The addresses that a packet answers with. -/
def Packet.addresses (packet : Packet) : List IpAddr :=
  packet.answers.filterMap (·.rdata.ip)

/-- The addresses of an answer are those of its packet, in order. -/
theorem readAnswers_fst (packet : Packet) :
    (readAnswers packet.answers).1 = packet.addresses := by
  simp [readAnswers, foldl_collect_fst, Packet.addresses]

/-- No answer is read with the TTL that stands for "no answer". -/
theorem readAnswers_snd_ne_maxTtl (records : List ResourceRecord) :
    (readAnswers records).2 ≠ maxTtl := by
  unfold readAnswers
  dsimp only
  split
  · decide
  · assumption

/-- What the query loop returns was read from a datagram. -/
theorem exists_of_queryLoop_eq_ok
    {parse : Bytes → Option Packet}
    {id : UInt16}
    {rounds : List Attempt}
    {lastErr : Option IoError}
    {answer : Answer}
    (answered : queryLoop parse id rounds lastErr = .ok answer) :
    ∃ buf, parseResponse parse buf id = some answer := by
  induction rounds generalizing lastErr with
  | nil =>
      cases answered
  | cons attempt rest inductionHypothesis =>
      cases attempt with
      | sendFailed error =>
          exact inductionHypothesis answered
      | received buf =>
          rw [queryLoop] at answered
          cases parsed : parseResponse parse buf id with
          | some found =>
              rw [parsed] at answered
              cases answered
              exact ⟨buf, parsed⟩
          | none =>
              rw [parsed] at answered
              exact inductionHypothesis answered
      | receiveFailed error =>
          exact inductionHypothesis answered

theorem exists_of_query_eq_ok
    {dns : SimpleDns}
    {host : String}
    {qtype : QType}
    {exchange : Exchange}
    {answer : Answer}
    (answered : query dns host qtype exchange = .ok answer) :
    ∃ packet : Packet, readAnswers packet.answers = answer := by
  unfold query at answered
  dsimp only at answered
  split at answered
  · cases answered
  · split at answered
    · cases answered
    · obtain ⟨buf, parsed⟩ := exists_of_queryLoop_eq_ok answered
      obtain ⟨packet, -, -, read⟩ := parseResponse_eq_some_iff.mp parsed
      exact ⟨packet, read⟩

end Answers

end DnsServices.Microdoh3.Bootstrap
