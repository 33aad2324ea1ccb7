import DnsServices.Bootstrap
import DnsServices.Runs

namespace DnsServices.Microdoh3

open Shared Bootstrap Runs

/-!
# The background refresh

`AsyncResolve` of `bootstrap.rs` sends the AAAA and the A query at once and
tells their replies apart by the id.  The ids come from two readings of the
clock; the second is moved by one, which keeps them apart if the readings give
one id, and makes them equal if the first id is the successor of the second.
-/

section Code

/-- Non-blocking A and AAAA resolver (the socket is left out). -/
structure AsyncResolve where
  server : SocketAddr
  qAaaa : Bytes
  qA : Bytes
  idAaaa : UInt16
  idA : UInt16
  deadline : Instant
  attempts : Nat
  aaaa : Option Answer
  a : Option Answer
  deriving Repr, DecidableEq

namespace AsyncResolve

/-- The datagrams that `send_both` hands to the socket; errors are ignored. -/
def sendBoth (resolver : AsyncResolve) : List (SocketAddr × Bytes) :=
  [(resolver.server, resolver.qAaaa), (resolver.server, resolver.qA)]

/-- Send both queries.  The clock is read once for each id. -/
def start
    (dns : SimpleDns)
    (server : SocketAddr)
    (host : String)
    (now : Instant)
    (clockAaaa clockA : Int)
    (socket : Except IoError Unit) :
    Except BootstrapError (AsyncResolve × List (SocketAddr × Bytes)) :=
  let idAaaa := randId clockAaaa
  let idA := randId clockA + 1
  match dns.buildQuery host .aaaa idAaaa with
  | .error text =>
      .error (.packet text)
  | .ok qAaaa =>
      match dns.buildQuery host .a idA with
      | .error text =>
          .error (.packet text)
      | .ok qA =>
          match socket with
          | .error error =>
              .error (.io error)
          | .ok _ =>
              let resolver : AsyncResolve :=
                { server, qAaaa, qA, idAaaa, idA
                  deadline := now + queryTimeout
                  attempts := 1
                  aaaa := none
                  a := none }
              .ok (resolver, resolver.sendBoth)

/-- The TTL of a merged answer, before it is raised to the minimum. -/
def mergeTtl : UInt32 → UInt32 → UInt32
  | 0, 0 =>
      defaultTtl
  | t6, 0 =>
      t6
  | 0, t4 =>
      t4
  | t6, t4 =>
      min t6 t4

/-- Merge both answers. -/
def finish (resolver : AsyncResolve) : Answer :=
  let (v6, t6) := resolver.aaaa.getD ([], 0)
  let (v4, t4) := resolver.a.getD ([], 0)
  (v6 ++ v4, max (mergeTtl t6 t4) minTtl)

/-- One turn of the loop of `on_readable`. -/
def receive
    (parse : Bytes → Option Packet)
    (resolver : AsyncResolve)
    (buf : Bytes) : AsyncResolve :=
  match parseResponse parse buf resolver.idAaaa with
  | some answer =>
      { resolver with aaaa := some answer }
  | none =>
      match parseResponse parse buf resolver.idA with
      | some answer =>
          { resolver with a := some answer }
      | none =>
          -- ID mismatch or parse error: ignore the datagram.
          resolver

/-- Drain the datagrams that the socket holds. -/
def onReadable
    (parse : Bytes → Option Packet)
    (resolver : AsyncResolve)
    (datagrams : List Bytes) :
    AsyncResolve × Option (Except BootstrapError Answer) :=
  let resolver := datagrams.foldl (receive parse) resolver
  if resolver.aaaa.isSome && resolver.a.isSome then
    (resolver, some (.ok resolver.finish))
  else
    (resolver, none)

/-- Deadline passed: resend, or fail terminally. -/
def onTimeout
    (resolver : AsyncResolve)
    (now : Instant) :
    AsyncResolve × List (SocketAddr × Bytes) × Option BootstrapError :=
  if resolver.attempts ≥ maxAttempts then
    (resolver, [],
      some (.io ⟨.timedOut, "bootstrap: all attempts timed out"⟩))
  else
    let resolver :=
      { resolver with
        attempts := resolver.attempts + 1
        deadline := now + queryTimeout }
    (resolver, resolver.sendBoth, none)

/-- What the supervisor's loop hands to a pending refresh. -/
inductive Poll where
  | readable (datagrams : List Bytes)
  | timeout (now : Instant)
  deriving Repr, DecidableEq

/-- What one event of the supervisor's loop makes of a pending refresh. -/
def drive
    (parse : Bytes → Option Packet)
    (resolver : AsyncResolve) : Poll → AsyncResolve
  | .readable datagrams =>
      (resolver.onReadable parse datagrams).1
  | .timeout now =>
      (resolver.onTimeout now).1

end AsyncResolve

end Code

namespace AsyncResolve

section Receiving

variable
  {parse : Bytes → Option Packet}
  {resolver : AsyncResolve}
  {buf : Bytes}
  {packet : Packet}

/-- A reply to the AAAA query is kept as its answer. -/
theorem receive_aaaa
    (parsed : parse buf = some packet)
    (matched : packet.id = resolver.idAaaa) :
    resolver.receive parse buf =
      { resolver with aaaa := some (readAnswers packet.answers) } := by
  have answered :
      parseResponse parse buf resolver.idAaaa =
        some (readAnswers packet.answers) :=
    parseResponse_eq_some_iff.mpr ⟨packet, parsed, matched, rfl⟩
  rw [receive, answered]

/-- A response under another id is no answer to the query. -/
theorem parseResponse_of_id_ne
    (parsed : parse buf = some packet)
    {wantId : UInt16}
    (other : packet.id ≠ wantId) :
    parseResponse parse buf wantId = none := by
  rw [parseResponse, parsed]
  exact if_pos other

/-- A reply to the A query is kept as its answer, unless it also bears the id
of the AAAA query. -/
theorem receive_a
    (parsed : parse buf = some packet)
    (other : packet.id ≠ resolver.idAaaa)
    (matched : packet.id = resolver.idA) :
    resolver.receive parse buf =
      { resolver with a := some (readAnswers packet.answers) } := by
  have answered :
      parseResponse parse buf resolver.idA =
        some (readAnswers packet.answers) :=
    parseResponse_eq_some_iff.mpr ⟨packet, parsed, matched, rfl⟩
  rw [receive, parseResponse_of_id_ne parsed other, answered]

/-- A datagram that does not parse or carries another id. -/
def Foreign
    (parse : Bytes → Option Packet)
    (idAaaa idA : UInt16)
    (buf : Bytes) : Prop :=
  ∀ packet, parse buf = some packet → packet.id ≠ idAaaa ∧ packet.id ≠ idA

theorem receive_foreign
    (foreign : Foreign parse resolver.idAaaa resolver.idA buf) :
    resolver.receive parse buf = resolver := by
  cases parsed : parse buf with
  | none =>
      simp [receive, parseResponse, parsed]
  | some packet =>
      obtain ⟨notAaaa, notA⟩ := foreign packet parsed
      rw [receive, parseResponse_of_id_ne parsed notAaaa,
        parseResponse_of_id_ne parsed notA]

/-- A datagram sets one of the two answers or nothing; with one id for both
queries it never sets the A answer. -/
theorem receive_cases
    (parse : Bytes → Option Packet)
    (resolver : AsyncResolve)
    (buf : Bytes) :
    (∃ answer, resolver.receive parse buf =
        { resolver with aaaa := some answer }) ∨
      (resolver.idAaaa ≠ resolver.idA ∧
        ∃ answer, resolver.receive parse buf =
          { resolver with a := some answer }) ∨
      resolver.receive parse buf = resolver := by
  cases parsed : parse buf with
  | none =>
      refine .inr (.inr (receive_foreign ?_))
      intro packet some
      rw [parsed] at some
      cases some
  | some packet =>
      by_cases toAaaa : packet.id = resolver.idAaaa
      · exact .inl ⟨_, receive_aaaa parsed toAaaa⟩
      · by_cases toA : packet.id = resolver.idA
        · refine .inr (.inl ⟨?_, _, receive_a parsed toAaaa toA⟩)
          rw [← toA]
          exact Ne.symm toAaaa
        · refine .inr (.inr (receive_foreign ?_))
          intro other same
          rw [parsed] at same
          cases same
          exact ⟨toAaaa, toA⟩

end Receiving

section Runs

variable
  {parse : Bytes → Option Packet}
  {resolver : AsyncResolve}
  {datagrams : List Bytes}

/-- The ids stay those of the queries. -/
def HasIds (idAaaa idA : UInt16) (resolver : AsyncResolve) : Prop :=
  resolver.idAaaa = idAaaa ∧ resolver.idA = idA

/-- No datagram changes the ids that the queries went out with. -/
theorem hasIds_receive
    {idAaaa idA : UInt16}
    (ids : HasIds idAaaa idA resolver)
    (buf : Bytes) :
    HasIds idAaaa idA (resolver.receive parse buf) := by
  rcases receive_cases parse resolver buf with
    ⟨_, received⟩ | ⟨-, _, received⟩ | received
  · rw [received]
    exact ids
  · rw [received]
    exact ids
  · rw [received]
    exact ids

/-- With one id for both queries the A answer never arrives. -/
theorem a_foldl_receive_of_same_id
    (same : resolver.idAaaa = resolver.idA)
    (datagrams : List Bytes) :
    (datagrams.foldl (receive parse) resolver).a = resolver.a := by
  induction datagrams generalizing resolver with
  | nil =>
      rfl
  | cons buf rest inductionHypothesis =>
      rw [List.foldl_cons]
      rcases receive_cases parse resolver buf with
        ⟨_, received⟩ | ⟨distinct, -⟩ | received
      · rw [received]
        exact inductionHypothesis same
      · exact (distinct same).elim
      · rw [received]
        exact inductionHypothesis same

/-- Copies of the replies to both queries arrived, among datagrams that carry
other ids or do not parse. -/
structure Delivered
    (parse : Bytes → Option Packet)
    (idAaaa idA : UInt16)
    (aaaaReply aReply : Packet)
    (datagrams : List Bytes) : Prop where
  aaaaId : aaaaReply.id = idAaaa
  aId : aReply.id = idA
  known :
    ∀ buf ∈ datagrams,
      parse buf = some aaaaReply ∨ parse buf = some aReply ∨
        Foreign parse idAaaa idA buf
  aaaaArrived : ∃ buf ∈ datagrams, parse buf = some aaaaReply
  aArrived : ∃ buf ∈ datagrams, parse buf = some aReply

/-- One delivered datagram, for the ids of the queries. -/
def Arrives
    (parse : Bytes → Option Packet)
    (aaaaReply aReply : Packet)
    (resolver : AsyncResolve)
    (buf : Bytes) : Prop :=
  HasIds aaaaReply.id aReply.id resolver ∧
    (parse buf = some aaaaReply ∨ parse buf = some aReply ∨
      Foreign parse aaaaReply.id aReply.id buf)

/-- Every delivered datagram is one of the two replies or answers neither query.
-/
theorem Delivered.arrives
    {aaaaReply aReply : Packet}
    (delivered :
      Delivered parse resolver.idAaaa resolver.idA aaaaReply aReply
        datagrams) :
    AllSteps (receive parse) (Arrives parse aaaaReply aReply) resolver
      datagrams := by
  obtain ⟨aaaaId, aId, known, -, -⟩ := delivered
  have ids : HasIds aaaaReply.id aReply.id resolver :=
    ⟨aaaaId.symm, aId.symm⟩
  rw [← aaaaId, ← aId] at known
  refine (allSteps_of_forall_mem known resolver).under ?_ ?_ ids
  · intro resolver buf _ ids
    exact hasIds_receive ids buf
  · intro resolver buf known ids
    exact ⟨ids, known⟩

section Distinct

variable
  {aaaaReply aReply : Packet}
  {buf : Bytes}
  (distinct : aaaaReply.id ≠ aReply.id)
  (arrives : Arrives parse aaaaReply aReply resolver buf)

include distinct arrives

theorem receive_reply_a
    (parsed : parse buf = some aReply) :
    resolver.receive parse buf =
      { resolver with a := some (readAnswers aReply.answers) } := by
  obtain ⟨⟨idAaaa, idA⟩, -⟩ := arrives
  refine receive_a parsed ?_ idA.symm
  rw [idAaaa]
  exact Ne.symm distinct

/-- An answer that has arrived stays. -/
theorem receive_keeps_aaaa
    (answered : resolver.aaaa = some (readAnswers aaaaReply.answers)) :
    (resolver.receive parse buf).aaaa =
      some (readAnswers aaaaReply.answers) := by
  rcases arrives.2 with toAaaa | toA | foreign
  · rw [receive_aaaa toAaaa arrives.1.1.symm]
  · rw [receive_reply_a distinct arrives toA]
    exact answered
  · rw [← arrives.1.1, ← arrives.1.2] at foreign
    rw [receive_foreign foreign]
    exact answered

/-- Once the A answer is in, later datagrams cannot replace it by another one.
-/
theorem receive_keeps_a
    (answered : resolver.a = some (readAnswers aReply.answers)) :
    (resolver.receive parse buf).a = some (readAnswers aReply.answers) := by
  rcases arrives.2 with toAaaa | toA | foreign
  · rw [receive_aaaa toAaaa arrives.1.1.symm]
    exact answered
  · rw [receive_reply_a distinct arrives toA]
  · rw [← arrives.1.1, ← arrives.1.2] at foreign
    rw [receive_foreign foreign]
    exact answered

end Distinct

/-- Under two ids both answers are there once their replies have arrived. -/
theorem answers_foldl_receive
    {aaaaReply aReply : Packet}
    (distinct : resolver.idAaaa ≠ resolver.idA)
    (delivered :
      Delivered parse resolver.idAaaa resolver.idA aaaaReply aReply
        datagrams) :
    (datagrams.foldl (receive parse) resolver).aaaa =
        some (readAnswers aaaaReply.answers) ∧
      (datagrams.foldl (receive parse) resolver).a =
        some (readAnswers aReply.answers) := by
  rw [← delivered.aaaaId, ← delivered.aId] at distinct
  constructor
  · refine
      delivered.arrives.reaches
        (·.aaaa = some (readAnswers aaaaReply.answers)) ?_ ?_
        delivered.aaaaArrived
    · intro resolver buf arrives answered
      exact receive_keeps_aaaa distinct arrives answered
    · intro resolver buf arrives parsed
      rw [receive_aaaa parsed arrives.1.1.symm]
  · refine
      delivered.arrives.reaches
        (·.a = some (readAnswers aReply.answers)) ?_ ?_
        delivered.aArrived
    · intro resolver buf arrives answered
      exact receive_keeps_a distinct arrives answered
    · intro resolver buf arrives parsed
      rw [receive_reply_a distinct arrives parsed]

end Runs

section Polls

variable
  {parse : Bytes → Option Packet}
  {resolver : AsyncResolve}

/-- A resolver in another round of its attempts. -/
def inRound
    (resolver : AsyncResolve)
    (attempts : Nat)
    (deadline : Instant) : AsyncResolve :=
  { resolver with attempts, deadline }

theorem receive_inRound
    (buf : Bytes)
    (attempts : Nat)
    (deadline : Instant) :
    (resolver.inRound attempts deadline).receive parse buf =
      (resolver.receive parse buf).inRound attempts deadline := by
  simp only [receive, inRound]
  cases parseResponse parse buf resolver.idAaaa with
  | some answer =>
      rfl
  | none =>
      cases parseResponse parse buf resolver.idA with
      | some answer =>
          rfl
      | none =>
          rfl

/-- A whole batch of datagrams is received the same way in every retry round. -/
theorem foldl_receive_inRound
    (datagrams : List Bytes)
    (attempts : Nat)
    (deadline : Instant) :
    datagrams.foldl (receive parse) (resolver.inRound attempts deadline) =
      (datagrams.foldl (receive parse) resolver).inRound attempts
        deadline := by
  induction datagrams generalizing resolver with
  | nil =>
      rfl
  | cons buf rest inductionHypothesis =>
      rw [List.foldl_cons, receive_inRound, inductionHypothesis,
        List.foldl_cons]

@[simp] theorem onReadable_fst (datagrams : List Bytes) :
    (resolver.onReadable parse datagrams).1 =
      datagrams.foldl (receive parse) resolver := by
  unfold onReadable
  dsimp only
  split
  · rfl
  · rfl

/-- A timeout only changes the retry state. -/
theorem onTimeout_fst (resolver : AsyncResolve) (now : Instant) :
    ∃ attempts deadline,
      (resolver.onTimeout now).1 = resolver.inRound attempts deadline := by
  unfold onTimeout
  split
  · exact ⟨resolver.attempts, resolver.deadline, rfl⟩
  · exact ⟨resolver.attempts + 1, now + queryTimeout, rfl⟩

/-- What a poll takes from the socket. -/
def Poll.datagrams : Poll → List Bytes
  | .readable datagrams =>
      datagrams
  | .timeout _ =>
      []

/-- Neither the grouping of the datagrams nor the resends matter to the
answers. -/
theorem foldl_drive (resolver : AsyncResolve) (polls : List Poll) :
    ∃ attempts deadline,
      polls.foldl (drive parse) resolver =
        ((polls.flatMap Poll.datagrams).foldl (receive parse)
          resolver).inRound attempts deadline := by
  induction polls generalizing resolver with
  | nil =>
      exact ⟨resolver.attempts, resolver.deadline, rfl⟩
  | cons poll rest inductionHypothesis =>
      rw [List.foldl_cons, List.flatMap_cons, List.foldl_append]
      cases poll with
      | readable datagrams =>
          rw [drive, onReadable_fst]
          exact inductionHypothesis _
      | timeout now =>
          obtain ⟨attempts, deadline, timedOut⟩ := onTimeout_fst resolver now
          rw [drive, timedOut]
          obtain ⟨lastAttempts, lastDeadline, driven⟩ :=
            inductionHypothesis (resolver.inRound attempts deadline)
          refine ⟨lastAttempts, lastDeadline, ?_⟩
          rw [driven, foldl_receive_inRound]
          rfl

end Polls

section Completion

/-- What a refresh makes of the two replies. -/
def merged (aaaaReply aReply : Packet) : Answer :=
  (aaaaReply.addresses ++ aReply.addresses,
    max
      (mergeTtl (readAnswers aaaaReply.answers).2
        (readAnswers aReply.answers).2)
      minTtl)

/-- With both answers in, finish concatenates them, AAAA first, and floors the
merged lifetime. -/
theorem finish_of_answered
    {resolver : AsyncResolve}
    {six four : Answer}
    (aaaa : resolver.aaaa = some six)
    (a : resolver.a = some four) :
    resolver.finish =
      (six.1 ++ four.1, max (mergeTtl six.2 four.2) minTtl) := by
  rw [finish, aaaa, a]
  rfl

theorem onReadable_snd_of_answered
    {parse : Bytes → Option Packet}
    {resolver : AsyncResolve}
    {datagrams : List Bytes}
    {aaaaReply aReply : Packet}
    (aaaa :
      (datagrams.foldl (receive parse) resolver).aaaa =
        some (readAnswers aaaaReply.answers))
    (a :
      (datagrams.foldl (receive parse) resolver).a =
        some (readAnswers aReply.answers)) :
    (resolver.onReadable parse datagrams).2 =
      some (.ok (merged aaaaReply aReply)) := by
  have finished :
      (datagrams.foldl (receive parse) resolver).finish =
        merged aaaaReply aReply := by
    rw [finish_of_answered aaaa a, readAnswers_fst, readAnswers_fst, merged]
  simp [onReadable, aaaa, a, finished]

theorem onReadable_snd_of_a_none
    {parse : Bytes → Option Packet}
    {resolver : AsyncResolve}
    {datagrams : List Bytes}
    (a : (datagrams.foldl (receive parse) resolver).a = none) :
    (resolver.onReadable parse datagrams).2 = none := by
  simp [onReadable, a]

/-- A resolver that started sent both queries under ids drawn from the clock and
has no answer yet. -/
theorem start_eq_ok
    {dns : SimpleDns}
    {server : SocketAddr}
    {host : String}
    {now : Instant}
    {clockAaaa clockA : Int}
    {socket : Except IoError Unit}
    {resolver : AsyncResolve}
    {sent : List (SocketAddr × Bytes)}
    (started :
      start dns server host now clockAaaa clockA socket =
        .ok (resolver, sent)) :
    resolver.idAaaa = randId clockAaaa ∧ resolver.idA = randId clockA + 1 ∧
      resolver.a = none := by
  unfold start at started
  dsimp only at started
  split at started
  · cases started
  · split at started
    · cases started
    · split at started
      · cases started
      · cases started
        exact ⟨rfl, rfl, rfl⟩

/-- Once both replies have arrived, in whatever order, number of copies and
grouping, a refresh completes with the addresses of the AAAA reply and then
those of the A reply, exactly if the two queries have different ids. -/
theorem completes_iff
    {dns : SimpleDns}
    {server : SocketAddr}
    {host : String}
    {now : Instant}
    {clockAaaa clockA : Int}
    {socket : Except IoError Unit}
    {resolver : AsyncResolve}
    {sent : List (SocketAddr × Bytes)}
    (started :
      start dns server host now clockAaaa clockA socket =
        .ok (resolver, sent))
    {aaaaReply aReply : Packet}
    (polls : List Poll)
    (datagrams : List Bytes)
    (delivered :
      Delivered dns.parse resolver.idAaaa resolver.idA aaaaReply aReply
        (polls.flatMap Poll.datagrams ++ datagrams)) :
    ((polls.foldl (drive dns.parse) resolver).onReadable dns.parse
          datagrams).2 =
        some (.ok (merged aaaaReply aReply)) ↔
      randId clockAaaa ≠ randId clockA + 1 := by
  obtain ⟨idAaaa, idA, none⟩ := start_eq_ok started
  obtain ⟨attempts, deadline, driven⟩ := foldl_drive resolver polls
  have all :
      datagrams.foldl (receive dns.parse)
          (polls.foldl (drive dns.parse) resolver) =
        ((polls.flatMap Poll.datagrams ++ datagrams).foldl
          (receive dns.parse) resolver).inRound attempts deadline := by
    rw [driven, foldl_receive_inRound, List.foldl_append]
  rw [← idAaaa, ← idA]
  constructor
  · intro completes same
    rw [onReadable_snd_of_a_none] at completes
    · cases completes
    · rw [all, inRound]
      exact (a_foldl_receive_of_same_id same _).trans none
  · intro distinct
    obtain ⟨aaaa, a⟩ := answers_foldl_receive distinct delivered
    refine onReadable_snd_of_answered ?_ ?_
    · rw [all]
      exact aaaa
    · rw [all]
      exact a

/-- The question of a query for `x.test`. -/
def xTestQuestion : QType → Bytes
  | .aaaa =>
      [1, 120, 4, 116, 101, 115, 116, 0, 0, 28, 0, 1]
  | .a =>
      [1, 120, 4, 116, 101, 115, 116, 0, 0, 1, 0, 1]

/-- A reply with one record, behind its id. -/
def xTestReply (ttl : UInt8) : QType → Bytes
  | .aaaa =>
      [0x81, 0x80, 0, 1, 0, 1, 0, 0, 0, 0] ++ xTestQuestion .aaaa ++
        [0xC0, 0x0C, 0, 28, 0, 1, 0, 0, 0, ttl, 0, 16,
          0x20, 1, 0x48, 0x60, 0x48, 0x60, 0, 0, 0, 0, 0, 0, 0, 0, 0x88, 0x88]
  | .a =>
      [0x81, 0x80, 0, 1, 0, 1, 0, 0, 0, 0] ++ xTestQuestion .a ++
        [0xC0, 0x0C, 0, 1, 0, 1, 0, 0, 0, ttl, 0, 4, 1, 2, 3, 4]

/-- The replies that name one address of `x.test` each. -/
def xTestPacket (id : UInt16) (ttl : UInt8) : QType → Packet
  | .aaaa =>
      { id
        answers :=
          [⟨ttl.toUInt32, .aaaa #v[0x20, 1, 0x48, 0x60, 0x48, 0x60, 0, 0,
            0, 0, 0, 0, 0, 0, 0x88, 0x88]⟩] }
  | .a =>
      { id
        answers := [⟨ttl.toUInt32, .a 1 2 3 4⟩] }

/-- What `simple-dns` does on the queries for `x.test` and their replies. -/
def xTestDns : SimpleDns where
  parse
    | high :: low :: rest =>
        let id : UInt16 := high.toUInt16 <<< 8 ||| low.toUInt16
        let ttl := rest.getD 31 0
        if rest = xTestReply ttl .aaaa then
          some (xTestPacket id ttl .aaaa)
        else if rest = xTestReply ttl .a then
          some (xTestPacket id ttl .a)
        else
          none
    | _ =>
        none
  buildQuery host qtype id :=
    if host = "x.test" then
      .ok ([(id >>> 8).toUInt8, id.toUInt8, 1, 0, 0, 1, 0, 0, 0, 0, 0, 0] ++
        xTestQuestion qtype)
    else
      .error "unknown name"

/-- A resolver for `x.test` as `start` makes it at time 0. -/
def xTestResolver (idAaaa idA : UInt16) : AsyncResolve where
  server := ⟨.v4 127 0 0 1, 53⟩
  qAaaa :=
    [(idAaaa >>> 8).toUInt8, idAaaa.toUInt8, 1, 0, 0, 1, 0, 0, 0, 0, 0, 0] ++
      xTestQuestion .aaaa
  qA :=
    [(idA >>> 8).toUInt8, idA.toUInt8, 1, 0, 0, 1, 0, 0, 0, 0, 0, 0] ++
      xTestQuestion .a
  idAaaa
  idA
  deadline := queryTimeout
  attempts := 1
  aaaa := none
  a := none

/-- The A reply arrives a round before the AAAA reply, with a stray datagram
between them. -/
theorem completes_outOfOrder :
    (([.readable [[0, 1] ++ xTestReply 60 .a], .timeout 3000000000].foldl
            (drive xTestDns.parse) (xTestResolver 0 1)).onReadable
          xTestDns.parse
          [[7], [0, 1] ++ xTestReply 60 .a, [0, 0] ++ xTestReply 60 .aaaa]).2 =
      some (.ok (merged (xTestPacket 0 60 .aaaa) (xTestPacket 1 60 .a))) := by
  refine
    (completes_iff
      (show
        start xTestDns ⟨.v4 127 0 0 1, 53⟩ "x.test" 0 0 0 (.ok ()) =
          .ok (xTestResolver 0 1, (xTestResolver 0 1).sendBoth)
        by decide +kernel)
      [.readable [[0, 1] ++ xTestReply 60 .a], .timeout 3000000000]
      [[7], [0, 1] ++ xTestReply 60 .a, [0, 0] ++ xTestReply 60 .aaaa]
      ?_).mpr (by decide +kernel)
  refine ⟨rfl, rfl, ?_, ?_, ?_⟩
  · intro buf member
    simp only [List.flatMap_cons, List.flatMap_nil, Poll.datagrams,
      List.cons_append, List.nil_append, List.mem_cons, List.not_mem_nil,
      or_false] at member
    rcases member with rfl | rfl | rfl | rfl
    · exact .inr (.inl (by decide +kernel))
    · refine .inr (.inr ?_)
      intro packet parsed
      cases parsed
    · exact .inr (.inl (by decide +kernel))
    · exact .inl (by decide +kernel)
  · exact ⟨[0, 0] ++ xTestReply 60 .aaaa, by decide +kernel, by decide +kernel⟩
  · exact ⟨[0, 1] ++ xTestReply 60 .a, by decide +kernel, by decide +kernel⟩

/-- Readings 65536 ns and 65537 ns past a second give both queries the id 1,
and the two replies never complete the refresh. -/
theorem not_completes_sameId :
    start xTestDns ⟨.v4 127 0 0 1, 53⟩ "x.test" 0 65536 65537 (.ok ()) =
        .ok (xTestResolver 1 1, (xTestResolver 1 1).sendBoth) ∧
      Delivered xTestDns.parse 1 1 (xTestPacket 1 60 .aaaa) (xTestPacket 1 60 .a)
        [[0, 1] ++ xTestReply 60 .aaaa, [0, 1] ++ xTestReply 60 .a] ∧
      ((xTestResolver 1 1).onReadable xTestDns.parse
          [[0, 1] ++ xTestReply 60 .aaaa, [0, 1] ++ xTestReply 60 .a]).2 =
        none := by
  refine ⟨by decide +kernel, ⟨rfl, rfl, ?_, ?_, ?_⟩, ?_⟩
  · intro buf member
    rcases List.mem_pair.mp member with rfl | rfl
    · exact .inl (by decide +kernel)
    · exact .inr (.inl (by decide +kernel))
  · exact ⟨[0, 1] ++ xTestReply 60 .aaaa, by decide +kernel, by decide +kernel⟩
  · exact ⟨[0, 1] ++ xTestReply 60 .a, by decide +kernel, by decide +kernel⟩
  · exact onReadable_snd_of_a_none (by decide +kernel)

end Completion

end AsyncResolve

end DnsServices.Microdoh3
