import Mathlib.Logic.Relation
import DnsServices.AsyncResolve
import DnsServices.Candidates
import DnsServices.Supervisor
import DnsServices.WorkerSpacing

namespace DnsServices.Microdoh3

open Shared Bootstrap Runs

/-!
# The main loop of the supervisor

One turn of the loop restarts the workers whose time has come, reaps the dead
ones, drives the background refresh, turns the workers' scores into weights and
waits.  Clocks, sockets, `fork`, `waitpid` and the score page are the
environment's.

Beside the program's own variables the loop has history variables: the clock of
the last turn, the calls of `publish`, the moments a refresh was begun, the
datagrams that were sent and those that were read.  They are written and never
read.
-/

section Code

/-- Delay before retrying a failed bootstrap refresh. -/
def retryInterval : Duration := fromSecs 60

/-- How often the supervisor re-reads worker scores and republishes
weights. -/
def weightInterval : Duration := fromSecs 2

/-- A score older than this is ignored. -/
def scoreStaleSecs : UInt64 := 30

/-- `u64::saturating_sub` -/
def saturatingSub (a b : UInt64) : UInt64 :=
  if a < b then 0 else a - b

/-- The loop's parameters. -/
structure LoopConfig where
  dns : SimpleDns
  bootstrapServer : SocketAddr
  host : String
  preferIpv4 : Bool
  cpus : List UInt32

/-- The variables of the main loop. -/
structure SupervisorLoop where
  supervisor : Supervisor
  candidates : List IpAddr
  published : List (IpAddr × UInt32)
  nextRefresh : Instant
  pending : Option AsyncResolve
  readable : Bool
  nextWeights : Instant
  /-- The loop was left, or the supervisor panicked. -/
  ended : Bool
  clock : Instant
  publishes : List (Instant × Publish)
  refreshes : List Instant
  sent : List (SocketAddr × Bytes)
  received : List Bytes

/-- What one turn of the loop meets. -/
structure LoopTurn where
  /-- The clock as the restarts read it. -/
  restartNow : Instant
  forks : UInt32 → ForkResult
  /-- The processes that `waitpid` reports. -/
  reaps : List (Pid × Instant)
  /-- SIGTERM or SIGINT has arrived. -/
  signal : Bool
  /-- The clock as the rest of the turn reads it. -/
  now : Instant
  clockAaaa : Int
  clockA : Int
  socket : Except IoError Unit
  /-- What the bootstrap socket holds. -/
  datagrams : List Bytes
  nowSecs : UInt64
  scores : Nat → Option ScoreSample
  /-- The clock readings of `publish`. -/
  monoNowSecs : UInt64
  monoNowSecsLater : UInt64
  /-- Whether the poll found the bootstrap socket readable. -/
  pollIn : Bool

namespace SupervisorLoop

/-- The loop's variables once the first addresses are published and the workers
are preforked, each at its time. -/
def start
    (cfg : LoopConfig)
    (supervisor : Supervisor)
    (resolveState : ResolveState)
    (remotes : List SocketAddr)
    (publishNow now : Instant)
    (monoNowSecs monoNowSecsLater : UInt64) : SupervisorLoop :=
  let candidates := updateCandidates [] (remotes.map (·.ip)) cfg.preferIpv4
  { supervisor := supervisor
    candidates := candidates
    published := candidates.map fun a => (a, 1)
    nextRefresh := resolveState.expiresAt
    pending := none
    readable := false
    nextWeights := now + weightInterval
    ended := false
    clock := now
    publishes :=
      [(publishNow,
        { addrs := candidates
          weights := List.replicate candidates.length 1
          workers := cfg.cpus.length
          monoNowSecs := monoNowSecs
          monoNowSecsLater := monoNowSecsLater
          secsToExpiry :=
            UInt64.ofNat
              (durationSince resolveState.expiresAt publishNow / fromSecs 1) })]
    refreshes := []
    sent := []
    received := [] }

/-- Spawn workers whose scheduled restart time has arrived. -/
def restartDue (loop : SupervisorLoop) (turn : LoopTurn) : SupervisorLoop :=
  { loop with
    supervisor :=
      (loop.supervisor.due turn.restartNow).foldl
        (fun s cpu => s.restart cpu turn.restartNow (turn.forks cpu))
        loop.supervisor }

/-- Reap all exited children; the signal may have come in between. -/
def reap (loop : SupervisorLoop) (turn : LoopTurn) : SupervisorLoop :=
  let supervisor :=
    { loop.supervisor with
      shutdown := loop.supervisor.shutdown || turn.signal }
  { loop with
    supervisor :=
      turn.reaps.foldl (fun s exit => s.scheduleChildExit exit.1 exit.2)
        supervisor }

/-- Begin a refresh once the last answer has expired. -/
def beginRefresh
    (cfg : LoopConfig)
    (loop : SupervisorLoop)
    (turn : LoopTurn) : SupervisorLoop :=
  if loop.pending.isNone && decide (loop.nextRefresh ≤ turn.now) then
    match AsyncResolve.start cfg.dns cfg.bootstrapServer cfg.host turn.now
        turn.clockAaaa turn.clockA turn.socket with
    | .ok (resolver, queries) =>
        { loop with
          pending := some resolver
          refreshes := loop.refreshes ++ [turn.now]
          sent := loop.sent ++ queries }
    | .error _ =>
        { loop with
          nextRefresh := turn.now + retryInterval
          refreshes := loop.refreshes ++ [turn.now] }
  else
    loop

/-- Read the replies if the last poll found any. -/
def readReplies
    (cfg : LoopConfig)
    (loop : SupervisorLoop)
    (turn : LoopTurn) : SupervisorLoop :=
  match loop.pending with
  | none => loop
  | some resolver =>
      if loop.readable then
        let loop := { loop with received := loop.received ++ turn.datagrams }
        match resolver.onReadable cfg.dns.parse turn.datagrams with
        | (_, some (.ok (ips, ttl))) =>
            { loop with
              candidates :=
                updateCandidates loop.candidates ips cfg.preferIpv4
              nextRefresh := turn.now + fromSecs ttl.toNat
              pending := none }
        | (_, some (.error _)) =>
            { loop with
              nextRefresh := turn.now + retryInterval
              pending := none }
        | (resolver, none) => { loop with pending := some resolver }
      else
        loop

/-- Resend or give up when the deadline has passed. -/
def checkDeadline (loop : SupervisorLoop) (turn : LoopTurn) : SupervisorLoop :=
  match loop.pending with
  | none => loop
  | some resolver =>
      if resolver.deadline ≤ turn.now then
        match resolver.onTimeout turn.now with
        | (_, _, some _) =>
            { loop with
              nextRefresh := turn.now + retryInterval
              pending := none }
        | (resolver, queries, none) =>
            { loop with
              pending := some resolver
              sent := loop.sent ++ queries }
      else
        loop

/-- The scores that count: reported at all, and not long ago. -/
def samples (cfg : LoopConfig) (turn : LoopTurn) : List (Option ScoreSample) :=
  (List.range cfg.cpus.length).map fun i =>
    (turn.scores i).filter fun s =>
      s.updatedMonoSecs != 0 &&
        decide (saturatingSub turn.nowSecs s.updatedMonoSecs ≤ scoreStaleSecs)

/-- Turn worker measurements into selection weights, and publish them only on
change. -/
def weigh
    (cfg : LoopConfig)
    (loop : SupervisorLoop)
    (turn : LoopTurn) : SupervisorLoop :=
  if loop.nextWeights ≤ turn.now then
    let loop := { loop with nextWeights := turn.now + weightInterval }
    match computeWeights loop.candidates (samples cfg turn)
        cfg.cpus.length with
    -- the source divides by zero
    | none => { loop with ended := true }
    | some fresh =>
        if fresh ≠ loop.published then
          { loop with
            published := fresh
            publishes := loop.publishes ++
              [(turn.now,
                publishWeights fresh cfg.cpus.length turn.monoNowSecs
                  turn.monoNowSecsLater)] }
        else
          loop
  else
    loop

/-- Milliseconds until a moment, between 1 and 1000. -/
def millisUntil (now moment : Instant) : Nat :=
  min (max (durationSince moment now / fromMillis 1) 1) 1000

/-- How long the turn waits at most, in milliseconds. -/
def pollTimeoutMs (loop : SupervisorLoop) (now : Instant) : Nat :=
  let resolver :=
    match loop.pending with
    | some resolver => min 1000 (millisUntil now resolver.deadline)
    | none => 1000
  match (loop.supervisor.pendingRestarts.entries.map
      (·.2.restartAt)).min? with
  | some restartAt => min resolver (millisUntil now restartAt)
  | none => resolver

/-- One turn, up to and including the wait. -/
def turn
    (cfg : LoopConfig)
    (loop : SupervisorLoop)
    (turn : LoopTurn) : SupervisorLoop :=
  if loop.ended then
    loop
  else
    let loop := (loop.restartDue turn).reap turn
    if loop.supervisor.shutdown then
      { loop with
        supervisor := loop.supervisor.stop
        ended := true
        clock := turn.now }
    else
      let loop :=
        (((loop.beginRefresh cfg turn).readReplies cfg turn).checkDeadline
          turn).weigh cfg turn
      { loop with
        -- without a pending refresh the turn sleeps instead of polling
        readable := loop.pending.isSome && turn.pollIn
        clock := turn.now }

/-- Turns one after the other. -/
def run
    (cfg : LoopConfig)
    (loop : SupervisorLoop)
    (turns : List LoopTurn) : SupervisorLoop :=
  turns.foldl (turn cfg) loop

end SupervisorLoop

end Code

section Steps

variable {cfg : LoopConfig} {turn : LoopTurn}

/-- What a turn of the loop is made of. -/
inductive LoopStep
    (cfg : LoopConfig)
    (turn : LoopTurn)
    (loop : SupervisorLoop) : SupervisorLoop → Prop where
  | supervise (supervisor : Supervisor) :
      LoopStep cfg turn loop { loop with supervisor := supervisor }
  | begin_
      {resolver : AsyncResolve}
      {queries : List (SocketAddr × Bytes)}
      (idle : loop.pending = none)
      (expired : loop.nextRefresh ≤ turn.now)
      (started :
        AsyncResolve.start cfg.dns cfg.bootstrapServer cfg.host turn.now
          turn.clockAaaa turn.clockA turn.socket = .ok (resolver, queries)) :
      LoopStep cfg turn loop
        { loop with
          pending := some resolver
          refreshes := loop.refreshes ++ [turn.now]
          sent := loop.sent ++ queries }
  | beginFails
      (idle : loop.pending = none)
      (expired : loop.nextRefresh ≤ turn.now) :
      LoopStep cfg turn loop
        { loop with
          nextRefresh := turn.now + retryInterval
          refreshes := loop.refreshes ++ [turn.now] }
  | answered
      {resolver : AsyncResolve}
      (pending : loop.pending = some resolver) :
      LoopStep cfg turn loop
        { loop with
          received := loop.received ++ turn.datagrams
          candidates :=
            updateCandidates loop.candidates
              (turn.datagrams.foldl (AsyncResolve.receive cfg.dns.parse)
                resolver).finish.1 cfg.preferIpv4
          nextRefresh :=
            turn.now + fromSecs
              (turn.datagrams.foldl (AsyncResolve.receive cfg.dns.parse)
                resolver).finish.2.toNat
          pending := none }
  | reads
      {resolver : AsyncResolve}
      (pending : loop.pending = some resolver) :
      LoopStep cfg turn loop
        { loop with
          received := loop.received ++ turn.datagrams
          pending :=
            some (turn.datagrams.foldl (AsyncResolve.receive cfg.dns.parse)
              resolver) }
  | resends
      {resolver : AsyncResolve}
      (pending : loop.pending = some resolver)
      (again : resolver.attempts < maxAttempts) :
      LoopStep cfg turn loop
        { loop with
          pending :=
            some
              { resolver with
                attempts := resolver.attempts + 1
                deadline := turn.now + queryTimeout }
          sent := loop.sent ++ resolver.sendBoth }
  | timesOut
      {resolver : AsyncResolve}
      (pending : loop.pending = some resolver) :
      LoopStep cfg turn loop
        { loop with
          nextRefresh := turn.now + retryInterval
          pending := none }
  | publishes
      {fresh : List (IpAddr × UInt32)}
      (due : loop.nextWeights ≤ turn.now)
      (computed :
        computeWeights loop.candidates (SupervisorLoop.samples cfg turn)
          cfg.cpus.length = some fresh)
      (changed : fresh ≠ loop.published) :
      LoopStep cfg turn loop
        { loop with
          nextWeights := turn.now + weightInterval
          published := fresh
          publishes := loop.publishes ++
            [(turn.now,
              publishWeights fresh cfg.cpus.length turn.monoNowSecs
                turn.monoNowSecsLater)] }
  | weighs
      (ended : Bool)
      (due : loop.nextWeights ≤ turn.now) :
      LoopStep cfg turn loop
        { loop with
          nextWeights := turn.now + weightInterval
          ended := ended }
  | ends
      (supervisor : Supervisor)
      (ended readable : Bool) :
      LoopStep cfg turn loop
        { loop with
          supervisor := supervisor
          ended := ended
          readable := readable
          clock := turn.now }

/-- Some of the steps, one after the other. -/
abbrev LoopSteps (cfg : LoopConfig) (turn : LoopTurn) :=
  Relation.ReflTransGen (LoopStep cfg turn)

/-- A refresh begins with both queries and no answer. -/
theorem start_spec
    {dns : SimpleDns}
    {server : SocketAddr}
    {host : String}
    {now : Instant}
    {clockAaaa clockA : Int}
    {socket : Except IoError Unit}
    {resolver : AsyncResolve}
    {queries : List (SocketAddr × Bytes)}
    (started :
      AsyncResolve.start dns server host now clockAaaa clockA socket =
        .ok (resolver, queries)) :
    resolver.aaaa = none ∧ resolver.a = none ∧ resolver.attempts = 1 ∧
      queries = resolver.sendBoth := by
  unfold AsyncResolve.start at started
  dsimp only at started
  split at started
  · cases started
  · split at started
    · cases started
    · split at started
      · cases started
      · cases started
        exact ⟨rfl, rfl, rfl, rfl⟩

/-- Beginning a refresh is made of the loop's steps. -/
theorem loopSteps_beginRefresh (loop : SupervisorLoop) :
    LoopSteps cfg turn loop (loop.beginRefresh cfg turn) := by
  unfold SupervisorLoop.beginRefresh
  split
  next both =>
    rw [Bool.and_eq_true, Option.isNone_iff_eq_none, decide_eq_true_iff]
      at both
    split
    next started =>
      exact .single (.begin_ both.1 both.2 started)
    next =>
      exact .single (.beginFails both.1 both.2)
  next =>
    exact .refl

/-- Reading replies never fails: it is done or goes on. -/
theorem onReadable_cases
    (parse : Bytes → Option Packet)
    (resolver : AsyncResolve)
    (datagrams : List Bytes) :
    let read := datagrams.foldl (AsyncResolve.receive parse) resolver
    resolver.onReadable parse datagrams = (read, some (.ok read.finish)) ∨
      resolver.onReadable parse datagrams = (read, none) := by
  unfold AsyncResolve.onReadable
  dsimp only
  split
  · exact Or.inl rfl
  · exact Or.inr rfl

theorem loopSteps_readReplies (loop : SupervisorLoop) :
    LoopSteps cfg turn loop (loop.readReplies cfg turn) := by
  unfold SupervisorLoop.readReplies
  split
  next =>
    exact .refl
  next resolver pending =>
    split
    next =>
      rcases onReadable_cases cfg.dns.parse resolver turn.datagrams with
        done | goesOn
      · rw [done]
        exact .single (.answered pending)
      · rw [goesOn]
        exact .single (.reads pending)
    next =>
      exact .refl

theorem loopSteps_checkDeadline (loop : SupervisorLoop) :
    LoopSteps cfg turn loop (loop.checkDeadline turn) := by
  unfold SupervisorLoop.checkDeadline
  split
  next =>
    exact .refl
  next resolver pending =>
    split
    next =>
      by_cases last : resolver.attempts ≥ maxAttempts
      · rw [AsyncResolve.onTimeout, if_pos last]
        exact .single (.timesOut pending)
      · rw [AsyncResolve.onTimeout, if_neg last]
        exact .single (.resends pending (Nat.lt_of_not_le last))
    next =>
      exact .refl

theorem loopSteps_weigh (loop : SupervisorLoop) :
    LoopSteps cfg turn loop (loop.weigh cfg turn) := by
  unfold SupervisorLoop.weigh
  split
  next due =>
    dsimp only
    split
    next =>
      exact .single (.weighs true due)
    next fresh computed =>
      split
      next changed =>
        exact .single (.publishes due computed changed)
      next =>
        exact .single (.weighs loop.ended due)
  next =>
    exact .refl

/-- A turn is made of such steps. -/
theorem loopSteps_turn (loop : SupervisorLoop) :
    LoopSteps cfg turn loop (loop.turn cfg turn) := by
  unfold SupervisorLoop.turn
  split
  next =>
    exact .refl
  next =>
    have reaped :
        LoopSteps cfg turn loop ((loop.restartDue turn).reap turn) :=
      .single (.supervise _)
    dsimp only
    split
    next =>
      exact reaped.tail (.ends _ true _)
    next =>
      refine Relation.ReflTransGen.tail ?_ (.ends _ _ _)
      exact (((reaped.trans (loopSteps_beginRefresh _)).trans
        (loopSteps_readReplies _)).trans
        (loopSteps_checkDeadline _)).trans (loopSteps_weigh _)

/-- What every step keeps, a turn keeps. -/
theorem invariant_turn
    {invariant : SupervisorLoop → Prop}
    (keeps : ∀ {loop next}, LoopStep cfg turn loop next →
      invariant loop → invariant next)
    {loop : SupervisorLoop}
    (holds : invariant loop) :
    invariant (loop.turn cfg turn) := by
  have steps : LoopSteps cfg turn loop (loop.turn cfg turn) :=
    loopSteps_turn loop
  generalize loop.turn cfg turn = reached at steps ⊢
  induction steps with
  | refl =>
      exact holds
  | tail _ step inductionHypothesis =>
      exact keeps step inductionHypothesis

end Steps

section Page

/-- An address that the startup resolved or that a reply to a refresh
named. -/
def Learned
    (parse : Bytes → Option Packet)
    (resolved : List IpAddr)
    (received : List Bytes)
    (ip : IpAddr) : Prop :=
  ip ∈ resolved ∨
    ∃ buf ∈ received, ∃ packet, parse buf = some packet ∧
      ip ∈ packet.addresses

/-- A call of `publish` that gives every worker an address. -/
structure GoodPublish
    (cfg : LoopConfig)
    (known : IpAddr → Prop)
    (publish : Publish) : Prop where
  some : publish.addrs ≠ []
  fits : publish.addrs.length ≤ maxAddrs
  weighed : publish.weights.length = publish.addrs.length
  positive : ∀ weight ∈ publish.weights, 1 ≤ weight
  workers : publish.workers = cfg.cpus.length
  known : ∀ ip ∈ publish.addrs, known ip

variable
  {parse : Bytes → Option Packet}
  {resolved : List IpAddr}
  {received datagrams : List Bytes}
  {cfg : LoopConfig}

theorem Learned.append
    {ip : IpAddr}
    (known : Learned parse resolved received ip)
    (more : List Bytes) :
    Learned parse resolved (received ++ more) ip := by
  rcases known with startup | ⟨buf, member, reply⟩
  · exact Or.inl startup
  · exact Or.inr ⟨buf, List.mem_append_left _ member, reply⟩

theorem GoodPublish.mono
    {known later : IpAddr → Prop}
    {publish : Publish}
    (good : GoodPublish cfg known publish)
    (implies : ∀ ip, known ip → later ip) :
    GoodPublish cfg later publish :=
  { good with known := fun ip member => implies ip (good.known ip member) }

/-- What a refresh has been told so far. -/
def Told
    (known : IpAddr → Prop)
    (resolver : AsyncResolve) : Prop :=
  (∀ answer, resolver.aaaa = some answer → ∀ ip ∈ answer.1, known ip) ∧
    ∀ answer, resolver.a = some answer → ∀ ip ∈ answer.1, known ip

/-- A resolver that was told known addresses finishes with known ones. -/
theorem told_finish
    {known : IpAddr → Prop}
    {resolver : AsyncResolve}
    (told : Told known resolver) :
    ∀ ip ∈ resolver.finish.1, known ip := by
  have got {answer : Option Answer}
      (each : ∀ found, answer = some found → ∀ ip ∈ found.1, known ip) :
      ∀ ip ∈ (answer.getD ([], 0)).1, known ip := by
    cases answer with
    | none =>
        simp
    | some found =>
        exact each found rfl
  intro ip member
  rcases List.mem_append.mp member with six | four
  · exact got told.1 ip six
  · exact got told.2 ip four

/-- A datagram tells a refresh only what it says itself. -/
theorem told_receive
    {known : IpAddr → Prop}
    {resolver : AsyncResolve}
    {buf : Bytes}
    (told : Told known resolver)
    (content : ∀ packet, parse buf = some packet →
      ∀ ip ∈ packet.addresses, known ip) :
    Told known (resolver.receive parse buf) := by
  have heard {wantId : UInt16} {answer : Answer}
      (answered : parseResponse parse buf wantId = some answer) :
      ∀ ip ∈ answer.1, known ip := by
    obtain ⟨packet, parsed, -, rfl⟩ := parseResponse_eq_some_iff.mp answered
    rw [readAnswers_fst]
    exact content packet parsed
  unfold AsyncResolve.receive
  split
  next answer answered =>
    refine ⟨?_, told.2⟩
    intro found same
    cases same
    exact heard answered
  next =>
    split
    next answer answered =>
      refine ⟨told.1, ?_⟩
      intro found same
      cases same
      exact heard answered
    next =>
      exact told

/-- A resolver holds only addresses it has received. -/
theorem told_foldl_receive
    {resolver : AsyncResolve}
    (told : Told (Learned parse resolved received) resolver) :
    Told (Learned parse resolved (received ++ datagrams))
      (datagrams.foldl (AsyncResolve.receive parse) resolver) := by
  induction datagrams generalizing received resolver with
  | nil =>
      simpa using told
  | cons buf rest inductionHypothesis =>
      have more : Told (Learned parse resolved (received ++ [buf])) resolver :=
        ⟨fun answer same ip member => (told.1 answer same ip member).append _,
          fun answer same ip member => (told.2 answer same ip member).append _⟩
      have next :
          Told (Learned parse resolved (received ++ [buf]))
            (resolver.receive parse buf) := by
        refine told_receive more ?_
        intro packet parsed ip member
        exact Or.inr ⟨buf, by simp, packet, parsed, member⟩
      simpa using inductionHypothesis next

/-- The candidates run out only if there never were any. -/
theorem updateCandidates_ne_nil
    {candidates resolved : List IpAddr}
    (some : candidates ≠ [] ∨ resolved ≠ [])
    (preferIpv4 : Bool) :
    updateCandidates candidates resolved preferIpv4 ≠ [] := by
  by_cases answered : resolved = []
  · subst answered
    rw [updateCandidates_nil]
    simpa using some
  · rw [updateCandidates_eq answered, Ne, List.take_eq_nil_iff]
    rintro (zero | none)
    · cases zero
    · have perm := listed_perm resolved preferIpv4
      rw [none] at perm
      exact answered perm.symm.eq_nil

/-- Every candidate was one before or was just resolved. -/
theorem mem_updateCandidates
    {candidates resolved : List IpAddr}
    {preferIpv4 : Bool}
    {ip : IpAddr}
    (member : ip ∈ updateCandidates candidates resolved preferIpv4) :
    ip ∈ candidates ∨ ip ∈ resolved := by
  by_cases answered : resolved = []
  · subst answered
    rw [updateCandidates_nil] at member
    exact Or.inl member
  · rw [updateCandidates_eq answered] at member
    exact Or.inr
      ((listed_perm resolved preferIpv4).mem_iff.mp (List.mem_of_mem_take member))

/-- The candidates always fit the page. -/
theorem length_updateCandidates
    {candidates : List IpAddr}
    (fits : candidates.length ≤ maxAddrs)
    (resolved : List IpAddr)
    (preferIpv4 : Bool) :
    (updateCandidates candidates resolved preferIpv4).length ≤ maxAddrs := by
  by_cases answered : resolved = []
  · subst answered
    rw [updateCandidates_nil]
    exact fits
  · rw [updateCandidates_eq answered]
    exact List.length_take_le _ _

/-- The published weights have one entry for each candidate. -/
theorem length_computeWeights
    {candidates : List IpAddr}
    {samples : List (Option ScoreSample)}
    {workerCount : Nat}
    {fresh : List (IpAddr × UInt32)}
    (computed : computeWeights candidates samples workerCount = some fresh) :
    fresh.length = candidates.length := by
  unfold computeWeights at computed
  dsimp only at computed
  split at computed
  · cases computed
  · obtain rfl := Option.some.inj computed
    rw [(StableSort.sortByKeyReverse_perm _ _).length_eq, List.length_map,
      List.length_zipIdx]

/-- Every entry has a positive weight. -/
theorem one_le_entryWeight
    (candidates : List IpAddr)
    (samples : List (Option ScoreSample))
    (workers : UInt32)
    (i : Nat) :
    1 ≤ entryWeight candidates samples workers i := by
  have floor :=
    one_le_floorShare (topScore candidates samples) workers
  have bound :=
    (floorShare (topScore candidates samples) workers).toNat_lt
  rw [UInt32.le_iff_toNat_le, UInt32.toNat_one]
  unfold entryWeight
  dsimp only
  split
  · rw [toNat_saturatingAdd, toNat_max]
    omega
  · rw [toNat_max]
    omega

/-- What is known of the addresses in every turn. -/
structure GoodLoop
    (cfg : LoopConfig)
    (resolved : List IpAddr)
    (loop : SupervisorLoop) : Prop where
  some : loop.candidates ≠ []
  fits : loop.candidates.length ≤ maxAddrs
  known : ∀ ip ∈ loop.candidates,
    Learned cfg.dns.parse resolved loop.received ip
  told : ∀ resolver, loop.pending = .some resolver →
    Told (Learned cfg.dns.parse resolved loop.received) resolver
  begun : loop.publishes ≠ []
  publishes : ∀ call ∈ loop.publishes,
    GoodPublish cfg (Learned cfg.dns.parse resolved loop.received) call.2

/-- Weights of good candidates make a good publish. -/
theorem goodPublish_publishWeights
    {known : IpAddr → Prop}
    {candidates : List IpAddr}
    {samples : List (Option ScoreSample)}
    {fresh : List (IpAddr × UInt32)}
    (some : candidates ≠ [])
    (fits : candidates.length ≤ maxAddrs)
    (allKnown : ∀ ip ∈ candidates, known ip)
    (computed :
      computeWeights candidates samples cfg.cpus.length = .some fresh)
    (monoNowSecs monoNowSecsLater : UInt64) :
    GoodPublish cfg known
      (publishWeights fresh cfg.cpus.length monoNowSecs monoNowSecsLater) := by
  have length := length_computeWeights computed
  have entries := mem_computeWeights_iff computed
  refine
    { some := ?_
      fits := ?_
      weighed := by simp [publishWeights]
      positive := ?_
      workers := rfl
      known := ?_ }
  · rw [← List.length_pos_iff] at some ⊢
    simpa [publishWeights, length] using some
  · simpa [publishWeights, length] using fits
  · intro weight member
    obtain ⟨entry, inFresh, rfl⟩ := List.mem_map.mp member
    obtain ⟨i, -, rfl⟩ := (entries entry).mp inFresh
    exact one_le_entryWeight _ _ _ _
  · intro ip member
    obtain ⟨entry, inFresh, rfl⟩ := List.mem_map.mp member
    obtain ⟨i, inRange, rfl⟩ := (entries entry).mp inFresh
    exact allKnown _ (List.getElem_mem inRange)

theorem goodLoop_step
    {turn : LoopTurn}
    {loop next : SupervisorLoop}
    (step : LoopStep cfg turn loop next)
    (good : GoodLoop cfg resolved loop) :
    GoodLoop cfg resolved next := by
  have more {ip : IpAddr}
      (known : Learned cfg.dns.parse resolved loop.received ip) :
      Learned cfg.dns.parse resolved (loop.received ++ turn.datagrams) ip :=
    known.append turn.datagrams
  cases step with
  | supervise supervisor =>
      exact { good with }
  | begin_ idle expired started =>
      refine { good with told := ?_ }
      intro resolver same
      cases same
      obtain ⟨aaaa, a, -, -⟩ := start_spec started
      simp [Told, aaaa, a]
  | beginFails idle expired =>
      exact { good with }
  | answered pending =>
      have told := good.told _ pending
      refine
        { some := updateCandidates_ne_nil (Or.inl good.some) _
          fits := length_updateCandidates good.fits _ _
          known := ?_
          told := nofun
          begun := good.begun
          publishes := fun call member =>
            (good.publishes call member).mono fun _ => more }
      intro ip member
      rcases mem_updateCandidates member with before | new
      · exact more (good.known ip before)
      · exact told_finish (told_foldl_receive told) ip new
  | reads pending =>
      refine
        { some := good.some
          fits := good.fits
          known := fun ip member => more (good.known ip member)
          told := ?_
          begun := good.begun
          publishes := fun call member =>
            (good.publishes call member).mono fun _ => more }
      intro resolver same
      cases same
      exact told_foldl_receive (good.told _ pending)
  | resends pending again =>
      refine { good with told := ?_ }
      intro resolver same
      cases same
      have told := good.told _ pending
      exact ⟨told.1, told.2⟩
  | timesOut pending =>
      exact { good with told := nofun }
  | publishes due computed changed =>
      refine { good with begun := by simp, publishes := ?_ }
      intro call member
      rcases List.mem_append.mp member with before | new
      · exact good.publishes call before
      · rw [List.mem_singleton.mp new]
        exact goodPublish_publishWeights good.some good.fits good.known computed
          _ _
  | weighs ended due =>
      exact { good with }
  | ends supervisor ended readable =>
      exact { good with }

/-- A startup that succeeds has an address. -/
theorem remotes_ne_nil
    {dns : SimpleDns}
    {host : String}
    {literal : Option IpAddr}
    {exchanges : QType → Exchange}
    {port : UInt16}
    {now : Instant}
    {state : ResolveState}
    {remotes : List SocketAddr}
    (startup :
      resolveUpstream dns host literal exchanges port now =
        .ok (state, remotes)) :
    remotes ≠ [] := by
  have addrs : ∀ {state},
      resolve dns host literal exchanges now = .ok state →
        state.addrs ≠ [] := by
    intro state found
    unfold resolve at found
    split at found
    next =>
      cases found
      simp
    next =>
      dsimp only at found
      split at found
      next =>
        cases found
      next nonempty =>
        cases found
        simpa using nonempty
  unfold resolveUpstream at startup
  split at startup
  next =>
    cases startup
  next found =>
    cases startup
    obtain ⟨ip, member⟩ := List.exists_mem_of_ne_nil _ (addrs found)
    intro none
    rw [List.append_eq_nil_iff, List.map_eq_nil_iff, List.map_eq_nil_iff,
      List.filter_eq_nil_iff, List.filter_eq_nil_iff] at none
    have notSix := none.1 ip member
    have notFour := none.2 ip member
    simp [notSix] at notFour

variable
  {supervisor : Supervisor}
  {state : ResolveState}
  {remotes : List SocketAddr}
  {publishNow now : Instant}
  {monoNowSecs monoNowSecsLater : UInt64}

/-- A loop that starts with an address is good. -/
theorem goodLoop_start (some : remotes ≠ []) :
    GoodLoop cfg (remotes.map (·.ip))
      (SupervisorLoop.start cfg supervisor state remotes publishNow now
        monoNowSecs monoNowSecsLater) := by
  have answered : remotes.map (·.ip) ≠ [] := by
    simpa using some
  have kept :
      updateCandidates [] (remotes.map (·.ip)) cfg.preferIpv4 ≠ [] :=
    updateCandidates_ne_nil (.inr answered) cfg.preferIpv4
  have fits :
      (updateCandidates [] (remotes.map (·.ip)) cfg.preferIpv4).length ≤
        maxAddrs :=
    length_updateCandidates (Nat.zero_le _) _ _
  have learned : ∀ ip ∈ updateCandidates [] (remotes.map (·.ip))
      cfg.preferIpv4, Learned cfg.dns.parse (remotes.map (·.ip)) [] ip := by
    intro ip member
    rcases mem_updateCandidates member with none | resolved
    · cases none
    · exact Or.inl resolved
  refine
    { some := kept
      fits := fits
      known := learned
      told := nofun
      begun := List.cons_ne_nil _ _
      publishes := ?_ }
  intro call member
  rw [List.mem_singleton.mp member]
  exact
    { some := kept
      fits := fits
      weighed := by simp
      positive := by simp
      workers := rfl
      known := learned }

/-- Every run keeps the loop good. -/
theorem goodLoop_run
    {loop : SupervisorLoop}
    (good : GoodLoop cfg resolved loop)
    (turns : List LoopTurn) :
    GoodLoop cfg resolved (loop.run cfg turns) := by
  induction turns generalizing loop with
  | nil =>
      exact good
  | cons turn rest inductionHypothesis =>
      exact inductionHypothesis (invariant_turn goodLoop_step good)

/-- A set that gives every worker an address. -/
structure UsableSet
    (cfg : LoopConfig)
    (known : IpAddr → Prop)
    (set : UpstreamSet) : Prop where
  fits : set.addrs.length ≤ maxAddrs
  weighed : set.weights.length = set.addrs.length
  positive : ∀ weight ∈ set.weights, 1 ≤ weight
  workers : set.workers = UInt32.ofNat cfg.cpus.length
  known : ∀ ip ∈ set.addrs, known ip
  slots : ∀ idx, ∃ slot addr,
    set.slotFor idx = some slot ∧ set.addrs[slot]? = some addr

/-- A good publication is read as a usable set. -/
theorem GoodPublish.usableSet
    {known : IpAddr → Prop}
    {publish : Publish}
    (good : GoodPublish cfg known publish)
    (number : Nat) :
    UsableSet cfg known (publish.upstreamSet number) := by
  have addrs : (publish.upstreamSet number).addrs = publish.addrs :=
    List.take_of_length_le good.fits
  have length := (publish.length_upstreamSet number).symm
  have positive :
      ∀ weight ∈ (publish.upstreamSet number).weights, 1 ≤ weight := by
    intro weight member
    obtain ⟨i, inRange, rfl⟩ := List.mem_map.mp member
    rw [Publish.weight]
    cases found : publish.weights[i]? with
    | none =>
        exact UInt32.le_refl 1
    | some weight =>
        exact good.positive weight (List.mem_of_getElem? found)
  refine
    { fits := by rw [addrs]; exact good.fits
      weighed := length
      positive := positive
      workers := congrArg UInt32.ofNat good.workers
      known := by rw [addrs]; exact good.known
      slots := ?_ }
  refine exists_slotFor (by rw [addrs]; exact good.some) ?_
  intro addr member
  obtain ⟨slot, inRange, isAddr⟩ := List.getElem_of_mem member
  have usable : slot < (publish.upstreamSet number).usable := by
    rw [UpstreamSet.usable, length, Nat.min_self]
    exact inRange
  have counts := weightOf_pos positive usable
    (List.getElem?_eq_some_iff.mpr ⟨inRange, isAddr⟩)
  rw [UInt32.lt_iff_toNat_lt]
  exact counts

/-- Whatever the resolver answers and the workers report, every set that a
worker can read off the page has an address for it that the startup or a reply
has named, and there is always a set to read. -/
theorem usableSet_run
    {literal : Option IpAddr}
    {exchanges : QType → Exchange}
    {port : UInt16}
    {resolveNow : Instant}
    (startup :
      resolveUpstream cfg.dns cfg.host literal exchanges port resolveNow =
        .ok (state, remotes))
    (turns : List LoopTurn) :
    let loop :=
      (SupervisorLoop.start cfg supervisor state remotes publishNow now
        monoNowSecs monoNowSecsLater).run cfg turns
    let calls := loop.publishes.map Prod.snd
    0 < calls.length ∧
      ∀ number < calls.length,
        UsableSet cfg
          (Learned cfg.dns.parse (remotes.map (·.ip)) loop.received)
          (resolveReadProgram.run
            (Seqlock.image resolveProtocol zeroPage
              (calls.take (number + 1)))) := by
  intro loop calls
  have good : GoodLoop cfg (remotes.map (·.ip)) loop :=
    goodLoop_run (goodLoop_start (remotes_ne_nil startup)) turns
  refine ⟨?_, ?_⟩
  · rw [List.length_map, List.length_pos_iff]
    exact good.begun
  · intro number inRange
    rw [run_image_take inRange]
    have call := List.getElem_mem inRange
    obtain ⟨timed, member, same⟩ := List.mem_map.mp call
    rw [← same]
    exact (good.publishes timed member).usableSet (number + 1)

/-- A fleet of two whose upstream is a literal address. -/
def literalLoop : LoopConfig where
  dns :=
    { parse := fun _ => none
      buildQuery := fun _ _ _ => .ok [] }
  bootstrapServer := { ip := .v4 192 0 2 53, port := 53 }
  host := "192.0.2.1"
  preferIpv4 := false
  cpus := [0, 1]

/-- A turn two seconds into the loop that reads a score from each worker. -/
def scoredTurn : LoopTurn where
  restartNow := fromSecs 2
  forks := fun _ => .error
  reaps := []
  signal := false
  now := fromSecs 2
  clockAaaa := 0
  clockA := 0
  socket := .ok ()
  datagrams := []
  nowSecs := 12
  scores := fun _ =>
    some
      { addr := some (.v4 192 0 2 1)
        score := 90
        ok := 5
        fail := 0
        flags := flagConnected
        updatedMonoSecs := 11 }
  monoNowSecs := 12
  monoNowSecsLater := 12
  pollIn := false

/-- A supervisor with one literal address. -/
theorem usableSet_run_literal :
    let loop :=
      (SupervisorLoop.start literalLoop Supervisor.initial
        { addrs := [.v4 192 0 2 1], expiresAt := fromSecs (86400 * 365) }
        [{ ip := .v4 192 0 2 1, port := 443 }] 0 0 10 10).run literalLoop
        [scoredTurn]
    let calls := loop.publishes.map Prod.snd
    calls.length = 2 ∧ 0 < calls.length ∧
      ∀ number < calls.length,
        UsableSet literalLoop
          (Learned literalLoop.dns.parse [.v4 192 0 2 1] loop.received)
          (resolveReadProgram.run
            (Seqlock.image resolveProtocol zeroPage
              (calls.take (number + 1)))) := by
  refine ⟨by decide +kernel, ?_⟩
  have startup :
      resolveUpstream literalLoop.dns literalLoop.host (some (.v4 192 0 2 1))
          (fun _ => { clock := 0, socket := .ok (), rounds := [] }) 443 0 =
        .ok
          ({ addrs := [.v4 192 0 2 1], expiresAt := fromSecs (86400 * 365) },
            [{ ip := .v4 192 0 2 1, port := 443 }]) := by
    decide +kernel
  exact usableSet_run startup [scoredTurn]

end Page

end DnsServices.Microdoh3
