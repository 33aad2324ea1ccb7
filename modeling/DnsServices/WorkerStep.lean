import DnsServices.Worker

namespace DnsServices.Microdoh3

/-!
# Steps of the worker

One definition per function of `worker.rs` that changes the worker, and `step`
for one action of the event loop: a client datagram, a batch of QUIC events, a
housekeeping call, the drained-connection check, or shutdown.
-/

open Http3 Shared

/-- What an outside observer sees, in order (history only). -/
inductive Observation where
  /-- A client query passed validation. -/
  | accepted (serial : Nat) (query : Bytes) (peer : SocketAddr)
  /-- The request of a query was written on a stream of a connection. -/
  | requested (serial conn : Nat) (stream : StreamId) (request : Bytes)
  /-- Bytes arrived on a stream of a connection. -/
  | received (conn : Nat) (stream : StreamId) (chunk : Bytes)
  /-- A SERVFAIL was sent for a query. -/
  | servfail (serial : Nat) (peer : SocketAddr) (payload : Bytes)
  /-- An upstream body was sent for a query. -/
  | response (serial : Nat) (peer : SocketAddr) (payload : Bytes)
  /-- An entry of `pending` was replaced by a later request. -/
  | overwritten (serial : Nat)
  /-- A sample was written to the score slot. -/
  | published (sample : ScoreSample)
  /-- The worker moved to another address. -/
  | migrated (now : Instant) (target : IpAddr)
  deriving Repr, DecidableEq

/-- A QUIC connection: its number and the request streams it has opened. -/
structure Connection where
  serial : Nat
  opened : List StreamId
  deriving Repr, DecidableEq

/-- The variables of `run`. -/
structure Worker where
  conn : Option Connection
  zeroRttOffered : Bool
  h3 : H3
  /-- The order of the entries stands for the hash map's arbitrary order. -/
  pending : AList fun _ : StreamId => Pending
  queue : List QueuedQuery
  goaway : Bool
  h3Ready : Bool
  reconnectAt : Option Instant
  backoff : Duration
  rt : Runtime
  /-- `run` has returned. -/
  returned : Bool
  /-- Queries accepted so far (history only). -/
  accepted : Nat
  /-- Connections opened so far (history only). -/
  connections : Nat
  history : List Observation

/-- What the QUIC library answers while one request is dispatched. -/
structure DispatchEnv where
  openBi : Option StreamId
  writeOk : Bool
  finishOk : Bool
  deriving Repr, DecidableEq

/-- How a read of a stream ends. -/
inductive ReadOutcome where
  | eof
  | blocked
  | error
  deriving Repr, DecidableEq

/-- An event of the QUIC connection with what it brings along. -/
inductive QuicEvent where
  /-- The handshake is done; one answer per request flushed from the queue. -/
  | connected (envs : List DispatchEnv)
  | connectionLost (applicationClosed : Bool)
  | readable (stream : StreamId) (chunks : List Bytes) (outcome : ReadOutcome)
  /-- Finished, stopped and all other events. -/
  | other
  deriving Repr, DecidableEq

/-- What the QUIC library answers while a connection is set up. -/
structure ConnectEnv where
  connectOk : Bool
  zeroRttOffered : Bool
  connectFlushOk : Bool
  has0rtt : Bool
  flushOk : Bool
  deriving Repr, DecidableEq

/-- What a housekeeping call reads from outside. -/
structure HousekeepingEnv where
  now : Instant
  monoSecs : Nat
  /-- The result of `read_if_changed`. -/
  published : Option UpstreamSet
  connect : ConnectEnv
  deriving Repr, DecidableEq

/-- One action of the event loop. -/
inductive Action where
  | datagram
      (now : Instant) (peer : SocketAddr) (data : Bytes) (env : DispatchEnv)
  | quicEvents (now : Instant) (events : List QuicEvent)
  | housekeeping (env : HousekeepingEnv)
  | drained (now : Instant)
  | shutdown
  deriving Repr, DecidableEq

namespace Worker

/-- Write down an observation. -/
def observe (w : Worker) (observation : Observation) : Worker :=
  { w with history := w.history ++ [observation] }

/-- `rt.quality.on_failure()`. -/
def onFailure (w : Worker) : Worker :=
  { w with rt.quality := w.rt.quality.onFailure }

/-- Answer a query with SERVFAIL. -/
def sendServfail (w : Worker) (query : AcceptedQuery) : Worker :=
  match Dns.buildServfail query.query with
  | some out =>
      w.observe (.servfail query.serial query.peer out)
  | none =>
      w

/-- Fail every in-flight request. -/
def failAllPending (w : Worker) : Worker :=
  w.pending.entries.foldl
    (fun w entry => w.onFailure.sendServfail entry.2.toAcceptedQuery)
    { w with pending := ∅ }

/-- `open_bi`: a stream id that this connection has not handed out before. -/
def openBi (w : Worker) (env : DispatchEnv) : Option (StreamId × Connection) :=
  match w.conn, env.openBi with
  | some conn, some stream =>
      if stream ∈ conn.opened then
        none
      else
        some (stream, { conn with opened := stream :: conn.opened })
  | _, _ =>
      none

end Worker

/-- The query as it is sent: padded, and with a zero id for GET. -/
def outboundQuery (cfg : WorkerConfig) (query : Bytes) : Bytes :=
  let useGet := query.length ≤ getMaxDnsLen
  let padded := if cfg.pad then (Dns.padQuery query 128).1 else query
  if useGet ∧ padded.length ≥ 2 then
    (padded.set 0 0).set 1 0
  else
    padded

/-- The bytes `dispatch_query` writes on the request stream. -/
def requestBytes (cfg : WorkerConfig) (query : Bytes) : Bytes :=
  let outbound := outboundQuery cfg query
  if query.length ≤ getMaxDnsLen then
    let sep : UInt8 := if cfg.upstream.path.contains 0x3F then 0x26 else 0x3F
    encodeRequest (asBytes "GET") cfg.upstream.authority
      (cfg.upstream.path ++ [sep] ++ asBytes "dns=" ++
        Dns.base64urlEncode outbound)
      cfg.token none
  else
    encodeRequest (asBytes "POST") cfg.upstream.authority cfg.upstream.path
      cfg.token (some outbound)

/-- An upstream body with the transaction id of the query it answers. -/
def withQueryId (body query : Bytes) : Bytes :=
  if body.length ≥ 2 ∧ query.length ≥ 2 then
    (body.set 0 (query.getD 0 0)).set 1 (query.getD 1 0)
  else
    body

namespace Worker

/-- Register a request stream and put its query into `pending`. -/
def register
    (w : Worker)
    (conn : Connection)
    (stream : StreamId)
    (request : Bytes)
    (entry : Pending) :
    Worker :=
  let w :=
    match w.pending.lookup stream with
    | some replaced => w.observe (.overwritten replaced.serial)
    | none => w
  { w with
    h3 := w.h3.registerRequest stream
    pending := w.pending.insert stream entry }.observe
      (.requested entry.serial conn.serial stream request)

/-- Submit one query to the upstream over a new stream. -/
def dispatchQuery
    (cfg : WorkerConfig)
    (now : Instant)
    (w : Worker)
    (query : AcceptedQuery)
    (env : DispatchEnv) :
    Worker :=
  match w.openBi env with
  | none =>
      w.onFailure.sendServfail query
  | some (stream, conn) =>
      let w := { w with conn := some conn }
      if !env.writeOk then
        -- not counted as a failure of the address
        w.sendServfail query
      else if !env.finishOk then
        w.onFailure.sendServfail query
      else
        w.register conn stream (requestBytes cfg query.query)
          { query with deadline := now + cfg.timeout, started := now }

/-- The loop of `flush_queue`: the queue is popped from the front. -/
def flushLoop
    (cfg : WorkerConfig)
    (now : Instant) :
    List QueuedQuery → List DispatchEnv → Worker → Worker
  | [], _, w =>
      w
  | q :: rest, envs, w =>
      let w := { w with queue := rest }
      if q.deadline ≤ now then
        flushLoop cfg now rest envs
          (w.onFailure.sendServfail q.toAcceptedQuery)
      else
        flushLoop cfg now rest envs.tail
          (w.dispatchQuery cfg now q.toAcceptedQuery
            (envs.headD ⟨none, false, false⟩))

/-- Flush queued queries once the connection is ready. -/
def flushQueue
    (cfg : WorkerConfig)
    (now : Instant)
    (w : Worker)
    (envs : List DispatchEnv) :
    Worker :=
  flushLoop cfg now w.queue envs w

/-- Handle one client datagram. -/
def drainDns
    (cfg : WorkerConfig)
    (w : Worker)
    (now : Instant)
    (peer : SocketAddr)
    (data : Bytes)
    (env : DispatchEnv) :
    Worker :=
  let query := data.take maxDnsLen
  if valid : Dns.validateQuery query = .ok () then
    let accepted : AcceptedQuery := ⟨w.accepted, query, peer, valid⟩
    let w :=
      { w with accepted := w.accepted + 1 }.observe
        (.accepted accepted.serial query peer)
    if w.goaway ∨ w.conn = none then
      w.onFailure.sendServfail accepted
    else if !w.h3Ready then
      -- handshake in progress: queue briefly
      if w.queue.length ≥ maxQueued then
        w.onFailure.sendServfail accepted
      else
        { w with
          queue :=
            w.queue ++ [{ accepted with deadline := now + cfg.timeout }] }
    else
      w.dispatchQuery cfg now accepted env
  else
    w

/-- The connection is gone: fail its requests and forget its state. -/
def dropConnection (w : Worker) : Worker :=
  { w.failAllPending with
    conn := none
    h3 := H3.new
    goaway := false
    h3Ready := false }

/-- Read a stream, feeding every chunk to the H3 layer. -/
def readStream
    (w : Worker)
    (conn : Connection)
    (stream : StreamId) :
    List Bytes → Worker × List H3Event
  | [] =>
      (w, [])
  | chunk :: rest =>
      let fed := w.h3.feed stream chunk
      let later :=
        ({ w with h3 := fed.1 }.observe
          (.received conn.serial stream chunk)).readStream conn stream rest
      (later.1, fed.2 ++ later.2)

/-- One QUIC event: the new worker and the H3 events it pushed. -/
def handleQuicEvent
    (cfg : WorkerConfig)
    (now : Instant)
    (w : Worker) :
    QuicEvent → Worker × List H3Event
  | .connected envs =>
      let w :=
        { w with
          backoff := 0
          reconnectAt := none
          rt.failStreak := 0 }
      if w.h3Ready then
        (w, [])
      else
        ({ w with h3Ready := true }.flushQueue cfg now envs, [])
  | .connectionLost applicationClosed =>
      let w :=
        { w with
          rt.failStreak :=
            if applicationClosed then 0
            else saturatingSucc w.rt.failStreak }
      ({ w.dropConnection with
          reconnectAt := some (now + w.backoff)
          backoff := min (w.backoff * 2 + fromMillis 100) reconnectBackoffMax },
        [])
  | .readable stream chunks outcome =>
      match w.conn with
      | none =>
          -- reading without a connection is a read error
          ({ w with h3 := (w.h3.reset stream).1 }, (w.h3.reset stream).2)
      | some conn =>
          let read := w.readStream conn stream chunks
          match outcome with
          | .blocked =>
              read
          | .error =>
              ({ read.1 with h3 := (read.1.h3.reset stream).1 },
                read.2 ++ (read.1.h3.reset stream).2)
          | .eof =>
              ({ read.1 with h3 := (read.1.h3.finish stream).1 },
                read.2 ++ (read.1.h3.finish stream).2)
  | .other =>
      (w, [])

/-- The `for ev in quic.poll_events()` loop, collecting H3 events. -/
def handleQuicEvents
    (cfg : WorkerConfig)
    (now : Instant) :
    List QuicEvent → Worker → Worker × List H3Event
  | [], w =>
      (w, [])
  | event :: rest, w =>
      let first := w.handleQuicEvent cfg now event
      let later := handleQuicEvents cfg now rest first.1
      (later.1, first.2 ++ later.2)

/-- `if let Some(p) = pending.remove(&stream)`: fail one request. -/
def failRequest (w : Worker) (stream : StreamId) : Worker :=
  match w.pending.lookup stream with
  | none =>
      w
  | some p =>
      { w with
        pending := w.pending.erase stream }.onFailure.sendServfail
          p.toAcceptedQuery

/-- Apply one H3 event. -/
def applyH3Event (now : Instant) (w : Worker) : H3Event → Worker
  | .response stream body =>
      match w.pending.lookup stream with
      | none =>
          w
      | some p =>
          { w with
            pending := w.pending.erase stream
            rt.quality :=
              w.rt.quality.onSuccess (durationSince now p.started) }.observe
            (.response p.serial p.peer (withQueryId body p.query))
  | .failed stream =>
      w.failRequest stream
  | .goaway =>
      -- a GOAWAY of a connection that is already gone is stale
      if w.conn.isSome then
        { w with
          goaway := true
          reconnectAt :=
            if w.pending.entries = [] then some now else w.reconnectAt }
      else
        w

/-- Drain QUIC events and apply the H3 events they led to. -/
def processQuicEvents
    (cfg : WorkerConfig)
    (w : Worker)
    (now : Instant)
    (events : List QuicEvent) :
    Worker :=
  -- without a connection `poll_events` returns nothing
  let events := if w.conn.isSome then events else []
  let batch := handleQuicEvents cfg now events w
  batch.2.foldl (applyH3Event now) batch.1

/-! ## Housekeeping -/

/-- Expire timed-out requests with SERVFAIL. -/
def expirePending (w : Worker) (now : Instant) : Worker :=
  let expired :=
    w.pending.entries.filter fun entry => entry.2.deadline ≤ now
  (expired.map Sigma.fst).foldl failRequest w

end Worker

/-- Adopt the supervisor's latest upstream set. -/
def Runtime.adopt
    (rt : Runtime)
    (cfg : WorkerConfig)
    (now : Instant)
    (published : Option UpstreamSet) :
    Runtime :=
  match published with
  | none =>
      rt
  | some set =>
      if set.addrs = [] then
        rt
      else
        { rt with
          lastMigrate :=
            if set.addrs.all (· != rt.myRemote.ip) then
              -- our address disappeared: allow an immediate move
              (checkedSub now migrateMinInterval).getD now
            else
              rt.lastMigrate
          slot := (set.slotFor cfg.childIdx).getD rt.slot
          set := set }

namespace Worker

/-- Expire stale queued queries from the front of the queue. -/
def expireQueue (now : Instant) : List QueuedQuery → Worker → Worker
  | [], w =>
      w
  | q :: rest, w =>
      if q.deadline ≤ now then
        expireQueue now rest
          ({ w with queue := rest }.onFailure.sendServfail q.toAcceptedQuery)
      else
        w

/-- Publish this worker's measurement for the weight computation. -/
def publishScore (w : Worker) (now : Instant) : Worker :=
  if durationSince now w.rt.lastScore ≥ scoreInterval then
    let flags : UInt32 :=
      if w.conn.isSome then
        flagConnected ||| (if w.h3Ready then 0 else flagHandshaking) |||
          (if w.zeroRttOffered then flagZeroRtt else 0)
      else
        0
    { w with
      rt.quality := w.rt.quality.resetWindow
      rt.lastScore := now }.observe
      (.published (w.rt.quality.sample (some w.rt.myRemote.ip) flags))
  else
    w

/-- GOAWAY fully drained: reconnect. -/
def goawayDrained (w : Worker) (now : Instant) : Worker :=
  if w.goaway ∧ w.pending.entries = [] then
    { w with reconnectAt := some now }
  else
    w

/-- Weighted migration, unless a reconnect is already scheduled. -/
def migrate
    (cfg : WorkerConfig)
    (w : Worker)
    (now : Instant)
    (monoSecs : Nat) :
    Worker :=
  match w.reconnectAt, migrationTarget w.rt cfg now monoSecs with
  | none, some target =>
      { w with
        rt.myRemote := ⟨target, cfg.upstream.port⟩
        rt.slot :=
          (w.rt.set.addrs.findIdx? (· == target)).getD w.rt.slot
        rt.lastMigrate := now
        rt.failStreak := 0
        -- the measurement window belongs to the old path
        rt.quality := {}
        reconnectAt := some now }.observe (.migrated now target)
  | _, _ =>
      w

/-- `Quic::connect`: the new worker, and whether the call returned `Ok`. -/
def connect (w : Worker) (env : ConnectEnv) : Worker × Bool :=
  if env.connectOk then
    ({ w with
        conn := some ⟨w.connections, []⟩
        connections := w.connections + 1
        zeroRttOffered := env.zeroRttOffered },
      env.connectFlushOk)
  else
    (w, false)

/-- Establish a connection; with 0-RTT request streams may open at once. -/
def connectAndPreamble
    (w : Worker)
    (env : ConnectEnv) :
    Worker × Option Bool :=
  let connected := w.connect env
  if connected.2 ∧ env.flushOk then
    (connected.1, some (connected.1.conn.isSome ∧ env.has0rtt))
  else
    (connected.1, none)

/-- Reconnect if it is due. -/
def reconnect (w : Worker) (now : Instant) (env : ConnectEnv) : Worker :=
  match w.reconnectAt with
  | none =>
      w
  | some t =>
      if t ≤ now then
        -- close a connection that still exists; its requests stay pending
        let w :=
          if w.conn.isSome then
            { w with
              conn := none
              h3 := H3.new
              h3Ready := false
              goaway := false }
          else
            w
        match w.connectAndPreamble env with
        | (w, some ready) =>
            { w with h3Ready := ready, reconnectAt := none }
        | (w, none) =>
            { w with
              rt.failStreak := saturatingSucc w.rt.failStreak
              reconnectAt := some (now + fromSecs 1) }
      else
        w

/-- Periodic tasks. -/
def housekeeping
    (cfg : WorkerConfig)
    (w : Worker)
    (env : HousekeepingEnv) :
    Worker :=
  let w := w.expirePending env.now
  let w := { w with rt := w.rt.adopt cfg env.now env.published }
  let w := expireQueue env.now w.queue w
  let w := w.publishScore env.now
  let w := w.goawayDrained env.now
  let w := w.migrate cfg env.now env.monoSecs
  w.reconnect env.now env.connect

/-! ## The event loop -/

/-- Connection fully drained: schedule a reconnect. -/
def checkDrained (w : Worker) (now : Instant) : Worker :=
  if w.conn.isSome then
    { { w with
        rt.failStreak := saturatingSucc w.rt.failStreak }.dropConnection with
      reconnectAt := some (w.reconnectAt.getD (now + w.backoff)) }
  else
    w

/-- Graceful shutdown: fail in-flight queries and return. -/
def shutdown (w : Worker) : Worker :=
  { w.failAllPending with returned := true }

/-- One action of the event loop; after `run` has returned nothing happens. -/
def step (cfg : WorkerConfig) (w : Worker) (action : Action) : Worker :=
  if w.returned then
    w
  else
    match action with
    | .datagram now peer data env =>
        w.drainDns cfg now peer data env
    | .quicEvents now events =>
        w.processQuicEvents cfg now events
    | .housekeeping env =>
        w.housekeeping cfg env
    | .drained now =>
        w.checkDrained now
    | .shutdown =>
        w.shutdown

/-- The worker when `run` enters its loop after the initial connect. -/
def start
    (cfg : WorkerConfig)
    (set : UpstreamSet)
    (now : Instant)
    (has0rtt zeroRttOffered : Bool) :
    Worker where
  conn := some ⟨0, []⟩
  zeroRttOffered := zeroRttOffered
  h3 := H3.new
  pending := ∅
  queue := []
  goaway := false
  h3Ready := has0rtt
  reconnectAt := none
  backoff := 0
  rt := Runtime.new set cfg now
  returned := false
  accepted := 0
  connections := 1
  history := []

/-- A whole run. -/
def run (cfg : WorkerConfig) (w : Worker) (actions : List Action) : Worker :=
  actions.foldl (step cfg) w

end Worker

end DnsServices.Microdoh3
