import Mathlib.Logic.Relation
import DnsServices.WorkerStep

namespace DnsServices.Microdoh3

/-!
# What a worker step can do

Every function of the worker is a sequence of moves of queries, streams and
events.  Invariants over runs are proved once per move; the lemmas below say
that each function, and so each step, consists of moves only.
-/

open Http3 Shared

/-- The stream id under which the request of a dispatch is registered. -/
def DispatchEnv.request (env : DispatchEnv) : Option StreamId :=
  if env.writeOk && env.finishOk then env.openBi else none

/-- The stream ids that requests may be registered under in an event. -/
def QuicEvent.requests : QuicEvent → List StreamId
  | .connected envs => envs.filterMap DispatchEnv.request
  | _ => []

/-- The stream ids that requests may be registered under in an action. -/
def Action.requests : Action → List StreamId
  | .datagram _ _ _ env => env.request.toList
  | .quicEvents _ events => events.flatMap QuicEvent.requests
  | _ => []

/-- The worker within an action, with the queries and events in its hands. -/
structure MidStep where
  worker : Worker
  inHand : List AcceptedQuery
  events : List H3Event

/-- Changes to variables that hold no query and no stream. -/
structure Worker.Tuned (before after : Worker) : Prop where
  conn : after.conn = before.conn
  h3 : after.h3 = before.h3
  pending : after.pending = before.pending
  queue : after.queue = before.queue
  accepted : after.accepted = before.accepted
  connections : after.connections = before.connections
  returned : after.returned = before.returned
  history : after.history = before.history

/-- An observation that concerns no query and no stream. -/
def Observation.isReport : Observation → Bool
  | .published _ => true
  | .migrated _ _ => true
  | _ => false

/-- One move of a worker within an action. -/
inductive Move
    (cfg : WorkerConfig)
    (action : Action) :
    MidStep → MidStep → Prop where
  | tune
      {w after : Worker}
      {hand : List AcceptedQuery}
      {events : List H3Event}
      (tuned : w.Tuned after) :
      Move cfg action ⟨w, hand, events⟩ ⟨after, hand, events⟩
  | report
      {w : Worker}
      {hand : List AcceptedQuery}
      {events : List H3Event}
      {observation : Observation}
      (isReport : observation.isReport) :
      Move cfg action ⟨w, hand, events⟩ ⟨w.observe observation, hand, events⟩
  | accept
      {w : Worker}
      {hand : List AcceptedQuery}
      {events : List H3Event}
      {query : Bytes}
      (peer : SocketAddr)
      (valid : Dns.validateQuery query = .ok ()) :
      Move cfg action ⟨w, hand, events⟩
        ⟨{ w with accepted := w.accepted + 1 }.observe
            (.accepted w.accepted query peer),
          ⟨w.accepted, query, peer, valid⟩ :: hand, events⟩
  | enqueue
      {w : Worker}
      {query : AcceptedQuery}
      {hand : List AcceptedQuery}
      {events : List H3Event}
      (deadline : Instant) :
      Move cfg action ⟨w, query :: hand, events⟩
        ⟨{ w with queue := w.queue ++ [{ query with deadline := deadline }] },
          hand, events⟩
  | dequeue
      {w : Worker}
      {hand : List AcceptedQuery}
      {events : List H3Event}
      {q : QueuedQuery}
      {rest : List QueuedQuery}
      (front : w.queue = q :: rest) :
      Move cfg action ⟨w, hand, events⟩
        ⟨{ w with queue := rest }, q.toAcceptedQuery :: hand, events⟩
  | take
      {w : Worker}
      {hand : List AcceptedQuery}
      {events : List H3Event}
      {stream : StreamId}
      {p : Pending}
      (found : w.pending.lookup stream = some p) :
      Move cfg action ⟨w, hand, events⟩
        ⟨{ w with pending := w.pending.erase stream },
          p.toAcceptedQuery :: hand, events⟩
  | takeAll
      {w : Worker}
      {hand : List AcceptedQuery}
      {events : List H3Event} :
      Move cfg action ⟨w, hand, events⟩
        ⟨{ w with pending := ∅ },
          w.pending.entries.map (fun entry => entry.2.toAcceptedQuery) ++ hand,
          events⟩
  | servfail
      {w : Worker}
      {query : AcceptedQuery}
      {hand : List AcceptedQuery}
      {events : List H3Event}
      {out : Bytes}
      (built : Dns.buildServfail query.query = some out) :
      Move cfg action ⟨w, query :: hand, events⟩
        ⟨w.observe (.servfail query.serial query.peer out), hand, events⟩
  | openStream
      {w : Worker}
      {hand : List AcceptedQuery}
      {events : List H3Event}
      {conn : Connection}
      (stream : StreamId)
      (connected : w.conn = some conn) :
      Move cfg action ⟨w, hand, events⟩
        ⟨{ w with
            conn := some { conn with opened := stream :: conn.opened } },
          hand, events⟩
  | request
      {w : Worker}
      {query : AcceptedQuery}
      {hand : List AcceptedQuery}
      {events : List H3Event}
      {conn : Connection}
      {stream : StreamId}
      (connected : w.conn = some conn)
      (fresh : stream ∉ conn.opened)
      (allowed : stream ∈ action.requests)
      (deadline started : Instant) :
      Move cfg action ⟨w, query :: hand, events⟩
        ⟨{ w with
            conn := some { conn with opened := stream :: conn.opened }
          }.register { conn with opened := stream :: conn.opened } stream
            (requestBytes cfg query.query)
            { query with deadline := deadline, started := started },
          hand, events⟩
  | receive
      {w : Worker}
      {hand : List AcceptedQuery}
      {events : List H3Event}
      {conn : Connection}
      (connected : w.conn = some conn)
      (stream : StreamId)
      (chunk : Bytes) :
      Move cfg action ⟨w, hand, events⟩
        ⟨{ w with h3 := (w.h3.feed stream chunk).1 }.observe
            (.received conn.serial stream chunk),
          hand, events ++ (w.h3.feed stream chunk).2⟩
  | finish
      {w : Worker}
      {hand : List AcceptedQuery}
      {events : List H3Event}
      (stream : StreamId) :
      Move cfg action ⟨w, hand, events⟩
        ⟨{ w with h3 := (w.h3.finish stream).1 }, hand,
          events ++ (w.h3.finish stream).2⟩
  | reset
      {w : Worker}
      {hand : List AcceptedQuery}
      {events : List H3Event}
      (stream : StreamId) :
      Move cfg action ⟨w, hand, events⟩
        ⟨{ w with h3 := (w.h3.reset stream).1 }, hand,
          events ++ (w.h3.reset stream).2⟩
  | respond
      {w : Worker}
      {hand : List AcceptedQuery}
      {events : List H3Event}
      {stream : StreamId}
      {body : Bytes}
      {p : Pending}
      (found : w.pending.lookup stream = some p) :
      Move cfg action ⟨w, hand, .response stream body :: events⟩
        ⟨{ w with pending := w.pending.erase stream }.observe
            (.response p.serial p.peer (withQueryId body p.query)),
          hand, events⟩
  | skip
      {w : Worker}
      {hand : List AcceptedQuery}
      {events : List H3Event}
      (event : H3Event) :
      Move cfg action ⟨w, hand, event :: events⟩ ⟨w, hand, events⟩
  | disconnect
      {w : Worker}
      {hand : List AcceptedQuery}
      {events : List H3Event}
      -- housekeeping closes a connection with requests in flight, but no
      -- request is registered there
      (settled : w.pending = ∅ ∨ action.requests = []) :
      Move cfg action ⟨w, hand, events⟩
        ⟨{ w with conn := none, h3 := H3.new }, hand, events⟩
  | connect
      {w : Worker}
      {hand : List AcceptedQuery}
      (disconnected : w.conn = none)
      (noRequests : action.requests = []) :
      Move cfg action ⟨w, hand, []⟩
        ⟨{ w with
            conn := some ⟨w.connections, []⟩
            connections := w.connections + 1 },
          hand, []⟩
  | halt
      {w : Worker}
      (isShutdown : action = .shutdown) :
      Move cfg action ⟨w, [], []⟩ ⟨{ w with returned := true }, [], []⟩

/-- Moves one after the other. -/
def Moves
    (cfg : WorkerConfig)
    (action : Action) :
    MidStep → MidStep → Prop :=
  Relation.ReflTransGen (Move cfg action)

/-- An invariant of every move is an invariant of moves. -/
theorem Moves.invariant
    {cfg : WorkerConfig}
    {action : Action}
    {holds : MidStep → Prop}
    (kept :
      ∀ {before after},
        Move cfg action before after → holds before → holds after)
    {first last : MidStep}
    (moves : Moves cfg action first last)
    (initially : holds first) :
    holds last := by
  induction moves with
  | refl =>
      exact initially
  | tail _ move inductionHypothesis =>
      exact kept move inductionHypothesis

namespace Worker

/-- What is observed of the entry that a new request replaces. -/
def replaced (w : Worker) (stream : StreamId) : List Observation :=
  ((w.pending.lookup stream).map fun p => .overwritten p.serial).toList

/-- Replacing an entry is observed as overwriting it. -/
theorem eq_overwritten_of_mem_replaced
    {w : Worker}
    {stream : StreamId}
    {observation : Observation}
    (member : observation ∈ w.replaced stream) :
    ∃ serial, observation = .overwritten serial := by
  obtain ⟨p, _, rfl⟩ :=
    Option.map_eq_some_iff.mp (Option.mem_toList.mp member)
  exact ⟨p.serial, rfl⟩

theorem filterMap_replaced
    {β : Type}
    (w : Worker)
    (stream : StreamId)
    {extract : Observation → Option β}
    (other : ∀ serial, extract (.overwritten serial) = none) :
    (w.replaced stream).filterMap extract = [] := by
  rw [List.filterMap_eq_nil_iff]
  intro observation member
  obtain ⟨serial, rfl⟩ := eq_overwritten_of_mem_replaced member
  exact other serial

theorem replaced_eq_nil
    {w : Worker}
    {stream : StreamId}
    (notHeld : stream ∉ w.pending) :
    w.replaced stream = [] := by
  rw [replaced, AList.lookup_eq_none.mpr notHeld]
  rfl

/-- Registering a request in one equation. -/
theorem register_eq
    (w : Worker)
    (conn : Connection)
    (stream : StreamId)
    (request : Bytes)
    (entry : Pending) :
    w.register conn stream request entry =
      { w with
        h3 := w.h3.registerRequest stream
        pending := w.pending.insert stream entry
        history :=
          w.history ++ w.replaced stream ++
            [.requested entry.serial conn.serial stream request] } := by
  unfold register replaced
  cases w.pending.lookup stream <;> simp [observe]

variable {cfg : WorkerConfig} {action : Action}
variable {hand : List AcceptedQuery} {events : List H3Event}

theorem moves_refl (w : Worker) :
    Moves cfg action ⟨w, hand, events⟩ ⟨w, hand, events⟩ :=
  .refl

theorem Tuned.moves
    {w after : Worker}
    (tuned : w.Tuned after) :
    Moves cfg action ⟨w, hand, events⟩ ⟨after, hand, events⟩ :=
  .single (.tune tuned)

/-- Moves may follow tuning. -/
theorem moves_after_tuned
    {w between : Worker}
    {last : MidStep}
    (moves : Moves cfg action ⟨between, hand, events⟩ last)
    (tuned : w.Tuned between) :
    Moves cfg action ⟨w, hand, events⟩ last :=
  tuned.moves.trans moves

/-- A report is one move. -/
theorem moves_report
    {w after : Worker}
    {observation : Observation}
    (tuned : (w.observe observation).Tuned after)
    (isReport : observation.isReport) :
    Moves cfg action ⟨w, hand, events⟩ ⟨after, hand, events⟩ :=
  .head (.report isReport) tuned.moves

/-- Variables that hold no query and no stream may be set freely. -/
theorem tuned_update
    (w : Worker)
    {zeroRttOffered goaway h3Ready : Bool}
    {reconnectAt : Option Instant}
    {backoff : Duration}
    {rt : Runtime} :
    w.Tuned
      { w with
        zeroRttOffered := zeroRttOffered
        goaway := goaway
        h3Ready := h3Ready
        reconnectAt := reconnectAt
        backoff := backoff
        rt := rt } :=
  ⟨rfl, rfl, rfl, rfl, rfl, rfl, rfl, rfl⟩

theorem tuned_onFailure (w : Worker) : w.Tuned w.onFailure :=
  w.tuned_update

/-- A SERVFAIL can be built for every accepted query. -/
theorem moves_sendServfail (w : Worker) (query : AcceptedQuery) :
    Moves cfg action ⟨w, query :: hand, events⟩
      ⟨w.sendServfail query, hand, events⟩ := by
  obtain ⟨out, built⟩ := Dns.buildServfail_of_validateQuery query.valid
  rw [sendServfail, built]
  exact .single (.servfail built)

theorem moves_onFailure_sendServfail (w : Worker) (query : AcceptedQuery) :
    Moves cfg action ⟨w, query :: hand, events⟩
      ⟨w.onFailure.sendServfail query, hand, events⟩ :=
  w.tuned_onFailure.moves.trans (moves_sendServfail w.onFailure query)

/-- A stream is opened on the current connection with an unused id. -/
theorem openBi_eq_some
    {w : Worker}
    {env : DispatchEnv}
    {stream : StreamId}
    {opened : Connection}
    (result : w.openBi env = some (stream, opened)) :
    ∃ conn,
      w.conn = some conn ∧ env.openBi = some stream ∧
        stream ∉ conn.opened ∧
        opened = { conn with opened := stream :: conn.opened } := by
  unfold openBi at result
  split at result
  next conn proposed connected answer =>
    split at result
    · cases result
    next fresh =>
      obtain ⟨rfl, rfl⟩ := Prod.mk.inj (Option.some.inj result)
      exact ⟨conn, connected, answer, fresh, rfl⟩
  · cases result

/-- Dispatching a query answers it or registers its request. -/
theorem moves_dispatchQuery
    (now : Instant)
    (w : Worker)
    (query : AcceptedQuery)
    {env : DispatchEnv}
    (allowed : ∀ stream, env.request = some stream → stream ∈ action.requests) :
    Moves cfg action ⟨w, query :: hand, events⟩
      ⟨w.dispatchQuery cfg now query env, hand, events⟩ := by
  unfold dispatchQuery
  split
  · exact moves_onFailure_sendServfail w query
  next stream opened result =>
    obtain ⟨conn, connected, answer, fresh, rfl⟩ := openBi_eq_some result
    have opening (hand : List AcceptedQuery) :
        Moves cfg action ⟨w, hand, events⟩
          ⟨{ w with
              conn := some { conn with opened := stream :: conn.opened } },
            hand, events⟩ :=
      .single (.openStream stream connected)
    simp only
    split
    · exact (opening _).trans (moves_sendServfail _ query)
    next written =>
      split
      · exact (opening _).trans (moves_onFailure_sendServfail _ query)
      next finished =>
        have requested : env.request = some stream := by
          simp_all [DispatchEnv.request]
        exact .single
          (.request connected fresh (allowed stream requested) _ _)

theorem queue_sendServfail (w : Worker) (query : AcceptedQuery) :
    (w.sendServfail query).queue = w.queue := by
  unfold sendServfail
  split <;> rfl

theorem pending_sendServfail (w : Worker) (query : AcceptedQuery) :
    (w.sendServfail query).pending = w.pending := by
  unfold sendServfail
  split <;> rfl

theorem queue_dispatchQuery
    (now : Instant)
    (w : Worker)
    (query : AcceptedQuery)
    (env : DispatchEnv) :
    (w.dispatchQuery cfg now query env).queue = w.queue := by
  unfold dispatchQuery
  split
  · exact queue_sendServfail w.onFailure query
  next stream conn opened =>
    simp only
    split
    · exact queue_sendServfail _ query
    · split
      · exact queue_sendServfail _ query
      · unfold register
        split <;> rfl

/-- The queue is flushed query by query. -/
theorem moves_flushLoop
    (now : Instant)
    {w : Worker}
    {queue : List QueuedQuery}
    (sameQueue : w.queue = queue)
    {envs : List DispatchEnv}
    (allowed :
      ∀ env ∈ envs, ∀ stream, env.request = some stream → stream ∈ action.requests) :
    Moves cfg action ⟨w, hand, events⟩
      ⟨flushLoop cfg now queue envs w, hand, events⟩ := by
  induction queue generalizing w envs with
  | nil =>
      exact .refl
  | cons q rest inductionHypothesis =>
      have popped :
          Moves cfg action ⟨w, hand, events⟩
            ⟨{ w with queue := rest }, q.toAcceptedQuery :: hand, events⟩ :=
        .single (.dequeue sameQueue)
      rw [flushLoop]
      split
      · have answered := popped.trans (moves_onFailure_sendServfail _ _)
        exact answered.trans
          (inductionHypothesis (queue_sendServfail _ _) allowed)
      · have first :
            ∀ stream,
              (envs.headD ⟨none, false, false⟩).request = some stream →
                stream ∈ action.requests := by
          cases envs with
          | nil =>
              intro stream requested
              cases requested
          | cons env others =>
              exact allowed env List.mem_cons_self
        have dispatched := popped.trans (moves_dispatchQuery now _ _ first)
        refine dispatched.trans
          (inductionHypothesis (queue_dispatchQuery now _ _ _) ?_)
        intro env member
        exact allowed env (List.mem_of_mem_tail member)

/-- Failing all requests answers them one by one. -/
theorem moves_failAllPending (w : Worker) :
    Moves cfg action ⟨w, hand, events⟩
      ⟨w.failAllPending, hand, events⟩ := by
  have answered (entries : List (Sigma fun _ : StreamId => Pending))
      (w : Worker) :
      Moves cfg action
        ⟨w, entries.map (fun entry => entry.2.toAcceptedQuery) ++ hand, events⟩
        ⟨entries.foldl
          (fun w entry => w.onFailure.sendServfail entry.2.toAcceptedQuery) w,
          hand, events⟩ := by
    induction entries generalizing w with
    | nil =>
        exact moves_refl w
    | cons entry rest inductionHypothesis =>
        exact (moves_onFailure_sendServfail w _).trans (inductionHypothesis _)
  exact Relation.ReflTransGen.head .takeAll (answered _ _)

/-- Failing all requests empties `pending` and leaves the queue alone. -/
theorem failAllPending_frame (w : Worker) :
    w.failAllPending.pending = ∅ ∧ w.failAllPending.queue = w.queue := by
  have answered (entries : List (Sigma fun _ : StreamId => Pending))
      (w : Worker) :
      let after :=
        entries.foldl
          (fun w entry => w.onFailure.sendServfail entry.2.toAcceptedQuery) w
      after.pending = w.pending ∧ after.queue = w.queue := by
    induction entries generalizing w with
    | nil =>
        exact ⟨rfl, rfl⟩
    | cons entry rest inductionHypothesis =>
        obtain ⟨samePending, sameQueue⟩ :=
          inductionHypothesis (w.onFailure.sendServfail entry.2.toAcceptedQuery)
        rw [queue_sendServfail] at sameQueue
        rw [pending_sendServfail] at samePending
        exact ⟨samePending, sameQueue⟩
  exact answered _ _

/-- Dropping the connection settles its requests first. -/
theorem moves_dropConnection (w : Worker) :
    Moves cfg action ⟨w, hand, events⟩
      ⟨w.dropConnection, hand, events⟩ := by
  have failed :
      Moves cfg action ⟨w, hand, events⟩ ⟨w.failAllPending, hand, events⟩ :=
    moves_failAllPending w
  have closed :=
    failed.tail (.disconnect (.inl w.failAllPending_frame.1))
  exact closed.tail (.tune (tuned_update _))

/-- Reading a stream is made of moves. -/
theorem moves_readStream
    {w : Worker}
    {conn : Connection}
    (connected : w.conn = some conn)
    (stream : StreamId)
    (chunks : List Bytes) :
    Moves cfg action ⟨w, hand, events⟩
      ⟨(w.readStream conn stream chunks).1, hand,
        events ++ (w.readStream conn stream chunks).2⟩ := by
  induction chunks generalizing w events with
  | nil =>
      rw [readStream, List.append_nil]
      exact moves_refl w
  | cons chunk rest inductionHypothesis =>
      rw [readStream, ← List.append_assoc]
      refine Relation.ReflTransGen.head (.receive connected stream chunk) ?_
      exact inductionHypothesis connected

/-- One QUIC event; its H3 events are collected. -/
theorem moves_handleQuicEvent
    (now : Instant)
    (w : Worker)
    {event : QuicEvent}
    (allowed : ∀ stream ∈ event.requests, stream ∈ action.requests) :
    Moves cfg action ⟨w, hand, events⟩
      ⟨(w.handleQuicEvent cfg now event).1, hand,
        events ++ (w.handleQuicEvent cfg now event).2⟩ := by
  cases event with
  | connected envs =>
      have flushed (w : Worker) :
          Moves cfg action ⟨w, hand, events⟩
            ⟨w.flushQueue cfg now envs, hand, events⟩ := by
        refine moves_flushLoop now rfl ?_
        intro env member stream requested
        exact allowed stream
          (List.mem_filterMap.mpr ⟨env, member, requested⟩)
      simp only [handleQuicEvent]
      split
      · rw [List.append_nil]
        exact (tuned_update _).moves
      · rw [List.append_nil]
        exact moves_after_tuned (flushed _)
          (tuned_update _)
  | connectionLost applicationClosed =>
      have dropped :
          Moves cfg action ⟨w, hand, events⟩
            ⟨{ w with
                rt.failStreak :=
                  if applicationClosed then 0
                  else saturatingSucc w.rt.failStreak }.dropConnection,
              hand, events⟩ :=
        moves_after_tuned (moves_dropConnection _)
          (tuned_update _)
      simp only [handleQuicEvent, List.append_nil]
      exact dropped.tail (.tune (tuned_update _))
  | readable stream chunks outcome =>
      simp only [handleQuicEvent]
      split
      · exact .single (.reset stream)
      next conn connected =>
        have read :
            Moves cfg action ⟨w, hand, events⟩ _ :=
          moves_readStream connected stream chunks
        cases outcome with
        | blocked =>
            exact read
        | error =>
            simp only
            rw [← List.append_assoc]
            exact read.tail (.reset stream)
        | eof =>
            simp only
            rw [← List.append_assoc]
            exact read.tail (.finish stream)
  | other =>
      simp only [handleQuicEvent, List.append_nil]
      exact moves_refl w

theorem moves_handleQuicEvents
    (now : Instant)
    {batch : List QuicEvent}
    (w : Worker)
    (allowed : ∀ stream ∈ batch.flatMap QuicEvent.requests, stream ∈ action.requests) :
    Moves cfg action ⟨w, hand, events⟩
      ⟨(handleQuicEvents cfg now batch w).1, hand,
        events ++ (handleQuicEvents cfg now batch w).2⟩ := by
  induction batch generalizing w events with
  | nil =>
      rw [handleQuicEvents, List.append_nil]
      exact moves_refl w
  | cons event rest inductionHypothesis =>
      rw [List.flatMap_cons] at allowed
      rw [handleQuicEvents, ← List.append_assoc]
      have first :
          Moves cfg action ⟨w, hand, events⟩ _ :=
        moves_handleQuicEvent now w fun stream member =>
          allowed stream (List.mem_append_left _ member)
      exact first.trans (inductionHypothesis _ fun stream member =>
        allowed stream (List.mem_append_right _ member))

theorem moves_failRequest (w : Worker) (stream : StreamId) :
    Moves cfg action ⟨w, hand, events⟩
      ⟨w.failRequest stream, hand, events⟩ := by
  unfold failRequest
  split
  · exact moves_refl w
  next p found =>
    exact Relation.ReflTransGen.head (.take found)
      (moves_onFailure_sendServfail _ p.toAcceptedQuery)

/-- One H3 event is consumed. -/
theorem moves_applyH3Event (now : Instant) (w : Worker) (event : H3Event) :
    Moves cfg action ⟨w, hand, event :: events⟩
      ⟨w.applyH3Event now event, hand, events⟩ := by
  cases event with
  | response stream body =>
      simp only [applyH3Event]
      split
      · exact .single (.skip _)
      next p found =>
        exact Relation.ReflTransGen.head (.respond found)
          (tuned_update _).moves
  | failed stream =>
      exact Relation.ReflTransGen.head (.skip _) (moves_failRequest w stream)
  | goaway =>
      simp only [applyH3Event]
      split
      · exact Relation.ReflTransGen.head (.skip _)
          (tuned_update _).moves
      · exact .single (.skip _)

theorem moves_processQuicEvents
    (now : Instant)
    (w : Worker)
    {batch : List QuicEvent}
    (allowed : ∀ stream ∈ batch.flatMap QuicEvent.requests, stream ∈ action.requests) :
    Moves cfg action ⟨w, hand, []⟩
      ⟨w.processQuicEvents cfg now batch, hand, []⟩ := by
  have applied (events : List H3Event) (w : Worker) :
      Moves cfg action ⟨w, hand, events⟩
        ⟨events.foldl (applyH3Event now) w, hand, []⟩ := by
    induction events generalizing w with
    | nil =>
        exact moves_refl w
    | cons event rest inductionHypothesis =>
        exact (moves_applyH3Event now w event).trans (inductionHypothesis _)
  have polled :
      ∀ stream ∈ (if w.conn.isSome then batch else []).flatMap
        QuicEvent.requests, stream ∈ action.requests := by
    split
    · exact allowed
    · simp
  exact (moves_handleQuicEvents now w polled).trans (applied _ _)

/-! ## Housekeeping -/

theorem moves_expirePending (now : Instant) (w : Worker) :
    Moves cfg action ⟨w, hand, events⟩
      ⟨w.expirePending now, hand, events⟩ := by
  have expired (streams : List StreamId) (w : Worker) :
      Moves cfg action ⟨w, hand, events⟩
        ⟨streams.foldl failRequest w, hand, events⟩ := by
    induction streams generalizing w with
    | nil =>
        exact moves_refl w
    | cons stream rest inductionHypothesis =>
        exact (moves_failRequest w stream).trans (inductionHypothesis _)
  exact expired _ w

theorem moves_expireQueue
    (now : Instant)
    {w : Worker}
    {queue : List QueuedQuery}
    (sameQueue : w.queue = queue) :
    Moves cfg action ⟨w, hand, events⟩
      ⟨expireQueue now queue w, hand, events⟩ := by
  induction queue generalizing w with
  | nil =>
      exact moves_refl w
  | cons q rest inductionHypothesis =>
      rw [expireQueue]
      split
      · have answered :
            Moves cfg action ⟨w, hand, events⟩ _ :=
          Relation.ReflTransGen.head (.dequeue sameQueue)
            (moves_onFailure_sendServfail _ q.toAcceptedQuery)
        exact answered.trans (inductionHypothesis (queue_sendServfail _ _))
      · exact moves_refl w

theorem moves_publishScore (now : Instant) (w : Worker) :
    Moves cfg action ⟨w, hand, events⟩
      ⟨w.publishScore now, hand, events⟩ := by
  unfold publishScore
  split
  · exact moves_report (tuned_update _) rfl
  · exact moves_refl w

theorem tuned_goawayDrained (now : Instant) (w : Worker) :
    w.Tuned (w.goawayDrained now) := by
  unfold goawayDrained
  split <;> exact tuned_update _

theorem moves_migrate (now : Instant) (w : Worker) (monoSecs : Nat) :
    Moves cfg action ⟨w, hand, events⟩
      ⟨w.migrate cfg now monoSecs, hand, events⟩ := by
  unfold migrate
  split
  · exact moves_report (tuned_update _) rfl
  · exact moves_refl w

/-- The worker once a connection that still exists is closed. -/
def closed (w : Worker) : Worker :=
  if w.conn.isSome then
    { w with
      conn := none
      h3 := H3.new
      h3Ready := false
      goaway := false }
  else
    w

theorem conn_closed (w : Worker) : w.closed.conn = none := by
  unfold closed
  split
  · rfl
  next notSome =>
    exact Option.not_isSome_iff_eq_none.mp notSome

/-- The connection is set up, or something failed on the way. -/
theorem connectAndPreamble_cases (w : Worker) (env : ConnectEnv) :
    (env.connectOk ∧
      w.connectAndPreamble env = ((w.connect env).1, some env.has0rtt)) ∨
      w.connectAndPreamble env = ((w.connect env).1, none) := by
  unfold connectAndPreamble
  simp only
  split
  next succeeded =>
    have connectOk : env.connectOk := by
      by_contra notOk
      simp [connect, notOk] at succeeded
    left
    simp [connect, connectOk]
  · exact .inr rfl

/-- Every way a reconnect can end. -/
theorem reconnect_cases (w : Worker) (now : Instant) (env : ConnectEnv) :
    (w.reconnect now env = w ∧ ∀ t, w.reconnectAt = some t → now < t) ∨
      (∃ t, w.reconnectAt = some t ∧ t ≤ now) ∧
        ((env.connectOk ∧
          w.reconnect now env =
            { (w.closed.connect env).1 with
              h3Ready := env.has0rtt
              reconnectAt := none }) ∨
        w.reconnect now env =
          { (w.closed.connect env).1 with
            rt.failStreak :=
              saturatingSucc (w.closed.connect env).1.rt.failStreak
            reconnectAt := some (now + fromSecs 1) }) := by
  generalize same : w.reconnect now env = result
  unfold reconnect at same
  split at same
  next unscheduled =>
    exact .inl ⟨same.symm, fun t scheduled => by
      rw [unscheduled] at scheduled
      cases scheduled⟩
  next t scheduled =>
    split at same
    next due =>
      refine .inr ⟨⟨t, scheduled, due⟩, ?_⟩
      simp only at same
      split at same
      next reached ready attempt =>
        rcases w.closed.connectAndPreamble_cases env with
          ⟨connectOk, success⟩ | failure
        · obtain ⟨rfl, readyIs⟩ := Prod.mk.inj (attempt.symm.trans success)
          obtain rfl := Option.some.inj readyIs
          exact .inl ⟨connectOk, same.symm⟩
        · cases (Prod.mk.inj (attempt.symm.trans failure)).2
      next reached attempt =>
        rcases w.closed.connectAndPreamble_cases env with
          ⟨_, success⟩ | failure
        · cases (Prod.mk.inj (attempt.symm.trans success)).2
        · obtain ⟨rfl, _⟩ := Prod.mk.inj (attempt.symm.trans failure)
          exact .inr same.symm
    next notDue =>
      refine .inl ⟨same.symm, fun other scheduledToo => ?_⟩
      obtain rfl : t = other :=
        Option.some.inj (scheduled.symm.trans scheduledToo)
      exact not_le.mp notDue

theorem moves_closed
    (w : Worker)
    (noRequests : action.requests = []) :
    Moves cfg action ⟨w, hand, events⟩ ⟨w.closed, hand, events⟩ := by
  unfold closed
  split
  · exact Relation.ReflTransGen.head (.disconnect (.inr noRequests))
      (tuned_update _).moves
  · exact moves_refl w

theorem moves_connect
    {w : Worker}
    (disconnected : w.conn = none)
    (noRequests : action.requests = [])
    (env : ConnectEnv) :
    Moves cfg action ⟨w, hand, []⟩ ⟨(w.connect env).1, hand, []⟩ := by
  unfold connect
  split
  · exact Relation.ReflTransGen.head (.connect disconnected noRequests)
      (tuned_update _).moves
  · exact moves_refl w

/-- An open connection is closed before the worker reconnects. -/
theorem moves_reconnect
    (now : Instant)
    (w : Worker)
    (noRequests : action.requests = [])
    (env : ConnectEnv) :
    Moves cfg action ⟨w, hand, []⟩ ⟨w.reconnect now env, hand, []⟩ := by
  have connected :
      Moves cfg action ⟨w, hand, []⟩ ⟨(w.closed.connect env).1, hand, []⟩ :=
    (moves_closed w noRequests).trans
      (moves_connect w.conn_closed noRequests env)
  rcases w.reconnect_cases now env with
    ⟨same, _⟩ | ⟨_, ⟨_, same⟩ | same⟩
  · rw [same]
    exact moves_refl w
  · rw [same]
    exact connected.tail (.tune (tuned_update _))
  · rw [same]
    exact connected.tail (.tune (tuned_update _))

/-- Housekeeping is made of moves. -/
theorem moves_housekeeping
    (w : Worker)
    (noRequests : action.requests = [])
    (env : HousekeepingEnv) :
    Moves cfg action ⟨w, hand, []⟩ ⟨w.housekeeping cfg env, hand, []⟩ := by
  have adopted (w : Worker) :
      w.Tuned { w with rt := w.rt.adopt cfg env.now env.published } :=
    tuned_update _
  exact ((((((moves_expirePending env.now w).tail
    (.tune (adopted _))).trans
    (moves_expireQueue env.now rfl)).trans
    (moves_publishScore env.now _)).tail
    (.tune (tuned_goawayDrained env.now _))).trans
    (moves_migrate env.now _ env.monoSecs)).trans
    (moves_reconnect env.now _ noRequests env.connect)

/-! ## Steps -/

/-- A datagram is dropped unread, or accepted and settled. -/
theorem moves_drainDns
    (now : Instant)
    (w : Worker)
    (peer : SocketAddr)
    (data : Bytes)
    {env : DispatchEnv}
    (allowed : ∀ stream, env.request = some stream → stream ∈ action.requests) :
    Moves cfg action ⟨w, hand, events⟩
      ⟨w.drainDns cfg now peer data env, hand, events⟩ := by
  unfold drainDns
  simp only
  split
  next valid =>
    refine Relation.ReflTransGen.head (.accept peer valid) ?_
    split
    · exact moves_onFailure_sendServfail _ _
    · split
      · split
        · exact moves_onFailure_sendServfail _ _
        · exact .single (.enqueue _)
      · exact moves_dispatchQuery now _ _ allowed
  · exact moves_refl w

/-- Every step consists of moves, and uses only the ids of its action. -/
theorem moves_step (cfg : WorkerConfig) (w : Worker) (action : Action) :
    Moves cfg action ⟨w, [], []⟩ ⟨w.step cfg action, [], []⟩ := by
  unfold step
  split
  · exact moves_refl w
  · cases action with
    | datagram now peer data env =>
        refine moves_drainDns now w peer data ?_
        intro stream requested
        simp [Action.requests, requested]
    | quicEvents now batch =>
        exact moves_processQuicEvents now w fun _ member => member
    | housekeeping env =>
        exact moves_housekeeping w rfl env
    | drained now =>
        simp only [checkDrained]
        split
        · have dropped :
              Moves cfg (.drained now) ⟨w, [], []⟩
                ⟨{ w with
                    rt.failStreak :=
                      saturatingSucc w.rt.failStreak }.dropConnection,
                  [], []⟩ :=
            moves_after_tuned (moves_dropConnection _)
              (tuned_update _)
          exact dropped.tail (.tune (tuned_update _))
        · exact moves_refl w
    | shutdown =>
        exact (moves_failAllPending w).tail (.halt rfl)

/-- What every move keeps holds in every state of every run. -/
theorem run_invariant
    {cfg : WorkerConfig}
    {holds : MidStep → Prop}
    (kept :
      ∀ {action before after},
        Move cfg action before after → holds before → holds after)
    {w : Worker}
    (initially : holds ⟨w, [], []⟩)
    (actions : List Action) :
    holds ⟨w.run cfg actions, [], []⟩ := by
  induction actions generalizing w with
  | nil =>
      exact initially
  | cons action rest inductionHypothesis =>
      exact inductionHypothesis
        ((moves_step cfg w action).invariant kept initially)

end Worker

end DnsServices.Microdoh3
