import DnsServices.H3ResponseEnd
import DnsServices.WorkerIds
import DnsServices.WorkerTimeout

namespace DnsServices.Microdoh3

/-!
# Answers reach their clients

Once the request of a query is on its stream, the upstream answers there in any
chunks, while the worker goes on with other queries, other streams and its
housekeeping.  If the connection stays up, the deadline does not pass and what
arrives before the end of the stream is a proper response, then the client gets
exactly that response.
-/

open Http3 Shared Runs ChunkedParser

/-- What an event brings on a stream. -/
def QuicEvent.bytesOn (stream : StreamId) : QuicEvent → Bytes
  | .readable onStream chunks _ => if onStream = stream then chunks.flatten else []
  | _ => []

/-- The event neither drops the connection nor concerns the stream. -/
def QuicEvent.spares (stream : StreamId) : QuicEvent → Bool
  | .connectionLost _ => false
  | .readable onStream _ _ => onStream != stream
  | _ => true

/-- The event may bring bytes on the stream, but not its end. -/
def QuicEvent.continues (stream : StreamId) : QuicEvent → Bool
  | .connectionLost _ => false
  | .readable onStream _ outcome => onStream != stream || outcome == .blocked
  | _ => true

/-- What an action brings on a stream. -/
def Action.bytesOn (stream : StreamId) : Action → Bytes
  | .quicEvents _ events => events.flatMap (·.bytesOn stream)
  | _ => []

namespace Worker

/-- The action leaves a request with a deadline in flight. -/
def Undisturbed
    (cfg : WorkerConfig)
    (stream : StreamId)
    (deadline : Instant)
    (w : Worker) :
    Action → Prop
  | .datagram _ _ _ _ =>
      True
  | .quicEvents _ events =>
      ∀ event ∈ events, event.continues stream = true
  | .housekeeping env =>
      env.now < deadline ∧ ¬ w.ReconnectDue cfg env
  | .drained _ =>
      False
  | .shutdown =>
      False

/-- A stream was opened on the current connection. -/
def Opened (stream : StreamId) (w : Worker) : Prop :=
  ∃ conn, w.conn = some conn ∧ stream ∈ conn.opened

/-- The request on a stream is left alone. -/
structure Spares (stream : StreamId) (before after : Worker) : Prop where
  opened : before.Opened stream → after.Opened stream
  pending :
    before.Opened stream →
      after.pending.lookup stream = before.pending.lookup stream
  h3 :
    before.Opened stream →
      after.h3.streams stream = before.h3.streams stream

namespace Spares

variable {stream : StreamId}

/-- A worker with the same connection, pending queries and parser spares the
stream. -/
theorem same
    {before after : Worker}
    (conn : after.conn = before.conn)
    (pending : after.pending = before.pending)
    (h3 : after.h3 = before.h3) :
    Spares stream before after where
  opened := by
    rintro ⟨current, connected, opened⟩
    exact ⟨current, conn.trans connected, opened⟩
  pending := fun _ => by rw [pending]
  h3 := fun _ => by rw [h3]

theorem refl (w : Worker) : Spares stream w w :=
  same rfl rfl rfl

theorem trans
    {first second third : Worker}
    (earlier : Spares stream first second)
    (later : Spares stream second third) :
    Spares stream first third where
  opened := fun opened => later.opened (earlier.opened opened)
  pending := fun opened =>
    (later.pending (earlier.opened opened)).trans (earlier.pending opened)
  h3 := fun opened =>
    (later.h3 (earlier.opened opened)).trans (earlier.h3 opened)

theorem foldl
    {α : Type}
    {body : Worker → α → Worker}
    (items : List α)
    (each : ∀ item ∈ items, ∀ w, Spares stream w (body w item))
    (w : Worker) :
    Spares stream w (items.foldl body w) := by
  induction items generalizing w with
  | nil =>
      exact .refl w
  | cons item rest inductionHypothesis =>
      rw [List.forall_mem_cons] at each
      exact (each.1 w).trans (inductionHypothesis each.2 _)

end Spares

variable {cfg : WorkerConfig} {stream : StreamId}

theorem spares_sendServfail (w : Worker) (query : AcceptedQuery) :
    Spares stream w (w.sendServfail query) := by
  unfold sendServfail
  split
  · exact .same rfl rfl rfl
  · exact .refl w

theorem spares_onFailure_sendServfail (w : Worker) (query : AcceptedQuery) :
    Spares stream w (w.onFailure.sendServfail query) := by
  have counted : Spares stream w w.onFailure := .same rfl rfl rfl
  exact counted.trans (w.onFailure.spares_sendServfail query)

/-- A new request takes a stream that was not opened before. -/
theorem spares_dispatchQuery
    (now : Instant)
    (w : Worker)
    (query : AcceptedQuery)
    (env : DispatchEnv) :
    Spares stream w (w.dispatchQuery cfg now query env) := by
  unfold dispatchQuery
  split
  · exact w.spares_onFailure_sendServfail query
  next other conn opened =>
    obtain ⟨current, connected, _, fresh, rfl⟩ := openBi_eq_some opened
    have differs (isOpened : w.Opened stream) : stream ≠ other := by
      rintro rfl
      obtain ⟨same, isSame, member⟩ := isOpened
      obtain rfl := Option.some.inj (connected.symm.trans isSame)
      exact fresh member
    have opening :
        Spares stream w
          { w with
            conn :=
              some { current with opened := other :: current.opened } } := by
      refine ⟨?_, fun _ => rfl, fun _ => rfl⟩
      rintro ⟨same, isSame, member⟩
      obtain rfl := Option.some.inj (connected.symm.trans isSame)
      exact ⟨_, rfl, List.mem_cons_of_mem other member⟩
    simp only
    split
    · exact opening.trans (spares_sendServfail _ query)
    · split
      · exact opening.trans (spares_onFailure_sendServfail _ query)
      · rw [register_eq]
        refine ⟨opening.opened, ?_, ?_⟩
        · intro isOpened
          exact AList.lookup_insert_ne (differs isOpened)
        · intro isOpened
          exact w.h3.insert_other (differs isOpened) _

/-- Flushing the queue spares a stream already open. -/
theorem spares_flushLoop
    (now : Instant)
    (queue : List QueuedQuery)
    (envs : List DispatchEnv)
    (w : Worker) :
    Spares stream w (flushLoop cfg now queue envs w) := by
  induction queue generalizing envs w with
  | nil =>
      exact .refl w
  | cons q rest inductionHypothesis =>
      have popped : Spares stream w { w with queue := rest } :=
        .same rfl rfl rfl
      rw [flushLoop]
      split
      · exact (popped.trans (spares_onFailure_sendServfail _ _)).trans
          (inductionHypothesis _ _)
      · exact (popped.trans (spares_dispatchQuery now _ _ _)).trans
          (inductionHypothesis _ _)

theorem spares_drainDns
    (w : Worker)
    (now : Instant)
    (peer : SocketAddr)
    (data : Bytes)
    (env : DispatchEnv) :
    Spares stream w (w.drainDns cfg now peer data env) := by
  have accepts (observation : Observation) :
      Spares stream w
        ({ w with accepted := w.accepted + 1 }.observe observation) :=
    .same rfl rfl rfl
  unfold drainDns
  simp only
  split
  · split
    · exact (accepts _).trans (spares_onFailure_sendServfail _ _)
    · split
      · split
        · exact (accepts _).trans (spares_onFailure_sendServfail _ _)
        · exact .same rfl rfl rfl
      · exact (accepts _).trans (spares_dispatchQuery now _ _ env)
  · exact .refl w

theorem spares_failRequest
    {other : StreamId}
    (differs : stream ≠ other)
    (w : Worker) :
    Spares stream w (w.failRequest other) := by
  unfold failRequest
  split
  · exact .refl w
  · refine Spares.trans ?_ (spares_onFailure_sendServfail _ _)
    refine ⟨id, fun _ => AList.lookup_erase_ne differs, fun _ => rfl⟩

/-- Reading one stream spares the others and reports nothing of them. -/
theorem spares_readStream
    {other : StreamId}
    (differs : stream ≠ other)
    (w : Worker)
    (conn : Connection)
    (chunks : List Bytes) :
    Spares stream w (w.readStream conn other chunks).1 ∧
      eventsNaming stream (w.readStream conn other chunks).2 = [] := by
  induction chunks generalizing w with
  | nil =>
      exact ⟨.refl w, rfl⟩
  | cons chunk rest inductionHypothesis =>
      rw [readStream]
      have fed :
          Spares stream w
            ({ w with h3 := (w.h3.feed other chunk).1 }.observe
              (.received conn.serial other chunk)) :=
        ⟨id, fun _ => rfl,
          fun _ => (feed_quiet w.h3 other chunk).others stream differs⟩
      obtain ⟨spares, silent⟩ := inductionHypothesis
        ({ w with h3 := (w.h3.feed other chunk).1 }.observe
          (.received conn.serial other chunk))
      refine ⟨fed.trans spares, ?_⟩
      simp only [eventsNaming_append, eventsNaming_feed, silent]
      rfl

/-- A call of the H3 layer that does not concern the stream. -/
theorem spares_h3
    {w : Worker}
    {outcome : H3 × List H3Event}
    (other :
      outcome.1.streams stream = w.h3.streams stream ∧
        eventsNaming stream outcome.2 = []) :
    Spares stream w { w with h3 := outcome.1 } ∧
      eventsNaming stream outcome.2 = [] :=
  ⟨⟨id, fun _ => rfl, fun _ => other.1⟩, other.2⟩

/-- An event that does not concern the stream. -/
theorem spares_handleQuicEvent
    (cfg : WorkerConfig)
    (now : Instant)
    (w : Worker)
    {event : QuicEvent}
    (spares : event.spares stream = true) :
    Spares stream w (w.handleQuicEvent cfg now event).1 ∧
      eventsNaming stream (w.handleQuicEvent cfg now event).2 = [] := by
  cases event with
  | connected envs =>
      simp only [handleQuicEvent]
      split
      · exact ⟨.same rfl rfl rfl, rfl⟩
      · refine ⟨Spares.trans ?_ (spares_flushLoop now _ envs _), rfl⟩
        exact .same rfl rfl rfl
  | connectionLost applicationClosed =>
      cases spares
  | readable other chunks outcome =>
      have differs : stream ≠ other := by
        intro same
        simp [QuicEvent.spares, same] at spares
      have resets : stream ≠ (H3Call.reset other).stream := differs
      have finishes : stream ≠ (H3Call.finish other).stream := differs
      simp only [handleQuicEvent]
      split
      · exact spares_h3 (call_other w.h3 resets)
      next conn connected =>
        obtain ⟨read, silent⟩ := w.spares_readStream differs conn chunks
        generalize w.readStream conn other chunks = result at *
        obtain ⟨reached, events⟩ := result
        cases outcome with
        | blocked =>
            exact ⟨read, silent⟩
        | error =>
            obtain ⟨ended, quiet⟩ :=
              spares_h3 (call_other reached.h3 resets)
            refine ⟨read.trans ended, ?_⟩
            rw [eventsNaming_append, silent]
            exact quiet
        | eof =>
            obtain ⟨ended, quiet⟩ :=
              spares_h3 (call_other reached.h3 finishes)
            refine ⟨read.trans ended, ?_⟩
            rw [eventsNaming_append, silent]
            exact quiet
  | other =>
      exact ⟨.refl w, rfl⟩

/-! ## A request that waits for its answer -/

/-- A request is in flight on the current connection. -/
structure Waits (stream : StreamId) (p : Pending) (w : Worker) : Prop where
  opened : w.Opened stream
  pending : w.pending.lookup stream = some p

/-- A request is in flight and its stream has received some bytes. -/
structure Awaits
    (stream : StreamId)
    (p : Pending)
    (data : Bytes)
    (w : Worker) :
    Prop extends Waits stream p w where
  registered :
    w.h3.streams stream = some (.response (responseAfter data))

variable {p : Pending} {data : Bytes}

/-- A request that is spared goes on waiting. -/
theorem Waits.spares
    {before after : Worker}
    (waits : before.Waits stream p)
    (spares : Spares stream before after) :
    after.Waits stream p where
  opened := spares.opened waits.opened
  pending := (spares.pending waits.opened).trans waits.pending

theorem Awaits.spares
    {before after : Worker}
    (awaits : before.Awaits stream p data)
    (spares : Spares stream before after) :
    after.Awaits stream p data where
  toWaits := awaits.toWaits.spares spares
  registered := (spares.h3 awaits.opened).trans awaits.registered

/-- The stream is read chunk by chunk. -/
theorem Awaits.readStream
    {w : Worker}
    (awaits : w.Awaits stream p data)
    (conn : Connection)
    (chunks : List Bytes) :
    (w.readStream conn stream chunks).1.Awaits stream p
        (data ++ chunks.flatten) ∧
      eventsNaming stream (w.readStream conn stream chunks).2 = [] := by
  induction chunks generalizing w data with
  | nil =>
      rw [List.flatten_nil, List.append_nil]
      exact ⟨awaits, rfl⟩
  | cons chunk rest inductionHypothesis =>
      have fed :
          (w.h3.feed stream chunk).1.streams stream =
            some (.response (responseAfter (data ++ chunk))) := by
        rw [H3.feed, awaits.registered, ← responseAfter_feed]
        exact H3.insert_same _ _ _
      have reached :
          ({ w with h3 := (w.h3.feed stream chunk).1 }.observe
            (.received conn.serial stream chunk)).Awaits stream p
              (data ++ chunk) :=
        ⟨⟨awaits.opened, awaits.pending⟩, fed⟩
      obtain ⟨read, silent⟩ := inductionHypothesis reached
      rw [Worker.readStream, List.flatten_cons, ← List.append_assoc]
      refine ⟨read, ?_⟩
      simp only [eventsNaming_append, eventsNaming_feed, silent]
      rfl

/-- An event that does not end the stream. -/
theorem Awaits.handleQuicEvent
    {w : Worker}
    (awaits : w.Awaits stream p data)
    (cfg : WorkerConfig)
    (now : Instant)
    {event : QuicEvent}
    (continues : event.continues stream = true) :
    (w.handleQuicEvent cfg now event).1.Awaits stream p
        (data ++ event.bytesOn stream) ∧
      eventsNaming stream (w.handleQuicEvent cfg now event).2 = [] := by
  have spared
      (spares : event.spares stream = true)
      (nothing : event.bytesOn stream = []) :
      (w.handleQuicEvent cfg now event).1.Awaits stream p
          (data ++ event.bytesOn stream) ∧
        eventsNaming stream (w.handleQuicEvent cfg now event).2 = [] := by
    have kept := w.spares_handleQuicEvent cfg now spares
    rw [nothing, List.append_nil]
    exact ⟨awaits.spares kept.1, kept.2⟩
  cases event with
  | connected envs =>
      exact spared rfl rfl
  | connectionLost applicationClosed =>
      cases continues
  | readable onStream chunks outcome =>
      by_cases same : onStream = stream
      · subst same
        have blocked : outcome = .blocked := by
          simpa [QuicEvent.continues] using continues
        subst blocked
        obtain ⟨conn, connected, _⟩ := awaits.opened
        simp only [Worker.handleQuicEvent, connected, QuicEvent.bytesOn,
          if_true]
        exact awaits.readStream conn chunks
      · refine spared ?_ (if_neg same)
        simpa [QuicEvent.spares] using same
  | other =>
      exact spared rfl rfl

/-- A batch of events that continue the stream adds their bytes to what was
read. -/
theorem Awaits.handleQuicEvents
    {w : Worker}
    (awaits : w.Awaits stream p data)
    (cfg : WorkerConfig)
    (now : Instant)
    {events : List QuicEvent}
    (continuing : ∀ event ∈ events, event.continues stream = true) :
    (Worker.handleQuicEvents cfg now events w).1.Awaits stream p
        (data ++ events.flatMap (·.bytesOn stream)) ∧
      eventsNaming stream (Worker.handleQuicEvents cfg now events w).2 =
        [] := by
  induction events generalizing w data with
  | nil =>
      rw [List.flatMap_nil, List.append_nil]
      exact ⟨awaits, rfl⟩
  | cons event rest inductionHypothesis =>
      rw [List.forall_mem_cons] at continuing
      have first := awaits.handleQuicEvent cfg now continuing.1
      have later := inductionHypothesis first.1 continuing.2
      rw [List.flatMap_cons, ← List.append_assoc]
      refine ⟨later.1, ?_⟩
      simp only [Worker.handleQuicEvents, eventsNaming_append, first.2, later.2]
      rfl

/-! ## The end of the stream -/

/-- The body that a client is to get for the bytes of a stream. -/
def bodyOf (received : Bytes) : Bytes :=
  (payloadsOf frameData (items popFrame received)).flatten

/-- At its end the stream reports the whole response. -/
theorem Awaits.finish
    {w : Worker}
    (awaits : w.Awaits stream p data)
    (cfg : WorkerConfig)
    (now : Instant)
    {chunks : List Bytes}
    (clean : CleanResponse (items popFrame (data ++ chunks.flatten))) :
    (w.handleQuicEvent cfg now (.readable stream chunks .eof)).1.Waits stream
        p ∧
      eventsNaming stream
          (w.handleQuicEvent cfg now (.readable stream chunks .eof)).2 =
        [.response stream (bodyOf (data ++ chunks.flatten))] := by
  obtain ⟨conn, connected, _⟩ := awaits.opened
  obtain ⟨read, silent⟩ := awaits.readStream conn chunks
  simp only [Worker.handleQuicEvent, connected]
  refine ⟨⟨read.opened, read.pending⟩, ?_⟩
  rw [eventsNaming_append, silent]
  rcases finish_responseAfter read.registered with
    ⟨_, finished⟩ | ⟨unclean, _⟩
  · rw [finished]
    simp [eventsNaming, H3Event.names, bodyOf]
  · exact absurd clean unclean

/-- Events of the same batch that do not concern the stream. -/
theorem Waits.handleQuicEvents
    {w : Worker}
    (waits : w.Waits stream p)
    (cfg : WorkerConfig)
    (now : Instant)
    {events : List QuicEvent}
    (sparing : ∀ event ∈ events, event.spares stream = true) :
    (Worker.handleQuicEvents cfg now events w).1.Waits stream p ∧
      eventsNaming stream (Worker.handleQuicEvents cfg now events w).2 =
        [] := by
  induction events generalizing w with
  | nil =>
      exact ⟨waits, rfl⟩
  | cons event rest inductionHypothesis =>
      rw [List.forall_mem_cons] at sparing
      have first := w.spares_handleQuicEvent cfg now sparing.1
      have later := inductionHypothesis (waits.spares first.1) sparing.2
      refine ⟨later.1, ?_⟩
      simp only [Worker.handleQuicEvents, eventsNaming_append, first.2, later.2]
      rfl

/-- An H3 event of another stream. -/
theorem spares_applyH3Event
    (now : Instant)
    (w : Worker)
    {event : H3Event}
    (other : event.names stream = false) :
    Spares stream w (w.applyH3Event now event) := by
  cases event with
  | response named body =>
      have differs : stream ≠ named := by
        rintro rfl
        simp [H3Event.names] at other
      simp only [applyH3Event]
      split
      · exact .refl w
      · exact ⟨id, fun _ => AList.lookup_erase_ne differs, fun _ => rfl⟩
  | failed named =>
      have differs : stream ≠ named := by
        rintro rfl
        simp [H3Event.names] at other
      exact w.spares_failRequest differs
  | goaway =>
      simp only [applyH3Event]
      split
      · exact .same rfl rfl rfl
      · exact .refl w

theorem mem_history_applyH3Event
    (now : Instant)
    (w : Worker)
    (event : H3Event)
    {observation : Observation}
    (member : observation ∈ w.history) :
    observation ∈ (w.applyH3Event now event).history := by
  cases event with
  | response named body =>
      simp only [applyH3Event]
      split
      · exact member
      · exact List.mem_append_left _ member
  | failed named =>
      obtain ⟨added, history, _⟩ := (w.routine_failRequest named).history
      have failed :
          (w.applyH3Event now (.failed named)).history = w.history ++ added :=
        history
      rw [failed]
      exact List.mem_append_left _ member
  | goaway =>
      simp only [applyH3Event]
      split <;> exact member

/-- Applying events forgets no observation. -/
theorem mem_history_applyH3Events
    (now : Instant)
    (events : List H3Event)
    {w : Worker}
    {observation : Observation}
    (member : observation ∈ w.history) :
    observation ∈ (events.foldl (applyH3Event now) w).history := by
  induction events generalizing w with
  | nil =>
      exact member
  | cons event rest inductionHypothesis =>
      exact inductionHypothesis (w.mem_history_applyH3Event now event member)

/-- The client gets the response when the events are applied. -/
theorem Waits.response_mem
    {w : Worker}
    (waits : w.Waits stream p)
    (now : Instant)
    {events : List H3Event}
    {body : Bytes}
    (reported : eventsNaming stream events = [.response stream body]) :
    .response p.serial p.peer (withQueryId body p.query) ∈
      (events.foldl (applyH3Event now) w).history := by
  induction events generalizing w with
  | nil =>
      cases reported
  | cons event rest inductionHypothesis =>
      rw [List.foldl_cons]
      cases named : event.names stream with
      | false =>
          rw [eventsNaming, List.filter_cons, named,
            if_neg Bool.false_ne_true] at reported
          exact inductionHypothesis
            (waits.spares (w.spares_applyH3Event now named)) reported
      | true =>
          rw [eventsNaming, List.filter_cons, named, if_pos rfl] at reported
          obtain ⟨rfl, _⟩ := List.cons.inj reported
          have responded :
              .response p.serial p.peer (withQueryId body p.query) ∈
                (w.applyH3Event now (.response stream body)).history := by
            simp only [applyH3Event, waits.pending]
            exact List.mem_append_right _ (List.mem_singleton_self _)
          exact mem_history_applyH3Events now rest responded

/-! ## Steps -/

/-- Events about other streams leave the request waiting. -/
theorem Awaits.applyH3Events
    {w : Worker}
    (awaits : w.Awaits stream p data)
    (now : Instant)
    {events : List H3Event}
    (silent : eventsNaming stream events = []) :
    (events.foldl (applyH3Event now) w).Awaits stream p data := by
  rw [eventsNaming, List.filter_eq_nil_iff] at silent
  refine awaits.spares (.foldl events ?_ w)
  intro event member w
  exact w.spares_applyH3Event now (by simpa using silent event member)

/-- Housekeeping that neither expires the request nor reconnects. -/
theorem Awaits.housekeeping
    {w : Worker}
    (awaits : w.Awaits stream p data)
    {env : HousekeepingEnv}
    (inTime : env.now < p.deadline)
    (stays : ¬ w.ReconnectDue cfg env) :
    (w.housekeeping cfg env).Awaits stream p data := by
  have expired : Spares stream w (w.expirePending env.now) := by
    refine .foldl _ ?_ w
    intro other member w'
    refine w'.spares_failRequest ?_
    rintro rfl
    obtain ⟨⟨_, found⟩, filtered, rfl⟩ := List.mem_map.mp member
    obtain ⟨held, past⟩ := List.mem_filter.mp filtered
    have same : w.pending.lookup _ = some found :=
      AList.mem_lookup_iff.mpr held
    obtain rfl := Option.some.inj (awaits.pending.symm.trans same)
    exact not_le.mpr inTime (of_decide_eq_true past)
  have scanned (queue : List QueuedQuery) (w : Worker) :
      Spares stream w (expireQueue env.now queue w) := by
    induction queue generalizing w with
    | nil =>
        exact .refl w
    | cons q rest inductionHypothesis =>
        rw [expireQueue]
        split
        · have popped : Spares stream w { w with queue := rest } :=
            .same rfl rfl rfl
          exact (popped.trans (spares_onFailure_sendServfail _ _)).trans
            (inductionHypothesis _)
        · exact .refl w
  have adopted (w : Worker) (rt : Runtime) :
      Spares stream w { w with rt := rt } :=
    .same rfl rfl rfl
  have published : Spares stream w (w.beforePublication cfg env) :=
    (expired.trans (adopted _ _)).trans (scanned _ _)
  have settled : Spares stream w (w.beforeReconnect cfg env) := by
    obtain ⟨_, _, _, same⟩ := w.beforeReconnect_update cfg env
    rw [same]
    exact published.trans (.same rfl rfl rfl)
  have notDue :
      ¬ ∃ t, (w.beforeReconnect cfg env).reconnectAt = some t ∧
        t ≤ env.now :=
    fun due => stays ((w.due_beforeReconnect cfg env).mp due)
  have reconnects :
      w.housekeeping cfg env =
        (w.beforeReconnect cfg env).reconnect env.now env.connect :=
    rfl
  rcases (w.beforeReconnect cfg env).reconnect_cases env.now env.connect with
    ⟨same, _⟩ | ⟨due, _⟩
  · rw [reconnects, same]
    exact awaits.spares settled
  · exact absurd due notDue

/-- Nothing in an undisturbed action makes `run` return. -/
theorem Undisturbed.returned
    {w : Worker}
    {deadline : Instant}
    {action : Action}
    (undisturbed : w.Undisturbed cfg stream deadline action) :
    (w.step cfg action).returned = w.returned := by
  have notShutdown : action ≠ .shutdown := by
    rintro rfl
    exact undisturbed
  have kept {before after : MidStep}
      (move : Move cfg action before after)
      (same : before.worker.returned = w.returned) :
      after.worker.returned = w.returned :=
    (move.returned notShutdown).trans same
  exact (moves_step cfg w action).invariant kept rfl

/-- An undisturbed step leaves the request waiting, with the bytes it brought.
-/
theorem Awaits.step
    {w : Worker}
    (awaits : w.Awaits stream p data)
    (running : w.returned = false)
    {action : Action}
    (undisturbed : w.Undisturbed cfg stream p.deadline action) :
    (w.step cfg action).Awaits stream p (data ++ action.bytesOn stream) := by
  unfold Worker.step
  rw [running, if_neg Bool.false_ne_true]
  cases action with
  | datagram now peer query env =>
      have nothing : (Action.datagram now peer query env).bytesOn stream = [] :=
        rfl
      rw [nothing, List.append_nil]
      exact awaits.spares (w.spares_drainDns now peer query env)
  | quicEvents now events =>
      obtain ⟨conn, connected, _⟩ := awaits.opened
      have handled := awaits.handleQuicEvents cfg now undisturbed
      simp only [processQuicEvents, connected, Option.isSome_some, if_true]
      exact handled.1.applyH3Events now handled.2
  | housekeeping env =>
      have nothing : (Action.housekeeping env).bytesOn stream = [] := rfl
      rw [nothing, List.append_nil]
      exact awaits.housekeeping undisturbed.1 undisturbed.2
  | drained now =>
      cases undisturbed
  | shutdown =>
      cases undisturbed

/-- The bytes of the stream add up over a run. -/
theorem Awaits.run
    {w : Worker}
    (awaits : w.Awaits stream p data)
    (running : w.returned = false)
    {actions : List Action}
    (undisturbed :
      AllSteps (Worker.step cfg)
        (fun w action => w.Undisturbed cfg stream p.deadline action) w
        actions) :
    (w.run cfg actions).Awaits stream p
        (data ++ actions.flatMap (·.bytesOn stream)) ∧
      (w.run cfg actions).returned = false := by
  induction actions generalizing w data with
  | nil =>
      rw [List.flatMap_nil, List.append_nil]
      exact ⟨awaits, running⟩
  | cons action rest inductionHypothesis =>
      rw [List.flatMap_cons, ← List.append_assoc]
      exact inductionHypothesis (awaits.step running undisturbed.1)
        (undisturbed.1.returned.trans running) undisturbed.2

/-- The events of two batches come one after the other. -/
theorem snd_handleQuicEvents_append
    (cfg : WorkerConfig)
    (now : Instant)
    (before after : List QuicEvent)
    (w : Worker) :
    (handleQuicEvents cfg now (before ++ after) w).2 =
      (handleQuicEvents cfg now before w).2 ++
        (handleQuicEvents cfg now after
          (handleQuicEvents cfg now before w).1).2 := by
  induction before generalizing w with
  | nil =>
      rfl
  | cons event rest inductionHypothesis =>
      simp only [List.cons_append, handleQuicEvents, inductionHypothesis,
        List.append_assoc]

/-- The batch that ends the stream answers the client. -/
theorem Awaits.response_mem_step
    {w : Worker}
    (awaits : w.Awaits stream p data)
    (running : w.returned = false)
    (cfg : WorkerConfig)
    (now : Instant)
    {before after : List QuicEvent}
    {chunks : List Bytes}
    (continuing : ∀ event ∈ before, event.continues stream = true)
    (sparing : ∀ event ∈ after, event.spares stream = true)
    (clean :
      CleanResponse
        (items popFrame
          (data ++ before.flatMap (·.bytesOn stream) ++ chunks.flatten))) :
    .response p.serial p.peer
        (withQueryId
          (bodyOf
            (data ++ before.flatMap (·.bytesOn stream) ++ chunks.flatten))
          p.query) ∈
      (w.step cfg
        (.quicEvents now
          (before ++ .readable stream chunks .eof :: after))).history := by
  obtain ⟨conn, connected, _⟩ := awaits.opened
  have first := awaits.handleQuicEvents cfg now continuing
  have ended := first.1.finish cfg now clean
  have rest := ended.1.handleQuicEvents cfg now sparing
  have stepped (events : List QuicEvent) :
      w.step cfg (.quicEvents now events) =
        (Worker.handleQuicEvents cfg now events w).2.foldl (applyH3Event now)
          (Worker.handleQuicEvents cfg now events w).1 := by
    simp [Worker.step, running, processQuicEvents, connected]
  rw [stepped, handleQuicEvents_append, snd_handleQuicEvents_append]
  refine rest.1.response_mem now ?_
  simp only [Worker.handleQuicEvents, eventsNaming_append, first.2, ended.2,
    rest.2]
  rfl

/-! ## From the query to its answer -/

/-- A request can be sent on a new stream. -/
structure CanRequest (stream : StreamId) (w : Worker) : Prop where
  running : w.returned = false
  goaway : w.goaway = false
  h3Ready : w.h3Ready = true
  fresh : ∃ conn, w.conn = some conn ∧ stream ∉ conn.opened

/-- A query that is accepted then waits for its answer. -/
theorem CanRequest.awaits
    {w : Worker}
    (ready : w.CanRequest stream)
    (cfg : WorkerConfig)
    (now : Instant)
    (peer : SocketAddr)
    {query : Bytes}
    (valid : Dns.validateQuery query = .ok ())
    (short : query.length ≤ maxDnsLen) :
    (w.step cfg (.datagram now peer query ⟨some stream, true, true⟩)).Awaits
      stream
      { serial := w.accepted
        query := query
        peer := peer
        valid := valid
        deadline := now + cfg.timeout
        started := now } [] := by
  obtain ⟨conn, connected, fresh⟩ := ready.fresh
  have whole : query.take maxDnsLen = query := List.take_of_length_le short
  let accepted : Worker :=
    { w with accepted := w.accepted + 1 }.observe
      (.accepted w.accepted query peer)
  have opens :
      accepted.openBi ⟨some stream, true, true⟩ =
        some (stream, { conn with opened := stream :: conn.opened }) := by
    simp [accepted, openBi, observe, connected, fresh]
  have dispatched :
      w.step cfg (.datagram now peer query ⟨some stream, true, true⟩) =
        accepted.dispatchQuery cfg now ⟨w.accepted, query, peer, valid⟩
          ⟨some stream, true, true⟩ := by
    simp [Worker.step, ready.running, drainDns, whole, valid, ready.goaway,
      ready.h3Ready, connected, accepted, observe]
  rw [dispatched, dispatchQuery, opens]
  simp only [Bool.not_true, Bool.false_eq_true, if_false, register_eq]
  refine ⟨⟨⟨_, rfl, List.mem_cons_self⟩, AList.lookup_insert _⟩, ?_⟩
  rw [responseAfter_nil]
  exact H3.insert_same _ _ _

/-- A connection that can open streams at once. -/
def readyWorker : Worker :=
  start plainConfig oldSet 0 true false

/-- Status 200 and a body of two bytes. -/
def twoByteFrames : List WireFrame :=
  acceptTrailed.headers :: acceptTrailed.content

theorem clean_twoByteFrames :
    CleanResponse (twoByteFrames.map WireFrame.decoded) where
  accepted := by
    have onlyHeaders :
        payloadsOf frameHeaders (twoByteFrames.map WireFrame.decoded) =
          [[0x00, 0x00, 0xD9]] := by
      decide
    have readable : parseStatus [0x00, 0x00, 0xD9] = .ok 200 := by
      decide +kernel
    rw [onlyHeaders]
    rintro payload member ⟨failure, rejected⟩
    rw [List.mem_singleton.mp member, readable] at rejected
    cases rejected
  lastStatus := ⟨[0x00, 0x00, 0xD9], by decide, by decide +kernel⟩
  hasData := by decide

/-- The first byte of the answer comes while another request fails. -/
def meanwhile : List Action :=
  [.datagram 1 (localPeer 5001) rootQuery ⟨some 4, true, true⟩,
    .quicEvents (fromSecs 1)
      [.readable 0 [[0x01]] .blocked, .readable 4 [[0x07]] .error],
    .housekeeping ⟨fromSecs 2, 2, none, ⟨true, false, true, false, true⟩⟩]

/-- The worker when its housekeeping comes. -/
def halfAnswered : Worker :=
  readyWorker.run plainConfig
    (.datagram 0 (localPeer 5000) rootQuery ⟨some 0, true, true⟩ ::
      meanwhile.take 2)

end Worker

end DnsServices.Microdoh3
