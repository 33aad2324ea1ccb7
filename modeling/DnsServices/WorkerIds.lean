import DnsServices.Runs
import DnsServices.WorkerFrame
import DnsServices.WorkerLoss
import DnsServices.WorkerReplies
import DnsServices.WorkerScore

namespace DnsServices.Microdoh3

/-!
# Replies carry the transaction id of their query

A SERVFAIL copies the id; an upstream body gets it back, unless it is shorter
than an id.  The body is what the DATA frames of the response held, so it is
long enough exactly if the upstream sent two bytes.
-/

open Http3 Runs Shared ChunkedParser

/-- The payload begins with the transaction id of the query. -/
def CarriesId (query payload : Bytes) : Prop :=
  2 ≤ payload.length ∧ payload.take 2 = query.take 2

/-- A body of two bytes or more goes out with the id of its query. -/
theorem carriesId_withQueryId
    {body query : Bytes}
    (longBody : 2 ≤ body.length)
    (longQuery : 2 ≤ query.length) :
    CarriesId query (withQueryId body query) := by
  rw [CarriesId, withQueryId, if_pos ⟨longBody, longQuery⟩]
  obtain _ | ⟨first, _ | ⟨second, rest⟩⟩ := query
  case cons.cons =>
    obtain _ | ⟨a, _ | ⟨b, tail⟩⟩ := body
    case cons.cons =>
      simp
    all_goals
      simp at longBody
  all_goals
    simp at longQuery

theorem length_withQueryId (body query : Bytes) :
    (withQueryId body query).length = body.length := by
  unfold withQueryId
  split
  · rw [List.length_set, List.length_set]
  · rfl

/-- Every reply to an accepted query carries its transaction id. -/
def RepliesCarryId (history : List Observation) : Prop :=
  ∀ serial query peer, .accepted serial query peer ∈ history →
    ∀ other payload,
      .servfail serial other payload ∈ history ∨
          .response serial other payload ∈ history →
        CarriesId query payload

namespace Worker

/--
A worker that has read a stream to its end: if the query is pending and the
stream brought a well-formed response, the body has two bytes or more.
-/
def LongAnswer (reached : Worker) (stream : StreamId) : Prop :=
  stream ∈ reached.pending →
    ∀ conn serial data, reached.conn = some conn →
      ReceivedSince reached.history serial conn.serial stream data →
      CleanResponse (items popFrame data) →
      2 ≤ (payloadsOf frameData (items popFrame data)).flatten.length

/--
The upstream answers with two bytes or more.  A batch in which the connection
is lost sends no upstream body at all.
-/
def LongAnswers (cfg : WorkerConfig) (w : Worker) : Action → Prop
  | .quicEvents now events =>
      ¬ w.returned → (∀ closed, .connectionLost closed ∉ events) →
        ∀ before stream chunks after conn,
          events = before ++ .readable stream chunks .eof :: after →
          (handleQuicEvents cfg now before w).1.conn = some conn →
          ((handleQuicEvents cfg now before w).1.readStream conn stream
            chunks).1.LongAnswer stream
  | _ =>
      True

end Worker

/-! ## Streams that are not used again -/

/-- Since `first`, no request was registered under the id. -/
structure NotRenewed
    (action : Action)
    (stream : StreamId)
    (first : Worker)
    (m : MidStep) : Prop where
  pending : stream ∈ m.worker.pending → stream ∈ first.pending
  /-- An action either registers requests or opens a connection. -/
  opened :
    action.requests ≠ [] →
      ∀ conn, m.worker.conn = some conn → stream ∈ conn.opened

/-- A move that opens no request on the stream does not renew its entry. -/
theorem Move.notRenewed
    {cfg : WorkerConfig}
    {action : Action}
    {stream : StreamId}
    {first : Worker}
    {before after : MidStep}
    (move : Move cfg action before after)
    (notRenewed : NotRenewed action stream first before) :
    NotRenewed action stream first after := by
  cases move with
  | tune tuned =>
      refine ⟨?_, ?_⟩
      · rw [tuned.pending]
        exact notRenewed.pending
      · rw [tuned.conn]
        exact notRenewed.opened
  | take found =>
      exact ⟨fun member => notRenewed.pending (AList.mem_erase.mp member).2,
        notRenewed.opened⟩
  | takeAll =>
      exact ⟨fun member => (AList.notMem_empty _ member).elim,
        notRenewed.opened⟩
  | respond found =>
      exact ⟨fun member => notRenewed.pending (AList.mem_erase.mp member).2,
        notRenewed.opened⟩
  | @openStream w _ _ conn opened connected =>
      refine ⟨notRenewed.pending, fun requests current isCurrent => ?_⟩
      obtain rfl := Option.some.inj isCurrent
      exact List.mem_cons_of_mem _ (notRenewed.opened requests conn connected)
  | @request w _ _ _ conn registered connected fresh allowed =>
      have requests : action.requests ≠ [] := List.ne_nil_of_mem allowed
      have known := notRenewed.opened requests conn connected
      rw [Worker.register_eq]
      refine ⟨fun member => ?_, fun _ current isCurrent => ?_⟩
      · rcases (AList.mem_insert _).mp member with rfl | old
        · exact absurd known fresh
        · exact notRenewed.pending old
      · obtain rfl := Option.some.inj isCurrent
        exact List.mem_cons_of_mem _ known
  | disconnect settled =>
      exact ⟨notRenewed.pending, nofun⟩
  | connect disconnected noRequests =>
      exact ⟨notRenewed.pending, fun requests => absurd noRequests requests⟩
  | _ =>
      exact ⟨notRenewed.pending, notRenewed.opened⟩

/-! ## Responses come from streams that were read to their end -/

namespace Worker

/-- Reading a stream completes no response; only its end does. -/
theorem not_response_of_readStream
    (w : Worker)
    (conn : Connection)
    (fed : StreamId)
    (chunks : List Bytes)
    (stream : StreamId)
    (body : Bytes) :
    .response stream body ∉ (w.readStream conn fed chunks).2 := by
  induction chunks generalizing w with
  | nil =>
      exact List.not_mem_nil
  | cons chunk rest inductionHypothesis =>
      rw [readStream]
      intro member
      rcases List.mem_append.mp member with now | later
      · cases (feed_quiet w.h3 fed chunk).events _ now
      · exact inductionHypothesis _ later

/-- Finishing a stream completes a response on that stream only. -/
theorem eq_of_response_mem_finish
    {h3 : H3}
    {ended stream : StreamId}
    {body : Bytes}
    (member : .response stream body ∈ (h3.finish ended).2) :
    stream = ended := by
  unfold H3.finish at member
  split at member
  · split at member
    · cases List.mem_singleton.mp member
    · split at member
      · exact (H3Event.response.inj (List.mem_singleton.mp member)).1
      · cases List.mem_singleton.mp member
  · cases member

/-- A completed response comes from a stream that was read to its end. -/
theorem response_of_handleQuicEvent
    {cfg : WorkerConfig}
    {now : Instant}
    {w : Worker}
    {event : QuicEvent}
    {stream : StreamId}
    {body : Bytes}
    (member : .response stream body ∈ (w.handleQuicEvent cfg now event).2) :
    ∃ chunks conn,
      event = .readable stream chunks .eof ∧ w.conn = some conn ∧
        .response stream body ∈
          ((w.readStream conn stream chunks).1.h3.finish stream).2 := by
  cases event with
  | connected envs =>
      simp only [handleQuicEvent] at member
      split at member <;> cases member
  | connectionLost applicationClosed =>
      cases member
  | readable ended chunks outcome =>
      simp only [handleQuicEvent] at member
      split at member
      · cases eq_failed_of_mem_reset member
      next conn connected =>
        have notRead :=
          w.not_response_of_readStream conn ended chunks stream body
        cases outcome with
        | blocked =>
            exact absurd member notRead
        | error =>
            have reset := (List.mem_append.mp member).resolve_left notRead
            cases eq_failed_of_mem_reset reset
        | eof =>
            have finish := (List.mem_append.mp member).resolve_left notRead
            obtain rfl := eq_of_response_mem_finish finish
            exact ⟨chunks, conn, rfl, connected, finish⟩
  | other =>
      cases member

/-- A collected response belongs to a place in the batch. -/
theorem response_of_handleQuicEvents
    {cfg : WorkerConfig}
    {now : Instant}
    {w : Worker}
    {events : List QuicEvent}
    {stream : StreamId}
    {body : Bytes}
    (member : .response stream body ∈ (handleQuicEvents cfg now events w).2) :
    ∃ before chunks after conn,
      events = before ++ .readable stream chunks .eof :: after ∧
        (handleQuicEvents cfg now before w).1.conn = some conn ∧
        .response stream body ∈
          (((handleQuicEvents cfg now before w).1.readStream conn stream
            chunks).1.h3.finish stream).2 := by
  induction events generalizing w with
  | nil =>
      cases member
  | cons event rest inductionHypothesis =>
      rw [handleQuicEvents] at member
      rcases List.mem_append.mp member with first | later
      · obtain ⟨chunks, conn, rfl, connected, finish⟩ :=
          response_of_handleQuicEvent first
        exact ⟨[], chunks, rest, conn, rfl, connected, finish⟩
      · obtain ⟨before, chunks, after, conn, rfl, connected, finish⟩ :=
          inductionHypothesis later
        exact ⟨event :: before, chunks, after, conn, rfl, connected, finish⟩

/-- Two batches of events are handled one after the other. -/
theorem handleQuicEvents_append
    (cfg : WorkerConfig)
    (now : Instant)
    (before after : List QuicEvent)
    (w : Worker) :
    (handleQuicEvents cfg now (before ++ after) w).1 =
      (handleQuicEvents cfg now after
        (handleQuicEvents cfg now before w).1).1 := by
  induction before generalizing w with
  | nil =>
      rfl
  | cons event rest inductionHypothesis =>
      exact inductionHypothesis _

/-! ## One batch -/

/-- An id that the connection has used is not registered again. -/
theorem pending_of_handleQuicEvents
    {cfg : WorkerConfig}
    {now : Instant}
    {w : Worker}
    {events : List QuicEvent}
    {stream : StreamId}
    (opened : ∀ conn, w.conn = some conn → stream ∈ conn.opened)
    (pending : stream ∈ (handleQuicEvents cfg now events w).1.pending) :
    stream ∈ w.pending := by
  have moves :
      Moves cfg (.quicEvents now events) ⟨w, [], []⟩
        ⟨(handleQuicEvents cfg now events w).1, [],
          [] ++ (handleQuicEvents cfg now events w).2⟩ :=
    moves_handleQuicEvents now w fun _ member => member
  exact (moves.invariant Move.notRenewed ⟨id, fun _ => opened⟩).pending pending

/-- Nothing is pending after a batch in which the connection was lost. -/
theorem notMem_pending_of_connectionLost
    (cfg : WorkerConfig)
    (now : Instant)
    (w : Worker)
    {events : List QuicEvent}
    {closed : Bool}
    (lost : .connectionLost closed ∈ events)
    (stream : StreamId) :
    stream ∉ (handleQuicEvents cfg now events w).1.pending := by
  obtain ⟨before, after, rfl⟩ := List.append_of_mem lost
  rw [handleQuicEvents_append, handleQuicEvents]
  intro pending
  have disconnected :
      ((handleQuicEvents cfg now before w).1.handleQuicEvent cfg now
        (.connectionLost closed)).1.conn = none := rfl
  have emptied :
      ((handleQuicEvents cfg now before w).1.handleQuicEvent cfg now
        (.connectionLost closed)).1.pending = ∅ :=
    (failAllPending_frame _).1
  have kept := pending_of_handleQuicEvents (by simp [disconnected]) pending
  rw [emptied] at kept
  exact AList.notMem_empty _ kept

/-- Handling events keeps the worker sound. -/
theorem sound_handleQuicEvents
    {cfg : WorkerConfig}
    {w : Worker}
    (sound : MidStep.Sound cfg ⟨w, [], []⟩)
    (now : Instant)
    (events : List QuicEvent) :
    MidStep.Sound cfg
      ⟨(handleQuicEvents cfg now events w).1, [],
        [] ++ (handleQuicEvents cfg now events w).2⟩ := by
  have moves :
      Moves cfg (.quicEvents now events) ⟨w, [], []⟩ _ :=
    moves_handleQuicEvents now w fun _ member => member
  exact moves.invariant Move.sound sound

theorem sound_readStream
    {cfg : WorkerConfig}
    {w : Worker}
    {events : List H3Event}
    (sound : MidStep.Sound cfg ⟨w, [], events⟩)
    {conn : Connection}
    (connected : w.conn = some conn)
    (stream : StreamId)
    (chunks : List Bytes) :
    MidStep.Sound cfg
      ⟨(w.readStream conn stream chunks).1, [],
        events ++ (w.readStream conn stream chunks).2⟩ := by
  have moves :
      Moves cfg .shutdown ⟨w, [], events⟩ _ :=
    moves_readStream connected stream chunks
  exact moves.invariant Move.sound sound

theorem readStream_frame
    (w : Worker)
    (conn : Connection)
    (stream : StreamId)
    (chunks : List Bytes) :
    (w.readStream conn stream chunks).1.conn = w.conn ∧
      (w.readStream conn stream chunks).1.pending = w.pending := by
  induction chunks generalizing w with
  | nil =>
      exact ⟨rfl, rfl⟩
  | cons chunk rest inductionHypothesis =>
      exact inductionHypothesis _

/-- What a stream delivers at its end is what it has received. -/
theorem delivered_of_finish
    {cfg : WorkerConfig}
    {w : Worker}
    {events : List H3Event}
    (sound : MidStep.Sound cfg ⟨w, [], events⟩)
    {stream : StreamId}
    {body : Bytes}
    (member : .response stream body ∈ (w.h3.finish stream).2) :
    ∃ conn serial data,
      w.conn = some conn ∧
        ReceivedSince w.history serial conn.serial stream data ∧
        CleanResponse (items popFrame data) ∧
        body = (payloadsOf frameData (items popFrame data)).flatten := by
  obtain ⟨state, stored⟩ := registered_of_mem_finish member
  obtain ⟨conn, serial, data, connected, since, rfl⟩ :=
    sound.traced.streams stream state stored
  rcases finish_responseAfter stored with ⟨clean, event⟩ | ⟨_, event⟩
  · rw [event] at member
    have same := List.mem_singleton.mp member
    exact ⟨conn, serial, data, connected, since, clean,
      (H3Event.response.inj same).2⟩
  · rw [event] at member
    cases List.mem_singleton.mp member

/-- A response to a query that is pending after the batch is long enough. -/
theorem long_of_response
    {cfg : WorkerConfig}
    {now : Instant}
    {w : Worker}
    {events : List QuicEvent}
    (sound : MidStep.Sound cfg ⟨w, [], []⟩)
    (running : ¬ w.returned)
    (longAnswers : w.LongAnswers cfg (.quicEvents now events))
    {stream : StreamId}
    {body : Bytes}
    (member : .response stream body ∈ (handleQuicEvents cfg now events w).2)
    (pending : stream ∈ (handleQuicEvents cfg now events w).1.pending) :
    2 ≤ body.length := by
  have notLost : ∀ closed, .connectionLost closed ∉ events :=
    fun closed lost =>
      notMem_pending_of_connectionLost cfg now w lost stream pending
  obtain ⟨before, chunks, after, conn, shape, connected, finish⟩ :=
    response_of_handleQuicEvents member
  have long :=
    longAnswers running notLost before stream chunks after conn shape connected
  rw [shape, handleQuicEvents_append] at pending
  have soundReached := sound_handleQuicEvents sound now before
  generalize (handleQuicEvents cfg now before w).1 = reached at *
  have soundRead := sound_readStream soundReached connected stream chunks
  obtain ⟨sameConn, samePending⟩ :=
    reached.readStream_frame conn stream chunks
  obtain ⟨current, serial, data, isCurrent, since, clean, rfl⟩ :=
    delivered_of_finish soundRead finish
  refine long ?_ current serial data isCurrent since clean
  rw [samePending]
  refine pending_of_handleQuicEvents (fun other isOther => ?_) pending
  rw [← sameConn, isCurrent] at isOther
  obtain rfl := Option.some.inj isOther
  obtain ⟨request, requested⟩ := since.exists_requested
  exact soundRead.routed.opened current stream isCurrent
    (mem_requestKeys requested)

end Worker

/-! ## Runs -/

/-- The upstream bodies that were sent on have room for an id. -/
def LongResponses (history : List Observation) : Prop :=
  ∀ serial peer payload, .response serial peer payload ∈ history →
    2 ≤ payload.length

theorem LongResponses.append
    {history added : List Observation}
    (long : LongResponses history)
    (other : ∀ observation ∈ added, ¬ observation.isResponse) :
    LongResponses (history ++ added) := by
  intro serial peer payload member
  rcases List.mem_append.mp member with old | new
  · exact long serial peer payload old
  · exact absurd rfl (other _ new)

theorem Observation.not_isResponse_of_isRoutine
    {observation : Observation}
    (isRoutine : observation.isRoutine) :
    ¬ observation.isResponse := by
  cases observation <;>
    simp_all [Observation.isRoutine, Observation.isResponse]

namespace Worker

/-- What leaves the score sends no response. -/
theorem SameScore.longResponses
    {before after : Worker}
    (same : SameScore before after)
    (long : LongResponses before.history) :
    LongResponses after.history := by
  obtain ⟨added, history, routine⟩ := same.history
  rw [history]
  exact long.append fun observation member =>
    Observation.not_isResponse_of_isRoutine (routine observation member)

/-- Applying an event opens no request. -/
theorem pending_applyH3Event
    (now : Instant)
    (w : Worker)
    (event : H3Event)
    {stream : StreamId}
    (pending : stream ∈ (w.applyH3Event now event).pending) :
    stream ∈ w.pending := by
  cases event with
  | response answered body =>
      simp only [applyH3Event] at pending
      split at pending
      · exact pending
      · exact (AList.mem_erase.mp pending).2
  | failed answered =>
      simp only [applyH3Event, failRequest] at pending
      split at pending
      · exact pending
      · rw [pending_sendServfail] at pending
        exact (AList.mem_erase.mp pending).2
  | goaway =>
      simp only [applyH3Event] at pending
      split at pending <;> exact pending

/-- Applying events sends the bodies of the responses that are pending. -/
theorem longResponses_applyH3Events
    (now : Instant)
    {w : Worker}
    (long : LongResponses w.history)
    {events : List H3Event}
    (bodies :
      ∀ stream body, .response stream body ∈ events →
        stream ∈ w.pending → 2 ≤ body.length) :
    LongResponses (events.foldl (applyH3Event now) w).history := by
  induction events generalizing w with
  | nil =>
      exact long
  | cons event rest inductionHypothesis =>
      refine inductionHypothesis ?_ fun stream body member pending =>
        bodies stream body (List.mem_cons_of_mem _ member)
          (w.pending_applyH3Event now event pending)
      cases event with
      | response stream body =>
          simp only [applyH3Event]
          split
          · exact long
          next p found =>
            intro serial peer payload member
            rcases List.mem_append.mp member with old | new
            · exact long serial peer payload old
            · obtain ⟨_, _, rfl⟩ :=
                Observation.response.inj (List.mem_singleton.mp new)
              rw [length_withQueryId]
              refine bodies stream body List.mem_cons_self ?_
              exact AList.lookup_isSome.mp (by rw [found]; rfl)
      | failed stream =>
          exact (w.routine_failRequest stream).toSameScore.longResponses long
      | goaway =>
          simp only [applyH3Event]
          split <;> exact long

/-- A step whose answers are long keeps all responses long. -/
theorem longResponses_step
    {cfg : WorkerConfig}
    {w : Worker}
    (sound : MidStep.Sound cfg ⟨w, [], []⟩)
    (long : LongResponses w.history)
    {action : Action}
    (longAnswers : w.LongAnswers cfg action) :
    LongResponses (w.step cfg action).history := by
  rcases w.step_cases cfg action with
    ⟨same, _⟩ | ⟨now, events, rfl, running, connected, same⟩ |
      ⟨env, rfl, _, same⟩
  · exact same.longResponses long
  · rw [same, processQuicEvents, if_pos connected]
    exact longResponses_applyH3Events now
      ((sameScore_handleQuicEvents cfg now events w).longResponses long)
      fun stream body => long_of_response sound running longAnswers
  · obtain ⟨routine, published, moved, history, isRoutine, publishes,
      migrates⟩ := w.history_housekeeping cfg env
    rw [same, history]
    refine long.append fun observation member => ?_
    rcases List.mem_append.mp member with reported | inMoved
    · rcases List.mem_append.mp reported with inRoutine | inPublished
      · exact Observation.not_isResponse_of_isRoutine
          (isRoutine observation inRoutine)
      · obtain ⟨sample, rfl⟩ := publishes.eq_published observation inPublished
        exact Bool.false_ne_true
    · obtain ⟨now, target, rfl⟩ := migrates.eq_migrated observation inMoved
      exact Bool.false_ne_true

end Worker

/-- Accepted queries passed validation. -/
def MidStep.AcceptedValid (m : MidStep) : Prop :=
  ∀ serial query peer, .accepted serial query peer ∈ m.worker.history →
    Dns.validateQuery query = .ok ()

theorem Move.acceptedValid
    {cfg : WorkerConfig}
    {action : Action}
    {before after : MidStep}
    (move : Move cfg action before after)
    (valid : before.AcceptedValid) :
    after.AcceptedValid := by
  intro serial query peer member
  rcases move.accepted_cases with
    ⟨sent, _, isValid, _, history⟩ | ⟨_, added, history, others⟩
  · rw [history] at member
    rcases List.mem_append.mp member with old | new
    · exact valid serial query peer old
    · obtain ⟨_, rfl, _⟩ :=
        Observation.accepted.inj (List.mem_singleton.mp new)
      exact isValid
  · rw [history] at member
    rcases List.mem_append.mp member with old | new
    · exact valid serial query peer old
    · cases others _ new

/-- Upstream bodies and SERVFAILs carry the id if the bodies are long. -/
theorem repliesCarryId_of_longResponses
    {cfg : WorkerConfig}
    {w : Worker}
    (sound : MidStep.Sound cfg ⟨w, [], []⟩)
    (valid : MidStep.AcceptedValid ⟨w, [], []⟩)
    (serials : (w.history.filterMap Observation.accepted?).Nodup)
    (long : LongResponses w.history) :
    RepliesCarryId w.history := by
  intro serial query peer accepted other payload reply
  have same {sent : Bytes} {origin : SocketAddr}
      (acceptedToo : .accepted serial sent origin ∈ w.history) :
      sent = query := by
    have equal := eq_of_nodup_filterMap serials acceptedToo accepted rfl rfl
    exact (Observation.accepted.inj equal).2.1
  rcases reply with servfail | response
  · obtain ⟨sent, acceptedToo, built⟩ :=
      sound.accountable.observed _ servfail
    obtain rfl := same acceptedToo
    exact Dns.take_two_of_buildServfail built
  · have longPayload := long serial other payload response
    obtain ⟨earlier, sent, _, _, body, isPrefix, acceptedToo, _, rfl⟩ :=
      sound.traced.responses serial other payload response
    obtain rfl :=
      same (isPrefix.subset (List.mem_append_left _ acceptedToo))
    rw [length_withQueryId] at longPayload
    have header := Dns.length_of_validateQuery
      (valid serial sent peer accepted)
    rw [Dns.minDnsLen] at header
    exact carriesId_withQueryId longPayload (by omega)

/--
In every run in which the upstream never answers with fewer than two bytes,
every reply carries the transaction id of its query.
-/
theorem repliesCarryId_run
    (cfg : WorkerConfig)
    (set : UpstreamSet)
    (now : Instant)
    (has0rtt zeroRttOffered : Bool)
    {actions : List Action}
    (longAnswers :
      AllSteps (Worker.step cfg) (Worker.LongAnswers cfg)
        (Worker.start cfg set now has0rtt zeroRttOffered) actions) :
    RepliesCarryId
      ((Worker.start cfg set now has0rtt zeroRttOffered).run cfg
        actions).history := by
  let initial := Worker.start cfg set now has0rtt zeroRttOffered
  have soundStart : MidStep.Sound cfg ⟨initial, [], []⟩ :=
    Worker.sound_start cfg set now has0rtt zeroRttOffered
  have keeps
      (w : Worker)
      (action : Action)
      (met : w.LongAnswers cfg action)
      (reached :
        MidStep.Sound cfg ⟨w, [], []⟩ ∧ LongResponses w.history) :
      MidStep.Sound cfg ⟨w.step cfg action, [], []⟩ ∧
        LongResponses (w.step cfg action).history :=
    ⟨(w.moves_step cfg action).invariant Move.sound reached.1,
      Worker.longResponses_step reached.1 reached.2 met⟩
  have noneSent : LongResponses initial.history := by
    intro serial peer payload member
    cases member
  have kept := longAnswers.invariant keeps ⟨soundStart, noneSent⟩
  have valid : MidStep.AcceptedValid ⟨initial.run cfg actions, [], []⟩ := by
    refine Worker.run_invariant Move.acceptedValid ?_ actions
    intro serial query peer member
    cases member
  have numbered := initial.numbered_run cfg rfl actions
  refine repliesCarryId_of_longResponses kept.1 valid ?_ kept.2
  rw [numbered]
  exact List.nodup_range

/-! ### An empty answer -/

/-- Status 200 and an empty DATA frame. -/
def emptyAnswer : Bytes :=
  [0x01, 0x03, 0x00, 0x00, 0xD9, 0x00, 0x00]

/-- One query, answered by the upstream with the given bytes. -/
def answeredRun (answer : Bytes) : List Action :=
  [.quicEvents 0 [.connected []],
    .datagram 0 (Worker.localPeer 5000) Worker.rootQuery Worker.firstStream,
    .quicEvents (fromMillis 20) [.readable 0 [answer] .eof]]

/-- The client gets an empty datagram. -/
theorem not_repliesCarryId_emptyAnswer :
    ¬ RepliesCarryId
      ((Worker.start Worker.plainConfig Worker.oldSet 0 false false).run
        Worker.plainConfig (answeredRun emptyAnswer)).history := by
  intro carries
  have accepted :
      .accepted 0 Worker.rootQuery (Worker.localPeer 5000) ∈
        ((Worker.start Worker.plainConfig Worker.oldSet 0 false false).run
          Worker.plainConfig (answeredRun emptyAnswer)).history := by
    decide +kernel
  have replied :
      .response 0 (Worker.localPeer 5000) [] ∈
        ((Worker.start Worker.plainConfig Worker.oldSet 0 false false).run
          Worker.plainConfig (answeredRun emptyAnswer)).history := by
    decide +kernel
  have carried := carries 0 _ _ accepted _ _ (.inr replied)
  exact absurd carried.1 (by decide)

/-- The worker of `answeredRun` when the answer arrives. -/
def waiting : Worker :=
  ((Worker.start Worker.plainConfig Worker.oldSet 0 false false).step
    Worker.plainConfig (.quicEvents 0 [.connected []])).step
    Worker.plainConfig
    (.datagram 0 (Worker.localPeer 5000) Worker.rootQuery Worker.firstStream)

theorem receivedSince_waiting
    {conn : Connection}
    (connected : waiting.conn = some conn)
    {answer : Bytes}
    {serial onConn : Nat}
    {data : Bytes}
    (current : onConn = conn.serial)
    (since :
      ReceivedSince (waiting.readStream conn 0 [answer]).1.history serial
        onConn 0 data) :
    data = answer := by
  have isConn : waiting.conn = some ⟨0, [0]⟩ := by
    decide +kernel
  obtain rfl := Option.some.inj (isConn.symm.trans connected)
  have sent :
      waiting.history =
        [.accepted 0 Worker.rootQuery (Worker.localPeer 5000),
          .requested 0 0 0
            (requestBytes Worker.plainConfig Worker.rootQuery)] := by
    decide +kernel
  obtain ⟨request, earlier, later, history, rfl⟩ := since
  rw [Worker.readStream, Worker.readStream, Worker.observe, sent] at history
  subst current
  obtain _ | ⟨_, _ | ⟨_, _ | ⟨_, rest⟩⟩⟩ := earlier
  · simp at history
  · obtain ⟨_, tail⟩ := List.cons.inj history
    obtain ⟨_, rfl⟩ := List.cons.inj tail
    simp [receivedOn, Observation.receivedOn?]
  · simp at history
  · simp at history

theorem longAnswers_waiting :
    waiting.LongAnswers Worker.plainConfig
      (.quicEvents (fromMillis 20)
        [.readable 0 [Dialled.shortAnswer] .eof]) := by
  intro _ _ before stream chunks after conn shape connected
  obtain _ | ⟨first, rest⟩ := before
  · simp only [Worker.handleQuicEvents] at connected ⊢
    obtain ⟨event, rfl⟩ := List.cons.inj shape
    obtain ⟨rfl, rfl, _⟩ := QuicEvent.readable.inj event
    intro _ current serial data isCurrent since _
    rw [(Worker.readStream_frame _ conn 0 _).1] at isCurrent
    obtain rfl := Option.some.inj (connected.symm.trans isCurrent)
    obtain rfl := receivedSince_waiting connected rfl since
    decide +kernel
  · simp at shape

/-- A body of two bytes is enough. -/
theorem repliesCarryId_shortAnswer :
    AllSteps (Worker.step Worker.plainConfig)
      (Worker.LongAnswers Worker.plainConfig)
      (Worker.start Worker.plainConfig Worker.oldSet 0 false false)
      (answeredRun Dialled.shortAnswer) ∧
    .response 0 (Worker.localPeer 5000) [0x12, 0x34] ∈
      ((Worker.start Worker.plainConfig Worker.oldSet 0 false false).run
        Worker.plainConfig (answeredRun Dialled.shortAnswer)).history ∧
    RepliesCarryId
      ((Worker.start Worker.plainConfig Worker.oldSet 0 false false).run
        Worker.plainConfig (answeredRun Dialled.shortAnswer)).history := by
  have longAnswers :
      AllSteps (Worker.step Worker.plainConfig)
        (Worker.LongAnswers Worker.plainConfig)
        (Worker.start Worker.plainConfig Worker.oldSet 0 false false)
        (answeredRun Dialled.shortAnswer) := by
    refine ⟨?_, trivial, longAnswers_waiting, trivial⟩
    intro _ _ before stream chunks after conn shape
    obtain _ | ⟨first, rest⟩ := before
    · cases (List.cons.inj shape).1
    · simp at shape
  exact ⟨longAnswers, by decide +kernel,
    repliesCarryId_run Worker.plainConfig Worker.oldSet 0 false false
      longAnswers⟩

end DnsServices.Microdoh3
