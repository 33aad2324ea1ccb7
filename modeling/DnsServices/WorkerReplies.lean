import DnsServices.H3Response
import DnsServices.WorkerRequests

namespace DnsServices.Microdoh3

/-!
# Replies reach the right peer, once, with the right body

`pending` and the H3 layer know stream ids only.  The invariant that links
them to connections: a registered stream holds the bytes received since its
request on the current connection, and what `pending` has under its id is the
query of that request.  Response events keep this origin until they are
applied, even when the connection is lost in the same batch.
-/

open Http3 Shared ChunkedParser

/-! ## Bytes of a stream -/

/-- The chunk of an observation, if it arrived on the given stream. -/
def Observation.receivedOn?
    (conn : Nat)
    (stream : StreamId) :
    Observation → Option Bytes
  | .received onConn onStream chunk =>
      if onConn = conn ∧ onStream = stream then some chunk else none
  | _ =>
      none

/-- The bytes received on a stream of a connection. -/
def receivedOn
    (conn : Nat)
    (stream : StreamId)
    (history : List Observation) :
    Bytes :=
  (history.filterMap (Observation.receivedOn? conn stream)).flatten

theorem receivedOn_append
    (conn : Nat)
    (stream : StreamId)
    (first second : List Observation) :
    receivedOn conn stream (first ++ second) =
      receivedOn conn stream first ++ receivedOn conn stream second := by
  simp [receivedOn]

/-- What the stream has received since the query's request was written. -/
def ReceivedSince
    (history : List Observation)
    (serial conn : Nat)
    (stream : StreamId)
    (data : Bytes) :
    Prop :=
  ∃ request before after,
    history = before ++ .requested serial conn stream request :: after ∧
      receivedOn conn stream after = data

theorem ReceivedSince.append
    {history : List Observation}
    {serial conn : Nat}
    {stream : StreamId}
    {data : Bytes}
    (since : ReceivedSince history serial conn stream data)
    (added : List Observation) :
    ReceivedSince (history ++ added) serial conn stream
      (data ++ receivedOn conn stream added) := by
  obtain ⟨request, before, after, rfl, rfl⟩ := since
  refine ⟨request, before, after ++ added, ?_, receivedOn_append _ _ _ _⟩
  simp

/-- What was received since a request follows that request. -/
theorem ReceivedSince.exists_requested
    {history : List Observation}
    {serial conn : Nat}
    {stream : StreamId}
    {data : Bytes}
    (since : ReceivedSince history serial conn stream data) :
    ∃ request, .requested serial conn stream request ∈ history := by
  obtain ⟨request, before, after, rfl, _⟩ := since
  exact ⟨request, by simp⟩

/--
The stream ended with a well-formed response to the query, and this is its
body.
-/
def Delivered
    (history : List Observation)
    (serial conn : Nat)
    (stream : StreamId)
    (body : Bytes) :
    Prop :=
  ∃ seen data,
    seen <+: history ∧
      ReceivedSince seen serial conn stream data ∧
      CleanResponse (items popFrame data) ∧
      body = (payloadsOf frameData (items popFrame data)).flatten

theorem Delivered.append
    {history : List Observation}
    {serial conn : Nat}
    {stream : StreamId}
    {body : Bytes}
    (delivered : Delivered history serial conn stream body)
    (added : List Observation) :
    Delivered (history ++ added) serial conn stream body := by
  obtain ⟨seen, data, earlier, since, clean, same⟩ := delivered
  exact ⟨seen, data, earlier.trans (List.prefix_append _ _), since, clean,
    same⟩

/-- A delivered body has its request. -/
theorem Delivered.mem_requestKeys
    {history : List Observation}
    {serial conn : Nat}
    {stream : StreamId}
    {body : Bytes}
    (delivered : Delivered history serial conn stream body) :
    (conn, stream) ∈ requestKeys history := by
  obtain ⟨seen, data, earlier, since, _⟩ := delivered
  obtain ⟨request, requested⟩ := since.exists_requested
  exact Microdoh3.mem_requestKeys (earlier.subset requested)

/--
Every upstream body was delivered, before it was sent on, for the query that
it answers.
-/
def BodiesDelivered (history : List Observation) : Prop :=
  ∀ serial peer payload, .response serial peer payload ∈ history →
    ∃ earlier query conn stream body,
      earlier ++ [.response serial peer payload] <+: history ∧
        .accepted serial query peer ∈ earlier ∧
        Delivered earlier serial conn stream body ∧
        payload = withQueryId body query

theorem BodiesDelivered.append
    {history added : List Observation}
    (delivered : BodiesDelivered history)
    (noResponse :
      ∀ serial peer payload, .response serial peer payload ∉ added) :
    BodiesDelivered (history ++ added) := by
  intro serial peer payload member
  have old := (List.mem_append.mp member).resolve_right (noResponse _ _ _)
  obtain ⟨earlier, query, conn, stream, body, isPrefix, others⟩ :=
    delivered serial peer payload old
  exact ⟨earlier, query, conn, stream, body,
    isPrefix.trans (List.prefix_append _ _), others⟩

/-! ## The link between streams and queries -/

namespace MidStep

/-- A registered stream holds what its request has received so far. -/
def StreamsTraced (m : MidStep) : Prop :=
  ∀ stream state,
    m.worker.h3.streams stream = some (.response state) →
      ∃ conn serial data,
        m.worker.conn = some conn ∧
          ReceivedSince m.worker.history serial conn.serial stream data ∧
          state = responseAfter data

/-- `pending` has no other query under the id of a current request. -/
def PendingTraced (m : MidStep) : Prop :=
  ∀ conn stream serial request p,
    m.worker.conn = some conn →
      .requested serial conn.serial stream request ∈ m.worker.history →
      m.worker.pending.lookup stream = some p →
      p.serial = serial

/-- A collected response belongs to what `pending` has under its id. -/
def EventsTraced (m : MidStep) : Prop :=
  ∀ stream body, .response stream body ∈ m.events →
    ∃ serial origin,
      Delivered m.worker.history serial origin stream body ∧
        (∀ p, m.worker.pending.lookup stream = some p → p.serial = serial) ∧
        ∀ conn, m.worker.conn = some conn → conn.serial = origin

/-- Every stream and what it brought is traced to a request. -/
structure Traced (m : MidStep) : Prop where
  streams : m.StreamsTraced
  pending : m.PendingTraced
  events : m.EventsTraced
  responses : BodiesDelivered m.worker.history

end MidStep

/-- An observation that is no request and no chunk. -/
def Observation.isPlain : Observation → Bool
  | .requested _ _ _ _ => false
  | .received _ _ _ => false
  | _ => true

/-- The client was sent a response. -/
def Observation.isResponse : Observation → Bool
  | .response _ _ _ => true
  | _ => false

/-- Observations of other streams bring no bytes. -/
theorem receivedOn_eq_nil
    (conn : Nat)
    (stream : StreamId)
    {added : List Observation}
    (other : ∀ observation ∈ added, observation.receivedOn? conn stream = none) :
    receivedOn conn stream added = [] := by
  rw [receivedOn, List.filterMap_eq_nil_iff.mpr other, List.flatten_nil]

theorem Observation.receivedOn?_of_isPlain
    {observation : Observation}
    (plain : observation.isPlain)
    (conn : Nat)
    (stream : StreamId) :
    observation.receivedOn? conn stream = none := by
  cases observation <;> first | rfl | cases plain

namespace MidStep

variable {before after : MidStep} {added : List Observation}

/-- Entries and events may go, plain observations may come. -/
theorem Traced.keep
    (traced : before.Traced)
    (history : after.worker.history = before.worker.history ++ added)
    (plain : ∀ observation ∈ added, observation.isPlain)
    (h3 : after.worker.h3 = before.worker.h3)
    (conn : after.worker.conn = before.worker.conn)
    (pending :
      ∀ stream p, after.worker.pending.lookup stream = some p →
        before.worker.pending.lookup stream = some p)
    (events : after.events ⊆ before.events)
    (responses : BodiesDelivered after.worker.history) :
    after.Traced where
  streams := by
    intro stream state registered
    rw [h3] at registered
    obtain ⟨current, serial, data, connected, since, same⟩ :=
      traced.streams stream state registered
    have later := since.append added
    rw [receivedOn_eq_nil _ _ fun observation member =>
      Observation.receivedOn?_of_isPlain (plain observation member) _ _,
      List.append_nil, ← history] at later
    exact ⟨current, serial, data, conn.trans connected, later, same⟩
  pending := by
    intro current stream serial request p connected requested found
    rw [history] at requested
    rcases List.mem_append.mp requested with old | new
    · exact traced.pending current stream serial request p
        (conn.symm.trans connected) old (pending stream p found)
    · cases plain _ new
  events := by
    intro stream body member
    obtain ⟨serial, origin, delivered, sameQuery, sameConn⟩ :=
      traced.events stream body (events member)
    refine ⟨serial, origin, ?_, ?_, ?_⟩
    · rw [history]
      exact delivered.append added
    · intro p found
      exact sameQuery p (pending stream p found)
    · rw [conn]
      exact sameConn
  responses := responses

/-- Entries and events may go. -/
theorem Traced.shrink
    (traced : before.Traced)
    (history : after.worker.history = before.worker.history)
    (h3 : after.worker.h3 = before.worker.h3)
    (conn : after.worker.conn = before.worker.conn)
    (pending :
      ∀ stream p, after.worker.pending.lookup stream = some p →
        before.worker.pending.lookup stream = some p)
    (events : after.events ⊆ before.events) :
    after.Traced := by
  refine traced.keep (history.trans (List.append_nil _).symm) (by simp)
    h3 conn pending events ?_
  rw [history]
  exact traced.responses

/-- Plain observations other than upstream bodies may come. -/
theorem Traced.extend
    (traced : before.Traced)
    (history : after.worker.history = before.worker.history ++ added)
    (plain :
      ∀ observation ∈ added,
        observation.isPlain = true ∧ observation.isResponse = false)
    (h3 : after.worker.h3 = before.worker.h3)
    (conn : after.worker.conn = before.worker.conn)
    (pending : after.worker.pending = before.worker.pending)
    (events : after.events = before.events) :
    after.Traced := by
  refine traced.keep history (fun _ member => (plain _ member).1) h3 conn
    ?_ ?_ ?_
  · intro stream p found
    rwa [pending] at found
  · rw [events]
    exact List.Subset.refl _
  · rw [history]
    refine traced.responses.append ?_
    intro serial peer payload member
    cases (plain _ member).2

/-! ### Moves that touch streams -/

variable {w : Worker} {hand : List AcceptedQuery} {events : List H3Event}

/-- A new request starts with no bytes, under an id that nothing else uses. -/
theorem Traced.register
    {query : AcceptedQuery}
    (traced : Traced ⟨w, query :: hand, events⟩)
    (routed : w.Routed)
    {conn : Connection}
    {stream : StreamId}
    (connected : w.conn = some conn)
    (fresh : stream ∉ conn.opened)
    (request : Bytes)
    (entry : Pending) :
    Traced
      ⟨{ w with
          conn := some { conn with opened := stream :: conn.opened }
          h3 := w.h3.registerRequest stream
          pending := w.pending.insert stream entry
          history :=
            w.history ++
              [.requested entry.serial conn.serial stream request] },
        hand, events⟩ where
  streams := by
    intro other state registered
    refine ⟨{ conn with opened := stream :: conn.opened }, ?_⟩
    by_cases isNew : other = stream
    · subst isNew
      have empty : state = responseAfter [] := by
        rw [responseAfter_nil]
        simpa [H3.registerRequest, eq_comm] using registered
      exact ⟨entry.serial, [], rfl, ⟨request, _, [], rfl, rfl⟩, empty⟩
    · have old : w.h3.streams other = some (.response state) := by
        rw [← registered]
        exact (H3.insert_other w.h3 isNew _).symm
      obtain ⟨current, serial, data, isCurrent, since, same⟩ :=
        traced.streams other state old
      obtain rfl := Option.some.inj (connected.symm.trans isCurrent)
      have silent :
          receivedOn conn.serial other
            [.requested entry.serial conn.serial stream request] = [] := rfl
      have later :=
        since.append [.requested entry.serial conn.serial stream request]
      rw [silent, List.append_nil] at later
      exact ⟨serial, data, rfl, later, same⟩
  pending := by
    intro current other serial sent p isCurrent requested found
    obtain rfl := Option.some.inj isCurrent
    rcases List.mem_append.mp requested with old | new
    · -- an id with a request on this connection is not the new one
      have wasOpened :=
        routed.opened conn other connected (mem_requestKeys old)
      have different : other ≠ stream := by
        rintro rfl
        exact fresh wasOpened
      have same := (AList.lookup_insert_ne different).symm.trans found
      exact traced.pending conn other serial sent p connected old same
    · obtain ⟨rfl, -, rfl, rfl⟩ :=
        Observation.requested.inj (List.mem_singleton.mp new)
      have same := (AList.lookup_insert w.pending).symm.trans found
      rw [← Option.some.inj same]
  events := by
    intro other body member
    obtain ⟨serial, origin, delivered, sameQuery, sameConn⟩ :=
      traced.events other body member
    refine ⟨serial, origin, delivered.append _, ?_, ?_⟩
    · intro p found
      have wasOpened : other ∈ conn.opened := by
        refine routed.opened conn other connected ?_
        rw [sameConn conn connected]
        exact delivered.mem_requestKeys
      have different : other ≠ stream := by
        rintro rfl
        exact fresh wasOpened
      exact sameQuery p ((AList.lookup_insert_ne different).symm.trans found)
    · intro current isCurrent
      obtain rfl := Option.some.inj isCurrent
      exact sameConn conn connected
  responses :=
    traced.responses.append (by simp)

/-- A chunk is added to the bytes of its stream. -/
theorem Traced.receive
    (traced : Traced ⟨w, hand, events⟩)
    {conn : Connection}
    (connected : w.conn = some conn)
    (stream : StreamId)
    (chunk : Bytes) :
    Traced
      ⟨{ w with h3 := (w.h3.feed stream chunk).1 }.observe
          (.received conn.serial stream chunk),
        hand, events ++ (w.h3.feed stream chunk).2⟩ where
  streams := by
    intro other state registered
    by_cases isFed : other = stream
    · subst isFed
      obtain ⟨earlier, stored, fed⟩ := registered_of_feed registered
      obtain ⟨current, serial, data, isCurrent, since, rfl⟩ :=
        traced.streams other earlier stored
      obtain rfl := Option.some.inj (connected.symm.trans isCurrent)
      have chunkOn :
          receivedOn conn.serial other
            [.received conn.serial other chunk] = chunk := by
        simp [receivedOn, Observation.receivedOn?]
      have later := since.append [.received conn.serial other chunk]
      rw [chunkOn] at later
      exact ⟨conn, serial, data ++ chunk, connected, later,
        fed.trans (responseAfter_feed data chunk)⟩
    · have stored :=
        ((feed_quiet w.h3 stream chunk).others other isFed).symm.trans
          registered
      obtain ⟨current, serial, data, isCurrent, since, same⟩ :=
        traced.streams other state stored
      have silent :
          receivedOn current.serial other
            [.received conn.serial stream chunk] = [] := by
        simp [receivedOn, Observation.receivedOn?, Ne.symm isFed]
      have later := since.append [.received conn.serial stream chunk]
      rw [silent, List.append_nil] at later
      exact ⟨current, serial, data, isCurrent, later, same⟩
  pending := by
    intro current other serial request p isCurrent requested found
    rcases List.mem_append.mp requested with old | new
    · exact traced.pending current other serial request p isCurrent old found
    · cases List.mem_singleton.mp new
  events := by
    intro other body member
    rcases List.mem_append.mp member with old | new
    · obtain ⟨serial, origin, delivered, sameQuery, sameConn⟩ :=
        traced.events other body old
      exact ⟨serial, origin, delivered.append _, sameQuery, sameConn⟩
    · cases (feed_quiet w.h3 stream chunk).events _ new
  responses :=
    traced.responses.append (by simp)

/-- Ending a stream leaves the other streams as they are. -/
theorem StreamsTraced.erase
    (traced : StreamsTraced ⟨w, hand, events⟩)
    (stream : StreamId)
    (later : List H3Event) :
    StreamsTraced ⟨{ w with h3 := w.h3.erase stream }, hand, later⟩ := by
  intro other state registered
  have different : other ≠ stream := by
    rintro rfl
    exact erase_unregistered w.h3 other state registered
  exact traced other state
    ((w.h3.erase_other different).symm.trans registered)

/-- The body of a finished stream was delivered for its query. -/
theorem Traced.finish
    (traced : Traced ⟨w, hand, events⟩)
    (stream : StreamId) :
    Traced
      ⟨{ w with h3 := (w.h3.finish stream).1 }, hand,
        events ++ (w.h3.finish stream).2⟩ where
  streams := by
    rw [finish_fst]
    exact traced.streams.erase stream _
  pending := traced.pending
  events := by
    intro other body member
    rcases List.mem_append.mp member with old | new
    · exact traced.events other body old
    · obtain ⟨state, stored⟩ := registered_of_mem_finish new
      obtain ⟨conn, serial, data, connected, since, rfl⟩ :=
        traced.streams stream state stored
      rcases finish_responseAfter stored with ⟨clean, event⟩ | ⟨_, event⟩
      · rw [event] at new
        obtain ⟨rfl, rfl⟩ :=
          H3Event.response.inj (List.mem_singleton.mp new)
        refine ⟨serial, conn.serial,
          ⟨w.history, data, List.prefix_rfl, since, clean, rfl⟩, ?_, ?_⟩
        · intro p found
          obtain ⟨request, requested⟩ := since.exists_requested
          exact traced.pending conn _ serial request p connected requested
            found
        · intro current isCurrent
          rw [Option.some.inj (connected.symm.trans isCurrent)]
      · rw [event] at new
        cases List.mem_singleton.mp new
  responses := traced.responses

/-- Resetting a stream keeps the trace. -/
theorem Traced.reset
    (traced : Traced ⟨w, hand, events⟩)
    (stream : StreamId) :
    Traced
      ⟨{ w with h3 := (w.h3.reset stream).1 }, hand,
        events ++ (w.h3.reset stream).2⟩ where
  streams := by
    rw [reset_fst]
    exact traced.streams.erase stream _
  pending := traced.pending
  events := by
    intro other body member
    rcases List.mem_append.mp member with old | new
    · exact traced.events other body old
    · cases eq_failed_of_mem_reset new
  responses := traced.responses

/-- An applied response answers the query whose stream delivered it. -/
theorem Traced.respond
    {cfg : WorkerConfig}
    {stream : StreamId}
    {body : Bytes}
    (traced : Traced ⟨w, hand, .response stream body :: events⟩)
    (accountable :
      Accountable cfg ⟨w, hand, .response stream body :: events⟩)
    {p : Pending}
    (found : w.pending.lookup stream = some p) :
    Traced
      ⟨{ w with pending := w.pending.erase stream }.observe
          (.response p.serial p.peer (withQueryId body p.query)),
        hand, events⟩ := by
  obtain ⟨serial, origin, delivered, sameQuery, _⟩ :=
    traced.events stream body List.mem_cons_self
  have same := sameQuery p found
  subst same
  have known : Known w.history p.toAcceptedQuery :=
    accountable.held _
      (.inr (.inr ⟨⟨stream, p⟩, AList.mem_lookup_iff.mp found, rfl⟩))
  refine traced.keep rfl (by simp [Observation.isPlain]) rfl rfl
    (fun _ _ => KeyedItems.lookup_of_lookup_erase)
    (List.subset_cons_self _ _) ?_
  intro replied peer payload member
  rcases List.mem_append.mp member with old | new
  · obtain ⟨earlier, query, conn, onStream, sent, isPrefix, others⟩ :=
      traced.responses replied peer payload old
    exact ⟨earlier, query, conn, onStream, sent,
      isPrefix.trans (List.prefix_append _ _), others⟩
  · obtain ⟨rfl, rfl, rfl⟩ :=
      Observation.response.inj (List.mem_singleton.mp new)
    exact ⟨w.history, p.query, origin, stream, body, List.prefix_rfl, known,
      delivered, rfl⟩

/-- Opening a stream changes no connection number. -/
theorem Traced.openStream
    (traced : Traced ⟨w, hand, events⟩)
    {conn : Connection}
    (connected : w.conn = some conn)
    (stream : StreamId) :
    Traced
      ⟨{ w with
          conn := some { conn with opened := stream :: conn.opened } },
        hand, events⟩ where
  streams := by
    intro other state registered
    obtain ⟨current, serial, data, isCurrent, since, same⟩ :=
      traced.streams other state registered
    obtain rfl := Option.some.inj (connected.symm.trans isCurrent)
    exact ⟨_, serial, data, rfl, since, same⟩
  pending := by
    intro current other serial request p isCurrent requested found
    obtain rfl := Option.some.inj isCurrent
    exact traced.pending conn other serial request p connected requested
      found
  events := by
    intro other body member
    obtain ⟨serial, origin, delivered, sameQuery, sameConn⟩ :=
      traced.events other body member
    refine ⟨serial, origin, delivered, sameQuery, ?_⟩
    intro current isCurrent
    obtain rfl := Option.some.inj isCurrent
    exact sameConn conn connected
  responses := traced.responses

/-- Collected responses outlive their connection. -/
theorem Traced.disconnect
    (traced : Traced ⟨w, hand, events⟩) :
    Traced ⟨{ w with conn := none, h3 := H3.new }, hand, events⟩ where
  streams := by
    intro stream state registered
    cases registered
  pending := by
    intro conn stream serial request p isNone
    cases isNone
  events := by
    intro stream body member
    obtain ⟨serial, origin, delivered, sameQuery, _⟩ :=
      traced.events stream body member
    refine ⟨serial, origin, delivered, sameQuery, ?_⟩
    intro conn isNone
    cases isNone
  responses := traced.responses

/-- A new connection has no requests yet, whatever `pending` still holds. -/
theorem Traced.connect
    (traced : Traced ⟨w, hand, []⟩)
    (routed : w.Routed)
    (disconnected : w.conn = none) :
    Traced
      ⟨{ w with
          conn := some ⟨w.connections, []⟩
          connections := w.connections + 1 },
        hand, []⟩ where
  streams := by
    intro stream state registered
    obtain ⟨conn, serial, data, connected, _⟩ :=
      traced.streams stream state registered
    cases disconnected.symm.trans connected
  pending := by
    intro conn stream serial request p isNew requested
    obtain rfl := Option.some.inj isNew
    exact absurd (routed.earlier _ (mem_requestKeys requested))
      (Nat.lt_irrefl _)
  events := by
    intro stream body member
    cases member
  responses := traced.responses

end MidStep

theorem Move.traced
    {cfg : WorkerConfig}
    {action : Action}
    {before after : MidStep}
    (move : Move cfg action before after)
    (accountable : before.Accountable cfg)
    (routed : before.worker.Routed)
    (traced : before.Traced) :
    after.Traced := by
  cases move with
  | tune tuned =>
      refine traced.shrink tuned.history tuned.h3 tuned.conn ?_
        (List.Subset.refl _)
      intro stream p found
      rwa [tuned.pending] at found
  | @report w hand events observation isReport =>
      refine traced.extend rfl ?_ rfl rfl rfl rfl
      intro added member
      obtain rfl := List.mem_singleton.mp member
      cases added <;> first | exact ⟨rfl, rfl⟩ | cases isReport
  | accept peer valid =>
      refine traced.extend rfl ?_ rfl rfl rfl rfl
      intro added member
      obtain rfl := List.mem_singleton.mp member
      exact ⟨rfl, rfl⟩
  | take found =>
      exact traced.shrink rfl rfl rfl
        (fun _ _ => KeyedItems.lookup_of_lookup_erase) (List.Subset.refl _)
  | takeAll =>
      refine traced.shrink rfl rfl rfl ?_ (List.Subset.refl _)
      intro stream p found
      cases found
  | servfail built =>
      refine traced.extend rfl ?_ rfl rfl rfl rfl
      intro added member
      obtain rfl := List.mem_singleton.mp member
      exact ⟨rfl, rfl⟩
  | openStream stream connected =>
      exact traced.openStream connected stream
  | @request w query hand events conn stream connected fresh allowed
      deadline started =>
      let noted := { w with history := w.history ++ w.replaced stream }
      have notedTraced :
          MidStep.Traced ⟨noted, query :: hand, events⟩ := by
        refine traced.extend rfl ?_ rfl rfl rfl rfl
        intro observation member
        obtain ⟨serial, rfl⟩ := Worker.eq_overwritten_of_mem_replaced member
        exact ⟨rfl, rfl⟩
      have notedRouted : noted.Routed :=
        routed.same (requestKeys_replaced w stream) rfl rfl
      rw [Worker.register_eq]
      exact notedTraced.register notedRouted connected fresh _ _
  | receive connected stream chunk =>
      exact traced.receive connected stream chunk
  | finish stream =>
      exact traced.finish stream
  | reset stream =>
      exact traced.reset stream
  | respond found =>
      exact traced.respond accountable found
  | skip event =>
      exact traced.shrink rfl rfl rfl (fun _ _ found => found)
        (List.subset_cons_self _ _)
  | disconnect settled =>
      exact traced.disconnect
  | connect disconnected noRequests =>
      exact traced.connect routed disconnected
  | _ =>
      exact ⟨traced.streams, traced.pending, traced.events,
        traced.responses⟩

/-! ## Whole runs -/

/-- What a history shows about requests and replies. -/
structure NoCrossTalk
    (cfg : WorkerConfig)
    (history : List Observation) : Prop where
  /-- Serial numbers tell accepted queries apart. -/
  serials : (history.filterMap Observation.accepted?).Nodup
  /-- A query gets at most one reply. -/
  once : (history.filterMap Observation.replied?).Nodup
  /-- A reply goes to the peer that sent the query. -/
  peer :
    ∀ serial query peer, .accepted serial query peer ∈ history →
      ∀ other payload,
        .servfail serial other payload ∈ history ∨
            .response serial other payload ∈ history →
          other = peer
  /-- No two requests share connection and stream id. -/
  streams : (requestKeys history).Nodup
  /-- A request is the request of its query. -/
  requests :
    ∀ serial conn stream request,
      .requested serial conn stream request ∈ history →
        ∃ query peer,
          .accepted serial query peer ∈ history ∧
            request = requestBytes cfg query
  /-- An upstream body comes from the stream of the query's own request. -/
  bodies : BodiesDelivered history
  /-- A query that got a SERVFAIL gets no upstream body. -/
  exclusive :
    ∀ serial peer payload other body,
      .servfail serial peer payload ∈ history →
        .response serial other body ∉ history

/-- All invariants together. -/
structure MidStep.Sound (cfg : WorkerConfig) (m : MidStep) : Prop where
  accountable : m.Accountable cfg
  routed : m.worker.Routed
  traced : m.Traced

theorem Move.sound
    {cfg : WorkerConfig}
    {action : Action}
    {before after : MidStep}
    (move : Move cfg action before after)
    (sound : before.Sound cfg) :
    after.Sound cfg where
  accountable := move.accountable sound.accountable
  routed := move.routed sound.routed
  traced := move.traced sound.accountable sound.routed sound.traced

theorem Worker.sound_start
    (cfg : WorkerConfig)
    (set : UpstreamSet)
    (now : Instant)
    (has0rtt zeroRttOffered : Bool) :
    MidStep.Sound cfg ⟨start cfg set now has0rtt zeroRttOffered, [], []⟩ := by
  refine ⟨⟨?_, ?_⟩, ⟨List.nodup_nil, ?_, ?_, ?_⟩, ⟨?_, ?_, ?_, ?_⟩⟩
  · rintro query (inHand | ⟨q, inQueue, _⟩ | ⟨entry, inPending, _⟩)
    · cases inHand
    · cases inQueue
    · cases inPending
  · intro observation member
    cases member
  · intro key member
    cases member
  · intro conn connected
    obtain rfl := Option.some.inj connected
    exact Nat.one_pos
  · intro conn stream connected member
    cases member
  · intro stream state registered
    cases registered
  · intro conn stream serial request p connected requested
    cases requested
  · intro stream body member
    cases member
  · intro serial peer payload member
    cases member

/-- Observations with the same number in a duplicate-free list are the same. -/
theorem eq_of_nodup_filterMap
    {history : List Observation}
    {extract : Observation → Option Nat}
    (nodup : (history.filterMap extract).Nodup)
    {first second : Observation}
    (firstMember : first ∈ history)
    (secondMember : second ∈ history)
    {serial : Nat}
    (firstSerial : extract first = some serial)
    (secondSerial : extract second = some serial) :
    first = second := by
  have symmetric :
      Std.Symm fun one other =>
        ∀ n, extract one = some n → ∀ m, extract other = some m → n ≠ m :=
    ⟨fun _ _ apart n isFirst m isSecond =>
      (apart m isSecond n isFirst).symm⟩
  by_contra different
  have apart :=
    (List.pairwise_filterMap.mp nodup).forall firstMember secondMember
      different
  exact apart serial firstSerial serial secondSerial rfl

/--
In every run, whatever the peers, the upstream and the QUIC library do, no
reply is duplicated, sent to another peer or taken from another stream.
-/
theorem noCrossTalk_run
    (cfg : WorkerConfig)
    (set : UpstreamSet)
    (now : Instant)
    (has0rtt zeroRttOffered : Bool)
    (actions : List Action) :
    NoCrossTalk cfg
      ((Worker.start cfg set now has0rtt zeroRttOffered).run cfg
        actions).history := by
  let initial := Worker.start cfg set now has0rtt zeroRttOffered
  have sound : MidStep.Sound cfg ⟨initial.run cfg actions, [], []⟩ :=
    Worker.run_invariant Move.sound
      (Worker.sound_start cfg set now has0rtt zeroRttOffered) actions
  have numbered := initial.numbered_run cfg rfl actions
  have serials :
      ((initial.run cfg actions).history.filterMap
        Observation.accepted?).Nodup := by
    rw [numbered]
    exact List.nodup_range
  have once :
      ((initial.run cfg actions).history.filterMap
        Observation.replied?).Nodup :=
    (initial.run cfg actions).nodup_replied
      (initial.custody_run cfg rfl actions)
  refine ⟨serials, once, ?_, sound.routed.nodup, ?_, sound.traced.responses,
    ?_⟩
  · intro serial query peer accepted other payload reply
    obtain ⟨sent, toOther⟩ :
        ∃ sent, .accepted serial sent other ∈
          (initial.run cfg actions).history := by
      rcases reply with servfail | response
      · obtain ⟨sent, toOther, _⟩ :=
          sound.accountable.observed _ servfail
        exact ⟨sent, toOther⟩
      · obtain ⟨earlier, sent, _, _, _, isPrefix, toOther, _⟩ :=
          sound.traced.responses serial other payload response
        exact ⟨sent,
          isPrefix.subset (List.mem_append_left _ toOther)⟩
    have same := eq_of_nodup_filterMap serials toOther accepted rfl rfl
    exact (Observation.accepted.inj same).2.2
  · intro serial conn stream request requested
    exact sound.accountable.observed _ requested
  · intro serial peer payload other body servfail response
    cases eq_of_nodup_filterMap once servfail response rfl rfl

end DnsServices.Microdoh3
