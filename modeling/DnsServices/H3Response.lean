import Mathlib.Data.List.Induction
import DnsServices.H3

namespace DnsServices.Http3

/-!
# Response streams end with one event

A registered request stream holds a `ResponseState` that depends on the
concatenated bytes only (`responseAfter`), whatever the chunk borders are and
whatever happens on other streams in between.  From this follow the outcome of
a well-formed response and the number of events a request stream emits.
-/

open ChunkedParser

/-! ## Streams do not interfere -/

/-- `operation` touches one stream and pushes GOAWAY events only. -/
structure Quiet
    (before : H3)
    (stream : StreamId)
    (operation : H3 × List H3Event) : Prop where
  others :
    ∀ other, other ≠ stream →
      operation.1.streams other = before.streams other
  events :
    ∀ event ∈ operation.2, event = .goaway

/-- Work on server streams is silent about a request stream. -/
theorem processServerUni_quiet (h3 : H3) (stream : StreamId) :
    Quiet h3 stream (h3.processServerUni stream) := by
  unfold H3.processServerUni
  split
  next ty parser lookup =>
    split
    · exact ⟨fun _ _ => rfl, by simp⟩
    · rw [FrameParser.whileNextFrame_eq, foldl_handleControlFrame]
      refine ⟨?_, ?_⟩
      · intro other different
        exact h3.insert_other different _
      · intro event member
        simp only [List.nil_append] at member
        exact List.eq_of_mem_replicate member
  · exact ⟨fun _ _ => rfl, by simp⟩

/-- A server stream that was just stored is processed quietly. -/
theorem insert_processServerUni_quiet
    (h3 : H3)
    (stream : StreamId)
    (state : StreamState) :
    Quiet h3 stream ((h3.insert stream state).processServerUni stream) := by
  have processed := processServerUni_quiet (h3.insert stream state) stream
  refine ⟨?_, processed.events⟩
  intro other different
  rw [processed.others other different, h3.insert_other different]

theorem insert_quiet (h3 : H3) (stream : StreamId) (state : StreamState) :
    Quiet h3 stream (h3.insert stream state, []) :=
  ⟨fun _ different => h3.insert_other different _, by simp⟩

/-- Feeding a stream leaves all other streams alone. -/
theorem feed_quiet (h3 : H3) (stream : StreamId) (data : Bytes) :
    Quiet h3 stream (h3.feed stream data) := by
  unfold H3.feed
  split
  · split
    · split
      · exact insert_processServerUni_quiet h3 stream _
      · exact insert_quiet h3 stream _
    · split
      · exact insert_quiet h3 stream _
      · simp only
        split
        · exact insert_quiet h3 stream _
        · split
          · exact insert_processServerUni_quiet h3 stream _
          · exact insert_quiet h3 stream _
  · exact insert_processServerUni_quiet h3 stream _
  · exact insert_quiet h3 stream _
  · exact insert_quiet h3 stream _

/-- Feeding never ends a request. -/
theorem eventsNaming_feed
    (h3 : H3)
    (fed stream : StreamId)
    (data : Bytes) :
    eventsNaming stream (h3.feed fed data).2 = [] := by
  rw [eventsNaming, List.filter_eq_nil_iff]
  intro event member
  rw [(feed_quiet h3 fed data).events event member]
  simp [H3Event.names]

/-- A call on one stream does not concern another stream. -/
theorem call_other
    (h3 : H3)
    {call : H3Call}
    {stream : StreamId}
    (different : stream ≠ call.stream) :
    (h3.call call).1.streams stream = h3.streams stream ∧
      eventsNaming stream (h3.call call).2 = [] := by
  cases call with
  | registerRequest registered =>
      exact ⟨h3.insert_other different _, rfl⟩
  | feed fed data =>
      exact ⟨(feed_quiet h3 fed data).others stream different,
        eventsNaming_feed h3 fed stream data⟩
  | finish finished =>
      have notNamed : (finished == stream) = false := by
        simpa [H3Call.stream] using Ne.symm different
      simp only [H3.call, H3.finish]
      split
      · split
        · exact ⟨h3.erase_other different, by
            simp [eventsNaming, H3Event.names, notNamed]⟩
        · split <;>
            exact ⟨h3.erase_other different, by
              simp [eventsNaming, H3Event.names, notNamed]⟩
      · exact ⟨h3.erase_other different, rfl⟩
  | reset dropped =>
      have notNamed : (dropped == stream) = false := by
        simpa [H3Call.stream] using Ne.symm different
      simp only [H3.call, H3.reset]
      split
      next state lookup =>
        refine ⟨h3.erase_other different, ?_⟩
        cases state.failed <;>
          simp [eventsNaming, H3Event.names, notNamed]
      · exact ⟨h3.erase_other different, rfl⟩

/-! ## Response state as a function of the received bytes -/

/-- The state of a request stream that has received the given bytes. -/
def responseAfter (received : Bytes) : ResponseState where
  toResponseFields :=
    (items popFrame received).foldl ResponseFields.handleFrame {}
  parser := { buf := residue popFrame received }

/-- Feeding more bytes is receiving the longer byte string. -/
theorem responseAfter_feed (received data : Bytes) :
    (responseAfter received).feed data = responseAfter (received ++ data) := by
  have first :
      feed popFrame ResponseFields.handleFrame {} [] received =
        ((responseAfter received).toResponseFields,
          (responseAfter received).parser.buf) :=
    feed_eq_items ResponseFields.handleFrame {} [] received
  have whole :
      feed popFrame ResponseFields.handleFrame {} [] (received ++ data) =
        ((responseAfter (received ++ data)).toResponseFields,
          (responseAfter (received ++ data)).parser.buf) :=
    feed_eq_items ResponseFields.handleFrame {} [] (received ++ data)
  have joined :=
    feed_feed popFrame_delimited ResponseFields.handleFrame
      {} [] received data
  rw [first, whole] at joined
  have fields := congrArg Prod.fst joined
  have buffer := congrArg Prod.snd joined
  simp only [feed] at fields buffer
  simp only [ResponseState.feed, FrameParser.whileNextFrame,
    FrameParser.feed]
  rw [fields, buffer]

theorem responseAfter_nil : responseAfter [] = {} := by
  have empty := @items_of_none _ _ popFrame [] popFrame_nil
  simp [responseAfter, empty.1, empty.2]

/-- The bytes a list of feeds delivers to one stream. -/
def bytesOn (stream : StreamId) (feeds : List (StreamId × Bytes)) : Bytes :=
  (feeds.filter fun fed => fed.1 == stream).flatMap Prod.snd

/-- The feed calls of a list of (stream, bytes) pairs. -/
def feedCalls (feeds : List (StreamId × Bytes)) : List H3Call :=
  feeds.map fun fed => .feed fed.1 fed.2

theorem eventsNaming_append (stream : StreamId) (first second : List H3Event) :
    eventsNaming stream (first ++ second) =
      eventsNaming stream first ++ eventsNaming stream second := by
  simp [eventsNaming]

/--
Feeds to any streams in any order leave a request stream in the state of its
own bytes and do not end it.
-/
theorem calls_feedCalls
    {h3 : H3}
    {stream : StreamId}
    {received : Bytes}
    (registered :
      h3.streams stream = some (.response (responseAfter received)))
    (feeds : List (StreamId × Bytes)) :
    (h3.calls (feedCalls feeds)).1.streams stream =
        some (.response (responseAfter (received ++ bytesOn stream feeds))) ∧
      eventsNaming stream (h3.calls (feedCalls feeds)).2 = [] := by
  induction feeds generalizing h3 received with
  | nil =>
      simpa [feedCalls, H3.calls, bytesOn, eventsNaming] using registered
  | cons fed rest inductionHypothesis =>
      obtain ⟨target, data⟩ := fed
      have quiet := eventsNaming_feed h3 target stream data
      simp only [feedCalls, List.map_cons, H3.calls, H3.call,
        eventsNaming_append, quiet, List.nil_append]
      by_cases same : target = stream
      · subst target
        have fedState :
            (h3.feed stream data).1.streams stream =
              some (.response (responseAfter (received ++ data))) := by
          simp [H3.feed, registered, responseAfter_feed]
        have later := inductionHypothesis fedState
        simpa [bytesOn, feedCalls] using later
      · have kept :
            (h3.feed target data).1.streams stream =
              some (.response (responseAfter received)) :=
          ((feed_quiet h3 target data).others stream (Ne.symm same)).trans
            registered
        have later := inductionHypothesis kept
        simpa [bytesOn, feedCalls, same] using later

/-! ## What the frames of a response add up to -/

/-- The payloads of the frames of one type, in order. -/
def payloadsOf (type : Nat) (frames : List Frame) : List Bytes :=
  (frames.filter fun frame => frame.1 == type).map Prod.snd

/-- `parse_status` rejects the payload. -/
def Rejected (payload : Bytes) : Prop :=
  ∃ failure, parseStatus payload = .error failure

/-- A further frame adds its payload to its own type only. -/
theorem payloadsOf_snoc (type : Nat) (frames : List Frame) (frame : Frame) :
    payloadsOf type (frames ++ [frame]) =
      payloadsOf type frames ++ if frame.1 = type then [frame.2] else [] := by
  by_cases same : frame.1 = type <;> simp [payloadsOf, same]

/-- What the accumulated fields say about the frames handled so far. -/
structure Summarizes (frames : List Frame) (fields : ResponseFields) : Prop where
  failed :
    fields.failed = true ↔
      ∃ payload ∈ payloadsOf frameHeaders frames, Rejected payload
  status :
    fields.failed = false → ∀ code,
      (fields.status = some code ↔
        ∃ payload,
          (payloadsOf frameHeaders frames).getLast? = some payload ∧
            parseStatus payload = .ok code)
  body :
    fields.body = (payloadsOf frameData frames).flatten
  gotData :
    fields.gotData = true ↔ payloadsOf frameData frames ≠ []

/-- One more frame is added to the summary. -/
theorem Summarizes.handleFrame
    {frames : List Frame}
    {fields : ResponseFields}
    (summary : Summarizes frames fields)
    (frame : Frame) :
    Summarizes (frames ++ [frame]) (fields.handleFrame frame) := by
  have otherType : ¬ (frameHeaders = frameData) := by decide
  by_cases isHeaders : frame.1 = frameHeaders
  · have headers :
        payloadsOf frameHeaders (frames ++ [frame]) =
          payloadsOf frameHeaders frames ++ [frame.2] := by
      rw [payloadsOf_snoc, if_pos isHeaders]
    have sameData :
        payloadsOf frameData (frames ++ [frame]) =
          payloadsOf frameData frames := by
      rw [payloadsOf_snoc, isHeaders, if_neg otherType, List.append_nil]
    cases parsed : parseStatus frame.2 with
    | ok code =>
        have accepted : ¬ Rejected frame.2 := by
          simp [Rejected, parsed]
        simp only [ResponseFields.handleFrame, if_pos isHeaders, parsed]
        refine ⟨?_, ?_, ?_, ?_⟩
        · rw [headers]
          simpa [or_and_right, exists_or, accepted] using summary.failed
        · intro _ wanted
          simp [headers, parsed]
        · rw [sameData]
          exact summary.body
        · rw [sameData]
          exact summary.gotData
    | error failure =>
        simp only [ResponseFields.handleFrame, if_pos isHeaders, parsed]
        refine ⟨?_, ?_, ?_, ?_⟩
        · have last : frame.2 ∈ payloadsOf frameHeaders (frames ++ [frame]) := by
            simp [headers]
          exact iff_of_true rfl ⟨frame.2, last, failure, parsed⟩
        · simp
        · rw [sameData]
          exact summary.body
        · rw [sameData]
          exact summary.gotData
  · have sameHeaders :
        payloadsOf frameHeaders (frames ++ [frame]) =
          payloadsOf frameHeaders frames := by
      rw [payloadsOf_snoc, if_neg isHeaders, List.append_nil]
    by_cases isData : frame.1 = frameData
    · have data :
          payloadsOf frameData (frames ++ [frame]) =
            payloadsOf frameData frames ++ [frame.2] := by
        rw [payloadsOf_snoc, if_pos isData]
      simp only [ResponseFields.handleFrame, if_neg isHeaders, if_pos isData]
      refine ⟨?_, ?_, ?_, ?_⟩
      · rw [sameHeaders]
        exact summary.failed
      · rw [sameHeaders]
        exact summary.status
      · simp [data, summary.body]
      · simp [data]
    · have sameData :
          payloadsOf frameData (frames ++ [frame]) =
            payloadsOf frameData frames := by
        rw [payloadsOf_snoc, if_neg isData, List.append_nil]
      simp only [ResponseFields.handleFrame, if_neg isHeaders, if_neg isData]
      refine ⟨?_, ?_, ?_, ?_⟩
      · rw [sameHeaders]
        exact summary.failed
      · rw [sameHeaders]
        exact summary.status
      · rw [sameData]
        exact summary.body
      · rw [sameData]
        exact summary.gotData

/-- The loop over the frames of a response summarizes them. -/
theorem foldl_handleFrame_summarizes (frames : List Frame) :
    Summarizes frames (frames.foldl ResponseFields.handleFrame {}) := by
  induction frames using List.reverseRecOn with
  | nil =>
      refine ⟨?_, ?_, ?_, ?_⟩ <;> simp [payloadsOf]
  | append_singleton frames frame inductionHypothesis =>
      rw [List.foldl_append]
      exact inductionHypothesis.handleFrame frame

/-! ## The end of a request stream -/

/-- A response that is delivered: all headers readable, status 200, a body. -/
structure CleanResponse (frames : List Frame) : Prop where
  accepted :
    ∀ payload ∈ payloadsOf frameHeaders frames, ¬ Rejected payload
  lastStatus :
    ∃ payload,
      (payloadsOf frameHeaders frames).getLast? = some payload ∧
        parseStatus payload = .ok 200
  hasData :
    payloadsOf frameData frames ≠ []

/-- `finish` delivers exactly the clean responses. -/
theorem finish_responseAfter
    {h3 : H3}
    {stream : StreamId}
    {received : Bytes}
    (registered :
      h3.streams stream = some (.response (responseAfter received))) :
    (CleanResponse (items popFrame received) ∧
        (h3.finish stream).2 =
          [.response stream
            (payloadsOf frameData (items popFrame received)).flatten]) ∨
      (¬ CleanResponse (items popFrame received) ∧
        (h3.finish stream).2 = [.failed stream]) := by
  have summary := foldl_handleFrame_summarizes (items popFrame received)
  have sameFields :
      (responseAfter received).toResponseFields =
        (items popFrame received).foldl ResponseFields.handleFrame {} := rfl
  rw [← sameFields] at summary
  simp only [H3.finish, registered]
  by_cases failed : (responseAfter received).failed = true
  · right
    rw [if_pos failed]
    refine ⟨?_, rfl⟩
    intro clean
    obtain ⟨payload, member, rejected⟩ := summary.failed.mp failed
    exact clean.accepted payload member rejected
  · rw [if_neg failed]
    have status := summary.status (by simpa using failed) 200
    by_cases complete :
        (responseAfter received).gotData = true ∧
          (responseAfter received).status = some 200
    · left
      rw [if_pos complete, summary.body]
      refine ⟨⟨?_, status.mp complete.2, summary.gotData.mp complete.1⟩, rfl⟩
      intro payload member rejected
      exact failed (summary.failed.mpr ⟨payload, member, rejected⟩)
    · right
      rw [if_neg complete]
      refine ⟨?_, rfl⟩
      intro clean
      exact complete
        ⟨summary.gotData.mpr clean.hasData, status.mpr clean.lastStatus⟩

/-- The life of one request stream: register, feeds to any streams, an end. -/
def requestCalls
    (stream : StreamId)
    (feeds : List (StreamId × Bytes))
    (ending : H3Call) :
    List H3Call :=
  .registerRequest stream :: feedCalls feeds ++ [ending]

/-- Before its end a request stream holds the state of its own bytes. -/
theorem calls_register_feedCalls
    (h3 : H3)
    (stream : StreamId)
    (feeds : List (StreamId × Bytes)) :
    let before := h3.calls (.registerRequest stream :: feedCalls feeds)
    before.1.streams stream =
        some (.response (responseAfter (bytesOn stream feeds))) ∧
      eventsNaming stream before.2 = [] := by
  have registered :
      (h3.registerRequest stream).streams stream =
        some (.response (responseAfter [])) := by
    rw [responseAfter_nil]
    exact h3.insert_same stream _
  simpa [H3.calls, H3.call] using calls_feedCalls registered feeds

/-- All events of a request stream come from the call that ends it. -/
theorem eventsNaming_requestCalls
    (h3 : H3)
    (stream : StreamId)
    (feeds : List (StreamId × Bytes))
    (ending : H3Call) :
    eventsNaming stream (h3.calls (requestCalls stream feeds ending)).2 =
      eventsNaming stream
        ((h3.calls (.registerRequest stream :: feedCalls feeds)).1.call
          ending).2 := by
  rw [requestCalls, calls_append, eventsNaming_append,
    (calls_register_feedCalls h3 stream feeds).2]
  simp [H3.calls]

/-- A finished request stream delivers its DATA payloads if the complete
frames it has received are a clean response, and fails otherwise. -/
theorem eventsNaming_finish
    (h3 : H3)
    (stream : StreamId)
    (feeds : List (StreamId × Bytes)) :
    (CleanResponse (items popFrame (bytesOn stream feeds)) ∧
        eventsNaming stream
            (h3.calls (requestCalls stream feeds (.finish stream))).2 =
          [.response stream
            (payloadsOf frameData
              (items popFrame (bytesOn stream feeds))).flatten]) ∨
      (¬ CleanResponse (items popFrame (bytesOn stream feeds)) ∧
        eventsNaming stream
            (h3.calls (requestCalls stream feeds (.finish stream))).2 =
          [.failed stream]) := by
  rw [eventsNaming_requestCalls, H3.call]
  rcases finish_responseAfter
      (calls_register_feedCalls h3 stream feeds).1 with
    ⟨clean, finished⟩ | ⟨unclean, finished⟩
  · left
    refine ⟨clean, ?_⟩
    rw [finished]
    simp [eventsNaming, H3Event.names]
  · right
    refine ⟨unclean, ?_⟩
    rw [finished]
    simp [eventsNaming, H3Event.names]

/--
A response made of whole frames ends with one event, whatever the chunk
borders: its DATA payloads if it is clean, a failure otherwise.
-/
theorem finished_response_exact
    (h3 : H3)
    (stream : StreamId)
    (frames : List WireFrame)
    (feeds : List (StreamId × Bytes))
    (delivered : bytesOn stream feeds = frames.flatMap WireFrame.bytes) :
    ∃ event,
      eventsNaming stream
          (h3.calls (requestCalls stream feeds (.finish stream))).2 =
        [event] ∧
      (event =
          .response stream
            (payloadsOf frameData (frames.map WireFrame.decoded)).flatten ↔
        CleanResponse (frames.map WireFrame.decoded)) ∧
      (event = .failed stream ↔
        ¬ CleanResponse (frames.map WireFrame.decoded)) := by
  have parsed :
      items popFrame (bytesOn stream feeds) =
        frames.map WireFrame.decoded := by
    rw [delivered, (WireFrame.items_whole frames).1]
  rcases eventsNaming_finish h3 stream feeds with
    ⟨clean, finished⟩ | ⟨unclean, finished⟩
  · rw [parsed] at clean finished
    exact ⟨_, finished, by simp [clean], by simp [clean]⟩
  · rw [parsed] at unclean
    exact ⟨_, finished, by simp [unclean], by simp [unclean]⟩

/-- A frame with one-byte integers. -/
def shortFrame
    (type : Nat)
    (payload : Bytes)
    (typeShort : type < 64)
    (payloadShort : payload.length < 64) :
    WireFrame where
  type := ⟨type, varintEncode type, varintEncode_isVarint (by omega)⟩
  length :=
    ⟨payload.length, varintEncode payload.length,
      varintEncode_isVarint (by omega)⟩
  payload := payload
  lengthMatches := rfl

/-- A response in three chunks, with a server stream between them. -/
theorem finished_response_exact_ok :
    ∃ event,
      eventsNaming 0
          (H3.new.calls
            (requestCalls 0
              [(0, [0x01]), (3, [0x02]), (0, [0x03, 0x00, 0x00, 0xD9, 0x00]),
                (0, [0x02, 0xAA]), (0, [0xBB])]
              (.finish 0))).2 =
        [event] ∧
      (event = .response 0 [0xAA, 0xBB] ↔
        CleanResponse [(1, [0x00, 0x00, 0xD9]), (0, [0xAA, 0xBB])]) ∧
      (event = .failed 0 ↔
        ¬ CleanResponse [(1, [0x00, 0x00, 0xD9]), (0, [0xAA, 0xBB])]) :=
  finished_response_exact H3.new 0
    [shortFrame 1 [0x00, 0x00, 0xD9] (by decide) (by decide),
      shortFrame 0 [0xAA, 0xBB] (by decide) (by decide)]
    [(0, [0x01]), (3, [0x02]), (0, [0x03, 0x00, 0x00, 0xD9, 0x00]),
      (0, [0x02, 0xAA]), (0, [0xBB])]
    (by decide)

/-! ## One terminal event -/

/-- The stream is not one of our request streams. -/
def Unregistered (h3 : H3) (stream : StreamId) : Prop :=
  ∀ state, h3.streams stream ≠ some (.response state)

theorem processServerUni_unregistered
    {h3 : H3}
    {stream : StreamId}
    (unregistered : Unregistered h3 stream) :
    Unregistered (h3.processServerUni stream).1 stream := by
  unfold H3.processServerUni
  split
  · split
    · exact unregistered
    · intro state
      simp [H3.insert]
  · exact unregistered

theorem insert_unregistered
    (h3 : H3)
    (stream : StreamId)
    {state : StreamState}
    (notResponse : ∀ response, state ≠ .response response) :
    Unregistered (h3.insert stream state) stream := by
  intro response
  simpa using notResponse response

/-- Feeding does not turn a stream into a request stream. -/
theorem feed_unregistered
    {h3 : H3}
    {stream : StreamId}
    (unregistered : Unregistered h3 stream)
    (data : Bytes) :
    Unregistered (h3.feed stream data).1 stream := by
  have serverUni (ty : Option Nat) (parser : FrameParser) :
      Unregistered (h3.insert stream (.serverUni ty parser)) stream :=
    insert_unregistered h3 stream (by simp)
  have sunk : Unregistered (h3.insert stream .sink) stream :=
    insert_unregistered h3 stream (by simp)
  unfold H3.feed
  split
  · split
    · split
      · exact processServerUni_unregistered (serverUni _ _)
      · exact sunk
    · split
      · exact serverUni _ _
      · simp only
        split
        · exact serverUni _ _
        · split
          · exact processServerUni_unregistered (serverUni _ _)
          · exact sunk
  · exact processServerUni_unregistered (serverUni _ _)
  next state lookup =>
    cases stored : h3.streams stream with
    | none =>
        simp [stored] at lookup
    | some found =>
        simp only [stored, Option.getD_some] at lookup
        exact absurd (stored.trans (congrArg some lookup))
          (unregistered state)
  · exact sunk

/-- A stream that is registered after a feed was registered before it. -/
theorem registered_of_feed
    {h3 : H3}
    {stream : StreamId}
    {data : Bytes}
    {state : ResponseState}
    (registered :
      (h3.feed stream data).1.streams stream = some (.response state)) :
    ∃ earlier,
      h3.streams stream = some (.response earlier) ∧
        state = earlier.feed data := by
  by_cases unregistered : Unregistered h3 stream
  · exact absurd registered (feed_unregistered unregistered data state)
  · simp only [Unregistered, not_forall, not_not] at unregistered
    obtain ⟨earlier, stored⟩ := unregistered
    refine ⟨earlier, stored, ?_⟩
    simpa [H3.feed, stored, eq_comm] using registered

theorem erase_unregistered (h3 : H3) (stream : StreamId) :
    Unregistered (h3.erase stream) stream := by
  intro state
  simp

/-- The state both ends of a stream leave behind. -/
theorem finish_fst (h3 : H3) (stream : StreamId) :
    (h3.finish stream).1 = h3.erase stream := by
  unfold H3.finish
  split
  · split
    · rfl
    · split <;> rfl
  · rfl

theorem reset_fst (h3 : H3) (stream : StreamId) :
    (h3.reset stream).1 = h3.erase stream := by
  unfold H3.reset
  split <;> rfl

/-- Only a request stream has a response to report. -/
theorem registered_of_mem_finish
    {h3 : H3}
    {stream : StreamId}
    {event : H3Event}
    (member : event ∈ (h3.finish stream).2) :
    ∃ state, h3.streams stream = some (.response state) := by
  unfold H3.finish at member
  split at member
  next state stored =>
    exact ⟨state, stored⟩
  · cases member

/-- A reset reports nothing but the failure of its stream. -/
theorem eq_failed_of_mem_reset
    {h3 : H3}
    {stream : StreamId}
    {event : H3Event}
    (member : event ∈ (h3.reset stream).2) :
    event = .failed stream := by
  unfold H3.reset at member
  split at member
  · simp only at member
    split at member
    · cases member
    · exact List.mem_singleton.mp member
  · cases member

/-- One call neither registers an unregistered stream nor reports its end. -/
theorem call_unregistered
    {h3 : H3}
    {stream : StreamId}
    (unregistered : Unregistered h3 stream)
    {call : H3Call}
    (notRegister : call ≠ .registerRequest stream) :
    Unregistered (h3.call call).1 stream ∧
      eventsNaming stream (h3.call call).2 = [] := by
  by_cases same : stream = call.stream
  · subst same
    cases call with
    | registerRequest registered =>
        exact absurd rfl notRegister
    | feed fed data =>
        exact ⟨feed_unregistered unregistered data,
          eventsNaming_feed h3 fed fed data⟩
    | finish finished =>
        refine ⟨?_, ?_⟩
        · simp only [H3.call, H3Call.stream, finish_fst]
          exact erase_unregistered h3 finished
        · simp only [H3.call, H3.finish]
          split
          next state lookup =>
            exact absurd lookup (unregistered state)
          · rfl
    | reset dropped =>
        refine ⟨?_, ?_⟩
        · simp only [H3.call, H3Call.stream, reset_fst]
          exact erase_unregistered h3 dropped
        · simp only [H3.call, H3.reset]
          split
          next state lookup =>
            exact absurd lookup (unregistered state)
          · rfl
  · obtain ⟨untouched, unnamed⟩ := call_other h3 same
    refine ⟨?_, unnamed⟩
    intro state
    rw [untouched]
    exact unregistered state

/-- An unregistered stream emits nothing until it is registered again. -/
theorem eventsNaming_calls_unregistered
    {h3 : H3}
    {stream : StreamId}
    (unregistered : Unregistered h3 stream)
    (later : List H3Call)
    (notRegistered : .registerRequest stream ∉ later) :
    eventsNaming stream (h3.calls later).2 = [] := by
  induction later generalizing h3 with
  | nil =>
      rfl
  | cons call rest inductionHypothesis =>
      rw [List.mem_cons, not_or] at notRegistered
      obtain ⟨stillUnregistered, unnamed⟩ :=
        call_unregistered unregistered (Ne.symm notRegistered.1)
      rw [H3.calls, eventsNaming_append, unnamed, List.nil_append]
      exact inductionHypothesis stillUnregistered notRegistered.2

/-- The two calls that end a stream. -/
inductive Ending where
  | finish
  | reset
  deriving Repr, DecidableEq

/-- The call that tells the end of a stream. -/
def Ending.call (stream : StreamId) : Ending → H3Call
  | .finish => .finish stream
  | .reset => .reset stream

/-- The request stream reports its end once, and never again afterwards. -/
structure EndsOnce
    (h3 : H3)
    (stream : StreamId)
    (feeds : List (StreamId × Bytes))
    (ending : Ending) : Prop where
  once :
    ∃ event,
      eventsNaming stream
          (h3.calls (requestCalls stream feeds (ending.call stream))).2 =
        [event]
  noMore :
    ∀ later, .registerRequest stream ∉ later →
      eventsNaming stream
          ((h3.calls
            (requestCalls stream feeds (ending.call stream))).1.calls
              later).2 =
        []

/-- Some HEADERS frame of the received bytes is rejected by `parse_status`. -/
def HeadersRejected (received : Bytes) : Prop :=
  ∃ payload ∈ payloadsOf frameHeaders (items popFrame received),
    Rejected payload

/-- `reset` is silent exactly if a HEADERS frame was rejected before. -/
theorem reset_responseAfter
    {h3 : H3}
    {stream : StreamId}
    {received : Bytes}
    (registered :
      h3.streams stream = some (.response (responseAfter received))) :
    (HeadersRejected received ∧ (h3.reset stream).2 = []) ∨
      (¬ HeadersRejected received ∧
        (h3.reset stream).2 = [.failed stream]) := by
  have failed :
      (responseAfter received).failed = true ↔ HeadersRejected received :=
    (foldl_handleFrame_summarizes (items popFrame received)).failed
  simp only [H3.reset, registered]
  by_cases rejected : HeadersRejected received
  · left
    exact ⟨rejected, if_pos (failed.mpr rejected)⟩
  · right
    exact ⟨rejected, if_neg (rejected ∘ failed.mp)⟩

/-- The call that ends a request stream emits at most one event. -/
theorem eventsNaming_ending
    (h3 : H3)
    (stream : StreamId)
    (feeds : List (StreamId × Bytes))
    (ending : Ending) :
    (∃ event,
        eventsNaming stream
            (h3.calls (requestCalls stream feeds (ending.call stream))).2 =
          [event]) ↔
      ¬ (ending = .reset ∧ HeadersRejected (bytesOn stream feeds)) := by
  have registered := (calls_register_feedCalls h3 stream feeds).1
  rw [eventsNaming_requestCalls]
  cases ending with
  | finish =>
      rcases finish_responseAfter registered with
        ⟨_, finished⟩ | ⟨_, finished⟩ <;>
      simp [Ending.call, H3.call, finished, eventsNaming, H3Event.names]
  | reset =>
      rcases reset_responseAfter registered with
        ⟨rejected, dropped⟩ | ⟨accepted, dropped⟩
      · simp [Ending.call, H3.call, dropped, eventsNaming, rejected]
      · simp [Ending.call, H3.call, dropped, eventsNaming, H3Event.names,
          accepted]

/--
A request stream ends with exactly one event unless it is reset after a
HEADERS frame that `parse_status` rejected.
-/
theorem endsOnce_iff
    (h3 : H3)
    (stream : StreamId)
    (feeds : List (StreamId × Bytes))
    (ending : Ending) :
    EndsOnce h3 stream feeds ending ↔
      ¬ (ending = .reset ∧ HeadersRejected (bytesOn stream feeds)) := by
  refine ⟨?_, ?_⟩
  · intro ends
    exact (eventsNaming_ending h3 stream feeds ending).mp ends.once
  · intro reported
    refine ⟨(eventsNaming_ending h3 stream feeds ending).mpr reported, ?_⟩
    intro later notRegistered
    refine eventsNaming_calls_unregistered ?_ later notRegistered
    rw [requestCalls, calls_append]
    cases ending with
    | finish =>
        simp only [Ending.call, H3.calls, H3.call, finish_fst]
        exact erase_unregistered _ stream
    | reset =>
        simp only [Ending.call, H3.calls, H3.call, reset_fst]
        exact erase_unregistered _ stream

/--
A HEADERS frame with a nonzero required insert count, then a reset: the
failure was recorded by `feed` without an event, and `reset` stays silent.
-/
theorem reset_after_rejected_headers_silent :
    ¬ EndsOnce H3.new 8 [(8, [0x01, 0x02, 0x01, 0x00])] .reset := by
  intro ends
  obtain ⟨event, emitted⟩ := ends.once
  have silent :
      eventsNaming 8
          (H3.new.calls
            (requestCalls 8 [(8, [0x01, 0x02, 0x01, 0x00])]
              (Ending.call 8 .reset))).2 =
        [] := by
    decide
  rw [silent] at emitted
  cases emitted

end DnsServices.Http3
