import Mathlib.Logic.Function.Basic
import DnsServices.H3Request

namespace DnsServices.Http3

/-!
# The HTTP/3 connection state

The per-connection state machine of `h3.rs`: request streams are registered
and parsed as responses, server-initiated unidirectional streams are
classified by their type varint.  The hash map of streams is a function; the
source only looks streams up by id.  Every operation returns the new state and
the events it pushed.
-/

/-- The number of a QUIC stream. -/
abbrev StreamId := Nat

/-- Rust's `str::parse::<u16>`: optional `+`, decimal digits, at most 65535. -/
def parseU16 (text : Bytes) : Option Nat :=
  let digits :=
    match text with
    | [] =>
        none
    | sign :: rest =>
        if sign = 0x2B then
          if rest = [] then none else some rest
        else
          some text
  digits.bind fun digits =>
    digits.foldlM
      (fun value digit =>
        if 0x30 ≤ digit ∧ digit ≤ 0x39 then
          let value := value * 10 + (digit.toNat - 0x30)
          if value ≤ 65535 then some value else none
        else
          none)
      0

/-- The `for line in dec` loop of `parse_status` over the decoder's items. -/
def statusOfLines :
    List (Except Qpack.QpackError Qpack.FieldLine) →
      Except Qpack.QpackError Nat
  | [] =>
      -- no status, treated as failure by the caller
      .ok 0
  | .error failure :: _ =>
      .error failure
  | .ok line :: rest =>
      if line.name.asBytes = asBytes ":status" then
        -- text that is not UTF-8 is replaced by "0", which parses to the
        -- same 0 as any other text with a non-digit byte
        line.value.decode.map fun value => (parseU16 value).getD 0
      else
        statusOfLines rest

/-- Extract `:status` from a QPACK field section. -/
def parseStatus (block : Bytes) : Except Qpack.QpackError Nat :=
  match Qpack.Decoder.new block with
  | .error failure =>
      .error failure
  | .ok decoder =>
      statusOfLines decoder.collect

/-- What a response stream has delivered so far. -/
structure ResponseFields where
  status : Option Nat := none
  body : Bytes := []
  /-- Complete DATA frame received. -/
  gotData : Bool := false
  /-- Failure already reported; suppress further events. -/
  failed : Bool := false
  deriving Repr, DecidableEq

/-- The state of one of our request streams. -/
structure ResponseState extends ResponseFields where
  parser : FrameParser := {}
  deriving Repr, DecidableEq

/-- Per-stream state. -/
inductive StreamState where
  /-- Server-initiated uni stream; type varint not yet consumed if `none`. -/
  | serverUni (ty : Option Nat) (parser : FrameParser)
  /-- Drain bytes without parsing (QPACK streams, push, unknown types). -/
  | sink
  /-- One of our request streams. -/
  | response (state : ResponseState)
  deriving Repr, DecidableEq

/-- Events emitted by the H3 layer. -/
inductive H3Event where
  /-- Complete DNS response body for a request stream (status 200). -/
  | response (stream : StreamId) (body : Bytes)
  /-- The request failed at the H3 level (bad status, malformed, reset). -/
  | failed (stream : StreamId)
  /-- GOAWAY received from the server. -/
  | goaway
  deriving Repr, DecidableEq

/-- The H3 state of one connection. -/
structure H3 where
  streams : StreamId → Option StreamState
  goaway : Bool

/-- One frame of a response: the body of the `while let` loop. -/
def ResponseFields.handleFrame
    (fields : ResponseFields)
    (frame : Frame) :
    ResponseFields :=
  if frame.1 = frameHeaders then
    match parseStatus frame.2 with
    | .ok code =>
        { fields with status := some code }
    | .error _ =>
        { fields with failed := true }
  else if frame.1 = frameData then
    { fields with body := fields.body ++ frame.2, gotData := true }
  else
    fields

/-- Feed bytes to a response stream and handle the frames they complete. -/
def ResponseState.feed (state : ResponseState) (data : Bytes) : ResponseState :=
  let reached :=
    (state.parser.feed data).whileNextFrame
      ResponseFields.handleFrame state.toResponseFields
  { toResponseFields := reached.1, parser := reached.2 }

namespace H3

/-- A connection without streams. -/
def new : H3 where
  streams := fun _ => none
  goaway := false

/-- `streams.insert`. -/
def insert (h3 : H3) (stream : StreamId) (state : StreamState) : H3 where
  streams := Function.update h3.streams stream (some state)
  goaway := h3.goaway

/-- `streams.remove`. -/
def erase (h3 : H3) (stream : StreamId) : H3 where
  streams := Function.update h3.streams stream none
  goaway := h3.goaway

/-- Register a freshly opened request stream. -/
def registerRequest (h3 : H3) (stream : StreamId) : H3 :=
  h3.insert stream (.response {})

/-- One frame of the control stream: only GOAWAY matters. -/
def handleControlFrame
    (reached : Bool × List H3Event)
    (frame : Frame) :
    Bool × List H3Event :=
  if frame.1 = frameGoaway then
    (true, reached.2 ++ [.goaway])
  else
    reached

/-- Handle the complete frames of a control stream. -/
def processServerUni (h3 : H3) (stream : StreamId) : H3 × List H3Event :=
  match h3.streams stream with
  | some (.serverUni ty parser) =>
      if ty ≠ some streamTypeControl then
        (h3, [])
      else
        let reached := parser.whileNextFrame handleControlFrame (h3.goaway, [])
        ({ h3.insert stream (.serverUni ty reached.2) with
            goaway := reached.1.1 },
          reached.1.2)
  | _ =>
      (h3, [])

/-- Feed received bytes for a stream. -/
def feed (h3 : H3) (stream : StreamId) (data : Bytes) : H3 × List H3Event :=
  -- only server-initiated uni streams arrive unregistered
  match (h3.streams stream).getD (.serverUni none {}) with
  | .serverUni none parser =>
      match varintDecode data with
      | some (t, n) =>
          -- control stream parses frames, everything else is sunk
          if t = streamTypeControl then
            (h3.insert stream
              (.serverUni (some t) (parser.feed (data.drop n)))).processServerUni
                stream
          else
            (h3.insert stream .sink, [])
      | none =>
          if data = [] then
            (h3.insert stream (.serverUni none parser), [])
          else
            -- buffer the chunk in the parser and try to read the type there
            let parser := parser.feed data
            match varintDecode parser.buf with
            | none =>
                (h3.insert stream (.serverUni none parser), [])
            | some (t, n) =>
                if t = streamTypeControl then
                  (h3.insert stream
                    (.serverUni (some t)
                      (FrameParser.feed {} (parser.buf.drop n)))).processServerUni
                        stream
                else
                  (h3.insert stream .sink, [])
  | .serverUni (some ty) parser =>
      (h3.insert stream
        (.serverUni (some ty) (parser.feed data))).processServerUni stream
  | .response state =>
      (h3.insert stream (.response (state.feed data)), [])
  | .sink =>
      (h3.insert stream .sink, [])

/-- Stream finished (FIN). -/
def finish (h3 : H3) (stream : StreamId) : H3 × List H3Event :=
  match h3.streams stream with
  | some (.response state) =>
      if state.failed then
        (h3.erase stream, [.failed stream])
      else if state.gotData ∧ state.status = some 200 then
        (h3.erase stream, [.response stream state.body])
      else
        (h3.erase stream, [.failed stream])
  | _ =>
      -- server uni / sink: nothing to report
      (h3.erase stream, [])

/-- Stream reset by peer or write side stopped. -/
def reset (h3 : H3) (stream : StreamId) : H3 × List H3Event :=
  match h3.streams stream with
  | some (.response state) =>
      (h3.erase stream, if state.failed then [] else [.failed stream])
  | _ =>
      (h3.erase stream, [])

@[simp] theorem insert_same (h3 : H3) (stream : StreamId) (state : StreamState) :
    (h3.insert stream state).streams stream = some state := by
  simp [insert]

theorem insert_other
    (h3 : H3)
    {stream other : StreamId}
    (different : other ≠ stream)
    (state : StreamState) :
    (h3.insert stream state).streams other = h3.streams other := by
  simp [insert, different]

@[simp] theorem erase_same (h3 : H3) (stream : StreamId) :
    (h3.erase stream).streams stream = none := by
  simp [erase]

theorem erase_other
    (h3 : H3)
    {stream other : StreamId}
    (different : other ≠ stream) :
    (h3.erase stream).streams other = h3.streams other := by
  simp [erase, different]

end H3

/-! ## Control streams -/

/-- How many GOAWAY frames a list of frames holds. -/
def goawayCount (frames : List Frame) : Nat :=
  frames.countP fun frame => frame.1 == frameGoaway

theorem goawayCount_append (first second : List Frame) :
    goawayCount (first ++ second) =
      goawayCount first + goawayCount second := by
  simp [goawayCount]

/-- The control loop reports every GOAWAY frame once and nothing else. -/
theorem foldl_handleControlFrame
    (frames : List Frame)
    (goaway : Bool)
    (events : List H3Event) :
    frames.foldl H3.handleControlFrame (goaway, events) =
      (goaway || decide (0 < goawayCount frames),
        events ++ List.replicate (goawayCount frames) .goaway) := by
  induction frames generalizing goaway events with
  | nil =>
      simp [goawayCount]
  | cons frame rest inductionHypothesis =>
      by_cases isGoaway : frame.1 = frameGoaway
      · have counted : goawayCount (frame :: rest) = goawayCount rest + 1 := by
          simp [goawayCount, isGoaway]
        rw [List.foldl_cons, H3.handleControlFrame, if_pos isGoaway,
          inductionHypothesis, counted]
        simp [List.replicate_succ]
      · have counted : goawayCount (frame :: rest) = goawayCount rest := by
          simp [goawayCount, isGoaway]
        rw [List.foldl_cons, H3.handleControlFrame, if_neg isGoaway,
          inductionHypothesis, counted]

/-- Processing a control stream pops its frames and counts the GOAWAYs. -/
theorem processServerUni_control
    {h3 : H3}
    {stream : StreamId}
    {buf : Bytes}
    (control :
      h3.streams stream =
        some (.serverUni (some streamTypeControl) { buf := buf })) :
    h3.processServerUni stream =
      ({ h3.insert stream
            (.serverUni (some streamTypeControl)
              { buf := ChunkedParser.residue popFrame buf }) with
          goaway :=
            h3.goaway ||
              decide (0 < goawayCount (ChunkedParser.items popFrame buf)) },
        List.replicate
          (goawayCount (ChunkedParser.items popFrame buf)) .goaway) := by
  simp only [H3.processServerUni, control, ne_eq, not_true_eq_false,
    ↓reduceIte, FrameParser.whileNextFrame_eq, foldl_handleControlFrame,
    List.nil_append]

/-! ## Sequences of calls -/

/-- One call to the H3 layer. -/
inductive H3Call where
  | registerRequest (stream : StreamId)
  | feed (stream : StreamId) (data : Bytes)
  | finish (stream : StreamId)
  | reset (stream : StreamId)
  deriving Repr, DecidableEq

/-- The stream a call names. -/
def H3Call.stream : H3Call → StreamId
  | .registerRequest stream => stream
  | .feed stream _ => stream
  | .finish stream => stream
  | .reset stream => stream

/-- Make one call. -/
def H3.call (h3 : H3) : H3Call → H3 × List H3Event
  | .registerRequest stream =>
      (h3.registerRequest stream, [])
  | .feed stream data =>
      h3.feed stream data
  | .finish stream =>
      h3.finish stream
  | .reset stream =>
      h3.reset stream

/-- Make calls one after the other, collecting their events in order. -/
def H3.calls : H3 → List H3Call → H3 × List H3Event
  | h3, [] =>
      (h3, [])
  | h3, call :: rest =>
      let first := h3.call call
      let later := first.1.calls rest
      (later.1, first.2 ++ later.2)

/-- Calls compose, and so do the events they emit. -/
theorem calls_append (h3 : H3) (first second : List H3Call) :
    h3.calls (first ++ second) =
      (((h3.calls first).1.calls second).1,
        (h3.calls first).2 ++ ((h3.calls first).1.calls second).2) := by
  induction first generalizing h3 with
  | nil =>
      rfl
  | cons call rest inductionHypothesis =>
      simp only [List.cons_append, H3.calls]
      rw [inductionHypothesis]
      simp

/-- An event that reports the end of the given request stream. -/
def H3Event.names (stream : StreamId) : H3Event → Bool
  | .response named _ => named == stream
  | .failed named => named == stream
  | .goaway => false

/-- The events that name a stream, in order. -/
def eventsNaming (stream : StreamId) (events : List H3Event) : List H3Event :=
  events.filter (H3Event.names stream)

end DnsServices.Http3
