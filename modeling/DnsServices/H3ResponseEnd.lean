import DnsServices.H3Response

namespace DnsServices.Http3

/-!
# Responses that end inside a frame or with trailers

`finish` decides from the frames that were complete.  Bytes that are left in
the frame parser do not matter to it, so a response cut off behind its first
DATA frame is delivered; and every HEADERS frame sets the status, so trailers
take it back.
-/

open ChunkedParser

/-! ## Truncated responses -/

/-- A finished stream delivers a body only if all its bytes belong to complete
frames, and fails if it ends inside a frame. -/
structure ReportsTruncation
    (h3 : H3)
    (stream : StreamId)
    (feeds : List (StreamId × Bytes)) : Prop where
  delivered :
    ∀ body,
      .response stream body ∈
          eventsNaming stream
            (h3.calls (requestCalls stream feeds (.finish stream))).2 →
        WholeFrames (bytesOn stream feeds)
  failed :
    ¬ WholeFrames (bytesOn stream feeds) →
      eventsNaming stream
          (h3.calls (requestCalls stream feeds (.finish stream))).2 =
        [.failed stream]

/--
Truncation is reported exactly if there is none, or if the complete frames
are not a clean response anyway.
-/
theorem reportsTruncation_iff
    (h3 : H3)
    (stream : StreamId)
    (feeds : List (StreamId × Bytes)) :
    ReportsTruncation h3 stream feeds ↔
      WholeFrames (bytesOn stream feeds) ∨
        ¬ CleanResponse (items popFrame (bytesOn stream feeds)) := by
  rcases eventsNaming_finish h3 stream feeds with
    ⟨clean, finished⟩ | ⟨unclean, finished⟩
  · constructor
    · intro reports
      left
      exact reports.delivered _
        (by rw [finished]; exact List.mem_singleton_self _)
    · intro condition
      have whole := condition.resolve_right (not_not_intro clean)
      exact ⟨fun _ _ => whole, fun cut => absurd whole cut⟩
  · refine iff_of_true ⟨?_, fun _ => finished⟩ (Or.inr unclean)
    intro body member
    rw [finished] at member
    simp at member

/-- Status 200, a DATA frame with one byte, and a second DATA frame of which
one byte in five has arrived. -/
def cutResponse : Bytes :=
  [0x01, 0x03, 0x00, 0x00, 0xD9, 0x00, 0x01, 0xAA, 0x00, 0x05, 0xBB]

/-- The body of the first DATA frame is delivered as the whole response. -/
theorem not_reportsTruncation_cutResponse :
    ¬ ReportsTruncation H3.new 0 [(0, cutResponse)] := by
  intro reports
  have delivered :
      eventsNaming 0
          (H3.new.calls (requestCalls 0 [(0, cutResponse)] (.finish 0))).2 =
        [.response 0 [0xAA]] := by
    decide
  have whole := reports.delivered [0xAA] (by rw [delivered]; simp)
  rw [wholeFrames_iff] at whole
  exact absurd whole (by decide)

/-! ## Trailers -/

/-- A field section that decodes and has no `:status` field. -/
def DecodesWithoutStatus (block : Bytes) : Prop :=
  ∃ decoder,
    Qpack.Decoder.new block = .ok decoder ∧
      ∀ item ∈ decoder.collect,
        ∃ line, item = .ok line ∧ line.name.asBytes ≠ asBytes ":status"

/-- A response with status 200, at least one DATA frame and a trailing HEADERS
frame. -/
structure TrailedResponse where
  headers : WireFrame
  content : List WireFrame
  trailer : WireFrame
  headersFirst : headers.type.value = frameHeaders
  status : parseStatus headers.payload = .ok 200
  noHeaders : ∀ frame ∈ content, frame.type.value ≠ frameHeaders
  hasData : ∃ frame ∈ content, frame.type.value = frameData
  trailerLast : trailer.type.value = frameHeaders
  withoutStatus : DecodesWithoutStatus trailer.payload

namespace TrailedResponse

/-- The frames before the trailers. -/
def untrailed (response : TrailedResponse) : List WireFrame :=
  response.headers :: response.content

/-- All frames of the response, the trailing HEADERS frame last. -/
def frames (response : TrailedResponse) : List WireFrame :=
  response.untrailed ++ [response.trailer]

/-- The concatenated DATA payloads. -/
def body (response : TrailedResponse) : Bytes :=
  (payloadsOf frameData (response.untrailed.map WireFrame.decoded)).flatten

end TrailedResponse

/-- Without a `:status` field the status is 0. -/
theorem statusOfLines_without
    {lines : List (Except Qpack.QpackError Qpack.FieldLine)}
    (others :
      ∀ item ∈ lines,
        ∃ line, item = .ok line ∧ line.name.asBytes ≠ asBytes ":status") :
    statusOfLines lines = .ok 0 := by
  induction lines with
  | nil =>
      rfl
  | cons item rest inductionHypothesis =>
      obtain ⟨line, rfl, other⟩ := others item List.mem_cons_self
      rw [statusOfLines, if_neg other]
      exact inductionHypothesis fun later member =>
        others later (List.mem_cons_of_mem _ member)

/-- A header block without a status parses as status 0. -/
theorem parseStatus_of_decodesWithoutStatus
    {block : Bytes}
    (decodes : DecodesWithoutStatus block) :
    parseStatus block = .ok 0 := by
  obtain ⟨decoder, accepted, others⟩ := decodes
  rw [parseStatus, accepted]
  exact statusOfLines_without others

namespace TrailedResponse

/-- The only HEADERS frame before the trailers is the first frame. -/
theorem headers_untrailed (response : TrailedResponse) :
    payloadsOf frameHeaders (response.untrailed.map WireFrame.decoded) =
      [response.headers.payload] := by
  have none :
      (response.content.map WireFrame.decoded).filter
          (fun frame => frame.1 == frameHeaders) = [] := by
    rw [List.filter_eq_nil_iff]
    intro frame member
    obtain ⟨wire, wireMember, rfl⟩ := List.mem_map.mp member
    simpa [WireFrame.decoded] using response.noHeaders wire wireMember
  simp [payloadsOf, untrailed, WireFrame.decoded, response.headersFirst,
    none]

/-- Without its trailers the response is a clean one. -/
theorem clean_untrailed (response : TrailedResponse) :
    CleanResponse (response.untrailed.map WireFrame.decoded) := by
  refine ⟨?_, ?_, ?_⟩
  · intro payload member
    rw [headers_untrailed, List.mem_singleton] at member
    simp [member, Rejected, response.status]
  · refine ⟨response.headers.payload, ?_, response.status⟩
    rw [headers_untrailed]
    rfl
  · obtain ⟨frame, member, isData⟩ := response.hasData
    have found :
        frame.payload ∈
          payloadsOf frameData (response.untrailed.map WireFrame.decoded) := by
      refine List.mem_map.mpr ⟨frame.decoded, ?_, rfl⟩
      refine List.mem_filter.mpr ⟨?_, by simpa [WireFrame.decoded]⟩
      exact List.mem_map_of_mem (List.mem_cons_of_mem _ member)
    exact List.ne_nil_of_mem found

/-- The status of the whole response is the one of its trailers, 0. -/
theorem not_clean_frames (response : TrailedResponse) :
    ¬ CleanResponse (response.frames.map WireFrame.decoded) := by
  rintro ⟨_, ⟨payload, last, status⟩, _⟩
  have isHeaders : response.trailer.decoded.1 = frameHeaders :=
    response.trailerLast
  rw [frames, List.map_append, List.map_singleton, payloadsOf_snoc,
    if_pos isHeaders, List.getLast?_concat, Option.some.injEq] at last
  have trailerStatus : parseStatus response.trailer.decoded.2 = .ok 0 :=
    parseStatus_of_decodesWithoutStatus response.withoutStatus
  rw [← last, trailerStatus] at status
  cases status

end TrailedResponse

/-- The trailers do not change the outcome: the body is delivered, as it is
when the trailers are left away. -/
structure IgnoresTrailers
    (h3 : H3)
    (stream : StreamId)
    (response : TrailedResponse)
    (feeds : List (StreamId × Bytes)) : Prop where
  delivered :
    eventsNaming stream
        (h3.calls (requestCalls stream feeds (.finish stream))).2 =
      [.response stream response.body]
  unchanged :
    ∀ plain,
      bytesOn stream plain =
          response.untrailed.flatMap WireFrame.bytes →
        eventsNaming stream
            (h3.calls (requestCalls stream feeds (.finish stream))).2 =
          eventsNaming stream
            (h3.calls (requestCalls stream plain (.finish stream))).2

/-- Without its trailers the response is delivered. -/
theorem eventsNaming_untrailed
    (h3 : H3)
    (stream : StreamId)
    (response : TrailedResponse)
    {plain : List (StreamId × Bytes)}
    (received :
      bytesOn stream plain = response.untrailed.flatMap WireFrame.bytes) :
    eventsNaming stream
        (h3.calls (requestCalls stream plain (.finish stream))).2 =
      [.response stream response.body] := by
  have parsed := (WireFrame.items_whole response.untrailed).1
  rcases eventsNaming_finish h3 stream plain with
    ⟨_, finished⟩ | ⟨unclean, _⟩
  · rw [finished, received, parsed]
    rfl
  · rw [received, parsed] at unclean
    exact absurd response.clean_untrailed unclean

/--
Trailers always change the outcome: in any chunking, a response that is
delivered without its trailers fails with them.
-/
theorem trailers_fail
    (h3 : H3)
    (stream : StreamId)
    (response : TrailedResponse)
    (feeds : List (StreamId × Bytes))
    (received :
      bytesOn stream feeds = response.frames.flatMap WireFrame.bytes) :
    ¬ IgnoresTrailers h3 stream response feeds ∧
      eventsNaming stream
          (h3.calls (requestCalls stream feeds (.finish stream))).2 =
        [.failed stream] ∧
      ∀ plain,
        bytesOn stream plain =
            response.untrailed.flatMap WireFrame.bytes →
          eventsNaming stream
              (h3.calls (requestCalls stream plain (.finish stream))).2 =
            [.response stream response.body] := by
  have failed :
      eventsNaming stream
          (h3.calls (requestCalls stream feeds (.finish stream))).2 =
        [.failed stream] := by
    rcases eventsNaming_finish h3 stream feeds with
      ⟨clean, _⟩ | ⟨_, finished⟩
    · rw [received, (WireFrame.items_whole response.frames).1] at clean
      exact absurd clean response.not_clean_frames
    · exact finished
  refine ⟨?_, failed, ?_⟩
  · intro ignores
    have delivered := ignores.delivered
    rw [failed] at delivered
    simp at delivered
  · intro plain receivedPlain
    exact eventsNaming_untrailed h3 stream response receivedPlain

/-- Status 200, one DATA frame, and a trailing `accept` field of the static
table. -/
def acceptTrailed : TrailedResponse where
  headers := shortFrame 1 [0x00, 0x00, 0xD9] (by decide) (by decide)
  content := [shortFrame 0 [0xAA, 0xBB] (by decide) (by decide)]
  trailer := shortFrame 1 [0x00, 0x00, 0xDE] (by decide) (by decide)
  headersFirst := rfl
  status := by decide +kernel
  noHeaders := by
    intro frame member
    rw [List.mem_singleton.mp member]
    decide
  hasData := ⟨_, List.mem_singleton_self _, rfl⟩
  trailerLast := rfl
  withoutStatus := by
    refine ⟨{ buf := [0x00, 0x00, 0xDE], pos := 2 }, rfl, ?_⟩
    intro item member
    have shape :
        (Qpack.Decoder.collect { buf := [0x00, 0x00, 0xDE], pos := 2 }) =
          [.ok
            { name := .static "accept"
              value := .static "application/dns-message" }] := by
      decide +kernel
    rw [shape, List.mem_singleton] at member
    exact ⟨_, member, by decide⟩

/-- The bytes of the response in two chunks, with bytes of another stream in
between. -/
def acceptTrailedFeeds : List (StreamId × Bytes) :=
  [(0, [0x01, 0x03, 0x00, 0x00, 0xD9, 0x00]), (3, [0x00]),
    (0, [0x02, 0xAA, 0xBB, 0x01, 0x03, 0x00, 0x00, 0xDE])]

/-- A trailer with one field turns a clean response into a failure. -/
theorem trailers_fail_accept :
    ¬ IgnoresTrailers H3.new 0 acceptTrailed acceptTrailedFeeds ∧
      eventsNaming 0
          (H3.new.calls
            (requestCalls 0 acceptTrailedFeeds (.finish 0))).2 =
        [.failed 0] ∧
      ∀ plain,
        bytesOn 0 plain = acceptTrailed.untrailed.flatMap WireFrame.bytes →
          eventsNaming 0
              (H3.new.calls (requestCalls 0 plain (.finish 0))).2 =
            [.response 0 acceptTrailed.body] :=
  trailers_fail H3.new 0 acceptTrailed acceptTrailedFeeds (by decide)

/-- The response with its trailers fails. -/
theorem not_ignoresTrailers_accept :
    ¬ IgnoresTrailers H3.new 0 acceptTrailed acceptTrailedFeeds := by
  intro ignores
  have failed :
      eventsNaming 0
          (H3.new.calls
            (requestCalls 0 acceptTrailedFeeds (.finish 0))).2 =
        [.failed 0] := by
    decide +kernel
  have delivered := ignores.delivered
  rw [failed] at delivered
  simp at delivered

end DnsServices.Http3
