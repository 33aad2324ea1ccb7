import DnsServices.H3FrameParser
import DnsServices.QpackRoundTrip

namespace DnsServices.Http3

/-!
# Outbound encoding of requests

`encodeRequest` follows `h3.rs`.  The round trip says what a peer that runs this
repository's own parsers sees: one HEADERS frame with the request fields in
order, then the body in one DATA frame if there is one.
-/

open ChunkedParser

/-- The header fields of a request, in the order they are sent. -/
def requestFields
    (method authority path : Bytes)
    (token : Option Bytes) :
    List (Bytes × Bytes) :=
  let fields :=
    [
      (asBytes ":method", method),
      (asBytes ":scheme", asBytes "https"),
      (asBytes ":authority", authority),
      (asBytes ":path", path),
      (asBytes "accept", asBytes "application/dns-message")
    ]
  match token with
  | none =>
      fields
  | some t =>
      fields ++ [(asBytes "authorization", asBytes "Bearer " ++ t)]

/-- One outbound frame: type, length, payload. -/
def encodeFrame (type : Nat) (payload : Bytes) : Bytes :=
  varintEncode type ++ varintEncode payload.length ++ payload

/-- Encode an H3 request (HEADERS frame, plus DATA frame for POST). -/
def encodeRequest
    (method authority path : Bytes)
    (token body : Option Bytes) :
    Bytes :=
  let block := Qpack.encodeFieldSection (requestFields method authority path token)
  encodeFrame frameHeaders block ++
    match body with
    | none =>
        []
    | some b =>
        encodeFrame frameData b

/-- An outbound frame is a well-formed frame on the wire. -/
def outboundFrame
    (type : Nat)
    (payload : Bytes)
    (typeBound : type < 2 ^ 62)
    (lengthBound : payload.length < 2 ^ 62) :
    WireFrame where
  type := ⟨type, varintEncode type, varintEncode_isVarint typeBound⟩
  length :=
    ⟨payload.length, varintEncode payload.length,
      varintEncode_isVarint lengthBound⟩
  payload := payload
  lengthMatches := rfl

/-- A field is no longer than the section it is encoded in. -/
theorem length_le_encodeFieldSection
    {fields : List (Bytes × Bytes)}
    {field : Bytes × Bytes}
    (member : field ∈ fields) :
    field.1.length + field.2.length ≤
      (Qpack.encodeFieldSection fields).length := by
  obtain ⟨before, after, rfl⟩ := List.append_of_mem member
  simp only [Qpack.encodeFieldSection, List.flatMap_append,
    List.flatMap_cons, Qpack.encodeFieldLine, List.length_cons,
    List.length_append]
  omega

/-- A decoded line as name and value bytes. -/
def decodedField
    (item : Except Qpack.QpackError Qpack.FieldLine) :
    Except Qpack.QpackError (Bytes × Bytes) :=
  match item with
  | .error failure =>
      .error failure
  | .ok line =>
      line.value.decode.map fun value => (line.name.asBytes, value)

/-- In any chunking, a request is one HEADERS frame with its field section
and, if there is a body, one DATA frame. -/
theorem feedChunks_encodeRequest
    {method authority path : Bytes}
    {token body : Option Bytes}
    {chunks : List Bytes}
    (cut :
      chunks.flatten = encodeRequest method authority path token body)
    (size :
      (encodeRequest method authority path token body).length < 2 ^ 62) :
    FrameParser.feedChunks {} chunks =
      ((frameHeaders,
          Qpack.encodeFieldSection
            (requestFields method authority path token)) ::
          body.toList.map (fun payload => (frameData, payload)),
        { buf := [] }) := by
  let headers :=
    Qpack.encodeFieldSection (requestFields method authority path token)
  have headersBound : headers.length < 2 ^ 62 := by
    simp only [encodeRequest, encodeFrame, List.length_append] at size
    simp only [headers]
    omega
  rw [FrameParser.feedChunks_eq, cut]
  cases body with
  | none =>
      have frames := WireFrame.items_flatMap_bytes
        [outboundFrame frameHeaders headers (by decide) headersBound] []
      simpa [WireFrame.bytes, WireFrame.decoded, outboundFrame,
        encodeRequest, encodeFrame, headers, items, residue,
        consume] using frames
  | some payload =>
      have payloadBound : payload.length < 2 ^ 62 := by
        simp only [encodeRequest, encodeFrame, List.length_append] at size
        omega
      have frames := WireFrame.items_flatMap_bytes
        [outboundFrame frameHeaders headers (by decide) headersBound,
          outboundFrame frameData payload (by decide) payloadBound] []
      simpa [WireFrame.bytes, WireFrame.decoded, outboundFrame,
        encodeRequest, encodeFrame, headers, items, residue,
        consume] using frames

/-- The field section of a request is read back as the request fields. -/
theorem collect_requestFields
    {method authority path : Bytes}
    {token body : Option Bytes}
    (size :
      (encodeRequest method authority path token body).length < 2 ^ 62) :
    ∃ decoder,
      Qpack.Decoder.new
          (Qpack.encodeFieldSection
            (requestFields method authority path token)) =
          .ok decoder ∧
        decoder.collect.map decodedField =
          (requestFields method authority path token).map .ok := by
  have bounds :
      ∀ field ∈ requestFields method authority path token,
        field.1.length < 2 ^ 63 ∧ field.2.length < 2 ^ 63 := by
    intro field member
    have covered := length_le_encodeFieldSection member
    simp only [encodeRequest, encodeFrame, List.length_append] at size
    exact ⟨by omega, by omega⟩
  obtain ⟨decoder, accepted, collected⟩ :=
    Qpack.collect_encodeFieldSection bounds
  refine ⟨decoder, accepted, ?_⟩
  rw [collected, List.map_map]
  rfl

/--
Requests survive their own wire format: in any chunking, the frame parser
yields one HEADERS frame and, if there is a body, one DATA frame holding it,
with no bytes left over, and the QPACK decoder reads the request fields back
from the HEADERS payload without an error and in order.
-/
theorem encodeRequest_parses
    (method authority path : Bytes)
    (token body : Option Bytes)
    (chunks : List Bytes)
    (cut :
      chunks.flatten = encodeRequest method authority path token body)
    (size :
      (encodeRequest method authority path token body).length < 2 ^ 62) :
    ∃ headers decoder,
      FrameParser.feedChunks {} chunks =
          ((frameHeaders, headers) ::
              body.toList.map (fun payload => (frameData, payload)),
            { buf := [] }) ∧
        Qpack.Decoder.new headers = .ok decoder ∧
        decoder.collect.map decodedField =
          ([
              (asBytes ":method", method),
              (asBytes ":scheme", asBytes "https"),
              (asBytes ":authority", authority),
              (asBytes ":path", path),
              (asBytes "accept", asBytes "application/dns-message")
            ] ++
            token.toList.map (fun bearer =>
              (asBytes "authorization", asBytes "Bearer " ++ bearer))).map
            .ok := by
  have fieldsShape :
      requestFields method authority path token =
        [
          (asBytes ":method", method),
          (asBytes ":scheme", asBytes "https"),
          (asBytes ":authority", authority),
          (asBytes ":path", path),
          (asBytes "accept", asBytes "application/dns-message")
        ] ++
        token.toList.map (fun bearer =>
          (asBytes "authorization", asBytes "Bearer " ++ bearer)) := by
    cases token <;> rfl
  obtain ⟨decoder, accepted, collected⟩ := collect_requestFields size
  refine ⟨_, decoder, feedChunks_encodeRequest cut size, accepted, ?_⟩
  rw [collected, fieldsShape]

/-- A request with a body whose HEADERS frame arrives cut in two. -/
theorem encodeRequest_parses_post :
    ∃ headers decoder,
      FrameParser.feedChunks {}
          [(encodeRequest (asBytes "POST") (asBytes "d") (asBytes "/q")
              none (some [1, 2])).take 5,
            (encodeRequest (asBytes "POST") (asBytes "d") (asBytes "/q")
              none (some [1, 2])).drop 5] =
          ([(frameHeaders, headers), (frameData, [1, 2])], { buf := [] }) ∧
        Qpack.Decoder.new headers = .ok decoder ∧
        decoder.collect.map decodedField =
          [
            (asBytes ":method", asBytes "POST"),
            (asBytes ":scheme", asBytes "https"),
            (asBytes ":authority", asBytes "d"),
            (asBytes ":path", asBytes "/q"),
            (asBytes "accept", asBytes "application/dns-message")
          ].map .ok :=
  encodeRequest_parses (asBytes "POST") (asBytes "d") (asBytes "/q")
    none (some [1, 2]) _ (by simp) (by decide)

end DnsServices.Http3
