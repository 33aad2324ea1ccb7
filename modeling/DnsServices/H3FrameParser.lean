import DnsServices.ChunkedParser
import DnsServices.H3Varint

namespace DnsServices.Http3

/-!
# The incremental frame parser

`FrameParser` accumulates the bytes of one stream and pops complete HTTP/3
frames.  The parser is an instance of `ChunkedParser`: a popped frame is a
front part of the buffer that later bytes cannot revise, so what it yields
depends on the concatenated bytes only.

`WireFrame` is the other side of the wire: a frame as a peer may send it, with
its type and length written in any legal varint width.
-/

open ChunkedParser

/-- The frame type of a piece of a body. -/
def frameData : Nat := 0x00

/-- The frame type of a field section. -/
def frameHeaders : Nat := 0x01

/-- The frame type by which the server takes its leave. -/
def frameGoaway : Nat := 0x07

/-- The type of the peer's control stream. -/
def streamTypeControl : Nat := 0x00

/-- A frame as the parser yields it: type and payload. -/
abbrev Frame := Nat × Bytes

/-- Pop the next complete frame off a buffer, or `none` if incomplete. -/
def popFrame (buf : Bytes) : Option (Frame × Bytes) :=
  match varintDecode buf with
  | none =>
      none
  | some (ty, n1) =>
      match varintDecode (buf.drop n1) with
      | none =>
          none
      | some (len, n2) =>
          let start := n1 + n2
          if buf.length < start + len then
            none
          else
            some ((ty, (buf.drop start).take len), buf.drop (start + len))

/-- Accumulates stream bytes and yields complete frames. -/
structure FrameParser where
  buf : Bytes := []
  deriving Repr, DecidableEq

namespace FrameParser

/-- Append received bytes. -/
def feed (parser : FrameParser) (data : Bytes) : FrameParser where
  buf := parser.buf ++ data

/-- Pop the next complete frame as (type, payload), or `none` if incomplete. -/
def nextFrame (parser : FrameParser) : Option (Frame × FrameParser) :=
  (popFrame parser.buf).map fun popped => (popped.1, ⟨popped.2⟩)

/-- The `while let Some(frame) = parser.next_frame()` loop of the callers. -/
def whileNextFrame
    (parser : FrameParser)
    (body : σ → Frame → σ)
    (state : σ) :
    σ × FrameParser :=
  let reached := consume popFrame body parser.buf.length state parser.buf
  (reached.1, ⟨reached.2⟩)

/-- Feed chunks one by one, popping all complete frames after each of them. -/
def feedChunks
    (parser : FrameParser)
    (chunks : List Bytes) :
    List Frame × FrameParser :=
  chunks.foldl
    (fun reached chunk =>
      (reached.2.feed chunk).whileNextFrame
        (fun seen frame => seen ++ [frame]) reached.1)
    ([], parser)

end FrameParser

/-- A frame that is complete in a buffer stays the same frame later on. -/
theorem popFrame_delimited : Delimited popFrame where
  shorter := by
    intro buffer item rest popped
    simp only [popFrame] at popped
    split at popped
    · simp at popped
    next ty n1 typeDecoded =>
      split at popped
      · simp at popped
      next len n2 lengthDecoded =>
        have typeBounds := varintDecode_length typeDecoded
        split at popped
        · simp at popped
        · simp only [Option.some.injEq, Prod.mk.injEq] at popped
          obtain ⟨-, rfl⟩ := popped
          simp only [List.length_drop]
          omega
  stable := by
    intro buffer item rest more popped
    simp only [popFrame] at popped
    split at popped
    · simp at popped
    next ty n1 typeDecoded =>
      split at popped
      · simp at popped
      next len n2 lengthDecoded =>
        have typeBounds := varintDecode_length typeDecoded
        split at popped
        · simp at popped
        next covered =>
          have lengthLater :
              varintDecode ((buffer ++ more).drop n1) = some (len, n2) := by
            rw [List.drop_append_of_le_length typeBounds.2]
            exact varintDecode_append more lengthDecoded
          have stillCovered :
              ¬ (buffer ++ more).length < n1 + n2 + len := by
            simp only [List.length_append]
            omega
          have payloadCovered : len ≤ (buffer.drop (n1 + n2)).length := by
            simp only [List.length_drop]
            omega
          simp only [Option.some.injEq, Prod.mk.injEq] at popped
          obtain ⟨rfl, rfl⟩ := popped
          simp only [popFrame, varintDecode_append more typeDecoded,
            lengthLater]
          rw [if_neg stillCovered,
            List.drop_append_of_le_length (by omega),
            List.take_append_of_le_length payloadCovered,
            List.drop_append_of_le_length (by omega)]

/-- An empty buffer holds no frame. -/
theorem popFrame_nil : popFrame [] = none := rfl

/-- The loop calls `nextFrame` until it returns `none`, however often. -/
theorem FrameParser.whileNextFrame_unfold
    (parser : FrameParser)
    (body : σ → Frame → σ)
    (state : σ) :
    parser.whileNextFrame body state =
      parser.nextFrame.elim (state, parser) fun popped =>
        popped.2.whileNextFrame body (body state popped.1) := by
  cases popped : popFrame parser.buf with
  | none =>
      simp [whileNextFrame, nextFrame, popped,
        consume_of_none body _ _ popped]
  | some found =>
      obtain ⟨frame, rest⟩ := found
      have progress := popFrame_delimited.shorter popped
      obtain ⟨fuel, enough⟩ :=
        Nat.exists_eq_add_one_of_ne_zero
          (Nat.ne_of_gt (Nat.lt_of_le_of_lt (Nat.zero_le _) progress))
      have sameFuel :
          consume popFrame body fuel (body state frame) rest =
            consume popFrame body rest.length (body state frame) rest :=
        consume_fuel popFrame_delimited body _ (by omega) (Nat.le_refl _)
      simp [whileNextFrame, nextFrame, popped, enough, consume, sameFuel]

/-- The loop folds its body over the complete frames in the buffer. -/
theorem FrameParser.whileNextFrame_eq
    (parser : FrameParser)
    (body : σ → Frame → σ)
    (state : σ) :
    parser.whileNextFrame body state =
      ((items popFrame parser.buf).foldl body state,
        ⟨residue popFrame parser.buf⟩) := by
  have looped :
      consume popFrame body parser.buf.length state parser.buf =
        ((items popFrame parser.buf).foldl body state,
          residue popFrame parser.buf) :=
    consume_eq_foldl body parser.buf.length state parser.buf []
  rw [FrameParser.whileNextFrame, looped]

/-- Chunk by chunk, the parser yields the frames of the whole byte string. -/
theorem FrameParser.feedChunks_eq (chunks : List Bytes) :
    FrameParser.feedChunks {} chunks =
      (items popFrame chunks.flatten, ⟨residue popFrame chunks.flatten⟩) := by
  have asLoop :
      ∀ (chunks : List Bytes) (seen : List Frame) (buffer : Bytes),
        chunks.foldl
            (fun reached chunk =>
              (reached.2.feed chunk).whileNextFrame
                (fun seen frame => seen ++ [frame]) reached.1)
            (seen, FrameParser.mk buffer) =
          ((feedAll popFrame (fun seen frame => seen ++ [frame])
              seen buffer chunks).1,
            ⟨(feedAll popFrame (fun seen frame => seen ++ [frame])
              seen buffer chunks).2⟩) := by
    intro chunks
    induction chunks with
    | nil =>
        intro seen buffer
        rfl
    | cons chunk rest inductionHypothesis =>
        intro seen buffer
        simp only [List.foldl_cons, feedAll]
        exact inductionHypothesis _ _
  rw [FrameParser.feedChunks, asLoop,
    feedAll_eq_feed popFrame_delimited _ _ popFrame_nil]
  rfl

/-- A value together with one legal way of writing it. -/
structure WireVarint where
  value : Nat
  bytes : Bytes
  legal : IsVarint value bytes

/-- A frame on the wire, its two integers in any legal width. -/
structure WireFrame where
  type : WireVarint
  length : WireVarint
  payload : Bytes
  lengthMatches : length.value = payload.length

namespace WireFrame

/-- The bytes a peer sends for one frame. -/
def bytes (frame : WireFrame) : Bytes :=
  frame.type.bytes ++ frame.length.bytes ++ frame.payload

/-- What the frame parser yields for it. -/
def decoded (frame : WireFrame) : Frame :=
  (frame.type.value, frame.payload)

/-- A frame at the front of a buffer is popped exactly. -/
theorem popFrame_bytes (frame : WireFrame) (rest : Bytes) :
    popFrame (frame.bytes ++ rest) = some (frame.decoded, rest) := by
  have typeDecoded :=
    frame.type.legal.decode (frame.length.bytes ++ frame.payload ++ rest)
  have lengthDecoded := frame.length.legal.decode (frame.payload ++ rest)
  have shape :
      frame.bytes ++ rest =
        frame.type.bytes ++ (frame.length.bytes ++ frame.payload ++ rest) := by
    simp [bytes]
  rw [popFrame, shape, typeDecoded]
  simp only [List.drop_left, List.append_assoc, lengthDecoded]
  have covered :
      ¬ (frame.type.bytes ++
          (frame.length.bytes ++ (frame.payload ++ rest))).length <
        frame.type.bytes.length + frame.length.bytes.length +
          frame.length.value := by
    simp only [List.length_append, frame.lengthMatches]
    omega
  rw [if_neg covered, frame.lengthMatches]
  simp [decoded, ← List.drop_drop]

/-- A concatenation of frames is popped into exactly those frames. -/
theorem items_flatMap_bytes (frames : List WireFrame) (rest : Bytes) :
    items popFrame (frames.flatMap bytes ++ rest) =
        frames.map decoded ++ items popFrame rest ∧
      residue popFrame (frames.flatMap bytes ++ rest) =
        residue popFrame rest := by
  induction frames with
  | nil =>
      simp
  | cons frame frames inductionHypothesis =>
      have popped :=
        frame.popFrame_bytes (frames.flatMap bytes ++ rest)
      obtain ⟨itemsShape, residueShape⟩ :=
        items_cons popFrame_delimited popped
      simp only [List.flatMap_cons, List.append_assoc, List.map_cons,
        List.cons_append]
      rw [itemsShape, residueShape, inductionHypothesis.1,
        inductionHypothesis.2]
      exact ⟨rfl, rfl⟩

/-- The frames of a concatenation of frames, with nothing left over. -/
theorem items_whole (frames : List WireFrame) :
    items popFrame (frames.flatMap bytes) = frames.map decoded ∧
      residue popFrame (frames.flatMap bytes) = [] := by
  have nothingLeft := @items_of_none _ _ popFrame [] popFrame_nil
  have whole := items_flatMap_bytes frames []
  rw [nothingLeft.1, nothingLeft.2, List.append_nil, List.append_nil] at whole
  exact whole

/-- A popped frame stands on the wire at the front of the buffer. -/
theorem exists_of_popFrame
    {buffer rest : Bytes}
    {frame : Frame}
    (popped : popFrame buffer = some (frame, rest)) :
    ∃ wire : WireFrame,
      wire.decoded = frame ∧ buffer = wire.bytes ++ rest := by
  rw [popFrame] at popped
  split at popped
  · cases popped
  next type n1 typeDecoded =>
    split at popped
    · cases popped
    next len n2 lengthDecoded =>
      simp only at popped
      split at popped
      · cases popped
      next covered =>
        obtain ⟨rfl, rfl⟩ := Prod.mk.inj (Option.some.inj popped)
        refine
          ⟨{ type := ⟨type, buffer.take n1,
                isVarint_of_varintDecode typeDecoded⟩
             length := ⟨len, (buffer.drop n1).take n2,
                isVarint_of_varintDecode lengthDecoded⟩
             payload := (buffer.drop (n1 + n2)).take len
             lengthMatches := ?_ }, rfl, ?_⟩
        · simp only [List.length_take, List.length_drop]
          omega
        · simp only [WireFrame.bytes, List.append_assoc]
          rw [← List.drop_drop (i := len), List.take_append_drop,
            ← List.drop_drop, List.take_append_drop, List.take_append_drop]

/-- Every byte string is a list of whole frames and a rest in which none is
complete. -/
theorem exists_frames (buffer : Bytes) :
    ∃ frames : List WireFrame,
      buffer = frames.flatMap WireFrame.bytes ++ residue popFrame buffer := by
  cases popped : popFrame buffer with
  | none =>
      exact ⟨[], by simp [(items_of_none popped).2]⟩
  | some found =>
      obtain ⟨frame, rest⟩ := found
      have shorter := popFrame_delimited.shorter popped
      obtain ⟨wire, _, shape⟩ := exists_of_popFrame popped
      obtain ⟨frames, later⟩ := exists_frames rest
      refine ⟨wire :: frames, ?_⟩
      rw [(items_cons popFrame_delimited popped).2, List.flatMap_cons,
        List.append_assoc, ← later, ← shape]
termination_by buffer.length

end WireFrame

/-- A concatenation of complete frames. -/
def WholeFrames (buffer : Bytes) : Prop :=
  ∃ frames : List WireFrame, buffer = frames.flatMap WireFrame.bytes

/-- Nothing is left in the parser exactly if all frames are complete. -/
theorem wholeFrames_iff (buffer : Bytes) :
    WholeFrames buffer ↔ residue popFrame buffer = [] := by
  constructor
  · rintro ⟨frames, rfl⟩
    exact (WireFrame.items_whole frames).2
  · intro nothingLeft
    obtain ⟨frames, shape⟩ := WireFrame.exists_frames buffer
    rw [nothingLeft, List.append_nil] at shape
    exact ⟨frames, shape⟩

end DnsServices.Http3
