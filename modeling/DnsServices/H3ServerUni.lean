import DnsServices.H3

namespace DnsServices.Http3

/-!
# Server unidirectional streams and chunk borders

An unregistered stream is classified by the type varint at its front.  `feed`
reads the type from the newest chunk alone before it looks at the bytes it has
buffered, so a chunk that starts inside the type varint can be taken for a
type of its own.  This module states when feeding a byte string in chunks has
the outcome of feeding it at once.
-/

open ChunkedParser

/-- What a server stream has been recognised as. -/
inductive Classification where
  | untyped
  | control
  | sink
  | other
  deriving Repr, DecidableEq

/-- What is known of a stream. -/
def classify : Option StreamState → Classification
  | none => .untyped
  | some (.serverUni none _) => .untyped
  | some (.serverUni (some ty) _) =>
      if ty = streamTypeControl then .control else .other
  | some .sink => .sink
  | some (.response _) => .other

/-- What can be seen of a server stream after some feeds. -/
structure Outcome where
  events : List H3Event
  goaway : Bool
  classification : Classification
  deriving Repr, DecidableEq

/-- What a caller sees of a call on a stream. -/
def outcome (stream : StreamId) (result : H3 × List H3Event) : Outcome where
  events := result.2
  goaway := result.1.goaway
  classification := classify (result.1.streams stream)

/-- Feed the chunks of one stream one by one. -/
def H3.feedEach
    (h3 : H3)
    (stream : StreamId)
    (chunks : List Bytes) :
    H3 × List H3Event :=
  h3.calls (chunks.map (.feed stream))

@[simp] theorem H3.feedEach_nil (h3 : H3) (stream : StreamId) :
    h3.feedEach stream [] = (h3, []) := rfl

theorem H3.feedEach_cons
    (h3 : H3)
    (stream : StreamId)
    (chunk : Bytes)
    (rest : List Bytes) :
    h3.feedEach stream (chunk :: rest) =
      (((h3.feed stream chunk).1.feedEach stream rest).1,
        (h3.feed stream chunk).2 ++
          ((h3.feed stream chunk).1.feedEach stream rest).2) := rfl

/-! ## Streams whose type is known -/

/-- The outcome of a control stream with the given bytes behind its type. -/
def controlOutcome (goaway : Bool) (frames : Bytes) : Outcome where
  events := List.replicate (goawayCount (items popFrame frames)) .goaway
  goaway := goaway || decide (0 < goawayCount (items popFrame frames))
  classification := .control

/-- What is seen of a stream that is not to be read. -/
def sinkOutcome (goaway : Bool) : Outcome where
  events := []
  goaway := goaway
  classification := .sink

/-- What is seen of a stream whose type is not complete. -/
def untypedOutcome (goaway : Bool) : Outcome where
  events := []
  goaway := goaway
  classification := .untyped

/-- The state with a control stream that holds the given bytes. -/
def H3.controlled
    (h3 : H3)
    (stream : StreamId)
    (buf : Bytes)
    (goaway : Bool) :
    H3 :=
  { h3.insert stream
      (.serverUni (some streamTypeControl) { buf := buf }) with
    goaway := goaway }

theorem H3.controlled_stream
    (h3 : H3)
    (stream : StreamId)
    (buf : Bytes)
    (goaway : Bool) :
    (h3.controlled stream buf goaway).streams stream =
      some (.serverUni (some streamTypeControl) { buf := buf }) := by
  simp [controlled, insert]

/-- More bytes on a typed control stream go behind the buffered ones. -/
theorem H3.controlled_feed
    (h3 : H3)
    (stream : StreamId)
    (buf chunk : Bytes)
    (goaway : Bool) :
    (h3.controlled stream buf goaway).feed stream chunk =
      (h3.controlled stream (buf ++ chunk) goaway).processServerUni
        stream := by
  simp [feed, controlled, insert, FrameParser.feed]

/-- A control stream reports the GOAWAY frames of all its bytes. -/
theorem outcome_control
    {h3 : H3}
    {stream : StreamId}
    {buf : Bytes}
    (control :
      h3.streams stream =
        some (.serverUni (some streamTypeControl) { buf := buf }))
    (chunks : List Bytes) :
    outcome stream
        (((h3.processServerUni stream).1.feedEach stream chunks).1,
          (h3.processServerUni stream).2 ++
            ((h3.processServerUni stream).1.feedEach stream chunks).2) =
      controlOutcome h3.goaway (buf ++ chunks.flatten) := by
  induction chunks generalizing h3 buf with
  | nil =>
      rw [processServerUni_control control]
      simp [outcome, controlOutcome, classify, H3.insert]
  | cons chunk rest inductionHypothesis =>
      let goaway :=
        h3.goaway || decide (0 < goawayCount (items popFrame buf))
      have processed :
          h3.processServerUni stream =
            (h3.controlled stream (residue popFrame buf) goaway,
              List.replicate (goawayCount (items popFrame buf)) .goaway) :=
        processServerUni_control control
      have later :=
        inductionHypothesis
          (h3.controlled_stream stream
            (residue popFrame buf ++ chunk) goaway)
      have split :
          goawayCount (items popFrame (buf ++ (chunk ++ rest.flatten))) =
            goawayCount (items popFrame buf) +
              goawayCount
                (items popFrame
                  (residue popFrame buf ++ (chunk ++ rest.flatten))) := by
        rw [(items_append popFrame_delimited buf _).1, goawayCount_append]
      rw [processed, H3.feedEach_cons, H3.controlled_feed]
      simp only [outcome, controlOutcome, Outcome.mk.injEq,
        List.append_assoc] at later ⊢
      obtain ⟨events, flag, classification⟩ := later
      rw [List.flatten_cons, split, events, flag]
      refine ⟨?_, ?_, classification⟩
      · rw [List.replicate_append_replicate]
      · simp [H3.controlled, goaway, Bool.or_assoc]

/-- A sunk stream stays sunk. -/
theorem outcome_sink
    {h3 : H3}
    {stream : StreamId}
    (sunk : h3.streams stream = some .sink)
    (chunks : List Bytes) :
    outcome stream (h3.feedEach stream chunks) = sinkOutcome h3.goaway := by
  induction chunks generalizing h3 with
  | nil =>
      simp [outcome, sinkOutcome, sunk, classify]
  | cons chunk rest inductionHypothesis =>
      have fed : h3.feed stream chunk = (h3.insert stream .sink, []) := by
        simp [H3.feed, sunk]
      rw [H3.feedEach_cons, fed, List.nil_append]
      exact inductionHypothesis (h3.insert_same stream .sink)

/-- The outcome of a stream with the given type and the bytes behind it. -/
def typedOutcome (goaway : Bool) (type : Nat) (rest : Bytes) : Outcome :=
  if type = streamTypeControl then
    controlOutcome goaway rest
  else
    sinkOutcome goaway

/-- Once its type is read, a stream depends on the bytes behind it only. -/
theorem outcome_typed
    {h3 : H3}
    {stream : StreamId}
    {chunk buf : Bytes}
    {type : Nat}
    (fed :
      h3.feed stream chunk =
        if type = streamTypeControl then
          (h3.insert stream
            (.serverUni (some type) { buf := buf })).processServerUni stream
        else
          (h3.insert stream .sink, []))
    (later : List Bytes) :
    outcome stream (h3.feedEach stream (chunk :: later)) =
      typedOutcome h3.goaway type (buf ++ later.flatten) := by
  rw [H3.feedEach_cons, typedOutcome]
  by_cases control : type = streamTypeControl
  · rw [if_pos control] at fed ⊢
    subst control
    rw [fed]
    exact outcome_control (h3.insert_same stream _) later
  · rw [if_neg control] at fed ⊢
    rw [fed, List.nil_append]
    exact outcome_sink (h3.insert_same stream .sink) later

/-! ## Reading the type -/

/-- A stream whose type has not been read yet, with its buffered bytes. -/
def Untyped (h3 : H3) (stream : StreamId) (buf : Bytes) : Prop :=
  (h3.streams stream).getD (.serverUni none {}) = .serverUni none ⟨buf⟩

section UntypedFeeds

variable {h3 : H3} {stream : StreamId} {buf chunk : Bytes}

/-- A chunk that decodes by itself is taken for the type. -/
theorem Untyped.feed_decoding
    (untyped : Untyped h3 stream buf)
    {type length : Nat}
    (decoded : varintDecode chunk = some (type, length)) :
    h3.feed stream chunk =
      if type = streamTypeControl then
        (h3.insert stream
          (.serverUni (some type)
            { buf := buf ++ chunk.drop length })).processServerUni stream
      else
        (h3.insert stream .sink, []) := by
  rw [Untyped] at untyped
  simp [H3.feed, untyped, decoded, FrameParser.feed]

/-- Any other chunk completes the buffered type varint. -/
theorem Untyped.feed_completing
    (untyped : Untyped h3 stream buf)
    (nonempty : chunk ≠ [])
    (notDecoded : varintDecode chunk = none)
    {type length : Nat}
    (completed : varintDecode (buf ++ chunk) = some (type, length)) :
    h3.feed stream chunk =
      if type = streamTypeControl then
        (h3.insert stream
          (.serverUni (some type)
            { buf := (buf ++ chunk).drop length })).processServerUni stream
      else
        (h3.insert stream .sink, []) := by
  rw [Untyped] at untyped
  simp [H3.feed, untyped, notDecoded, nonempty, FrameParser.feed, completed]

/-- Or it is buffered. -/
theorem Untyped.feed_waiting
    (untyped : Untyped h3 stream buf)
    (nonempty : chunk ≠ [])
    (notDecoded : varintDecode chunk = none)
    (incomplete : varintDecode (buf ++ chunk) = none) :
    h3.feed stream chunk =
      (h3.insert stream (.serverUni none ⟨buf ++ chunk⟩), []) := by
  rw [Untyped] at untyped
  simp [H3.feed, untyped, notDecoded, nonempty, FrameParser.feed, incomplete]

/-- A stream just opened has no type and holds what was stored with it. -/
theorem untyped_insert (h3 : H3) (stream : StreamId) (buf : Bytes) :
    Untyped (h3.insert stream (.serverUni none ⟨buf⟩)) stream buf := by
  simp [Untyped]

end UntypedFeeds

/-- Bytes before an incomplete varint end are incomplete too. -/
theorem varintDecode_none_of_append
    {front more : Bytes}
    (incomplete : varintDecode (front ++ more) = none) :
    varintDecode front = none := by
  cases decoded : varintDecode front with
  | none =>
      rfl
  | some found =>
      rw [varintDecode_append more decoded] at incomplete
      cases incomplete

/-- Chunks that decode neither alone nor together are buffered. -/
theorem Untyped.feedEach_waiting
    {h3 : H3}
    {stream : StreamId}
    {buf : Bytes}
    (untyped : Untyped h3 stream buf)
    {chunks : List Bytes}
    (nonempty : ∀ chunk ∈ chunks, chunk ≠ [])
    (notDecoded : ∀ chunk ∈ chunks, varintDecode chunk = none)
    (incomplete : varintDecode (buf ++ chunks.flatten) = none) :
    Untyped (h3.feedEach stream chunks).1 stream (buf ++ chunks.flatten) ∧
      (h3.feedEach stream chunks).2 = [] ∧
      (h3.feedEach stream chunks).1.goaway = h3.goaway := by
  induction chunks generalizing h3 buf with
  | nil =>
      simpa using untyped
  | cons chunk rest inductionHypothesis =>
      rw [List.flatten_cons, ← List.append_assoc] at incomplete ⊢
      have fed :=
        untyped.feed_waiting
          (nonempty chunk List.mem_cons_self)
          (notDecoded chunk List.mem_cons_self)
          (varintDecode_none_of_append incomplete)
      have later :=
        inductionHypothesis
          (untyped_insert h3 stream (buf ++ chunk))
          (fun other member => nonempty other (List.mem_cons_of_mem _ member))
          (fun other member =>
            notDecoded other (List.mem_cons_of_mem _ member))
          incomplete
      rw [H3.feedEach_cons, fed]
      exact later

/-- The outcome of feeding all bytes at once. -/
def wholeOutcome (goaway : Bool) (bytes : Bytes) : Outcome :=
  match varintDecode bytes with
  | none =>
      untypedOutcome goaway
  | some (type, length) =>
      typedOutcome goaway type (bytes.drop length)

/-- A decoded type settles the outcome for whatever follows. -/
theorem wholeOutcome_of_decode
    {bytes : Bytes}
    {type length : Nat}
    (goaway : Bool)
    (decoded : varintDecode bytes = some (type, length))
    (more : Bytes) :
    wholeOutcome goaway (bytes ++ more) =
      typedOutcome goaway type (bytes.drop length ++ more) := by
  have bounds := varintDecode_length decoded
  rw [wholeOutcome, varintDecode_append more decoded]
  simp only
  rw [List.drop_append_of_le_length bounds.2]

/-- While the type is incomplete, nothing has come of the stream. -/
theorem Untyped.outcome_eq
    {h3 : H3}
    {stream : StreamId}
    {buf : Bytes}
    (untyped : Untyped h3 stream buf) :
    outcome stream (h3, []) = untypedOutcome h3.goaway := by
  rw [Untyped] at untyped
  cases stored : h3.streams stream with
  | none =>
      simp [outcome, untypedOutcome, stored, classify]
  | some state =>
      rw [stored, Option.getD_some] at untyped
      simp [outcome, untypedOutcome, stored, untyped, classify]

/-- One call with all bytes. -/
theorem outcome_feed
    {h3 : H3}
    {stream : StreamId}
    (unregistered : h3.streams stream = none)
    (bytes : Bytes) :
    outcome stream (h3.feed stream bytes) =
      wholeOutcome h3.goaway bytes := by
  have untyped : Untyped h3 stream [] := by
    simp [Untyped, unregistered]
  cases decoded : varintDecode bytes with
  | some found =>
      obtain ⟨type, length⟩ := found
      have typed := outcome_typed (untyped.feed_decoding decoded) []
      have whole := wholeOutcome_of_decode h3.goaway decoded []
      rw [List.append_nil] at whole
      rw [whole]
      simpa [H3.feedEach_cons] using typed
  | none =>
      rw [wholeOutcome, decoded]
      by_cases empty : bytes = []
      · have fed :
            h3.feed stream bytes =
              (h3.insert stream (.serverUni none {}), []) := by
          simp [H3.feed, unregistered, empty, varintDecode]
        rw [fed]
        exact (untyped_insert h3 stream []).outcome_eq
      · rw [untyped.feed_waiting empty decoded (by simpa using decoded)]
        exact (untyped_insert h3 stream _).outcome_eq

/--
If no chunk behind the first one is taken for the type while the type varint
is incomplete, chunking does not matter.
-/
theorem outcome_feedEach_of_read
    {h3 : H3}
    {stream : StreamId}
    {buf : Bytes}
    (untyped : Untyped h3 stream buf)
    (incomplete : varintDecode buf = none)
    {chunks : List Bytes}
    (nonempty : ∀ chunk ∈ chunks, chunk ≠ [])
    (notMisread :
      ∀ before chunk after,
        chunks = before ++ chunk :: after →
        (∀ earlier ∈ before, varintDecode earlier = none) →
        varintDecode (buf ++ before.flatten) = none →
        varintDecode chunk = none) :
    outcome stream (h3.feedEach stream chunks) =
      wholeOutcome h3.goaway (buf ++ chunks.flatten) := by
  induction chunks generalizing h3 buf with
  | nil =>
      rw [List.flatten_nil, List.append_nil, wholeOutcome, incomplete]
      exact untyped.outcome_eq
  | cons chunk rest inductionHypothesis =>
      have chunkNonempty := nonempty chunk List.mem_cons_self
      have notDecoded : varintDecode chunk = none :=
        notMisread [] chunk rest rfl (by simp) (by simpa using incomplete)
      rw [List.flatten_cons, ← List.append_assoc]
      cases joined : varintDecode (buf ++ chunk) with
      | some found =>
          obtain ⟨type, length⟩ := found
          rw [wholeOutcome_of_decode h3.goaway joined]
          exact outcome_typed
            (untyped.feed_completing chunkNonempty notDecoded joined) rest
      | none =>
          rw [H3.feedEach_cons,
            untyped.feed_waiting chunkNonempty notDecoded joined,
            List.nil_append]
          refine inductionHypothesis
            (untyped_insert h3 stream (buf ++ chunk)) joined
            (fun other member =>
              nonempty other (List.mem_cons_of_mem _ member)) ?_
          intro before misread after shape beforeNone frontNone
          refine notMisread (chunk :: before) misread after (by rw [shape]; rfl)
            ?_ (by simpa using frontNone)
          intro earlier member
          rcases List.mem_cons.mp member with rfl | member
          · exact notDecoded
          · exact beforeNone earlier member

/-! ## Control types cut by a chunk border -/

/-- A big-endian number is zero only if all its digits are. -/
theorem foldl_pushByte_eq_zero
    {start : Nat}
    {bytes : Bytes}
    (zero : bytes.foldl pushByte start = 0) :
    start = 0 ∧ bytes = List.replicate bytes.length 0 := by
  induction bytes generalizing start with
  | nil =>
      exact ⟨zero, rfl⟩
  | cons byte rest inductionHypothesis =>
      obtain ⟨pushedZero, restZero⟩ := inductionHypothesis zero
      rw [pushByte_eq] at pushedZero
      have byteZero : byte = 0 := UInt8.toNat_inj.mp (by simpa using by omega)
      refine ⟨by omega, ?_⟩
      rw [byteZero, List.length_cons, List.replicate_succ, ← restZero]

/-- Zero bytes read as zero. -/
theorem foldl_pushByte_zeros (count : Nat) :
    (List.replicate count (0 : UInt8)).foldl pushByte 0 = 0 := by
  induction count with
  | zero =>
      rfl
  | succ count inductionHypothesis =>
      simpa [List.replicate_succ, pushByte] using inductionHypothesis

/-- The control type is a length tag followed by zeros. -/
theorem varintDecode_zero
    {first : UInt8}
    {tail : Bytes}
    {length : Nat}
    (decoded : varintDecode (first :: tail) = some (0, length)) :
    first.toNat &&& 0x3F = 0 ∧
      tail =
        List.replicate (length - 1) 0 ++ (first :: tail).drop length := by
  have bounds := varintDecode_length decoded
  have lengthShape := varintDecode_cons_length decoded
  simp only [varintDecode, ← lengthShape] at decoded
  rw [if_neg (by omega)] at decoded
  simp only [Option.some.injEq, Prod.mk.injEq, and_true] at decoded
  obtain ⟨topZero, digitsZero⟩ := foldl_pushByte_eq_zero decoded
  obtain ⟨width, rfl⟩ : ∃ width, length = width + 1 :=
    ⟨length - 1, by omega⟩
  simp only [List.length_cons] at bounds
  simp only [List.take_succ_cons, List.drop_succ_cons, List.drop_zero,
    List.length_take, Nat.add_sub_cancel] at digitsZero ⊢
  rw [Nat.min_eq_left (by omega)] at digitsZero
  exact ⟨topZero, by rw [← digitsZero, List.take_append_drop]⟩

/-- Padding zeros in front of a byte keep its value as a varint. -/
theorem varintDecode_padded
    {first : UInt8}
    {count : Nat}
    (topZero : first.toNat &&& 0x3F = 0)
    (announced : varintLen first = count + 2)
    (byte : UInt8)
    (rest : Bytes) :
    varintDecode (first :: (List.replicate count 0 ++ byte :: rest)) =
      some (byte.toNat, count + 2) := by
  have regroup :
      first :: (List.replicate count 0 ++ byte :: rest) =
        (first :: (List.replicate count 0 ++ [byte])) ++ rest := by
    simp
  rw [regroup]
  refine varintDecode_append rest ?_
  simp only [varintDecode, announced]
  rw [if_neg (by simp), List.take_of_length_le (by simp)]
  simp [List.foldl_append, foldl_pushByte_zeros, topZero, pushByte]

/-- A popped frame depends on its type and the bytes behind the type only. -/
theorem popFrame_eq_of_type
    {first second rest : Bytes}
    {type : Nat}
    (firstDecoded :
      varintDecode (first ++ rest) = some (type, first.length))
    (secondDecoded :
      varintDecode (second ++ rest) = some (type, second.length)) :
    popFrame (first ++ rest) = popFrame (second ++ rest) := by
  simp only [popFrame, firstDecoded, secondDecoded, List.drop_left]
  cases varintDecode rest with
  | none =>
      rfl
  | some found =>
      obtain ⟨length, n2⟩ := found
      have sameCover :
          ((first ++ rest).length < first.length + n2 + length) =
            ((second ++ rest).length < second.length + n2 + length) := by
        simp only [List.length_append, eq_iff_iff]
        omega
      simp only [sameCover, ← List.drop_drop, List.drop_left]

/-- A cut control type leaves bytes that turn into part of a frame type. -/
theorem items_padded
    {first : UInt8}
    {count : Nat}
    (topZero : first.toNat &&& 0x3F = 0)
    (announced : varintLen first = count + 2)
    (rest : Bytes) :
    items popFrame (first :: (List.replicate count 0 ++ rest)) =
      items popFrame (0x40 :: rest) := by
  have samePop :
      (∃ frame left,
        popFrame (first :: (List.replicate count 0 ++ rest)) =
            some (frame, left) ∧
          popFrame (0x40 :: rest) = some (frame, left)) ∨
      (popFrame (first :: (List.replicate count 0 ++ rest)) = none ∧
        popFrame (0x40 :: rest) = none) := by
    cases rest with
    | nil =>
        right
        have incomplete :
            varintDecode (first :: (List.replicate count 0 ++ [])) = none := by
          rw [varintDecode_eq_none_iff, announced]
          simp
        exact ⟨by rw [popFrame, incomplete], rfl⟩
    | cons byte rest =>
        have padded := varintDecode_padded topZero announced byte rest
        have tagged : varintDecode (0x40 :: byte :: rest) =
            some (byte.toNat, 2) :=
          @varintDecode_padded 0x40 0 (by decide) (by decide) byte rest
        have same :
            popFrame (first :: (List.replicate count 0 ++ byte :: rest)) =
              popFrame (0x40 :: byte :: rest) := by
          have shape :
              first :: (List.replicate count 0 ++ byte :: rest) =
                (first :: (List.replicate count 0 ++ [byte])) ++ rest := by
            simp
          rw [shape] at padded ⊢
          exact @popFrame_eq_of_type _ [0x40, byte] rest _
            (by simpa using padded) tagged
        rw [same]
        cases popFrame (0x40 :: byte :: rest) with
        | none =>
            right
            exact ⟨rfl, rfl⟩
        | some popped =>
            left
            exact ⟨popped.1, popped.2, rfl, rfl⟩
  rcases samePop with ⟨frame, left, paddedPop, taggedPop⟩ | ⟨padded, tagged⟩
  · rw [(items_cons popFrame_delimited paddedPop).1,
      (items_cons popFrame_delimited taggedPop).1]
  · rw [(items_of_none padded).1, (items_of_none tagged).1]

/-- What is left of a control type whose cut is misread. -/
theorem misread_control
    {front chunk after : Bytes}
    {length : Nat}
    (nonempty : front ≠ [])
    (incomplete : varintDecode front = none)
    (chunkNonempty : chunk ≠ [])
    (decoded :
      varintDecode (front ++ chunk ++ after) = some (0, length)) :
    varintDecode chunk = some (0, 1) ∧
      items popFrame (front ++ chunk.drop 1 ++ after) =
        items popFrame
          (0x40 :: (front ++ chunk ++ after).drop length) := by
  obtain ⟨first, more, rfl⟩ := List.exists_cons_of_ne_nil nonempty
  obtain ⟨byte, chunkRest, rfl⟩ := List.exists_cons_of_ne_nil chunkNonempty
  have announced :=
    varintDecode_cons_length
      (show varintDecode (first :: (more ++ byte :: chunkRest ++ after)) =
        some (0, length) by simpa using decoded)
  obtain ⟨topZero, tailShape⟩ :=
    varintDecode_zero
      (show varintDecode (first :: (more ++ byte :: chunkRest ++ after)) =
        some (0, length) by simpa using decoded)
  rw [varintDecode_eq_none_iff, ← announced, List.length_cons] at incomplete
  obtain ⟨count, rfl⟩ : ∃ count, length = more.length + 2 + count :=
    ⟨length - more.length - 2, by omega⟩
  -- split the zeros of the type at the chunk border
  have zeros :
      List.replicate (more.length + 2 + count - 1) (0 : UInt8) =
        List.replicate more.length 0 ++ (0 :: List.replicate count 0) := by
    rw [show more.length + 2 + count - 1 = more.length + (count + 1) by omega,
      ← List.replicate_append_replicate, List.replicate_succ]
  rw [zeros, List.append_assoc, List.append_assoc] at tailShape
  obtain ⟨moreShape, laterShape⟩ :=
    List.append_inj tailShape (by simp)
  simp only [List.cons_append, List.cons.injEq] at laterShape
  obtain ⟨rfl, laterShape⟩ := laterShape
  refine ⟨rfl, ?_⟩
  have remaining :
      more ++ (chunkRest ++ after) =
        List.replicate (more.length + count) 0 ++
          (first :: (more ++ 0 :: (chunkRest ++ after))).drop
            (more.length + 2 + count) := by
    rw [← List.replicate_append_replicate, List.append_assoc, ← laterShape,
      ← moreShape]
  simp only [List.drop_succ_cons, List.drop_zero, List.cons_append,
    List.append_assoc] at remaining ⊢
  rw [remaining]
  exact items_padded topZero (by omega) _

/-! ## When chunk borders do not matter -/

/--
A chunk that is taken for the stream type although the type varint began in
the chunks before it and is not complete there.
-/
structure Misread (before : List Bytes) (chunk : Bytes) : Prop where
  begun :
    before ≠ []
  incomplete :
    varintDecode before.flatten = none
  notDecoded :
    ∀ earlier ∈ before, varintDecode earlier = none
  decodes :
    varintDecode chunk ≠ none

/--
The misread chunk leads to the right outcome: both types are other than the
control type, or the bytes behind the control type hold as many GOAWAY frames
when their first byte is read as a frame type of its own.
-/
def Harmless (bytes chunk : Bytes) : Prop :=
  ∃ type length,
    varintDecode bytes = some (type, length) ∧
      if type = streamTypeControl then
        goawayCount (items popFrame (0x40 :: bytes.drop length)) =
          goawayCount (items popFrame (bytes.drop length))
      else
        ∃ misreadType misreadLength,
          varintDecode chunk = some (misreadType, misreadLength) ∧
            misreadType ≠ streamTypeControl

/-- With the type decoded, a chunk is harmless exactly when reading it again
changes nothing. -/
theorem harmless_of_decode
    {bytes chunk : Bytes}
    {type length : Nat}
    (decoded : varintDecode bytes = some (type, length)) :
    Harmless bytes chunk ↔
      if type = streamTypeControl then
        goawayCount (items popFrame (0x40 :: bytes.drop length)) =
          goawayCount (items popFrame (bytes.drop length))
      else
        ∃ misreadType misreadLength,
          varintDecode chunk = some (misreadType, misreadLength) ∧
            misreadType ≠ streamTypeControl := by
  simp [Harmless, decoded]

/-- Two control buffers have one outcome exactly when they hold equally many
GOAWAY frames. -/
theorem controlOutcome_inj
    {goaway : Bool}
    {first second : Bytes} :
    controlOutcome goaway first = controlOutcome goaway second ↔
      goawayCount (items popFrame first) =
        goawayCount (items popFrame second) := by
  refine ⟨?_, ?_⟩
  · intro same
    have lengths := congrArg (fun seen => seen.events.length) same
    simpa [controlOutcome] using lengths
  · intro same
    simp [controlOutcome, same]

/-- A misread chunk gives the right outcome exactly if it is harmless. -/
theorem outcome_misread_iff
    {h3 : H3}
    {stream : StreamId}
    (unregistered : h3.streams stream = none)
    {before after : List Bytes}
    {chunk : Bytes}
    (nonempty : ∀ piece ∈ before ++ chunk :: after, piece ≠ [])
    (misread : Misread before chunk) :
    outcome stream (h3.feedEach stream (before ++ chunk :: after)) =
        wholeOutcome h3.goaway (before ++ chunk :: after).flatten ↔
      Harmless (before ++ chunk :: after).flatten chunk := by
  have untyped : Untyped h3 stream [] := by
    simp [Untyped, unregistered]
  obtain ⟨waiting, silent, sameFlag⟩ :=
    untyped.feedEach_waiting
      (fun piece member => nonempty piece (List.mem_append_left _ member))
      misread.notDecoded (by simpa using misread.incomplete)
  obtain ⟨⟨misreadType, misreadLength⟩, decoded⟩ :=
    Option.ne_none_iff_exists'.mp misread.decodes
  have chunkNonempty : chunk ≠ [] := nonempty chunk (by simp)
  have frontNonempty : before.flatten ≠ [] := by
    obtain ⟨first, rest, rfl⟩ := List.exists_cons_of_ne_nil misread.begun
    have firstNonempty : first ≠ [] := nonempty first (by simp)
    simp [firstNonempty]
  have reached := outcome_typed (waiting.feed_decoding decoded) after
  have joined :
      h3.feedEach stream (before ++ chunk :: after) =
        (h3.feedEach stream before).1.feedEach stream (chunk :: after) := by
    simp only [H3.feedEach] at silent ⊢
    rw [List.map_append, calls_append, silent, List.nil_append]
  have whole :
      (before ++ chunk :: after).flatten =
        before.flatten ++ chunk ++ after.flatten := by
    simp
  rw [joined, reached, sameFlag, whole, List.nil_append]
  cases wholeDecoded :
      varintDecode (before.flatten ++ chunk ++ after.flatten) with
  | none =>
      refine iff_of_false ?_ ?_
      · rw [wholeOutcome, wholeDecoded, typedOutcome]
        split <;> simp [controlOutcome, sinkOutcome, untypedOutcome]
      · rintro ⟨type, length, decodes, -⟩
        rw [wholeDecoded] at decodes
        cases decodes
  | some found =>
      obtain ⟨type, length⟩ := found
      rw [wholeOutcome, wholeDecoded, harmless_of_decode wholeDecoded]
      by_cases control : type = streamTypeControl
      · subst control
        obtain ⟨chunkZero, sameItems⟩ :=
          misread_control frontNonempty misread.incomplete chunkNonempty
            wholeDecoded
        rw [decoded] at chunkZero
        simp only [Option.some.injEq, Prod.mk.injEq] at chunkZero
        obtain ⟨rfl, rfl⟩ := chunkZero
        have zeroControl : 0 = streamTypeControl := rfl
        simp only [typedOutcome, zeroControl, ↓reduceIte]
        rw [controlOutcome_inj, sameItems]
      · simp only [typedOutcome, if_neg control]
        by_cases misreadControl : misreadType = streamTypeControl
        · simp [misreadControl, decoded, controlOutcome, sinkOutcome]
        · simp [misreadControl, decoded]

/-- Without a misread chunk the borders do not matter. -/
theorem outcome_feedEach_of_not_misread
    {h3 : H3}
    {stream : StreamId}
    (unregistered : h3.streams stream = none)
    {chunks : List Bytes}
    (nonempty : ∀ chunk ∈ chunks, chunk ≠ [])
    (notMisread :
      ¬ ∃ before chunk after,
        chunks = before ++ chunk :: after ∧ Misread before chunk) :
    outcome stream (h3.feedEach stream chunks) =
      wholeOutcome h3.goaway chunks.flatten := by
  have untyped : Untyped h3 stream [] := by
    simp [Untyped, unregistered]
  cases chunks with
  | nil =>
      exact untyped.outcome_eq
  | cons first rest =>
      cases decoded : varintDecode first with
      | some found =>
          obtain ⟨type, length⟩ := found
          rw [List.flatten_cons, wholeOutcome_of_decode h3.goaway decoded]
          exact outcome_typed (untyped.feed_decoding decoded) rest
      | none =>
          have firstNonempty := nonempty first List.mem_cons_self
          rw [H3.feedEach_cons,
            untyped.feed_waiting firstNonempty decoded
              (by simpa using decoded),
            List.nil_append, List.nil_append, List.flatten_cons]
          refine outcome_feedEach_of_read (untyped_insert h3 stream first)
            decoded
            (fun piece member =>
              nonempty piece (List.mem_cons_of_mem _ member)) ?_
          intro before chunk after shape beforeNone incomplete
          by_contra decodes
          refine notMisread
            ⟨first :: before, chunk, after, by rw [shape]; rfl, ?_⟩
          refine ⟨by simp, incomplete, ?_, decodes⟩
          intro earlier member
          rcases List.mem_cons.mp member with rfl | member
          · exact decoded
          · exact beforeNone earlier member

/--
Feeding an unregistered stream in chunks has the outcome of feeding it at once
exactly if no chunk is misread as the type, or only a harmless one.
-/
theorem feedEach_outcome_iff
    (h3 : H3)
    (stream : StreamId)
    (unregistered : h3.streams stream = none)
    (chunks : List Bytes)
    (nonempty : ∀ chunk ∈ chunks, chunk ≠ []) :
    outcome stream (h3.feedEach stream chunks) =
        outcome stream (h3.feed stream chunks.flatten) ↔
      ∀ before chunk after,
        chunks = before ++ chunk :: after →
        Misread before chunk →
        Harmless chunks.flatten chunk := by
  rw [outcome_feed unregistered]
  refine ⟨?_, ?_⟩
  · intro same before chunk after shape misread
    subst shape
    exact (outcome_misread_iff unregistered nonempty misread).mp same
  · intro harmless
    by_cases misreads :
        ∃ before chunk after,
          chunks = before ++ chunk :: after ∧ Misread before chunk
    · obtain ⟨before, chunk, after, rfl, misread⟩ := misreads
      exact (outcome_misread_iff unregistered nonempty misread).mpr
        (harmless before chunk after rfl misread)
    · exact outcome_feedEach_of_not_misread unregistered nonempty misreads

/-- A control stream whose GOAWAY payload comes in a second chunk. -/
theorem feedEach_outcome_iff_split_payload :
    outcome 3 (H3.new.feedEach 3 [[0x00, 0x07], [0x01, 0x00]]) =
        outcome 3 (H3.new.feed 3 [0x00, 0x07, 0x01, 0x00]) ↔
      ∀ before chunk after,
        [[0x00, 0x07], [0x01, 0x00]] = before ++ chunk :: after →
        Misread before chunk →
        Harmless [0x00, 0x07, 0x01, 0x00] chunk :=
  feedEach_outcome_iff H3.new 3 rfl [[0x00, 0x07], [0x01, 0x00]] (by decide)

/--
The stream type 256 in two chunks: the second byte alone is the control type,
so the stream becomes a control stream instead of being sunk.
-/
theorem split_type_misclassified :
    ¬ outcome 3 (H3.new.feedEach 3 [[0x41], [0x00]]) =
      outcome 3 (H3.new.feed 3 [0x41, 0x00]) := by
  decide

end DnsServices.Http3
