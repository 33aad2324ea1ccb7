import DnsServices.H3Response
import DnsServices.H3ServerUni
import DnsServices.Runs

namespace DnsServices.Http3

/-!
# Where a GOAWAY comes from

`feed` takes every stream it does not know for a server-initiated
unidirectional stream.  Beside the H3 state a run keeps the bytes that each
stream has received since it was last registered or ended, so that one can say
which stream a GOAWAY came from and what its type varint was.
-/

open ChunkedParser Runs

/-- The H3 state with the bytes of every stream (history only). -/
structure TrackedH3 where
  h3 : H3
  fed : StreamId → Bytes

namespace TrackedH3

/-- A new connection, which was fed nothing. -/
def new : TrackedH3 where
  h3 := H3.new
  fed := fun _ => []

/-- A call, and what was fed to its stream since the stream was last new. -/
def call (tracked : TrackedH3) (call : H3Call) : TrackedH3 where
  h3 := (tracked.h3.call call).1
  fed :=
    match call with
    | .feed stream data =>
        Function.update tracked.fed stream (tracked.fed stream ++ data)
    | .registerRequest stream => Function.update tracked.fed stream []
    | .finish stream => Function.update tracked.fed stream []
    | .reset stream => Function.update tracked.fed stream []

end TrackedH3

/-- The bytes begin with the type varint of a control stream. -/
def ReadsControl (bytes : Bytes) : Prop :=
  ∃ length, varintDecode bytes = some (streamTypeControl, length)

/-- Server-initiated unidirectional streams. -/
def IsServerUni (stream : StreamId) : Prop :=
  stream % 4 = 3

/-- The call reports a GOAWAY or sets the flag. -/
def RaisesGoaway (h3 : H3) (call : H3Call) : Prop :=
  .goaway ∈ (h3.call call).2 ∨
    (h3.goaway = false ∧ (h3.call call).1.goaway = true)

/-- A GOAWAY is only raised by bytes of a server control stream. -/
def GoawayFromControl (tracked : TrackedH3) (call : H3Call) : Prop :=
  RaisesGoaway tracked.h3 call →
    ∃ stream data,
      call = .feed stream data ∧ IsServerUni stream ∧
        ReadsControl (tracked.fed stream ++ data)

/--
Bytes that read as the control type arrive in front of a stream that is
neither registered nor classified only if it is a server stream, and only if
they are not the rest of a type varint that has begun.
-/
def TypedRightly (tracked : TrackedH3) : H3Call → Prop
  | .feed stream data =>
      ∀ buf, Untyped tracked.h3 stream buf →
        (ReadsControl data → IsServerUni stream ∧ buf = []) ∧
          (varintDecode data = none → ReadsControl (buf ++ data) →
            IsServerUni stream)
  | .registerRequest _ => True
  | .finish _ => True
  | .reset _ => True

/-- What the parser reads from the control bytes it keeps reading as more
arrive. -/
theorem ReadsControl.append
    {bytes : Bytes}
    (reads : ReadsControl bytes)
    (more : Bytes) :
    ReadsControl (bytes ++ more) := by
  obtain ⟨length, decoded⟩ := reads
  exact ⟨length, varintDecode_append more decoded⟩

/-! ## One feed -/

/-- Why a fed stream is a control stream: it was one, or its type was just
read, from the chunk alone or behind the bytes that were waiting. -/
def BecomesControl (h3 : H3) (stream : StreamId) (data : Bytes) : Prop :=
  (∃ parser,
    h3.streams stream =
      some (.serverUni (some streamTypeControl) parser)) ∨
    ∃ buf, Untyped h3 stream buf ∧
      (ReadsControl data ∨
        varintDecode data = none ∧ ReadsControl (buf ++ data))

/-- A feed that leaves no control stream is silent; what it leaves in wait is
all the bytes so far. -/
structure FeedsSilently
    (h3 : H3)
    (stream : StreamId)
    (data : Bytes)
    (state : StreamState) : Prop where
  result : h3.feed stream data = (h3.insert stream state, [])
  notTyped : ∀ ty parser, state ≠ .serverUni (some ty) parser
  waiting :
    ∀ parser, state = .serverUni none parser →
      ∃ buf, Untyped h3 stream buf ∧ parser.buf = buf ++ data

/-- All typed server streams are control streams. -/
def OnlyControlTyped (h3 : H3) : Prop :=
  ∀ stream ty parser,
    h3.streams stream = some (.serverUni (some ty) parser) →
      ty = streamTypeControl

/-- What one feed does: nothing that is reported, or another look at the
frames of a control stream. -/
theorem feed_cases
    {h3 : H3}
    (controlTyped : OnlyControlTyped h3)
    (stream : StreamId)
    (data : Bytes) :
    (∃ state, FeedsSilently h3 stream data state) ∨
      (BecomesControl h3 stream data ∧
        ∃ buf,
          h3.feed stream data =
            (h3.insert stream
              (.serverUni (some streamTypeControl)
                { buf := buf })).processServerUni stream) := by
  cases current : (h3.streams stream).getD (.serverUni none {}) with
  | serverUni ty parser =>
      cases ty with
      | none =>
          have untyped : Untyped h3 stream parser.buf := current
          cases decoded : varintDecode data with
          | some found =>
              obtain ⟨type, length⟩ := found
              have fed := untyped.feed_decoding decoded
              by_cases control : type = streamTypeControl
              · rw [if_pos control, control] at fed
                rw [control] at decoded
                exact Or.inr ⟨Or.inr ⟨_, untyped, Or.inl ⟨length, decoded⟩⟩,
                  _, fed⟩
              · rw [if_neg control] at fed
                exact Or.inl ⟨.sink, fed, by simp, by simp⟩
          | none =>
              by_cases empty : data = []
              · have fed :
                    h3.feed stream data =
                      (h3.insert stream (.serverUni none parser), []) := by
                  simp [H3.feed, current, empty, varintDecode]
                refine Or.inl ⟨_, fed, by simp, ?_⟩
                rintro waiting same
                cases same
                exact ⟨parser.buf, untyped, by simp [empty]⟩
              · cases joined : varintDecode (parser.buf ++ data) with
                | some found =>
                    obtain ⟨type, length⟩ := found
                    have fed := untyped.feed_completing empty decoded joined
                    by_cases control : type = streamTypeControl
                    · rw [if_pos control, control] at fed
                      rw [control] at joined
                      exact Or.inr
                        ⟨Or.inr ⟨_, untyped,
                          Or.inr ⟨decoded, length, joined⟩⟩, _, fed⟩
                    · rw [if_neg control] at fed
                      exact Or.inl ⟨.sink, fed, by simp, by simp⟩
                | none =>
                    have fed := untyped.feed_waiting empty decoded joined
                    refine Or.inl ⟨_, fed, by simp, ?_⟩
                    rintro waiting same
                    cases same
                    exact ⟨parser.buf, untyped, rfl⟩
      | some ty =>
          have stored :
              h3.streams stream = some (.serverUni (some ty) parser) := by
            cases known : h3.streams stream with
            | none =>
                rw [known] at current
                cases current
            | some state =>
                rw [known] at current
                exact congrArg some current
          have control := controlTyped stream ty parser stored
          rw [control] at stored
          refine Or.inr ⟨Or.inl ⟨parser, stored⟩, parser.buf ++ data, ?_⟩
          simp [H3.feed, stored, FrameParser.feed]
  | sink =>
      refine Or.inl ⟨.sink, ?_, by simp, by simp⟩
      simp [H3.feed, current]
  | response state =>
      refine Or.inl ⟨.response (state.feed data), ?_, by simp, by simp⟩
      simp [H3.feed, current]

/-! ## Whole runs -/

/-- Waiting bytes are the bytes of the stream, and control streams are server
streams with the control type in front. -/
structure ControlOnly (tracked : TrackedH3) : Prop where
  waiting :
    ∀ stream buf, Untyped tracked.h3 stream buf → tracked.fed stream = buf
  control :
    ∀ stream ty parser,
      tracked.h3.streams stream = some (.serverUni (some ty) parser) →
        ty = streamTypeControl ∧ IsServerUni stream ∧
          ReadsControl (tracked.fed stream)

namespace ControlOnly

theorem new : ControlOnly TrackedH3.new where
  waiting := by
    intro stream buf untyped
    have same : FrameParser.mk [] = FrameParser.mk buf := by
      simpa [Untyped, TrackedH3.new, H3.new] using untyped
    exact FrameParser.mk.inj same
  control := by
    intro stream ty parser stored
    cases stored

/-- Under the invariant only the control stream is typed as control. -/
theorem onlyControlTyped
    {tracked : TrackedH3}
    (inv : ControlOnly tracked) :
    OnlyControlTyped tracked.h3 :=
  fun stream ty parser stored => (inv.control stream ty parser stored).1

/-- Streams that a call leaves alone keep what is known of them; only the
stream it names is to be looked at. -/
theorem of_touched
    {tracked reached : TrackedH3}
    {touched : StreamId}
    (inv : ControlOnly tracked)
    (streams :
      ∀ other, other ≠ touched →
        reached.h3.streams other = tracked.h3.streams other)
    (fed :
      ∀ other, other ≠ touched → reached.fed other = tracked.fed other)
    (waiting :
      ∀ buf, Untyped reached.h3 touched buf → reached.fed touched = buf)
    (control :
      ∀ ty parser,
        reached.h3.streams touched = some (.serverUni (some ty) parser) →
          ty = streamTypeControl ∧ IsServerUni touched ∧
            ReadsControl (reached.fed touched)) :
    ControlOnly reached := by
  refine ⟨?_, ?_⟩
  · intro stream buf untyped
    by_cases same : stream = touched
    · subst same
      exact waiting buf untyped
    · rw [Untyped, streams stream same] at untyped
      rw [fed stream same]
      exact inv.waiting stream buf untyped
  · intro stream ty parser stored
    by_cases same : stream = touched
    · subst same
      exact control ty parser stored
    · rw [streams stream same] at stored
      rw [fed stream same]
      exact inv.control stream ty parser stored

/-- A stream that has ended is as if it had never been. -/
theorem erase
    {tracked : TrackedH3}
    (inv : ControlOnly tracked)
    (stream : StreamId) :
    ControlOnly
      { h3 := tracked.h3.erase stream
        fed := Function.update tracked.fed stream [] } := by
  refine inv.of_touched (fun other different =>
      tracked.h3.erase_other different)
    (fun other different => Function.update_of_ne different _ _) ?_ ?_
  · intro buf untyped
    have same : FrameParser.mk [] = FrameParser.mk buf := by
      simpa [Untyped] using untyped
    exact (Function.update_self stream [] tracked.fed).trans
      (FrameParser.mk.inj same)
  · intro ty parser stored
    simp at stored

/-- Registering a request keeps the invariant. -/
theorem registerRequest
    {tracked : TrackedH3}
    (inv : ControlOnly tracked)
    (stream : StreamId) :
    ControlOnly (tracked.call (.registerRequest stream)) := by
  refine inv.of_touched (fun other different =>
      tracked.h3.insert_other different _)
    (fun other different => Function.update_of_ne different _ _) ?_ ?_
  · intro buf untyped
    simp [Untyped, TrackedH3.call, H3.call, H3.registerRequest] at untyped
  · intro ty parser stored
    simp [TrackedH3.call, H3.call, H3.registerRequest] at stored

/-- A silent feed. -/
theorem feedsSilently
    {tracked : TrackedH3}
    {stream : StreamId}
    {data : Bytes}
    {state : StreamState}
    (inv : ControlOnly tracked)
    (silent : FeedsSilently tracked.h3 stream data state) :
    ControlOnly (tracked.call (.feed stream data)) := by
  have reached :
      (tracked.call (.feed stream data)).h3 =
        tracked.h3.insert stream state :=
    congrArg Prod.fst silent.result
  have fedHere :
      (tracked.call (.feed stream data)).fed stream =
        tracked.fed stream ++ data :=
    Function.update_self stream _ tracked.fed
  refine inv.of_touched ?_
    (fun other different => Function.update_of_ne different _ _) ?_ ?_
  · intro other different
    rw [reached]
    exact tracked.h3.insert_other different state
  · intro buf untyped
    have shape : state = .serverUni none ⟨buf⟩ := by
      simpa [Untyped, reached] using untyped
    obtain ⟨earlier, untypedBefore, joined⟩ := silent.waiting _ shape
    rw [fedHere, inv.waiting stream earlier untypedBefore]
    exact joined.symm
  · intro ty parser stored
    rw [reached, H3.insert_same, Option.some.injEq] at stored
    exact absurd stored (silent.notTyped ty parser)

/-- The type of a stream that becomes a control stream stands in front of its
bytes. -/
theorem of_becomesControl
    {tracked : TrackedH3}
    {stream : StreamId}
    {data : Bytes}
    (inv : ControlOnly tracked)
    (rightly : TypedRightly tracked (.feed stream data))
    (becomes : BecomesControl tracked.h3 stream data) :
    IsServerUni stream ∧ ReadsControl (tracked.fed stream ++ data) := by
  rcases becomes with ⟨parser, stored⟩ | ⟨buf, untyped, alone | behind⟩
  · obtain ⟨_, uni, reads⟩ := inv.control stream _ parser stored
    exact ⟨uni, reads.append data⟩
  · obtain ⟨uni, rfl⟩ := (rightly buf untyped).1 alone
    rw [inv.waiting stream [] untyped]
    exact ⟨uni, alone⟩
  · rw [inv.waiting stream buf untyped]
    exact ⟨(rightly buf untyped).2 behind.1 behind.2, behind.2⟩

/-- A feed of a control stream. -/
theorem feedsControl
    {tracked : TrackedH3}
    {stream : StreamId}
    {data buf : Bytes}
    (inv : ControlOnly tracked)
    (uni : IsServerUni stream)
    (reads : ReadsControl (tracked.fed stream ++ data))
    (fed :
      tracked.h3.feed stream data =
        (tracked.h3.insert stream
          (.serverUni (some streamTypeControl)
            { buf := buf })).processServerUni stream) :
    ControlOnly (tracked.call (.feed stream data)) := by
  have processed :=
    processServerUni_control
      (tracked.h3.insert_same stream
        (.serverUni (some streamTypeControl) { buf := buf }))
  have storedAfter :
      (tracked.call (.feed stream data)).h3.streams stream =
        some (.serverUni (some streamTypeControl)
          { buf := residue popFrame buf }) := by
    rw [TrackedH3.call, H3.call, fed, processed]
    exact H3.insert_same _ stream _
  refine inv.of_touched
    (fun other different =>
      (feed_quiet tracked.h3 stream data).others other different)
    (fun other different => Function.update_of_ne different _ _) ?_ ?_
  · intro later untyped
    rw [Untyped, storedAfter] at untyped
    cases untyped
  · intro ty parser stored
    rw [storedAfter] at stored
    cases stored
    refine ⟨rfl, uni, ?_⟩
    rw [show (tracked.call (.feed stream data)).fed stream =
        tracked.fed stream ++ data from
      Function.update_self stream _ tracked.fed]
    exact reads

/-- One call keeps the invariant. -/
theorem call
    (tracked : TrackedH3)
    (call : H3Call)
    (rightly : TypedRightly tracked call)
    (inv : ControlOnly tracked) :
    ControlOnly (tracked.call call) := by
  cases call with
  | registerRequest stream =>
      exact inv.registerRequest stream
  | feed stream data =>
      rcases feed_cases inv.onlyControlTyped stream data with
        ⟨state, silent⟩ | ⟨becomes, buf, fed⟩
      · exact inv.feedsSilently silent
      · obtain ⟨uni, reads⟩ := inv.of_becomesControl rightly becomes
        exact inv.feedsControl uni reads fed
  | finish stream =>
      have ended := inv.erase stream
      rw [← finish_fst] at ended
      exact ended
  | reset stream =>
      have ended := inv.erase stream
      rw [← reset_fst] at ended
      exact ended

end ControlOnly

/-- The ends of a stream raise no GOAWAY. -/
theorem not_raisesGoaway_of_end
    {h3 : H3}
    {call : H3Call}
    {stream : StreamId}
    (ends : call = .finish stream ∨ call = .reset stream) :
    ¬ RaisesGoaway h3 call := by
  rintro (reported | ⟨unset, set⟩)
  · rcases ends with rfl | rfl
    · simp only [H3.call, H3.finish] at reported
      split at reported
      · split at reported
        · simp at reported
        · split at reported
          · simp at reported
          · simp at reported
      · cases reported
    · cases eq_failed_of_mem_reset reported
  · rcases ends with rfl | rfl
    · rw [H3.call, finish_fst] at set
      exact Bool.eq_false_iff.mp unset set
    · rw [H3.call, reset_fst] at set
      exact Bool.eq_false_iff.mp unset set

/-- One call raises a GOAWAY from a control stream only. -/
theorem goawayFromControl_call
    (tracked : TrackedH3)
    (call : H3Call)
    (rightly : TypedRightly tracked call)
    (inv : ControlOnly tracked) :
    GoawayFromControl tracked call := by
  intro raises
  cases call with
  | registerRequest stream =>
      rcases raises with reported | ⟨unset, set⟩
      · cases reported
      · exact absurd set (Bool.eq_false_iff.mp unset)
  | feed stream data =>
      rcases feed_cases inv.onlyControlTyped stream data with
        ⟨state, silent⟩ | ⟨becomes, _⟩
      · rcases raises with reported | ⟨unset, set⟩
        · rw [H3.call, silent.result] at reported
          cases reported
        · rw [H3.call, silent.result] at set
          exact absurd set (Bool.eq_false_iff.mp unset)
      · exact ⟨stream, data, rfl, inv.of_becomesControl rightly becomes⟩
  | finish stream =>
      exact absurd raises (not_raisesGoaway_of_end (Or.inl rfl))
  | reset stream =>
      exact absurd raises (not_raisesGoaway_of_end (Or.inr rfl))

/--
In any sequence of calls, a GOAWAY only comes from bytes of a server control
stream, as long as control types arrive in front of no other stream and not
behind the cut of a type varint.
-/
theorem goawayFromControl_run
    (calls : List H3Call)
    (rightly :
      AllSteps TrackedH3.call TypedRightly TrackedH3.new calls) :
    AllSteps TrackedH3.call GoawayFromControl TrackedH3.new calls :=
  rightly.under ControlOnly.call goawayFromControl_call ControlOnly.new

/-- A request stream, and a control stream whose GOAWAY frame is cut. -/
def controlCalls : List H3Call :=
  [.registerRequest 0, .feed 3 [0x00], .feed 3 [0x07, 0x01, 0x00]]

/-- The cut GOAWAY frame of the control stream is a GOAWAY all the same. -/
theorem goawayFromControl_controlCalls :
    AllSteps TrackedH3.call TypedRightly TrackedH3.new controlCalls ∧
      AllSteps TrackedH3.call GoawayFromControl TrackedH3.new
        controlCalls := by
  have rightly :
      AllSteps TrackedH3.call TypedRightly TrackedH3.new controlCalls := by
    refine ⟨trivial, ?_, ?_, trivial⟩
    · intro buf untyped
      have waiting : FrameParser.mk [] = FrameParser.mk buf := by
        simpa [Untyped, TrackedH3.new, TrackedH3.call, H3.call,
          H3.registerRequest, H3.insert, H3.new] using untyped
      exact ⟨fun _ => ⟨rfl, (FrameParser.mk.inj waiting).symm⟩,
        fun _ _ => rfl⟩
    · intro buf untyped
      have typed :
          (((TrackedH3.new.call (.registerRequest 0)).call
            (.feed 3 [0x00])).h3.streams 3).getD (.serverUni none {}) =
              .serverUni (some streamTypeControl) {} := by
        decide
      rw [Untyped, typed] at untyped
      cases untyped
  exact ⟨rightly, goawayFromControl_run controlCalls rightly⟩

/-- The bytes of a control stream on the client's stream 0, which was opened
and never registered. -/
theorem not_goawayFromControl_unregistered_request :
    ¬ AllSteps TrackedH3.call GoawayFromControl TrackedH3.new
        [.feed 0 [0x00, 0x07, 0x01, 0x00]] := by
  rintro ⟨first, _⟩
  obtain ⟨stream, data, same, uni, _⟩ := first (Or.inl (by decide))
  cases same
  simp [IsServerUni] at uni

end DnsServices.Http3
