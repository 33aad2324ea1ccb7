import DnsServices.WorkerCustody

namespace DnsServices.Microdoh3

/-!
# When no query is lost

`housekeeping` closes a connection without failing its requests, so `pending`
may hold stale entries whose stream ids a later connection hands out again;
registering a request under such an id replaces the entry.  At shutdown the
queue is not answered.  In runs without these two cases every accepted query
is answered or held.
-/

open Http3 Shared

/-! ## Entries of earlier connections -/

namespace Worker

/-- `pending` still holds the id for a request of an earlier connection. -/
def Stale (w : Worker) (stream : StreamId) : Prop :=
  stream ∈ w.pending ∧ w.conn.any fun conn => stream ∉ conn.opened

instance (w : Worker) (stream : StreamId) : Decidable (w.Stale stream) :=
  inferInstanceAs (Decidable (_ ∧ _))

/-- A state within an action that began in `first`, as far as ids matter. -/
structure FreshSince (first current : Worker) : Prop where
  keys :
    ∀ stream ∈ current.pending,
      stream ∈ first.pending ∨
        ∃ conn, current.conn = some conn ∧ stream ∈ conn.opened
  opened :
    ∀ conn, current.conn = some conn →
      ∃ earlier, first.conn = some earlier ∧ earlier.opened ⊆ conn.opened
  overwritten :
    current.overwritten = first.overwritten

namespace FreshSince

variable {first current after : Worker}

theorem refl (first : Worker) : FreshSince first first where
  keys := fun _ member => .inl member
  opened := fun conn connected => ⟨conn, connected, List.Subset.refl _⟩
  overwritten := rfl

/-- Entries may leave `pending`. -/
theorem shrink
    (fresh : FreshSince first current)
    (pending : ∀ stream ∈ after.pending, stream ∈ current.pending)
    (conn : after.conn = current.conn)
    (overwritten : after.overwritten = current.overwritten) :
    FreshSince first after where
  keys := by
    intro stream member
    rw [conn]
    exact fresh.keys stream (pending stream member)
  opened := by
    rw [conn]
    exact fresh.opened
  overwritten := overwritten.trans fresh.overwritten

/-- An observation that is not the loss of an entry. -/
theorem observe
    (fresh : FreshSince first current)
    {observation : Observation}
    (notOverwritten : observation.overwritten? = none) :
    FreshSince first (current.observe observation) := by
  refine ⟨fresh.keys, fresh.opened, ?_⟩
  rw [overwritten_observe, notOverwritten, fresh.overwritten]
  simp

/-- A stream that the connection has not opened is not in `pending`. -/
theorem notMem
    (fresh : FreshSince first current)
    {conn : Connection}
    {stream : StreamId}
    (connected : current.conn = some conn)
    (notOpened : stream ∉ conn.opened)
    (notStale : ¬ first.Stale stream) :
    stream ∉ current.pending := by
  intro member
  obtain ⟨earlier, firstConn, subset⟩ := fresh.opened conn connected
  rcases fresh.keys stream member with old | ⟨same, isSame, opened⟩
  · have neverOpened : stream ∉ earlier.opened :=
      fun opened => notOpened (subset opened)
    exact notStale ⟨old, by simpa [firstConn] using neverOpened⟩
  · rw [connected] at isSame
    obtain rfl := Option.some.inj isSame
    exact notOpened opened

/-- Opening a stream. -/
theorem openStream
    (fresh : FreshSince first current)
    {conn : Connection}
    (connected : current.conn = some conn)
    (stream : StreamId) :
    FreshSince first
      { current with
        conn := some { conn with opened := stream :: conn.opened } } where
  keys := by
    intro held member
    rcases fresh.keys held member with old | ⟨same, isSame, opened⟩
    · exact .inl old
    · rw [connected] at isSame
      obtain rfl := Option.some.inj isSame
      exact .inr ⟨_, rfl, List.mem_cons_of_mem _ opened⟩
  opened := by
    intro same isSame
    obtain ⟨earlier, firstConn, subset⟩ := fresh.opened conn connected
    obtain rfl := Option.some.inj isSame
    exact ⟨earlier, firstConn, List.subset_cons_of_subset stream subset⟩
  overwritten := fresh.overwritten

end FreshSince

end Worker

/-- No move replaces an entry while the ids in use are not stale. -/
theorem Move.freshSince
    {cfg : WorkerConfig}
    {action : Action}
    {first : Worker}
    (requests : action.requests ≠ [])
    (notStale : ∀ stream ∈ action.requests, ¬ first.Stale stream)
    {before after : MidStep}
    (move : Move cfg action before after)
    (fresh : first.FreshSince before.worker) :
    first.FreshSince after.worker := by
  cases move with
  | @tune w after hand events tuned =>
      refine fresh.shrink ?_ tuned.conn ?_
      · rw [tuned.pending]
        exact fun _ member => member
      · rw [Worker.overwritten, tuned.history]
        rfl
  | report isReport =>
      exact fresh.observe (Observation.isReport_iff isReport).2
  | @accept w hand events query peer valid =>
      have counted :
          first.FreshSince { w with accepted := w.accepted + 1 } :=
        ⟨fresh.keys, fresh.opened, fresh.overwritten⟩
      exact counted.observe rfl
  | take found =>
      exact fresh.shrink
        (fun _ member => (AList.mem_erase.mp member).2) rfl rfl
  | takeAll =>
      exact fresh.shrink
        (fun _ member => (AList.notMem_empty _ member).elim) rfl rfl
  | servfail built =>
      exact fresh.observe rfl
  | openStream stream connected =>
      exact fresh.openStream connected stream
  | @request w query hand events conn stream connected unused allowed
      deadline started =>
      have notHeld :=
        fresh.notMem connected unused (notStale stream allowed)
      have opened := fresh.openStream connected stream
      have noneReplaced :
          Worker.replaced
            { w with
              conn := some { conn with opened := stream :: conn.opened } }
            stream = [] :=
        Worker.replaced_eq_nil notHeld
      rw [Worker.register_eq, noneReplaced]
      refine ⟨?_, opened.opened, ?_⟩
      · intro held member
        rcases (AList.mem_insert _).mp member with rfl | old
        · exact .inr ⟨_, rfl, List.mem_cons_self⟩
        · exact opened.keys held old
      · rw [← fresh.overwritten]
        simp only [Worker.overwritten, List.filterMap_append,
          List.append_nil]
        exact congrArg Multiset.ofList (List.append_nil _)
  | @receive w hand events conn connected stream chunk =>
      have fed :
          first.FreshSince { w with h3 := (w.h3.feed stream chunk).1 } :=
        ⟨fresh.keys, fresh.opened, fresh.overwritten⟩
      exact fed.observe rfl
  | @respond w hand events stream body p found =>
      have taken :
          first.FreshSince { w with pending := w.pending.erase stream } :=
        fresh.shrink
          (fun _ member => (AList.mem_erase.mp member).2) rfl rfl
      exact taken.observe rfl
  | @disconnect w hand events settled =>
      have empty : w.pending = ∅ := settled.resolve_right requests
      refine ⟨?_, ?_, fresh.overwritten⟩
      · intro stream member
        have member : stream ∈ w.pending := member
        rw [empty] at member
        exact (AList.notMem_empty _ member).elim
      · intro conn isSame
        cases isSame
  | connect disconnected noRequests =>
      exact (requests noRequests).elim
  | _ =>
      exact ⟨fresh.keys, fresh.opened, fresh.overwritten⟩

/-- Without requests no entry is replaced. -/
theorem Move.overwritten
    {cfg : WorkerConfig}
    {action : Action}
    (noRequests : action.requests = [])
    {before after : MidStep}
    (move : Move cfg action before after) :
    after.worker.overwritten = before.worker.overwritten := by
  have other {w : Worker} {observation : Observation}
      (notOverwritten : observation.overwritten? = none) :
      (w.observe observation).overwritten = w.overwritten := by
    rw [Worker.overwritten_observe, notOverwritten]
    simp
  cases move with
  | tune tuned =>
      rw [Worker.overwritten, tuned.history]
      rfl
  | report isReport =>
      exact other (Observation.isReport_iff isReport).2
  | accept peer valid =>
      exact other rfl
  | servfail built =>
      exact other rfl
  | request connected fresh allowed deadline started =>
      rw [noRequests] at allowed
      exact (List.not_mem_nil allowed).elim
  | receive connected stream chunk =>
      exact other rfl
  | respond found =>
      exact other rfl
  | _ =>
      rfl

namespace Worker

/-- A step whose requests avoid stale entries replaces none. -/
theorem overwritten_step
    {cfg : WorkerConfig}
    {w : Worker}
    {action : Action}
    (notStale : ∀ stream ∈ action.requests, ¬ w.Stale stream) :
    (w.step cfg action).overwritten = w.overwritten := by
  by_cases noRequests : action.requests = []
  · have kept {before after : MidStep}
        (move : Move cfg action before after)
        (same : before.worker.overwritten = w.overwritten) :
        after.worker.overwritten = w.overwritten :=
      (move.overwritten noRequests).trans same
    exact (moves_step cfg w action).invariant kept rfl
  · have fresh :=
      (moves_step cfg w action).invariant
        (Move.freshSince noRequests notStale) (.refl w)
    exact fresh.overwritten

end Worker

/-! ## No query is lost in safe runs -/

namespace Worker

/-- The query has been answered, by an upstream body or a SERVFAIL. -/
def Answered (w : Worker) (serial : Nat) : Prop :=
  ∃ peer payload,
    .servfail serial peer payload ∈ w.history ∨
      .response serial peer payload ∈ w.history

/-- The query is still held in the queue or in `pending`. -/
def Held (w : Worker) (serial : Nat) : Prop :=
  (∃ q ∈ w.queue, q.serial = serial) ∨
    ∃ entry ∈ w.pending.entries, entry.2.serial = serial

/-- Every accepted query is answered or held, and answered at the end. -/
def NothingLost (w : Worker) : Prop :=
  ∀ serial query peer, .accepted serial query peer ∈ w.history →
    (w.Answered serial ∨ w.Held serial) ∧ (w.returned → w.Answered serial)

/--
No request is registered under the id of a stale entry, and the queue is empty
at shutdown.
-/
structure SafeStep (w : Worker) (action : Action) : Prop where
  requests : ∀ stream ∈ action.requests, ¬ w.Stale stream
  shutdown : action = .shutdown → w.queue = []

instance (w : Worker) (action : Action) : Decidable (w.SafeStep action) :=
  decidable_of_iff
    ((∀ stream ∈ action.requests, ¬ w.Stale stream) ∧
      (action = .shutdown → w.queue = []))
    ⟨fun ⟨requests, shutdown⟩ => ⟨requests, shutdown⟩,
      fun safe => ⟨safe.requests, safe.shutdown⟩⟩

/-- A run all of whose steps are safe. -/
def SafeRun (cfg : WorkerConfig) : Worker → List Action → Prop
  | _, [] =>
      True
  | w, action :: rest =>
      w.SafeStep action ∧ SafeRun cfg (w.step cfg action) rest

/-- Whether a run is safe can be computed. -/
def decidableSafeRun
    (cfg : WorkerConfig) :
    (w : Worker) → (actions : List Action) → Decidable (SafeRun cfg w actions)
  | _, [] =>
      .isTrue trivial
  | w, action :: rest =>
      have := decidableSafeRun cfg (w.step cfg action) rest
      inferInstanceAs (Decidable (_ ∧ _))

instance (cfg : WorkerConfig) (w : Worker) (actions : List Action) :
    Decidable (SafeRun cfg w actions) :=
  decidableSafeRun cfg w actions

/-- A safe run is safe as far as it has come. -/
theorem safeRun_of_reached
    {cfg : WorkerConfig}
    {taken actions : List Action}
    (reached : taken <+: actions)
    {w : Worker}
    (safe : SafeRun cfg w actions) :
    SafeRun cfg w taken := by
  induction taken generalizing w actions with
  | nil =>
      trivial
  | cons action rest inductionHypothesis =>
      obtain ⟨others, rfl⟩ := reached
      exact ⟨safe.1, inductionHypothesis (List.prefix_append _ _) safe.2⟩

/-- Nothing was replaced, and after `run` has returned nothing is held. -/
structure Settled (w : Worker) : Prop where
  overwritten : w.overwritten = 0
  queue : w.returned → w.queue = []
  pending : w.returned → w.pending = ∅

end Worker

/-- Only shutdown makes `run` return. -/
theorem Move.returned
    {cfg : WorkerConfig}
    {action : Action}
    (notShutdown : action ≠ .shutdown)
    {before after : MidStep}
    (move : Move cfg action before after) :
    after.worker.returned = before.worker.returned := by
  cases move with
  | tune tuned =>
      exact tuned.returned
  | request connected fresh allowed deadline started =>
      rw [Worker.register_eq]
  | halt isShutdown =>
      exact (notShutdown isShutdown).elim
  | _ =>
      rfl

namespace Worker

theorem settled_step
    {cfg : WorkerConfig}
    {w : Worker}
    {action : Action}
    (settled : w.Settled)
    (safe : w.SafeStep action) :
    (w.step cfg action).Settled := by
  have overwritten : (w.step cfg action).overwritten = 0 :=
    (overwritten_step safe.requests).trans settled.overwritten
  by_cases returned : w.returned
  · have stays : w.step cfg action = w := by
      unfold step
      exact if_pos returned
    rw [stays]
    exact settled
  · by_cases isShutdown : action = .shutdown
    · have shutDown : w.step cfg action = w.shutdown := by
        subst isShutdown
        exact if_neg returned
      rw [shutDown] at overwritten ⊢
      refine ⟨overwritten, ?_, ?_⟩
      · intro _
        exact w.failAllPending_frame.2.trans (safe.shutdown isShutdown)
      · intro _
        exact w.failAllPending_frame.1
    · have kept {before after : MidStep}
          (move : Move cfg action before after)
          (same : before.worker.returned = w.returned) :
          after.worker.returned = w.returned :=
        (move.returned isShutdown).trans same
      have running : ¬ (w.step cfg action).returned := by
        rw [(moves_step cfg w action).invariant kept rfl]
        exact returned
      exact ⟨overwritten, fun isTrue => (running isTrue).elim,
        fun isTrue => (running isTrue).elim⟩

/-- A safe run keeps the worker settled. -/
theorem settled_run
    {cfg : WorkerConfig}
    {w : Worker}
    (settled : w.Settled)
    {actions : List Action}
    (safe : SafeRun cfg w actions) :
    (w.run cfg actions).Settled := by
  induction actions generalizing w with
  | nil =>
      exact settled
  | cons action rest inductionHypothesis =>
      exact inductionHypothesis (settled_step settled safe.1) safe.2

theorem answered_of_mem_replied
    {w : Worker}
    {serial : Nat}
    (member : serial ∈ w.replied) :
    w.Answered serial := by
  obtain ⟨observation, seen, reply⟩ :=
    List.mem_filterMap.mp (Multiset.mem_coe.mp member)
  cases observation with
  | servfail named peer payload =>
      obtain rfl := Option.some.inj reply
      exact ⟨peer, payload, .inl seen⟩
  | response named peer payload =>
      obtain rfl := Option.some.inj reply
      exact ⟨peer, payload, .inr seen⟩
  | _ =>
      cases reply

/-- What is in custody and was not replaced is answered or held. -/
theorem answered_or_held
    {w : Worker}
    (overwritten : w.overwritten = 0)
    {serial : Nat}
    (member : serial ∈ w.custody) :
    w.Answered serial ∨ w.Held serial := by
  rw [custody, overwritten, add_zero, Multiset.mem_add, Multiset.mem_add]
    at member
  rcases member with (replied | queued) | inFlight
  · exact .inl (answered_of_mem_replied replied)
  · obtain ⟨q, inQueue, same⟩ :=
      List.mem_map.mp (Multiset.mem_coe.mp queued)
    exact .inr (.inl ⟨q, inQueue, same⟩)
  · obtain ⟨entry, inPending, same⟩ :=
      List.mem_map.mp (Multiset.mem_coe.mp inFlight)
    exact .inr (.inr ⟨entry, inPending, same⟩)

/-- A settled worker that returned holds no query. -/
theorem Settled.not_held
    {w : Worker}
    (settled : w.Settled)
    (returned : w.returned)
    (serial : Nat) :
    ¬ w.Held serial := by
  rintro (⟨q, inQueue, _⟩ | ⟨entry, inPending, _⟩)
  · rw [settled.queue returned] at inQueue
    exact List.not_mem_nil inQueue
  · rw [settled.pending returned] at inPending
    exact List.not_mem_nil inPending

/-- In every state of a safe run no accepted query is lost. -/
theorem nothingLost_of_safeRun
    (cfg : WorkerConfig)
    (set : UpstreamSet)
    (now : Instant)
    (has0rtt zeroRttOffered : Bool)
    {actions : List Action}
    (safe : SafeRun cfg (start cfg set now has0rtt zeroRttOffered) actions)
    {taken : List Action}
    (reached : taken <+: actions) :
    ((start cfg set now has0rtt zeroRttOffered).run cfg taken).NothingLost := by
  intro serial query peer accepted
  let initial := start cfg set now has0rtt zeroRttOffered
  have settled : (initial.run cfg taken).Settled :=
    settled_run ⟨rfl, fun _ => rfl, fun _ => rfl⟩
      (safeRun_of_reached reached safe)
  have inCustody : serial ∈ (initial.run cfg taken).custody := by
    have named :
        serial ∈ (initial.run cfg taken).history.filterMap
          Observation.accepted? :=
      List.mem_filterMap.mpr ⟨_, accepted, rfl⟩
    rw [initial.numbered_run cfg rfl taken] at named
    rw [initial.custody_run cfg rfl taken]
    exact Multiset.mem_range.mpr (List.mem_range.mp named)
  have found := answered_or_held settled.overwritten inCustody
  refine ⟨found, ?_⟩
  intro returned
  exact found.resolve_right (settled.not_held returned serial)

/-! ### A run that loses a query -/

/-- A query for the root zone. -/
def rootQuery : Bytes :=
  [0x12, 0x34, 0x01, 0x00, 0, 1, 0, 0, 0, 0, 0, 0, 0, 0, 2, 0, 1]

/-- A worker that asks `dns.example` for the path `/dns-query`. -/
def plainConfig : WorkerConfig where
  upstream := ⟨443, asBytes "/dns-query", asBytes "dns.example"⟩
  token := none
  timeout := fromSecs 5
  pad := false
  childIdx := 0

/-- A set of one address. -/
def oldSet : UpstreamSet := ⟨[.v4 192 0 2 1], [100], 1, 1, 0⟩

/-- The set after the worker's address was dropped. -/
def newSet : UpstreamSet := ⟨[.v4 192 0 2 2], [100], 2, 1, 0⟩

/-- A client on this host. -/
def localPeer (port : UInt16) : SocketAddr := ⟨.v4 127 0 0 1, port⟩

/-- The library opens its first stream. -/
def firstStream : DispatchEnv := ⟨some 0, true, true⟩

/--
A query is in flight on stream 0 when housekeeping migrates the worker; the
next query gets stream 0 of the new connection.
-/
def migrationRun : List Action :=
  [.quicEvents 0 [.connected []],
    .datagram 0 (localPeer 5000) rootQuery firstStream,
    .housekeeping
      ⟨fromSecs 1, 1, some newSet, ⟨true, false, true, false, true⟩⟩,
    .datagram (fromSecs 1) (localPeer 5001) rootQuery ⟨none, false, false⟩,
    .quicEvents (fromSecs 1) [.connected [firstStream]]]

/-- The query in flight loses its entry to the next one and is never answered.
-/
theorem migrationRun_loses_query :
    ¬ ((start plainConfig oldSet 0 false false).run plainConfig
      migrationRun).NothingLost := by
  intro nothingLost
  have accepted :
      .accepted 0 rootQuery (localPeer 5000) ∈
        ((start plainConfig oldSet 0 false false).run plainConfig
          migrationRun).history := by
    decide +kernel
  have noReply :
      ((start plainConfig oldSet 0 false false).run plainConfig
        migrationRun).history.filterMap Observation.replied? = [] := by
    decide +kernel
  have queue :
      ((start plainConfig oldSet 0 false false).run plainConfig
        migrationRun).queue = [] := by
    decide +kernel
  have inFlight :
      ((start plainConfig oldSet 0 false false).run plainConfig
        migrationRun).pending.entries.map (fun entry => entry.2.serial) =
          [1] := by
    decide +kernel
  rcases (nothingLost 0 rootQuery _ accepted).1 with answered | held
  · obtain ⟨peer, payload, seen⟩ := answered
    rw [List.filterMap_eq_nil_iff] at noReply
    rcases seen with servfail | response
    · cases noReply _ servfail
    · cases noReply _ response
  · rcases held with ⟨q, inQueue, _⟩ | ⟨entry, inPending, same⟩
    · rw [queue] at inQueue
      exact List.not_mem_nil inQueue
    · have member : entry.2.serial ∈ [1] := by
        rw [← inFlight]
        exact List.mem_map_of_mem inPending
      rw [same] at member
      exact absurd member (by decide)

/--
The same migration, but the query in flight times out before the next one is
sent.
-/
def expiredRun : List Action :=
  [.quicEvents 0 [.connected []],
    .datagram 0 (localPeer 5000) rootQuery firstStream,
    .housekeeping
      ⟨fromSecs 1, 1, some newSet, ⟨true, false, true, false, true⟩⟩,
    .housekeeping ⟨fromSecs 6, 6, none, ⟨true, false, true, false, true⟩⟩,
    .quicEvents (fromSecs 6) [.connected []],
    .datagram (fromSecs 6) (localPeer 5001) rootQuery firstStream,
    .shutdown]

/-- With the first query timed out the next one overwrites nothing. -/
theorem nothingLost_of_safeRun_expired :
    SafeRun plainConfig (start plainConfig oldSet 0 false false) expiredRun ∧
      ((start plainConfig oldSet 0 false false).run plainConfig
        expiredRun).NothingLost := by
  have safe :
      SafeRun plainConfig (start plainConfig oldSet 0 false false)
        expiredRun := by
    decide +kernel
  exact ⟨safe,
    nothingLost_of_safeRun plainConfig oldSet 0 false false safe
      List.prefix_rfl⟩

end Worker

end DnsServices.Microdoh3
