import DnsServices.WorkerCustody

namespace DnsServices.Microdoh3

/-!
# Requests and the queries they belong to

Two invariants of every move: whatever is held or sent belongs to an accepted
query, and a connection carries at most one request per stream id although the
ids start over on every connection.
-/

open Http3 Shared

/-! ## Everything belongs to an accepted query -/

/-- The query was accepted from this peer. -/
def Known (history : List Observation) (query : AcceptedQuery) : Prop :=
  .accepted query.serial query.query query.peer ∈ history

/-- A SERVFAIL or a request that belongs to an accepted query. -/
def Accounted
    (cfg : WorkerConfig)
    (history : List Observation) :
    Observation → Prop
  | .servfail serial peer payload =>
      ∃ query,
        .accepted serial query peer ∈ history ∧
          Dns.buildServfail query = some payload
  | .requested serial _ _ request =>
      ∃ query peer,
        .accepted serial query peer ∈ history ∧
          request = requestBytes cfg query
  | _ =>
      True

theorem Accounted.mono
    {cfg : WorkerConfig}
    {history later : List Observation}
    (subset : history ⊆ later)
    {observation : Observation}
    (accounted : Accounted cfg history observation) :
    Accounted cfg later observation := by
  cases observation with
  | servfail serial peer payload =>
      obtain ⟨query, accepted, built⟩ := accounted
      exact ⟨query, subset accepted, built⟩
  | requested serial conn stream request =>
      obtain ⟨query, peer, accepted, same⟩ := accounted
      exact ⟨query, peer, subset accepted, same⟩
  | _ =>
      trivial

namespace MidStep

/-- The queries in hand, in the queue and in `pending`. -/
def Holds (m : MidStep) (query : AcceptedQuery) : Prop :=
  query ∈ m.inHand ∨
    (∃ q ∈ m.worker.queue, q.toAcceptedQuery = query) ∨
    ∃ entry ∈ m.worker.pending.entries, entry.2.toAcceptedQuery = query

/-- All queries held and all observations made are accounted for. -/
structure Accountable (cfg : WorkerConfig) (m : MidStep) : Prop where
  held : ∀ query, m.Holds query → Known m.worker.history query
  observed :
    ∀ observation ∈ m.worker.history,
      Accounted cfg m.worker.history observation

/-- A move that adds accounted observations and holds known queries. -/
theorem Accountable.extend
    {cfg : WorkerConfig}
    {before after : MidStep}
    (accountable : before.Accountable cfg)
    {added : List Observation}
    (history : after.worker.history = before.worker.history ++ added)
    (held :
      ∀ query, after.Holds query →
        before.Holds query ∨ Known after.worker.history query)
    (accounted :
      ∀ observation ∈ added,
        Accounted cfg after.worker.history observation) :
    after.Accountable cfg where
  held := by
    intro query holds
    rcases held query holds with already | known
    · rw [Known, history]
      exact List.mem_append_left _ (accountable.held query already)
    · exact known
  observed := by
    intro observation member
    rw [history] at member
    rcases List.mem_append.mp member with old | new
    · refine (accountable.observed observation old).mono ?_
      rw [history]
      exact List.subset_append_left _ _
    · exact accounted observation new

end MidStep

/-- Every move keeps the requests accounted for. -/
theorem Move.accountable
    {cfg : WorkerConfig}
    {action : Action}
    {before after : MidStep}
    (move : Move cfg action before after)
    (accountable : before.Accountable cfg) :
    after.Accountable cfg := by
  have same {after : MidStep}
      (history : after.worker.history = before.worker.history)
      (held : ∀ query, after.Holds query → before.Holds query) :
      after.Accountable cfg := by
    refine accountable.extend (history.trans (List.append_nil _).symm)
      (fun query holds => .inl (held query holds)) ?_
    intro observation member
    exact (List.not_mem_nil member).elim
  cases move with
  | @tune w after hand events tuned =>
      refine same tuned.history ?_
      intro query holds
      unfold MidStep.Holds at holds ⊢
      rwa [tuned.queue, tuned.pending] at holds
  | @report w hand events observation isReport =>
      refine accountable.extend rfl (fun _ holds => .inl holds) ?_
      intro added member
      obtain rfl := List.mem_singleton.mp member
      cases added <;> trivial
  | @accept w hand events query peer valid =>
      refine accountable.extend rfl ?_ ?_
      · intro held holds
        rcases holds with inHand | elsewhere
        · rcases List.mem_cons.mp inHand with rfl | inHand
          · exact .inr (List.mem_append_right _ List.mem_cons_self)
          · exact .inl (.inl inHand)
        · exact .inl (.inr elsewhere)
      · intro added member
        obtain rfl := List.mem_singleton.mp member
        trivial
  | @enqueue w query hand events deadline =>
      refine same rfl ?_
      intro held holds
      rcases holds with inHand | ⟨q, inQueue, rfl⟩ | inPending
      · exact .inl (List.mem_cons_of_mem _ inHand)
      · rcases List.mem_append.mp inQueue with old | new
        · exact .inr (.inl ⟨q, old, rfl⟩)
        · obtain rfl := List.mem_singleton.mp new
          exact .inl List.mem_cons_self
      · exact .inr (.inr inPending)
  | @dequeue w hand events q rest front =>
      refine same rfl ?_
      intro held holds
      rcases holds with inHand | ⟨other, inQueue, rfl⟩ | inPending
      · rcases List.mem_cons.mp inHand with rfl | inHand
        · exact .inr (.inl ⟨q, front ▸ List.mem_cons_self, rfl⟩)
        · exact .inl inHand
      · exact .inr (.inl
          ⟨other, front ▸ List.mem_cons_of_mem _ inQueue, rfl⟩)
      · exact .inr (.inr inPending)
  | @take w hand events stream p found =>
      refine same rfl ?_
      intro held holds
      rcases holds with inHand | inQueue | ⟨entry, inPending, rfl⟩
      · rcases List.mem_cons.mp inHand with rfl | inHand
        · exact .inr (.inr
            ⟨⟨stream, p⟩, AList.mem_lookup_iff.mp found, rfl⟩)
        · exact .inl inHand
      · exact .inr (.inl inQueue)
      · exact .inr (.inr
          ⟨entry, (List.kerase_sublist _ _).subset inPending, rfl⟩)
  | @takeAll w hand events =>
      refine same rfl ?_
      intro held holds
      rcases holds with inHand | inQueue | ⟨entry, inPending, _⟩
      · rcases List.mem_append.mp inHand with taken | inHand
        · obtain ⟨entry, inPending, rfl⟩ := List.mem_map.mp taken
          exact .inr (.inr ⟨entry, inPending, rfl⟩)
        · exact .inl inHand
      · exact .inr (.inl inQueue)
      · exact (List.not_mem_nil inPending).elim
  | @servfail w query hand events out built =>
      refine accountable.extend rfl ?_ ?_
      · intro held holds
        rcases holds with inHand | elsewhere
        · exact .inl (.inl (List.mem_cons_of_mem _ inHand))
        · exact .inl (.inr elsewhere)
      · intro added member
        obtain rfl := List.mem_singleton.mp member
        have known := accountable.held query (.inl List.mem_cons_self)
        exact ⟨query.query, List.mem_append_left _ known, built⟩
  | @request w query hand events conn stream connected fresh allowed
      deadline started =>
      have known := accountable.held query (.inl List.mem_cons_self)
      rw [Worker.register_eq]
      refine accountable.extend (List.append_assoc _ _ _) ?_ ?_
      · intro held holds
        rcases holds with inHand | inQueue | ⟨entry, inPending, rfl⟩
        · exact .inl (.inl (List.mem_cons_of_mem _ inHand))
        · exact .inl (.inr (.inl inQueue))
        · rcases List.mem_cons.mp inPending with rfl | old
          · exact .inl (.inl List.mem_cons_self)
          · exact .inl (.inr (.inr
              ⟨entry, (List.kerase_sublist _ _).subset old, rfl⟩))
      · intro added member
        rcases List.mem_append.mp member with replaced | requested
        · obtain ⟨serial, rfl⟩ :=
            Worker.eq_overwritten_of_mem_replaced replaced
          trivial
        · obtain rfl := List.mem_singleton.mp requested
          refine ⟨query.query, query.peer, ?_, rfl⟩
          exact List.mem_append_left _ (List.mem_append_left _ known)
  | @receive w hand events conn connected stream chunk =>
      refine accountable.extend rfl (fun _ holds => .inl holds) ?_
      intro added member
      obtain rfl := List.mem_singleton.mp member
      trivial
  | @respond w hand events stream body p found =>
      refine accountable.extend rfl ?_ ?_
      · intro held holds
        rcases holds with inHand | inQueue | ⟨entry, inPending, rfl⟩
        · exact .inl (.inl inHand)
        · exact .inl (.inr (.inl inQueue))
        · exact .inl (.inr (.inr
            ⟨entry, (List.kerase_sublist _ _).subset inPending, rfl⟩))
      · intro added member
        obtain rfl := List.mem_singleton.mp member
        trivial
  | _ =>
      exact same rfl fun _ holds => holds

/-! ## One request per connection and stream id -/

/-- The connection and the stream id of a request. -/
def Observation.requested? : Observation → Option (Nat × StreamId)
  | .requested _ conn stream _ => some (conn, stream)
  | _ => none

/-- The connections and stream ids of the requests written so far. -/
def requestKeys (history : List Observation) : List (Nat × StreamId) :=
  history.filterMap Observation.requested?

theorem requestKeys_append (first second : List Observation) :
    requestKeys (first ++ second) =
      requestKeys first ++ requestKeys second :=
  List.filterMap_append

theorem mem_requestKeys
    {history : List Observation}
    {serial conn : Nat}
    {stream : StreamId}
    {request : Bytes}
    (requested : .requested serial conn stream request ∈ history) :
    (conn, stream) ∈ requestKeys history :=
  List.mem_filterMap.mpr ⟨_, requested, rfl⟩

/-- Requests are told apart by their connection and stream id. -/
structure Worker.Routed (w : Worker) : Prop where
  nodup : (requestKeys w.history).Nodup
  earlier : ∀ key ∈ requestKeys w.history, key.1 < w.connections
  current : ∀ conn, w.conn = some conn → conn.serial < w.connections
  opened :
    ∀ conn stream, w.conn = some conn →
      (conn.serial, stream) ∈ requestKeys w.history → stream ∈ conn.opened

theorem Worker.Routed.same
    {w after : Worker}
    (routed : w.Routed)
    (keys : requestKeys after.history = requestKeys w.history)
    (conn : after.conn = w.conn)
    (connections : after.connections = w.connections) :
    after.Routed := by
  refine ⟨?_, ?_, ?_, ?_⟩
  · rw [keys]
    exact routed.nodup
  · rw [keys, connections]
    exact routed.earlier
  · rw [conn, connections]
    exact routed.current
  · rw [keys, conn]
    exact routed.opened

theorem requestKeys_observe
    (w : Worker)
    {observation : Observation}
    (notRequest : observation.requested? = none) :
    requestKeys (w.observe observation).history = requestKeys w.history := by
  simp [requestKeys, Worker.observe, notRequest]

theorem requestKeys_replaced (w : Worker) (stream : StreamId) :
    requestKeys (w.history ++ w.replaced stream) =
      requestKeys w.history := by
  rw [requestKeys, List.filterMap_append,
    Worker.filterMap_replaced w stream fun _ => rfl, List.append_nil]
  rfl

/-- Registering a request adds its connection and stream. -/
theorem requestKeys_register
    (w : Worker)
    (conn : Connection)
    (stream : StreamId)
    (request : Bytes)
    (entry : Pending) :
    requestKeys (w.register conn stream request entry).history =
      requestKeys w.history ++ [(conn.serial, stream)] := by
  rw [Worker.register_eq, requestKeys_append, requestKeys_replaced]
  rfl

/-- Every move keeps the requests on distinct streams. -/
theorem Move.routed
    {cfg : WorkerConfig}
    {action : Action}
    {before after : MidStep}
    (move : Move cfg action before after)
    (routed : before.worker.Routed) :
    after.worker.Routed := by
  cases move with
  | tune tuned =>
      exact routed.same (by rw [tuned.history]) tuned.conn tuned.connections
  | @report w hand events observation isReport =>
      refine routed.same (requestKeys_observe w ?_) rfl rfl
      cases observation <;> trivial
  | accept peer valid =>
      exact routed.same (requestKeys_observe _ rfl) rfl rfl
  | servfail built =>
      exact routed.same (requestKeys_observe _ rfl) rfl rfl
  | @openStream w hand events conn stream connected =>
      refine ⟨routed.nodup, routed.earlier, ?_, ?_⟩
      · intro opened isOpened
        obtain rfl := Option.some.inj isOpened
        exact routed.current conn connected
      · intro opened other isOpened member
        obtain rfl := Option.some.inj isOpened
        exact List.mem_cons_of_mem _
          (routed.opened conn other connected member)
  | @request w query hand events conn stream connected fresh allowed
      deadline started =>
      have unused : (conn.serial, stream) ∉ requestKeys w.history :=
        fun member => fresh (routed.opened conn stream connected member)
      have current := routed.current conn connected
      refine ⟨?_, ?_, ?_, ?_⟩
      · rw [requestKeys_register]
        exact List.nodup_append.mpr
          ⟨routed.nodup, List.nodup_singleton _, by
            rintro key member _ last rfl
            obtain rfl := List.mem_singleton.mp last
            exact unused member⟩
      · rw [requestKeys_register, Worker.register_eq]
        intro key member
        rcases List.mem_append.mp member with old | new
        · exact routed.earlier key old
        · obtain rfl := List.mem_singleton.mp new
          exact current
      · rw [Worker.register_eq]
        intro opened isOpened
        obtain rfl := Option.some.inj isOpened
        exact current
      · rw [requestKeys_register, Worker.register_eq]
        intro opened other isOpened member
        obtain rfl := Option.some.inj isOpened
        rcases List.mem_append.mp member with old | new
        · exact List.mem_cons_of_mem _
            (routed.opened conn other connected old)
        · obtain ⟨_, rfl⟩ := Prod.mk.inj (List.mem_singleton.mp new)
          exact List.mem_cons_self
  | receive connected stream chunk =>
      exact routed.same (requestKeys_observe _ rfl) rfl rfl
  | respond found =>
      exact routed.same (requestKeys_observe _ rfl) rfl rfl
  | disconnect settled =>
      refine ⟨routed.nodup, routed.earlier, ?_, ?_⟩
      · intro conn isNone
        cases isNone
      · intro conn stream isNone
        cases isNone
  | @connect w hand disconnected noRequests =>
      refine ⟨routed.nodup, ?_, ?_, ?_⟩
      · intro key member
        exact (routed.earlier key member).trans (Nat.lt_succ_self _)
      · intro conn isNew
        obtain rfl := Option.some.inj isNew
        exact Nat.lt_succ_self _
      · intro conn stream isNew member
        obtain rfl := Option.some.inj isNew
        exact absurd (routed.earlier _ member) (Nat.lt_irrefl _)
  | _ =>
      exact routed.same rfl rfl rfl

end DnsServices.Microdoh3
