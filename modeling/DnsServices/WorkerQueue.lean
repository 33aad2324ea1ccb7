import Mathlib.Data.List.TakeWhile
import DnsServices.Runs
import DnsServices.WorkerFrame
import DnsServices.WorkerLoss

namespace DnsServices.Microdoh3

/-!
# Parked queries

A query that arrives during the handshake is parked in `queue`.  It is meant to
leave the queue as soon as request streams can be opened.  `Connected` flushes
the queue; a reconnect with 0-RTT sets `h3_ready` without flushing it.
-/

open Http3 Shared Runs

namespace Worker

/-! ## What leaves the queue -/

/--
No query was accepted, queries only left the queue, from its front, and the
deadline of a request that is new in `pending` counts from its start.
-/
structure Drains (cfg : WorkerConfig) (before after : Worker) : Prop where
  accepted : after.accepted = before.accepted
  queue : after.queue <:+ before.queue
  pending :
    ∀ entry ∈ after.pending.entries,
      entry ∈ before.pending.entries ∨
        entry.2.deadline = entry.2.started + cfg.timeout

namespace Drains

variable {cfg : WorkerConfig}

theorem same
    {before after : Worker}
    (accepted : after.accepted = before.accepted)
    (queue : after.queue = before.queue)
    (pending : after.pending = before.pending) :
    Drains cfg before after where
  accepted := accepted
  queue := queue ▸ List.suffix_refl _
  pending := by
    intro entry member
    rw [pending] at member
    exact .inl member

theorem refl (w : Worker) : Drains cfg w w :=
  same rfl rfl rfl

theorem trans
    {first second third : Worker}
    (earlier : Drains cfg first second)
    (later : Drains cfg second third) :
    Drains cfg first third where
  accepted := later.accepted.trans earlier.accepted
  queue := later.queue.trans earlier.queue
  pending := by
    intro entry member
    rcases later.pending entry member with kept | stamped
    · exact earlier.pending entry kept
    · exact .inr stamped

/-- Variables other than `queue` and `pending` may be set freely. -/
theorem behind
    {first second third : Worker}
    (later : Drains cfg second third)
    (accepted : second.accepted = first.accepted)
    (queue : second.queue = first.queue)
    (pending : second.pending = first.pending) :
    Drains cfg first third :=
  (same accepted queue pending).trans later

theorem foldl
    {α : Type}
    {body : Worker → α → Worker}
    (each : ∀ w item, Drains cfg w (body w item))
    (items : List α)
    (w : Worker) :
    Drains cfg w (items.foldl body w) := by
  induction items generalizing w with
  | nil =>
      exact .refl w
  | cons item rest inductionHypothesis =>
      exact (each w item).trans (inductionHypothesis _)

theorem erase (w : Worker) (stream : StreamId) :
    Drains cfg w { w with pending := w.pending.erase stream } where
  accepted := rfl
  queue := List.suffix_refl _
  pending := fun _ member => .inl ((List.kerase_sublist _ _).subset member)

theorem pop
    {w : Worker}
    {q : QueuedQuery}
    {rest : List QueuedQuery}
    (front : w.queue = q :: rest) :
    Drains cfg w { w with queue := rest } where
  accepted := rfl
  queue := front ▸ List.suffix_cons q rest
  pending := fun _ member => .inl member

theorem nil
    {before after : Worker}
    (drains : Drains cfg before after)
    (empty : before.queue = []) :
    after.queue = [] :=
  List.suffix_nil.mp (empty ▸ drains.queue)

end Drains

variable {cfg : WorkerConfig}

theorem drains_sendServfail (w : Worker) (query : AcceptedQuery) :
    Drains cfg w (w.sendServfail query) := by
  unfold sendServfail
  split
  · exact .same rfl rfl rfl
  · exact .refl w

theorem drains_onFailure_sendServfail (w : Worker) (query : AcceptedQuery) :
    Drains cfg w (w.onFailure.sendServfail query) :=
  .behind (drains_sendServfail w.onFailure query) rfl rfl rfl

theorem drains_register
    (w : Worker)
    (conn : Connection)
    (stream : StreamId)
    (request : Bytes)
    {entry : Pending}
    (stamped : entry.deadline = entry.started + cfg.timeout) :
    Drains cfg w (w.register conn stream request entry) := by
  rw [register_eq]
  refine ⟨rfl, List.suffix_refl _, ?_⟩
  intro other member
  rw [AList.entries_insert] at member
  rcases List.mem_cons.mp member with rfl | old
  · exact .inr stamped
  · exact .inl ((List.kerase_sublist _ _).subset old)

/-- Dispatching a query puts nothing into the queue. -/
theorem drains_dispatchQuery
    (now : Instant)
    (w : Worker)
    (query : AcceptedQuery)
    (env : DispatchEnv) :
    Drains cfg w (w.dispatchQuery cfg now query env) := by
  unfold dispatchQuery
  split
  · exact w.drains_onFailure_sendServfail query
  next stream conn opened =>
    have opening : Drains cfg w { w with conn := some conn } :=
      .same rfl rfl rfl
    simp only
    split
    · exact opening.trans (drains_sendServfail _ query)
    · split
      · exact opening.trans (drains_onFailure_sendServfail _ query)
      · exact opening.trans (drains_register _ _ _ _ rfl)

theorem drains_flushLoop
    (now : Instant)
    {queue : List QueuedQuery}
    (envs : List DispatchEnv)
    {w : Worker}
    (sameQueue : w.queue = queue) :
    Drains cfg w (flushLoop cfg now queue envs w) := by
  induction queue generalizing envs w with
  | nil =>
      exact .refl w
  | cons q rest inductionHypothesis =>
      have popped : Drains cfg w { w with queue := rest } :=
        .pop sameQueue
      rw [flushLoop]
      split
      · exact (popped.trans (drains_onFailure_sendServfail _ _)).trans
          (inductionHypothesis envs (queue_sendServfail _ _))
      · exact (popped.trans (drains_dispatchQuery now _ _ _)).trans
          (inductionHypothesis envs.tail (queue_dispatchQuery now _ _ _))

/-- A flush empties the queue. -/
theorem queue_flushLoop
    (now : Instant)
    {queue : List QueuedQuery}
    (envs : List DispatchEnv)
    {w : Worker}
    (sameQueue : w.queue = queue) :
    (flushLoop cfg now queue envs w).queue = [] := by
  induction queue generalizing envs w with
  | nil =>
      exact sameQueue
  | cons q rest inductionHypothesis =>
      rw [flushLoop]
      split
      · exact inductionHypothesis envs (queue_sendServfail _ _)
      · exact inductionHypothesis envs.tail (queue_dispatchQuery now _ _ _)

theorem drains_failAllPending (w : Worker) : Drains cfg w w.failAllPending := by
  have emptied : Drains cfg w { w with pending := ∅ } :=
    ⟨rfl, List.suffix_refl _, fun _ member => absurd member List.not_mem_nil⟩
  exact emptied.trans
    (.foldl (fun w _ => w.drains_onFailure_sendServfail _) _ _)

theorem drains_dropConnection (w : Worker) : Drains cfg w w.dropConnection :=
  w.drains_failAllPending.trans (.same rfl rfl rfl)

theorem drains_failRequest (w : Worker) (stream : StreamId) :
    Drains cfg w (w.failRequest stream) := by
  unfold failRequest
  split
  · exact .refl w
  · exact (Drains.erase w stream).trans (drains_onFailure_sendServfail _ _)

theorem drains_readStream
    (w : Worker)
    (conn : Connection)
    (stream : StreamId)
    (chunks : List Bytes) :
    Drains cfg w (w.readStream conn stream chunks).1 := by
  induction chunks generalizing w with
  | nil =>
      exact .refl w
  | cons chunk rest inductionHypothesis =>
      rw [readStream]
      exact Drains.behind (inductionHypothesis _) rfl rfl rfl

theorem drains_handleQuicEvent
    (now : Instant)
    (w : Worker)
    (event : QuicEvent) :
    Drains cfg w (w.handleQuicEvent cfg now event).1 := by
  cases event with
  | connected envs =>
      simp only [handleQuicEvent]
      split
      · exact .same rfl rfl rfl
      · exact Drains.behind (drains_flushLoop now envs rfl) rfl rfl rfl
  | connectionLost applicationClosed =>
      have dropped :
          Drains cfg w
            { w with
              rt.failStreak :=
                if applicationClosed then 0
                else saturatingSucc w.rt.failStreak }.dropConnection :=
        .behind (drains_dropConnection _) rfl rfl rfl
      exact dropped.trans (.same rfl rfl rfl)
  | readable stream chunks outcome =>
      simp only [handleQuicEvent]
      split
      · exact .same rfl rfl rfl
      next conn connected =>
        have read : Drains cfg w (w.readStream conn stream chunks).1 :=
          w.drains_readStream conn stream chunks
        cases outcome with
        | blocked =>
            exact read
        | error =>
            exact read.trans (.same rfl rfl rfl)
        | eof =>
            exact read.trans (.same rfl rfl rfl)
  | other =>
      exact .refl w

theorem drains_handleQuicEvents
    (now : Instant)
    (events : List QuicEvent)
    (w : Worker) :
    Drains cfg w (handleQuicEvents cfg now events w).1 := by
  induction events generalizing w with
  | nil =>
      exact .refl w
  | cons event rest inductionHypothesis =>
      exact (drains_handleQuicEvent now w event).trans (inductionHypothesis _)

theorem drains_applyH3Event (now : Instant) (w : Worker) (event : H3Event) :
    Drains cfg w (w.applyH3Event now event) := by
  cases event with
  | response stream body =>
      simp only [applyH3Event]
      split
      · exact .refl w
      · exact (Drains.erase w stream).trans (.same rfl rfl rfl)
  | failed stream =>
      exact w.drains_failRequest stream
  | goaway =>
      simp only [applyH3Event]
      split
      · exact .same rfl rfl rfl
      · exact .refl w

theorem drains_expireQueue
    (now : Instant)
    {queue : List QueuedQuery}
    {w : Worker}
    (sameQueue : w.queue = queue) :
    Drains cfg w (expireQueue now queue w) := by
  induction queue generalizing w with
  | nil =>
      exact .refl w
  | cons q rest inductionHypothesis =>
      rw [expireQueue]
      split
      · have popped : Drains cfg w { w with queue := rest } :=
          .pop sameQueue
        exact (popped.trans (drains_onFailure_sendServfail _ _)).trans
          (inductionHypothesis (queue_sendServfail _ _))
      · exact .refl w

/-- The scan stops at the first query that has not expired. -/
theorem queue_expireQueue
    (now : Instant)
    {queue : List QueuedQuery}
    {w : Worker}
    (sameQueue : w.queue = queue) :
    (expireQueue now queue w).queue =
      queue.dropWhile fun q => q.deadline ≤ now := by
  induction queue generalizing w with
  | nil =>
      exact sameQueue
  | cons q rest inductionHypothesis =>
      rw [expireQueue, List.dropWhile_cons]
      simp only [decide_eq_true_eq]
      split
      · exact inductionHypothesis (queue_sendServfail _ _)
      · exact sameQueue

theorem queue_failRequest (w : Worker) (stream : StreamId) :
    (w.failRequest stream).queue = w.queue := by
  unfold failRequest
  split
  · rfl
  · exact queue_sendServfail _ _

theorem queue_foldl_failRequest (streams : List StreamId) (w : Worker) :
    (streams.foldl failRequest w).queue = w.queue := by
  induction streams generalizing w with
  | nil =>
      rfl
  | cons stream rest inductionHypothesis =>
      exact (inductionHypothesis _).trans (w.queue_failRequest stream)

theorem lookup_failRequest (w : Worker) (stream other : StreamId) :
    (w.failRequest stream).pending.lookup other =
      if other = stream then none else w.pending.lookup other := by
  unfold failRequest
  split
  next missing =>
    split
    next same =>
      rw [same, missing]
    · rfl
  · rw [pending_sendServfail]
    split
    next same =>
      rw [same]
      exact AList.lookup_erase stream _
    next differs =>
      exact AList.lookup_erase_ne differs

/-- Failing requests removes their entries and no others. -/
theorem lookup_foldl_failRequest
    (streams : List StreamId)
    (w : Worker)
    (other : StreamId) :
    (streams.foldl failRequest w).pending.lookup other =
      if other ∈ streams then none else w.pending.lookup other := by
  induction streams generalizing w with
  | nil =>
      simp
  | cons stream rest inductionHypothesis =>
      rw [List.foldl_cons, inductionHypothesis, lookup_failRequest]
      by_cases same : other = stream
      · simp [same]
      · simp [same]

/-- Exactly the requests whose deadline has not come stay in flight. -/
theorem mem_expirePending
    (w : Worker)
    (now : Instant)
    (entry : Sigma fun _ : StreamId => Pending) :
    entry ∈ (w.expirePending now).pending.entries ↔
      entry ∈ w.pending.entries ∧ now < entry.2.deadline := by
  obtain ⟨stream, p⟩ := entry
  rw [← AList.mem_lookup_iff, ← AList.mem_lookup_iff, expirePending,
    lookup_foldl_failRequest]
  have expired :
      stream ∈ (w.pending.entries.filter fun entry =>
          entry.2.deadline ≤ now).map Sigma.fst ↔
        ∃ other, w.pending.lookup stream = some other ∧
          other.deadline ≤ now := by
    simp only [List.mem_map, List.mem_filter, decide_eq_true_eq]
    constructor
    · rintro ⟨⟨found, other⟩, ⟨member, past⟩, rfl⟩
      exact ⟨other, AList.mem_lookup_iff.mpr member, past⟩
    · rintro ⟨other, found, past⟩
      exact ⟨⟨stream, other⟩, ⟨AList.mem_lookup_iff.mp found, past⟩, rfl⟩
  constructor
  · intro kept
    split at kept
    · cases kept
    next live =>
      refine ⟨kept, ?_⟩
      by_contra past
      exact live (expired.mpr ⟨p, kept, not_lt.mp past⟩)
  · rintro ⟨found, live⟩
    rw [if_neg]
    · exact found
    · intro gone
      obtain ⟨other, same, past⟩ := expired.mp gone
      obtain rfl := Option.some.inj (same.symm.trans found)
      exact not_le.mpr live past

/-- Expiring leaves nothing pending exactly if every deadline has passed. -/
theorem expirePending_eq_nil_iff (w : Worker) (now : Instant) :
    (w.expirePending now).pending.entries = [] ↔
      ∀ entry ∈ w.pending.entries, entry.2.deadline ≤ now := by
  rw [List.eq_nil_iff_forall_not_mem]
  constructor
  · intro none entry member
    by_contra live
    exact none entry
      ((w.mem_expirePending now entry).mpr ⟨member, not_le.mp live⟩)
  · intro past entry member
    obtain ⟨found, live⟩ := (w.mem_expirePending now entry).mp member
    exact not_le.mpr live (past entry found)

/-- Housekeeping drops the overdue front of the queue. -/
theorem queue_beforePublication
    (cfg : WorkerConfig)
    (w : Worker)
    (env : HousekeepingEnv) :
    (w.beforePublication cfg env).queue =
      w.queue.dropWhile fun q => q.deadline ≤ env.now := by
  have sameQueue : (w.expirePending env.now).queue = w.queue :=
    queue_foldl_failRequest _ w
  rw [beforePublication, queue_expireQueue env.now rfl]
  exact congrArg _ sameQueue

theorem pending_expireQueue
    (now : Instant)
    (queue : List QueuedQuery)
    (w : Worker) :
    (expireQueue now queue w).pending = w.pending := by
  induction queue generalizing w with
  | nil =>
      rfl
  | cons q rest inductionHypothesis =>
      rw [expireQueue]
      split
      · exact (inductionHypothesis _).trans (pending_sendServfail _ _)
      · rfl

/-- Housekeeping expires the overdue pending queries. -/
theorem pending_beforePublication
    (cfg : WorkerConfig)
    (w : Worker)
    (env : HousekeepingEnv) :
    (w.beforePublication cfg env).pending =
      (w.expirePending env.now).pending :=
  pending_expireQueue env.now _ _

/-! ## Reconnects -/

/-- What the migration policy reads is as before. -/
def SamePolicy (before after : Worker) : Prop :=
  ∃ quality lastScore,
    after.rt = { before.rt with quality := quality, lastScore := lastScore }

namespace SamePolicy

theorem refl (w : Worker) : SamePolicy w w :=
  ⟨_, _, rfl⟩

theorem trans
    {first second third : Worker}
    (earlier : SamePolicy first second)
    (later : SamePolicy second third) :
    SamePolicy first third := by
  obtain ⟨quality, lastScore, sameFirst⟩ := earlier
  obtain ⟨newer, laterScore, sameSecond⟩ := later
  exact ⟨newer, laterScore, by rw [sameSecond, sameFirst]⟩

theorem migrationTarget
    {before after : Worker}
    (same : SamePolicy before after)
    (cfg : WorkerConfig)
    (now : Instant)
    (monoSecs : Nat) :
    migrationTarget after.rt cfg now monoSecs =
      Microdoh3.migrationTarget before.rt cfg now monoSecs := by
  obtain ⟨quality, lastScore, same⟩ := same
  rw [same]
  rfl

end SamePolicy

theorem samePolicy_onFailure_sendServfail
    (w : Worker)
    (query : AcceptedQuery) :
    SamePolicy w (w.onFailure.sendServfail query) := by
  unfold sendServfail
  split <;> exact ⟨_, _, rfl⟩

theorem samePolicy_foldl_failRequest (streams : List StreamId) (w : Worker) :
    SamePolicy w (streams.foldl failRequest w) := by
  induction streams generalizing w with
  | nil =>
      exact .refl w
  | cons stream rest inductionHypothesis =>
      refine SamePolicy.trans ?_ (inductionHypothesis _)
      unfold failRequest
      split
      · exact .refl w
      · exact samePolicy_onFailure_sendServfail _ _

theorem samePolicy_expireQueue
    (now : Instant)
    (queue : List QueuedQuery)
    (w : Worker) :
    SamePolicy w (expireQueue now queue w) := by
  induction queue generalizing w with
  | nil =>
      exact .refl w
  | cons q rest inductionHypothesis =>
      rw [expireQueue]
      split
      · have answered :
            SamePolicy w
              ({ w with queue := rest }.onFailure.sendServfail
                q.toAcceptedQuery) :=
          samePolicy_onFailure_sendServfail { w with queue := rest } _
        exact answered.trans (inductionHypothesis _)
      · exact .refl w

/-- The policy sees the adopted set and nothing else of what came before. -/
theorem migrationTarget_beforePublication
    (cfg : WorkerConfig)
    (w : Worker)
    (env : HousekeepingEnv) :
    migrationTarget (w.beforePublication cfg env).rt cfg env.now env.monoSecs =
      migrationTarget (w.rt.adopt cfg env.now env.published) cfg env.now
        env.monoSecs := by
  have expired : SamePolicy w (w.expirePending env.now) :=
    samePolicy_foldl_failRequest _ w
  obtain ⟨quality, lastScore, same⟩ := expired
  rw [beforePublication,
    (samePolicy_expireQueue env.now _ _).migrationTarget, same]
  unfold Runtime.adopt
  cases env.published with
  | none =>
      rfl
  | some set =>
      simp only
      split <;> rfl

/-- The worker in a housekeeping call when it comes to its reconnect. -/
def beforeReconnect
    (cfg : WorkerConfig)
    (w : Worker)
    (env : HousekeepingEnv) :
    Worker :=
  (((w.beforePublication cfg env).publishScore env.now).goawayDrained
    env.now).migrate cfg env.now env.monoSecs

/--
A housekeeping call reconnects: the time has come, the requests of a closing
connection are all answered or expired, or the policy picks another address.
-/
def ReconnectDue
    (cfg : WorkerConfig)
    (w : Worker)
    (env : HousekeepingEnv) :
    Prop :=
  (∃ t, w.reconnectAt = some t ∧ t ≤ env.now) ∨
    (w.goaway ∧ ∀ entry ∈ w.pending.entries, entry.2.deadline ≤ env.now) ∨
    (w.reconnectAt = none ∧
      (migrationTarget (w.rt.adopt cfg env.now env.published) cfg env.now
        env.monoSecs).isSome)

/-- Between expiry and reconnect only the run-time state, the reconnect time and
the history change. -/
theorem beforeReconnect_update
    (cfg : WorkerConfig)
    (w : Worker)
    (env : HousekeepingEnv) :
    ∃ rt reconnectAt history,
      w.beforeReconnect cfg env =
        { w.beforePublication cfg env with
          rt := rt
          reconnectAt := reconnectAt
          history := history } := by
  obtain ⟨_, _, _, scored⟩ :=
    (w.beforePublication cfg env).publishScore_update env.now
  obtain ⟨_, drained⟩ :=
    ((w.beforePublication cfg env).publishScore env.now).goawayDrained_update
      env.now
  obtain ⟨_, _, _, migrated⟩ :=
    migrate_update cfg
      (((w.beforePublication cfg env).publishScore env.now).goawayDrained
        env.now) env.now env.monoSecs
  rw [beforeReconnect, migrated, drained, scored]
  exact ⟨_, _, _, rfl⟩

/-- When it comes to its reconnect, housekeeping has expired what it holds. -/
theorem beforeReconnect_holds
    (cfg : WorkerConfig)
    (w : Worker)
    (env : HousekeepingEnv) :
    (w.beforeReconnect cfg env).queue =
        (w.queue.dropWhile fun q => q.deadline ≤ env.now) ∧
      (w.beforeReconnect cfg env).h3Ready = w.h3Ready ∧
      (w.beforeReconnect cfg env).pending =
        (w.expirePending env.now).pending := by
  obtain ⟨_, _, _, same⟩ := w.beforeReconnect_update cfg env
  rw [same]
  exact
    ⟨w.queue_beforePublication cfg env,
      (w.routine_beforePublication cfg env).h3Ready,
      w.pending_beforePublication cfg env⟩

/-- When the migration decision has been made, a reconnect is due or not. -/
theorem due_migrate
    (cfg : WorkerConfig)
    (w : Worker)
    (now : Instant)
    (monoSecs : Nat) :
    (∃ t, (w.migrate cfg now monoSecs).reconnectAt = some t ∧ t ≤ now) ↔
      (∃ t, w.reconnectAt = some t ∧ t ≤ now) ∨
        (w.reconnectAt = none ∧
          (migrationTarget w.rt cfg now monoSecs).isSome) := by
  unfold migrate
  cases scheduled : w.reconnectAt with
  | none =>
      cases target : migrationTarget w.rt cfg now monoSecs with
      | none =>
          simp [scheduled]
      | some target =>
          simp [observe]
  | some t =>
      simp [scheduled]

/-- A reconnect is due exactly under the condition on the state before. -/
theorem due_beforeReconnect
    (cfg : WorkerConfig)
    (w : Worker)
    (env : HousekeepingEnv) :
    (∃ t, (w.beforeReconnect cfg env).reconnectAt = some t ∧ t ≤ env.now) ↔
      w.ReconnectDue cfg env := by
  have routine := w.routine_beforePublication cfg env
  obtain ⟨quality, lastScore, history, scored⟩ :=
    (w.beforePublication cfg env).publishScore_update env.now
  rw [beforeReconnect, due_migrate, scored, ReconnectDue,
    ← expirePending_eq_nil_iff, ← pending_beforePublication,
    ← migrationTarget_beforePublication, ← routine.goaway,
    ← routine.reconnectAt]
  unfold goawayDrained
  split
  next drained =>
    exact iff_of_true (.inl ⟨env.now, rfl, le_refl _⟩) (.inr (.inl drained))
  next inUse =>
    rw [or_iff_right inUse]
    rfl

end Worker

/-- `connect_and_preamble` returns `Ok`. -/
def ConnectEnv.succeeds (env : ConnectEnv) : Bool :=
  env.connectOk && env.connectFlushOk && env.flushOk

namespace Worker

theorem connectAndPreamble_eq (w : Worker) (env : ConnectEnv) :
    w.connectAndPreamble env =
      ((w.connect env).1,
        if env.succeeds then some env.has0rtt else none) := by
  unfold connectAndPreamble connect ConnectEnv.succeeds
  by_cases connectOk : env.connectOk
  · by_cases connectFlushOk : env.connectFlushOk
    · by_cases flushOk : env.flushOk
      · simp [connectOk, connectFlushOk, flushOk]
      · simp [connectOk, connectFlushOk, flushOk]
    · simp [connectOk, connectFlushOk]
  · simp [connectOk]

/-- Closing and connecting alone do not make a worker ready. -/
theorem h3Ready_closed_connect
    (w : Worker)
    (env : ConnectEnv)
    (ready : (w.closed.connect env).1.h3Ready = true) :
    w.h3Ready = true := by
  have kept : (w.closed.connect env).1.h3Ready = w.closed.h3Ready := by
    unfold connect
    split <;> rfl
  rw [kept] at ready
  unfold closed at ready
  split at ready
  · cases ready
  · exact ready

/-- A successful reconnect is ready exactly if 0-RTT is. -/
theorem h3Ready_reconnect
    {w : Worker}
    {now : Instant}
    (env : ConnectEnv)
    (due : ∃ t, w.reconnectAt = some t ∧ t ≤ now) :
    (w.reconnect now env).h3Ready =
      if env.succeeds then
        env.has0rtt
      else
        (w.closed.connect env).1.h3Ready := by
  obtain ⟨t, scheduled, past⟩ := due
  generalize same : w.reconnect now env = result
  unfold reconnect at same
  split at same
  next unscheduled =>
    rw [scheduled] at unscheduled
    cases unscheduled
  next other found =>
    obtain rfl := Option.some.inj (scheduled.symm.trans found)
    rw [if_pos past] at same
    simp only at same
    -- both branches see the result of the same attempt
    have attempt := w.closed.connectAndPreamble_eq env
    split at same
    next reached ready outcome =>
      obtain ⟨rfl, ended⟩ := Prod.mk.inj (outcome.symm.trans attempt)
      split at ended
      next succeeds =>
        obtain rfl := Option.some.inj ended
        rw [← same, if_pos succeeds]
      · cases ended
    next reached outcome =>
      obtain ⟨rfl, ended⟩ := Prod.mk.inj (outcome.symm.trans attempt)
      split at ended
      · cases ended
      next failed =>
        rw [← same, if_neg failed]

/-! ## The queue while request streams can be opened -/

/-- While request streams can be opened, no query is parked. -/
def NothingParked (w : Worker) : Prop :=
  w.h3Ready = true → w.queue = []

/-- Draining parks nothing if it does not make the worker ready. -/
theorem NothingParked.kept
    {before after : Worker}
    (nothing : before.NothingParked)
    (drains : Drains cfg before after)
    (ready : after.h3Ready = true → before.h3Ready = true) :
    after.NothingParked :=
  fun isReady => drains.nil (nothing (ready isReady))

/-- A query is not parked while the connection is ready. -/
theorem nothingParked_drainDns
    {w : Worker}
    (nothing : w.NothingParked)
    (now : Instant)
    (peer : SocketAddr)
    (data : Bytes)
    (env : DispatchEnv) :
    (w.drainDns cfg now peer data env).NothingParked := by
  intro ready
  rw [(routine_drainDns cfg w now peer data env).h3Ready] at ready
  have empty := nothing ready
  unfold drainDns
  simp only
  split
  · split
    · exact (queue_sendServfail _ _).trans empty
    · split
      next handshaking =>
        simp [observe, ready] at handshaking
      · exact (queue_dispatchQuery now _ _ env).trans empty
  · exact empty

theorem nothingParked_handleQuicEvent
    {w : Worker}
    (nothing : w.NothingParked)
    (now : Instant)
    (event : QuicEvent) :
    (w.handleQuicEvent cfg now event).1.NothingParked := by
  cases event with
  | connected envs =>
      simp only [handleQuicEvent]
      split
      · exact nothing
      · intro _
        exact queue_flushLoop now envs rfl
  | connectionLost applicationClosed =>
      intro ready
      cases ready
  | readable stream chunks outcome =>
      refine nothing.kept (drains_handleQuicEvent now w _) ?_
      simp only [handleQuicEvent]
      split
      · exact id
      next conn connected =>
        have read := (routine_readStream connected stream chunks).h3Ready
        cases outcome with
        | blocked =>
            exact fun ready => read ▸ ready
        | error =>
            exact fun ready => read ▸ ready
        | eof =>
            exact fun ready => read ▸ ready
  | other =>
      exact nothing

theorem nothingParked_handleQuicEvents
    {w : Worker}
    (nothing : w.NothingParked)
    (now : Instant)
    (events : List QuicEvent) :
    (handleQuicEvents cfg now events w).1.NothingParked := by
  induction events generalizing w with
  | nil =>
      exact nothing
  | cons event rest inductionHypothesis =>
      exact inductionHypothesis (nothingParked_handleQuicEvent nothing now event)

theorem h3Ready_applyH3Event (now : Instant) (w : Worker) (event : H3Event) :
    (w.applyH3Event now event).h3Ready = w.h3Ready := by
  cases event with
  | response stream body =>
      simp only [applyH3Event]
      split <;> rfl
  | failed stream =>
      exact (w.routine_failRequest stream).h3Ready
  | goaway =>
      simp only [applyH3Event]
      split <;> rfl

theorem nothingParked_processQuicEvents
    {w : Worker}
    (nothing : w.NothingParked)
    (now : Instant)
    (events : List QuicEvent) :
    (w.processQuicEvents cfg now events).NothingParked := by
  have applied (events : List H3Event) (w : Worker) (nothing : w.NothingParked) :
      (events.foldl (applyH3Event now) w).NothingParked := by
    induction events generalizing w with
    | nil =>
        exact nothing
    | cons event rest inductionHypothesis =>
        have drains : Drains cfg w (w.applyH3Event now event) :=
          drains_applyH3Event now w event
        refine inductionHypothesis _ (nothing.kept drains ?_)
        exact fun ready => h3Ready_applyH3Event now w event ▸ ready
  exact applied _ _ (nothingParked_handleQuicEvents nothing now _)

/--
A housekeeping call that reconnects with 0-RTT finds no live query in the
queue.
-/
def NoParkedZeroRtt
    (cfg : WorkerConfig)
    (w : Worker)
    (action : Action) :
    Prop :=
  ∀ env, action = .housekeeping env → ¬ w.returned →
    w.ReconnectDue cfg env → env.connect.succeeds → env.connect.has0rtt →
      ∀ q ∈ w.queue, q.deadline ≤ env.now

/-- Housekeeping parks nothing exactly if a 0-RTT reconnect finds only overdue
queries. -/
theorem nothingParked_housekeeping_iff
    (cfg : WorkerConfig)
    {w : Worker}
    (nothing : w.NothingParked)
    (env : HousekeepingEnv) :
    (w.housekeeping cfg env).NothingParked ↔
      (w.ReconnectDue cfg env → env.connect.succeeds → env.connect.has0rtt →
        ∀ q ∈ w.queue, q.deadline ≤ env.now) := by
  have reconnects :
      w.housekeeping cfg env =
        (w.beforeReconnect cfg env).reconnect env.now env.connect :=
    rfl
  obtain ⟨queue, ready, -⟩ := w.beforeReconnect_holds cfg env
  have kept :
      (w.housekeeping cfg env).queue = (w.beforeReconnect cfg env).queue := by
    obtain ⟨_, _, _, _, _, _, _, _, same⟩ :=
      (w.beforeReconnect cfg env).reconnect_update env.now env.connect
    rw [reconnects, same]
  have emptied :
      (w.housekeeping cfg env).queue = [] ↔
        ∀ q ∈ w.queue, q.deadline ≤ env.now := by
    rw [kept, queue, List.dropWhile_eq_nil_iff]
    simp only [decide_eq_true_eq]
  -- If the call does not make the worker ready, it was ready before.
  have emptyBefore (wasReady : w.h3Ready = true) :
      (w.housekeeping cfg env).queue = [] := by
    rw [emptied, nothing wasReady]
    simp
  by_cases due : w.ReconnectDue cfg env
  · have readyAfter :=
      h3Ready_reconnect env.connect ((w.due_beforeReconnect cfg env).mpr due)
    rw [← reconnects] at readyAfter
    by_cases succeeds : env.connect.succeeds
    · rw [if_pos succeeds] at readyAfter
      rw [NothingParked, readyAfter, emptied]
      simp only [due, succeeds, forall_const]
    · rw [if_neg succeeds] at readyAfter
      refine iff_of_true ?_ fun _ success => absurd success succeeds
      intro isReady
      rw [readyAfter] at isReady
      exact emptyBefore (ready ▸ h3Ready_closed_connect _ _ isReady)
  · refine iff_of_true ?_ fun isDue => absurd isDue due
    intro isReady
    rcases (w.beforeReconnect cfg env).reconnect_cases env.now env.connect with
      ⟨same, _⟩ | ⟨isDue, _⟩
    · rw [reconnects, same, ready] at isReady
      exact emptyBefore isReady
    · exact absurd ((w.due_beforeReconnect cfg env).mp isDue) due

/-- Only housekeeping can make a worker ready with a query parked. -/
theorem nothingParked_step
    (cfg : WorkerConfig)
    {w : Worker}
    {action : Action}
    (nothing : w.NothingParked)
    (notHousekeeping : ∀ env, action ≠ .housekeeping env) :
    (w.step cfg action).NothingParked := by
  unfold step
  split
  · exact nothing
  · cases action with
    | datagram now peer data env =>
        exact nothingParked_drainDns nothing now peer data env
    | quicEvents now events =>
        exact nothingParked_processQuicEvents nothing now events
    | housekeeping env =>
        exact absurd rfl (notHousekeeping env)
    | drained now =>
        simp only [checkDrained]
        split
        · intro ready
          cases ready
        · exact nothing
    | shutdown =>
        intro ready
        rw [shutdown, w.routine_failAllPending.h3Ready] at ready
        exact w.failAllPending_frame.2.trans (nothing ready)

/-- A step parks a query of a ready worker only by a reconnect with 0-RTT. -/
theorem nothingParked_step_iff
    (cfg : WorkerConfig)
    (w : Worker)
    (action : Action)
    (nothing : w.NothingParked) :
    (w.step cfg action).NothingParked ↔ w.NoParkedZeroRtt cfg action := by
  by_cases isHousekeeping : ∃ env, action = .housekeeping env
  · obtain ⟨env, rfl⟩ := isHousekeeping
    unfold step
    split
    next returned =>
      exact iff_of_true nothing fun _ _ running => absurd returned running
    next running =>
      rw [nothingParked_housekeeping_iff cfg nothing]
      constructor
      · intro safe other same _
        cases same
        exact safe
      · intro safe
        exact safe env rfl running
  · have other (env : HousekeepingEnv) : action ≠ .housekeeping env :=
      fun same => isHousekeeping ⟨env, same⟩
    exact iff_of_true (nothingParked_step cfg nothing other)
      fun env same => absurd same (other env)

/--
In a run the queue is empty whenever request streams can be opened, exactly if
no reconnect with 0-RTT finds a live query in the queue.
-/
theorem nothingParked_run_iff
    (cfg : WorkerConfig)
    (set : UpstreamSet)
    (now : Instant)
    (has0rtt zeroRttOffered : Bool)
    (actions : List Action) :
    AllStates (step cfg) NothingParked
        (start cfg set now has0rtt zeroRttOffered) actions ↔
      AllSteps (step cfg) (NoParkedZeroRtt cfg)
        (start cfg set now has0rtt zeroRttOffered) actions :=
  allStates_iff_allSteps
    (fun _ _ (_ : True) => trivial)
    (fun w action _ nothing => nothingParked_step_iff cfg w action nothing)
    trivial (fun _ => rfl) actions

/--
A query is parked, the handshake is lost, and the next connection has 0-RTT.
-/
def zeroRttRun : List Action :=
  [.datagram 0 (localPeer 5000) rootQuery ⟨none, false, false⟩,
    .quicEvents (fromSecs 1) [.connectionLost false],
    .housekeeping
      ⟨fromSecs 1, 1, none, ⟨true, true, true, true, true⟩⟩]

/-- A 0-RTT reconnect leaves a queued query parked. -/
theorem not_nothingParked_zeroRttRun :
    ¬ AllStates (step plainConfig) NothingParked
      (start plainConfig oldSet 0 false false) zeroRttRun := by
  rintro ⟨_, _, _, nothing⟩
  have ready :
      ((start plainConfig oldSet 0 false false).run plainConfig
        zeroRttRun).h3Ready = true := by
    decide +kernel
  have parked :
      ((start plainConfig oldSet 0 false false).run plainConfig
        zeroRttRun).queue.length = 1 := by
    decide +kernel
  have empty :
      ((start plainConfig oldSet 0 false false).run plainConfig
        zeroRttRun).queue = [] :=
    nothing ready
  rw [empty] at parked
  cases parked

end Worker

end DnsServices.Microdoh3
