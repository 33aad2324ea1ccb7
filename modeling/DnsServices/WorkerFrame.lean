import DnsServices.WorkerMoves

namespace DnsServices.Microdoh3

/-!
# What the handling of queries leaves alone

Accepting, dispatching and failing queries changes neither the state of the
connection nor what the worker has measured.
-/

open Http3 Shared

/-- An observation that is no success, no sample and no migration. -/
def Observation.isRoutine : Observation → Bool
  | .response _ _ _ => false
  | .published _ => false
  | .migrated _ _ => false
  | _ => true

namespace Worker

/-- The connection, and the variables that follow it, are as before. -/
structure SameLink (before after : Worker) : Prop where
  conn : after.conn.isSome = before.conn.isSome
  /-- Streams are registered on a connection only. -/
  h3 : before.conn = none → after.h3 = before.h3
  goaway : after.goaway = before.goaway
  h3Ready : after.h3Ready = before.h3Ready
  reconnectAt : after.reconnectAt = before.reconnectAt

namespace SameLink

/-- Variables that do not follow the connection may be set freely. -/
theorem update
    (w : Worker)
    {zeroRttOffered returned : Bool}
    {pending : AList fun _ : StreamId => Pending}
    {queue : List QueuedQuery}
    {backoff : Duration}
    {rt : Runtime}
    {accepted connections : Nat}
    {history : List Observation} :
    SameLink w
      { w with
        zeroRttOffered := zeroRttOffered
        pending := pending
        queue := queue
        backoff := backoff
        rt := rt
        returned := returned
        accepted := accepted
        connections := connections
        history := history } :=
  ⟨rfl, fun _ => rfl, rfl, rfl, rfl⟩

theorem refl (w : Worker) : SameLink w w :=
  update w

theorem trans
    {first second third : Worker}
    (earlier : SameLink first second)
    (later : SameLink second third) :
    SameLink first third where
  conn := later.conn.trans earlier.conn
  h3 := by
    intro disconnected
    have still : second.conn = none := by
      rw [← Option.not_isSome_iff_eq_none, earlier.conn, disconnected]
      exact Bool.false_ne_true
    exact (later.h3 still).trans (earlier.h3 disconnected)
  goaway := later.goaway.trans earlier.goaway
  h3Ready := later.h3Ready.trans earlier.h3Ready
  reconnectAt := later.reconnectAt.trans earlier.reconnectAt

end SameLink

/--
The measurement and its address are as before; nothing was published and no
connection was dialled.
-/
structure SameScore (before after : Worker) : Prop where
  dialled : after.conn.isSome → before.conn.isSome
  ewmaUs : after.rt.quality.ewmaUs = before.rt.quality.ewmaUs
  myRemote : after.rt.myRemote = before.rt.myRemote
  lastScore : after.rt.lastScore = before.rt.lastScore
  connections : after.connections = before.connections
  history :
    ∃ added, after.history = before.history ++ added ∧
      ∀ observation ∈ added, observation.isRoutine

namespace SameScore

/-- The variables are as before and nothing was observed. -/
theorem silent
    {before after : Worker}
    (dialled : after.conn.isSome → before.conn.isSome)
    (ewmaUs : after.rt.quality.ewmaUs = before.rt.quality.ewmaUs)
    (myRemote : after.rt.myRemote = before.rt.myRemote)
    (lastScore : after.rt.lastScore = before.rt.lastScore)
    (connections : after.connections = before.connections)
    (history : after.history = before.history) :
    SameScore before after :=
  ⟨dialled, ewmaUs, myRemote, lastScore, connections, [],
    by rw [history, List.append_nil], by simp⟩

/-- Variables without a measurement may be set freely. -/
theorem update
    (w : Worker)
    {zeroRttOffered goaway h3Ready returned : Bool}
    {h3 : H3}
    {pending : AList fun _ : StreamId => Pending}
    {queue : List QueuedQuery}
    {reconnectAt : Option Instant}
    {backoff : Duration}
    {failStreak failed accepted : Nat} :
    SameScore w
      { w with
        zeroRttOffered := zeroRttOffered
        h3 := h3
        pending := pending
        queue := queue
        goaway := goaway
        h3Ready := h3Ready
        reconnectAt := reconnectAt
        backoff := backoff
        rt.failStreak := failStreak
        rt.quality.failed := failed
        returned := returned
        accepted := accepted } :=
  silent id rfl rfl rfl rfl rfl

theorem refl (w : Worker) : SameScore w w :=
  update w

theorem trans
    {first second third : Worker}
    (earlier : SameScore first second)
    (later : SameScore second third) :
    SameScore first third where
  dialled := earlier.dialled ∘ later.dialled
  ewmaUs := later.ewmaUs.trans earlier.ewmaUs
  myRemote := later.myRemote.trans earlier.myRemote
  lastScore := later.lastScore.trans earlier.lastScore
  connections := later.connections.trans earlier.connections
  history := by
    obtain ⟨added, sameFirst, routineFirst⟩ := earlier.history
    obtain ⟨more, sameSecond, routineSecond⟩ := later.history
    refine ⟨added ++ more, ?_, ?_⟩
    · rw [sameSecond, sameFirst, List.append_assoc]
    · intro observation member
      rcases List.mem_append.mp member with inAdded | inMore
      · exact routineFirst observation inAdded
      · exact routineSecond observation inMore

end SameScore

/-- Only queries were handled. -/
structure Routine (before after : Worker) : Prop extends
    SameLink before after, SameScore before after

namespace Routine

theorem refl (w : Worker) : Routine w w :=
  ⟨.refl w, .refl w⟩

theorem trans
    {first second third : Worker}
    (earlier : Routine first second)
    (later : Routine second third) :
    Routine first third :=
  ⟨earlier.toSameLink.trans later.toSameLink,
    earlier.toSameScore.trans later.toSameScore⟩

/-- A loop whose body only handles queries only handles queries. -/
theorem foldl
    {α : Type}
    {body : Worker → α → Worker}
    (each : ∀ w item, Routine w (body w item))
    (items : List α)
    (w : Worker) :
    Routine w (items.foldl body w) := by
  induction items generalizing w with
  | nil =>
      exact .refl w
  | cons item rest inductionHypothesis =>
      exact (each w item).trans (inductionHypothesis _)

end Routine

theorem routine_observe
    (w : Worker)
    (observation : Observation)
    (isRoutine : observation.isRoutine) :
    Routine w (w.observe observation) :=
  ⟨.update _,
    ⟨id, rfl, rfl, rfl, rfl, [observation], rfl, by simpa using isRoutine⟩⟩

theorem routine_queue (w : Worker) (queue : List QueuedQuery) :
    Routine w { w with queue := queue } :=
  ⟨.update _, .update _⟩

theorem routine_pending
    (w : Worker)
    (pending : AList fun _ : StreamId => Pending) :
    Routine w { w with pending := pending } :=
  ⟨.update _, .update _⟩

theorem routine_sendServfail (w : Worker) (query : AcceptedQuery) :
    Routine w (w.sendServfail query) := by
  unfold sendServfail
  split
  · exact w.routine_observe _ rfl
  · exact .refl w

theorem routine_onFailure_sendServfail (w : Worker) (query : AcceptedQuery) :
    Routine w (w.onFailure.sendServfail query) := by
  have counted : Routine w w.onFailure :=
    ⟨.update _, .update _⟩
  exact counted.trans (w.onFailure.routine_sendServfail query)

theorem routine_register
    {w : Worker}
    {conn : Connection}
    (connected : w.conn = some conn)
    (stream : StreamId)
    (request : Bytes)
    (entry : Pending) :
    Routine w (w.register conn stream request entry) := by
  rw [register_eq]
  refine ⟨⟨rfl, ?_, rfl, rfl, rfl⟩,
    ⟨id, rfl, rfl, rfl, rfl, w.replaced stream ++ [_],
      List.append_assoc _ _ _, ?_⟩⟩
  · intro disconnected
    rw [connected] at disconnected
    cases disconnected
  · intro observation member
    rcases List.mem_append.mp member with old | new
    · obtain ⟨serial, rfl⟩ := eq_overwritten_of_mem_replaced old
      rfl
    · rw [List.mem_singleton.mp new]
      rfl

/-- Dispatching a query is routine work. -/
theorem routine_dispatchQuery
    (cfg : WorkerConfig)
    (now : Instant)
    (w : Worker)
    (query : AcceptedQuery)
    (env : DispatchEnv) :
    Routine w (w.dispatchQuery cfg now query env) := by
  unfold dispatchQuery
  split
  · exact w.routine_onFailure_sendServfail query
  next stream opened result =>
    obtain ⟨conn, connected, _, _, rfl⟩ := openBi_eq_some result
    have opening :
        Routine w
          { w with
            conn := some { conn with opened := stream :: conn.opened } } := by
      have isSome : w.conn.isSome := by
        rw [connected]
        rfl
      exact ⟨⟨isSome.symm, fun _ => rfl, rfl, rfl, rfl⟩,
        .silent (fun _ => isSome) rfl rfl rfl rfl rfl⟩
    simp only
    split
    · exact opening.trans (routine_sendServfail _ query)
    · split
      · exact opening.trans (routine_onFailure_sendServfail _ query)
      · exact opening.trans (routine_register rfl _ _ _)

theorem routine_flushLoop
    (cfg : WorkerConfig)
    (now : Instant)
    (queue : List QueuedQuery)
    (envs : List DispatchEnv)
    (w : Worker) :
    Routine w (flushLoop cfg now queue envs w) := by
  induction queue generalizing envs w with
  | nil =>
      exact .refl w
  | cons q rest inductionHypothesis =>
      have popped : Routine w { w with queue := rest } :=
        w.routine_queue rest
      rw [flushLoop]
      split
      · exact (popped.trans (routine_onFailure_sendServfail _ _)).trans
          (inductionHypothesis envs _)
      · exact (popped.trans (routine_dispatchQuery cfg now _ _ _)).trans
          (inductionHypothesis envs.tail _)

theorem routine_drainDns
    (cfg : WorkerConfig)
    (w : Worker)
    (now : Instant)
    (peer : SocketAddr)
    (data : Bytes)
    (env : DispatchEnv) :
    Routine w (w.drainDns cfg now peer data env) := by
  unfold drainDns
  simp only
  split
  next valid =>
    have counted : Routine w { w with accepted := w.accepted + 1 } :=
      ⟨.update _, .update _⟩
    have accepted :=
      counted.trans
        (routine_observe _
          (.accepted w.accepted (data.take maxDnsLen) peer) rfl)
    refine accepted.trans ?_
    split
    · exact routine_onFailure_sendServfail _ _
    · split
      · split
        · exact routine_onFailure_sendServfail _ _
        · exact routine_queue _ _
      · exact routine_dispatchQuery cfg now _ _ env
  · exact .refl w

theorem routine_failAllPending (w : Worker) : Routine w w.failAllPending :=
  (w.routine_pending ∅).trans
    (.foldl (fun w _ => w.routine_onFailure_sendServfail _) _ _)

theorem routine_failRequest (w : Worker) (stream : StreamId) :
    Routine w (w.failRequest stream) := by
  unfold failRequest
  split
  · exact .refl w
  next p found =>
    exact (w.routine_pending _).trans (routine_onFailure_sendServfail _ _)

theorem routine_expirePending (w : Worker) (now : Instant) :
    Routine w (w.expirePending now) :=
  .foldl routine_failRequest _ w

theorem routine_expireQueue
    (now : Instant)
    (queue : List QueuedQuery)
    (w : Worker) :
    Routine w (expireQueue now queue w) := by
  induction queue generalizing w with
  | nil =>
      exact .refl w
  | cons q rest inductionHypothesis =>
      rw [expireQueue]
      split
      · exact ((w.routine_queue rest).trans
          (routine_onFailure_sendServfail _ _)).trans (inductionHypothesis _)
      · exact .refl w

/-- Adopting a set changes the weights, not the address in use. -/
theorem routine_adopt
    (w : Worker)
    (cfg : WorkerConfig)
    (now : Instant)
    (published : Option UpstreamSet) :
    Routine w { w with rt := w.rt.adopt cfg now published } := by
  have kept :
      (w.rt.adopt cfg now published).quality = w.rt.quality ∧
        (w.rt.adopt cfg now published).myRemote = w.rt.myRemote ∧
        (w.rt.adopt cfg now published).lastScore = w.rt.lastScore := by
    unfold Runtime.adopt
    cases published with
    | none =>
        exact ⟨rfl, rfl, rfl⟩
    | some set =>
        simp only
        split <;> exact ⟨rfl, rfl, rfl⟩
  obtain ⟨quality, myRemote, lastScore⟩ := kept
  exact ⟨.update _,
    .silent id (congrArg Quality.ewmaUs quality) myRemote lastScore rfl rfl⟩

/-- The worker in a housekeeping call when it comes to its score. -/
def beforePublication
    (cfg : WorkerConfig)
    (w : Worker)
    (env : HousekeepingEnv) :
    Worker :=
  let w := w.expirePending env.now
  let w := { w with rt := w.rt.adopt cfg env.now env.published }
  expireQueue env.now w.queue w

/-- Housekeeping publishes, checks for a drained connection, migrates and
reconnects, in this order. -/
theorem housekeeping_eq
    (cfg : WorkerConfig)
    (w : Worker)
    (env : HousekeepingEnv) :
    w.housekeeping cfg env =
      ((((w.beforePublication cfg env).publishScore env.now).goawayDrained
        env.now).migrate cfg env.now env.monoSecs).reconnect env.now
          env.connect :=
  rfl

/-- What housekeeping does before the publication is routine work. -/
theorem routine_beforePublication
    (cfg : WorkerConfig)
    (w : Worker)
    (env : HousekeepingEnv) :
    Routine w (w.beforePublication cfg env) :=
  ((w.routine_expirePending env.now).trans
    (routine_adopt _ cfg env.now env.published)).trans
    (routine_expireQueue env.now _ _)

/-! ## The variables that the later parts of housekeeping set -/

/-- Publishing changes the quality, the last score time and the history. -/
theorem publishScore_update (w : Worker) (now : Instant) :
    ∃ quality lastScore history,
      w.publishScore now =
        { w with
          rt.quality := quality
          rt.lastScore := lastScore
          history := history } := by
  unfold publishScore
  split <;> exact ⟨_, _, _, rfl⟩

/-- The check for a drained connection only schedules a reconnect. -/
theorem goawayDrained_update (w : Worker) (now : Instant) :
    ∃ reconnectAt,
      w.goawayDrained now = { w with reconnectAt := reconnectAt } := by
  unfold goawayDrained
  split <;> exact ⟨_, rfl⟩

/-- Migrating changes the run-time state, the reconnect time and the history. -/
theorem migrate_update
    (cfg : WorkerConfig)
    (w : Worker)
    (now : Instant)
    (monoSecs : Nat) :
    ∃ rt reconnectAt history,
      w.migrate cfg now monoSecs =
        { w with
          rt := rt
          reconnectAt := reconnectAt
          history := history } := by
  unfold migrate
  split <;> exact ⟨_, _, _, rfl⟩

/-- Reconnecting changes the connection and what belongs to it. -/
theorem reconnect_update (w : Worker) (now : Instant) (env : ConnectEnv) :
    ∃ conn zeroRttOffered h3 goaway h3Ready reconnectAt failStreak connections,
      w.reconnect now env =
        { w with
          conn := conn
          zeroRttOffered := zeroRttOffered
          h3 := h3
          goaway := goaway
          h3Ready := h3Ready
          reconnectAt := reconnectAt
          rt.failStreak := failStreak
          connections := connections } := by
  have attempted :
      ∃ conn zeroRttOffered h3 goaway h3Ready connections,
        (w.closed.connect env).1 =
          { w with
            conn := conn
            zeroRttOffered := zeroRttOffered
            h3 := h3
            goaway := goaway
            h3Ready := h3Ready
            connections := connections } := by
    unfold connect closed
    split <;> split <;> exact ⟨_, _, _, _, _, _, rfl⟩
  obtain ⟨conn, offered, h3, goaway, ready, connections, attempt⟩ := attempted
  rcases w.reconnect_cases now env with
    ⟨same, _⟩ | ⟨_, ⟨_, same⟩ | same⟩
  · exact ⟨_, _, _, _, _, _, _, _, same⟩
  · rw [same, attempt]
    exact ⟨_, _, _, _, _, _, _, _, rfl⟩
  · rw [same, attempt]
    exact ⟨_, _, _, _, _, _, _, _, rfl⟩

/-- Reading a stream of the connection changes that stream alone. -/
theorem routine_readStream
    {w : Worker}
    {conn : Connection}
    (connected : w.conn = some conn)
    (stream : StreamId)
    (chunks : List Bytes) :
    Routine w (w.readStream conn stream chunks).1 := by
  induction chunks generalizing w with
  | nil =>
      exact .refl w
  | cons chunk rest inductionHypothesis =>
      rw [readStream]
      have fed :
          Routine w { w with h3 := (w.h3.feed stream chunk).1 } := by
        refine ⟨⟨rfl, ?_, rfl, rfl, rfl⟩, .update _⟩
        intro disconnected
        rw [connected] at disconnected
        cases disconnected
      exact (fed.trans (routine_observe _ _ rfl)).trans
        (inductionHypothesis connected)

/-! ## Steps -/

theorem sameScore_dropConnection (w : Worker) :
    SameScore w w.dropConnection :=
  w.routine_failAllPending.toSameScore.trans
    (.silent nofun rfl rfl rfl rfl rfl)

/-- No event of the QUIC connection measures anything by itself. -/
theorem sameScore_handleQuicEvent
    (cfg : WorkerConfig)
    (now : Instant)
    (w : Worker)
    (event : QuicEvent) :
    SameScore w (w.handleQuicEvent cfg now event).1 := by
  cases event with
  | connected envs =>
      simp only [handleQuicEvent]
      split
      · exact .update _
      · refine SameScore.trans ?_
          (routine_flushLoop cfg now _ envs _).toSameScore
        exact .update _
  | connectionLost applicationClosed =>
      have counted :
          SameScore w
            { w with
              rt.failStreak :=
                if applicationClosed then 0
                else saturatingSucc w.rt.failStreak } :=
        .update _
      exact (counted.trans (sameScore_dropConnection _)).trans
        (.update _)
  | readable stream chunks outcome =>
      simp only [handleQuicEvent]
      split
      · exact .update _
      next conn connected =>
        have read := (routine_readStream connected stream chunks).toSameScore
        cases outcome with
        | blocked =>
            exact read
        | error =>
            exact read.trans (.update _)
        | eof =>
            exact read.trans (.update _)
  | other =>
      exact .refl w

theorem sameScore_handleQuicEvents
    (cfg : WorkerConfig)
    (now : Instant)
    (events : List QuicEvent)
    (w : Worker) :
    SameScore w (handleQuicEvents cfg now events w).1 := by
  induction events generalizing w with
  | nil =>
      exact .refl w
  | cons event rest inductionHypothesis =>
      exact (sameScore_handleQuicEvent cfg now w event).trans
        (inductionHypothesis _)

/-- Only QUIC events and housekeeping measure, publish or connect. -/
theorem step_cases (cfg : WorkerConfig) (w : Worker) (action : Action) :
    (SameScore w (w.step cfg action) ∧
      (¬ w.returned → ∀ env, action ≠ .housekeeping env)) ∨
      (∃ now events,
        action = .quicEvents now events ∧ ¬ w.returned ∧ w.conn.isSome ∧
          w.step cfg action = w.processQuicEvents cfg now events) ∨
      ∃ env,
        action = .housekeeping env ∧ ¬ w.returned ∧
          w.step cfg action = w.housekeeping cfg env := by
  unfold step
  split
  next returned =>
    exact .inl ⟨.refl w, fun running => absurd returned running⟩
  next running =>
    cases action with
    | datagram now peer data env =>
        refine .inl ⟨(routine_drainDns cfg w now peer data env).toSameScore, ?_⟩
        intro _ env same
        cases same
    | quicEvents now events =>
        by_cases connected : w.conn.isSome
        · exact .inr (.inl ⟨now, events, rfl, running, connected, rfl⟩)
        · have same : w.processQuicEvents cfg now events = w := by
            simp [processQuicEvents, connected, handleQuicEvents]
          simp only [same]
          refine .inl ⟨.refl w, ?_⟩
          intro _ env same
          cases same
    | housekeeping env =>
        exact .inr (.inr ⟨env, rfl, running, rfl⟩)
    | drained now =>
        refine .inl ⟨?_, ?_⟩
        · simp only [checkDrained]
          split
          · have counted :
                SameScore w
                  { w with
                    rt.failStreak := saturatingSucc w.rt.failStreak } :=
              .update _
            have dropped := counted.trans (sameScore_dropConnection _)
            exact dropped.trans (.update _)
          · exact .refl w
        · intro _ env same
          cases same
    | shutdown =>
        refine .inl ⟨w.routine_failAllPending.toSameScore.trans
          (.update _), ?_⟩
        intro _ env same
        cases same

end Worker

end DnsServices.Microdoh3
