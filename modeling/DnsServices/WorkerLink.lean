import DnsServices.WorkerFrame
import DnsServices.WorkerLoss

namespace DnsServices.Microdoh3

/-!
# The connection of a worker and the variables that follow it

`reconnect_at`, `h3_ready`, `goaway` and the H3 state are assigned by hand
wherever a connection is set up or torn down.  In every reachable state they
agree with the connection, so a disconnected worker has a reconnect scheduled.
-/

open Http3 Shared

/-- `ConnectionLost` is the last event that a connection delivers. -/
def EndsAtLoss : List QuicEvent → Prop
  | [] => True
  | .connectionLost _ :: rest => rest = []
  | _ :: rest => EndsAtLoss rest

/-- The QUIC library delivers nothing after `ConnectionLost`. -/
def Action.EndsAtLoss : Action → Prop
  | .quicEvents _ events => Microdoh3.EndsAtLoss events
  | _ => True

namespace Worker

/-- The connection and the variables that follow it agree. -/
structure Linked (w : Worker) : Prop where
  disconnected :
    w.conn = none →
      w.reconnectAt.isSome ∧ w.h3Ready = false ∧ w.goaway = false ∧
        ∀ stream, w.h3.streams stream = none
  connected : w.h3Ready ∨ w.goaway → w.conn.isSome

/-- It is enough to look at a worker without a connection. -/
theorem linked_of_disconnected
    {w : Worker}
    (disconnected :
      w.conn = none →
        w.reconnectAt.isSome ∧ w.h3Ready = false ∧ w.goaway = false ∧
          ∀ stream, w.h3.streams stream = none) :
    w.Linked := by
  refine ⟨disconnected, fun used => ?_⟩
  by_contra notSome
  obtain ⟨_, notReady, noGoaway, _⟩ :=
    disconnected (Option.not_isSome_iff_eq_none.mp notSome)
  rw [notReady, noGoaway] at used
  simp at used

/-- With a connection there is nothing to show. -/
theorem linked_of_isSome {w : Worker} (connected : w.conn.isSome) :
    w.Linked := by
  refine linked_of_disconnected fun disconnected => ?_
  rw [disconnected] at connected
  cases connected

/-- What leaves the connection leaves the worker linked. -/
theorem SameLink.linked
    {before after : Worker}
    (same : SameLink before after)
    (linked : before.Linked) :
    after.Linked := by
  refine linked_of_disconnected fun disconnected => ?_
  have earlier : before.conn = none := by
    rw [← Option.not_isSome_iff_eq_none, ← same.conn, disconnected]
    exact Bool.false_ne_true
  rw [same.reconnectAt, same.h3Ready, same.goaway, same.h3 earlier]
  exact linked.disconnected earlier

/-- A connection is torn down completely once a reconnect is scheduled. -/
theorem linked_dropConnection (w : Worker) (backoff : Duration) (t : Instant) :
    { w.dropConnection with
      reconnectAt := some t
      backoff := backoff }.Linked :=
  linked_of_disconnected fun _ => ⟨rfl, rfl, rfl, fun _ => rfl⟩

/-! ## QUIC events -/

/-- Only `ConnectionLost` takes the connection away. -/
theorem isSome_handleQuicEvent
    (cfg : WorkerConfig)
    (now : Instant)
    {w : Worker}
    (connected : w.conn.isSome)
    {event : QuicEvent}
    (notLost : ∀ closed, event ≠ .connectionLost closed) :
    (w.handleQuicEvent cfg now event).1.conn.isSome := by
  cases event with
  | connected envs =>
      simp only [handleQuicEvent]
      split
      · exact connected
      · rw [flushQueue, (routine_flushLoop cfg now _ envs _).conn]
        exact connected
  | connectionLost applicationClosed =>
      exact absurd rfl (notLost applicationClosed)
  | readable stream chunks outcome =>
      obtain ⟨conn, same⟩ := Option.isSome_iff_exists.mp connected
      have read : (w.readStream conn stream chunks).1.conn.isSome := by
        rw [(routine_readStream same stream chunks).conn]
        exact connected
      simp only [handleQuicEvent, same]
      cases outcome <;> exact read
  | other =>
      exact connected

/-- A batch leaves the worker connected, or ends by dropping the connection. -/
theorem linked_handleQuicEvents
    (cfg : WorkerConfig)
    (now : Instant)
    {w : Worker}
    (connected : w.conn.isSome)
    {events : List QuicEvent}
    (endsAtLoss : EndsAtLoss events) :
    (handleQuicEvents cfg now events w).1.Linked := by
  induction events generalizing w with
  | nil =>
      exact linked_of_isSome connected
  | cons event rest inductionHypothesis =>
      rw [handleQuicEvents]
      cases event with
      | connectionLost applicationClosed =>
          obtain rfl : rest = [] := endsAtLoss
          exact linked_dropConnection _ _ _
      | _ =>
          refine inductionHypothesis
            (isSome_handleQuicEvent cfg now connected ?_) endsAtLoss
          intro closed lost
          cases lost

/-- H3 events of a lost connection change nothing that follows it. -/
theorem linked_applyH3Event
    (now : Instant)
    {w : Worker}
    (linked : w.Linked)
    (event : H3Event) :
    (w.applyH3Event now event).Linked := by
  cases event with
  | response stream body =>
      have same :
          SameLink w (w.applyH3Event now (.response stream body)) := by
        simp only [applyH3Event]
        split
        · exact .refl w
        · exact .update _
      exact same.linked linked
  | failed stream =>
      exact (w.routine_failRequest stream).toSameLink.linked linked
  | goaway =>
      simp only [applyH3Event]
      split
      next connected =>
        exact linked_of_isSome connected
      · exact linked

/-- Events of which nothing follows the loss keep the worker linked. -/
theorem linked_processQuicEvents
    (cfg : WorkerConfig)
    (now : Instant)
    {w : Worker}
    (linked : w.Linked)
    {events : List QuicEvent}
    (endsAtLoss : EndsAtLoss events) :
    (w.processQuicEvents cfg now events).Linked := by
  have applied (h3Events : List H3Event) {w : Worker} (linked : w.Linked) :
      (h3Events.foldl (applyH3Event now) w).Linked := by
    induction h3Events generalizing w with
    | nil =>
        exact linked
    | cons event rest inductionHypothesis =>
        exact inductionHypothesis (linked_applyH3Event now linked event)
  unfold processQuicEvents
  split
  next connected =>
    exact applied _ (linked_handleQuicEvents cfg now connected endsAtLoss)
  · exact applied _ linked

/-! ## Housekeeping -/

/-- Scheduling a reconnect keeps the variables in agreement. -/
theorem Linked.schedule
    {w : Worker}
    (linked : w.Linked)
    (rt : Runtime)
    (t : Instant) :
    { w with rt := rt, reconnectAt := some t }.Linked := by
  refine linked_of_disconnected fun disconnected => ?_
  exact ⟨rfl, (linked.disconnected disconnected).2⟩

/-- A linked worker that closes has no stream, no GOAWAY and no ready
connection. -/
theorem linked_closed
    {w : Worker}
    (linked : w.Linked) :
    w.closed.h3Ready = false ∧ w.closed.goaway = false ∧
      ∀ stream, w.closed.h3.streams stream = none := by
  unfold closed
  split
  · exact ⟨rfl, rfl, fun _ => rfl⟩
  next notSome =>
    exact (linked.disconnected (Option.not_isSome_iff_eq_none.mp notSome)).2

/-- A reconnect leaves a connection, or another reconnect and nothing else. -/
theorem linked_reconnect
    {w : Worker}
    (linked : w.Linked)
    (now : Instant)
    (env : ConnectEnv) :
    (w.reconnect now env).Linked := by
  rcases w.reconnect_cases now env with
    ⟨same, _⟩ | ⟨_, ⟨connectOk, same⟩ | same⟩
  · rw [same]
    exact linked
  · rw [same]
    refine linked_of_isSome ?_
    simp [connect, connectOk]
  · rw [same]
    refine linked_of_disconnected fun disconnected => ⟨rfl, ?_⟩
    -- the error may come after the connection was made
    have notMade : ¬ env.connectOk := by
      intro connectOk
      simp [connect, connectOk] at disconnected
    simpa [connect, notMade] using linked_closed linked

/-- Housekeeping keeps the worker linked. -/
theorem linked_housekeeping
    (cfg : WorkerConfig)
    {w : Worker}
    (linked : w.Linked)
    (env : HousekeepingEnv) :
    (w.housekeeping cfg env).Linked := by
  have expired : (w.beforePublication cfg env).Linked :=
    (w.routine_beforePublication cfg env).toSameLink.linked linked
  have published (w : Worker) (linked : w.Linked) :
      (w.publishScore env.now).Linked := by
    obtain ⟨_, _, _, same⟩ := w.publishScore_update env.now
    rw [same]
    exact (SameLink.update w).linked linked
  have drained (w : Worker) (linked : w.Linked) :
      (w.goawayDrained env.now).Linked := by
    unfold goawayDrained
    split
    · exact linked.schedule w.rt env.now
    · exact linked
  have migrated (w : Worker) (linked : w.Linked) :
      (w.migrate cfg env.now env.monoSecs).Linked := by
    unfold migrate
    split
    · exact linked_of_disconnected fun disconnected =>
        ⟨rfl, (linked.disconnected disconnected).2⟩
    · exact linked
  rw [housekeeping_eq]
  exact linked_reconnect
    (migrated _ (drained _ (published _ expired))) env.now env.connect

/-! ## Runs -/

/-- Every step keeps the connection and its variables in agreement. -/
theorem linked_step
    (cfg : WorkerConfig)
    {w : Worker}
    (linked : w.Linked)
    {action : Action}
    (endsAtLoss : action.EndsAtLoss) :
    (w.step cfg action).Linked := by
  unfold step
  split
  · exact linked
  · cases action with
    | datagram now peer data env =>
        exact (routine_drainDns cfg w now peer data env).toSameLink.linked
          linked
    | quicEvents now events =>
        exact linked_processQuicEvents cfg now linked endsAtLoss
    | housekeeping env =>
        exact linked_housekeeping cfg linked env
    | drained now =>
        simp only [checkDrained]
        split
        · exact linked_dropConnection _ _ _
        · exact linked
    | shutdown =>
        have failed := w.routine_failAllPending.toSameLink.linked linked
        exact ⟨failed.disconnected, failed.connected⟩

/--
In every reachable state the connection and its variables agree: a worker
without a connection has a reconnect scheduled and nothing left of the old one.
-/
theorem linked_run
    (cfg : WorkerConfig)
    (set : UpstreamSet)
    (now : Instant)
    (has0rtt zeroRttOffered : Bool)
    {actions : List Action}
    (endsAtLoss : ∀ action ∈ actions, action.EndsAtLoss) :
    ((start cfg set now has0rtt zeroRttOffered).run cfg actions).Linked := by
  have kept (w : Worker) (linked : w.Linked) : (w.run cfg actions).Linked := by
    induction actions generalizing w with
    | nil =>
        exact linked
    | cons action rest inductionHypothesis =>
        rw [List.forall_mem_cons] at endsAtLoss
        exact inductionHypothesis endsAtLoss.2 _
          (linked_step cfg linked endsAtLoss.1)
  exact kept _ (linked_of_isSome rfl)

/-- The connection is lost and the next attempt fails. -/
def lostRun : List Action :=
  [.quicEvents 0 [.connected []],
    .quicEvents (fromSecs 1) [.other, .connectionLost false],
    .housekeeping
      ⟨fromSecs 1, 1, none, ⟨false, false, false, false, false⟩⟩]

/-- Without a connection nothing of it is left. -/
theorem linked_lostRun :
    (∀ action ∈ lostRun, action.EndsAtLoss) ∧
      ((start plainConfig oldSet 0 false false).run plainConfig
        lostRun).conn = none ∧
      ((start plainConfig oldSet 0 false false).run plainConfig
        lostRun).Linked := by
  have endsAtLoss : ∀ action ∈ lostRun, action.EndsAtLoss := by
    simp [lostRun, Action.EndsAtLoss, EndsAtLoss]
  exact ⟨endsAtLoss, by decide +kernel,
    linked_run plainConfig oldSet 0 false false endsAtLoss⟩

end Worker

end DnsServices.Microdoh3
