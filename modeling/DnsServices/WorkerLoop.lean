import DnsServices.WorkerTimeout

namespace DnsServices.Microdoh3

/-!
# The event loop of a worker

Each turn of `run` arms the timer to the earliest deadline, waits for events,
reads the clock once and handles the batch.  A turn is a list of actions at one
time, so what holds over runs of actions holds over runs of turns; what is new
is the timer: nothing that a worker waits for is kept waiting by the poll.
-/

open Http3 Shared Runs

/-- One entry of the batch that `wait` returns, with what it brings along. -/
inductive LoopEvent where
  /-- The datagrams that are read until the socket would block. -/
  | dns (datagrams : List (SocketAddr × Bytes × DispatchEnv))
  | quic (events : List QuicEvent)
  /-- Whether `handle_timeout` succeeds, and what housekeeping reads. -/
  | timer
      (timeoutOk : Bool)
      (monoSecs : Nat)
      (published : Option UpstreamSet)
      (connect : ConnectEnv)
  /-- Whether a byte was read from the self-pipe. -/
  | signal (signaled : Bool)
  deriving Repr, DecidableEq

namespace LoopEvent

/-- What the handler of an event does to the worker. -/
def actions (now : Instant) : LoopEvent → List Action
  | .dns datagrams =>
      datagrams.map fun (peer, data, env) => .datagram now peer data env
  | .quic events =>
      [.quicEvents now events]
  | .timer _ monoSecs published connect =>
      [.housekeeping ⟨now, monoSecs, published, connect⟩]
  | .signal _ =>
      []

/-- `handle_timeout` returns an error, and with it `run`. -/
def fails : LoopEvent → Bool
  | .timer timeoutOk _ _ _ => !timeoutOk
  | _ => false

/-- A shutdown signal arrived. -/
def stops : LoopEvent → Bool
  | .signal signaled => signaled
  | _ => false

/-- The event of the timer. -/
def isTimer : LoopEvent → Bool
  | .timer _ _ _ _ => true
  | _ => false

end LoopEvent

/-- What one turn of the loop gets from outside. -/
structure WorkerTurn where
  /-- The result of `next_timeout`. -/
  quicTimeout : Option Instant
  /-- The time that `arm_timer` reads. -/
  armedAt : Instant
  /-- Whether both `arm_timer` and `wait` succeed. -/
  pollOk : Bool
  /-- The time that is read after `wait`. -/
  wokeAt : Instant
  events : List LoopEvent
  /-- The result of `is_drained`. -/
  drained : Bool
  deriving Repr, DecidableEq

namespace WorkerTurn

/-- The turn ends `run` with an error. -/
def fails (turn : WorkerTurn) : Bool :=
  !turn.pollOk || turn.events.any LoopEvent.fails

/-- The actions of a turn, in order; an error leaves the rest of them out. -/
def actions (turn : WorkerTurn) : List Action :=
  if turn.pollOk then
    (turn.events.takeWhile (!·.fails)).flatMap (·.actions turn.wokeAt) ++
      if turn.fails then
        []
      else
        (if turn.drained then [.drained turn.wokeAt] else []) ++
          -- the batch is handled to its end before the loop is left
          if turn.events.any LoopEvent.stops then [.shutdown] else []
  else
    []

end WorkerTurn

/-- `next.map_or(t, |n| n.min(t))`. -/
def earlier (next : Option Instant) (t : Instant) : Option Instant :=
  some (next.elim t fun n => min n t)

/-- The earliest deadline at the head of the loop. -/
def Worker.nextDeadline
    (w : Worker)
    (quicTimeout : Option Instant) :
    Option Instant :=
  let next := quicTimeout
  let next :=
    match w.reconnectAt with
    | some t => earlier next t
    | none => next
  let next :=
    match (w.pending.entries.map fun entry => entry.2.deadline).min? with
    | some d => earlier next d
    | none => next
  match w.queue.head? with
  | some q => earlier next q.deadline
  | none => next

/-- `arm_timer`: when the timer goes off; a zero time would disarm it. -/
def armTimer (deadline : Option Instant) (now : Instant) : Option Instant :=
  deadline.map fun d => now + max (durationSince d now) 1

/-- The variables of `run`, with the arrivals of the queries. -/
structure WorkerLoop where
  timed : Timed
  now : Instant
  /-- `run` has returned an error. -/
  failed : Bool

namespace WorkerLoop

/-- The variables of `run` when the loop begins. -/
def start
    (cfg : WorkerConfig)
    (set : UpstreamSet)
    (now : Instant)
    (has0rtt zeroRttOffered : Bool) :
    WorkerLoop where
  timed := Timed.start cfg set now has0rtt zeroRttOffered
  now := now
  failed := false

/-- `run` has returned. -/
def ended (loop : WorkerLoop) : Bool :=
  loop.failed || loop.timed.worker.returned

/-- When the timer that a turn arms goes off. -/
def expiry (loop : WorkerLoop) (turn : WorkerTurn) : Option Instant :=
  armTimer (loop.timed.worker.nextDeadline turn.quicTimeout) turn.armedAt

/-- One turn of the loop. -/
def turn (cfg : WorkerConfig) (loop : WorkerLoop) (turn : WorkerTurn) : WorkerLoop :=
  if loop.ended then
    loop
  else
    { timed := turn.actions.foldl (Timed.step cfg) loop.timed
      now := if turn.pollOk then turn.wokeAt else loop.now
      failed := turn.fails }

/--
The clock does not run back and moves on while the timer is armed, and a timer
that has gone off is reported.
-/
structure Punctual (loop : WorkerLoop) (turn : WorkerTurn) : Prop where
  clock : loop.now ≤ turn.armedAt
  passes : turn.armedAt < turn.wokeAt
  reported :
    ∀ expiry, loop.expiry turn = some expiry → expiry ≤ turn.wokeAt →
      ∃ event ∈ turn.events, event.isTimer

/-- Nothing a worker waits for is overdue, and no client waits too long. -/
structure OnTime (cfg : WorkerConfig) (loop : WorkerLoop) : Prop where
  pending :
    ∀ entry ∈ loop.timed.worker.pending.entries,
      loop.now ≤ entry.2.deadline
  queue : ∀ q ∈ loop.timed.worker.queue, loop.now ≤ q.deadline
  reconnect :
    ∀ t, loop.timed.worker.reconnectAt = some t → loop.now ≤ t
  /-- A query has its timeout once in the queue and once in flight. -/
  answered :
    ∀ serial arrival, loop.timed.arrivals[serial]? = some arrival →
      loop.timed.worker.Answered serial ∨
        serial ∈ loop.timed.worker.overwritten ∨
        loop.now ≤ arrival + 2 * cfg.timeout

end WorkerLoop

/-! ## The deadlines that are set at one time -/

namespace Worker

/--
What is new after some work at one time is stamped with that time: a request
is for a query that was just accepted or had not expired in the queue.
-/
structure Stamps
    (cfg : WorkerConfig)
    (now : Instant)
    (before after : Worker) :
    Prop where
  accepted : before.accepted ≤ after.accepted
  queue :
    ∀ q ∈ after.queue,
      q ∈ before.queue ∨
        (before.accepted ≤ q.serial ∧ q.deadline = now + cfg.timeout)
  pending :
    ∀ entry ∈ after.pending.entries,
      entry ∈ before.pending.entries ∨
        (entry.2.deadline = now + cfg.timeout ∧
          (before.accepted ≤ entry.2.serial ∨
            ∃ q ∈ before.queue,
              q.serial = entry.2.serial ∧ now < q.deadline))
  reconnect :
    ∀ t, after.reconnectAt = some t →
      before.reconnectAt = some t ∨ now ≤ t

namespace Stamps

variable {cfg : WorkerConfig} {now : Instant}

theorem same
    {before after : Worker}
    (accepted : after.accepted = before.accepted)
    (queue : after.queue = before.queue)
    (pending : after.pending = before.pending)
    (reconnectAt : after.reconnectAt = before.reconnectAt) :
    Stamps cfg now before after where
  accepted := Nat.le_of_eq accepted.symm
  queue := fun q member => .inl (queue ▸ member)
  pending := by
    intro entry member
    rw [pending] at member
    exact .inl member
  reconnect := fun t scheduled => .inl (reconnectAt ▸ scheduled)

theorem refl (w : Worker) : Stamps cfg now w w :=
  same rfl rfl rfl rfl

theorem trans
    {first second third : Worker}
    (earlier : Stamps cfg now first second)
    (later : Stamps cfg now second third) :
    Stamps cfg now first third where
  accepted := Nat.le_trans earlier.accepted later.accepted
  queue := by
    intro q member
    rcases later.queue q member with kept | ⟨serial, deadline⟩
    · exact earlier.queue q kept
    · exact .inr ⟨Nat.le_trans earlier.accepted serial, deadline⟩
  pending := by
    intro entry member
    rcases later.pending entry member with kept | ⟨deadline, origin⟩
    · exact earlier.pending entry kept
    · refine .inr ⟨deadline, ?_⟩
      rcases origin with accepted | ⟨q, parked, serial, live⟩
      · exact .inl (Nat.le_trans earlier.accepted accepted)
      · rcases earlier.queue q parked with kept | ⟨accepted, _⟩
        · exact .inr ⟨q, kept, serial, live⟩
        · exact .inl (serial ▸ accepted)
  reconnect := by
    intro t scheduled
    rcases later.reconnect t scheduled with kept | future
    · exact earlier.reconnect t kept
    · exact .inr future

/-- Other variables may be set freely before. -/
theorem behind
    {first second third : Worker}
    (later : Stamps cfg now second third)
    (accepted : second.accepted = first.accepted)
    (queue : second.queue = first.queue)
    (pending : second.pending = first.pending)
    (reconnectAt : second.reconnectAt = first.reconnectAt) :
    Stamps cfg now first third :=
  (same accepted queue pending reconnectAt).trans later

theorem foldl
    {α : Type}
    {body : Worker → α → Worker}
    (each : ∀ w item, Stamps cfg now w (body w item))
    (items : List α)
    (w : Worker) :
    Stamps cfg now w (items.foldl body w) := by
  induction items generalizing w with
  | nil =>
      exact .refl w
  | cons item rest inductionHypothesis =>
      exact (each w item).trans (inductionHypothesis _)

/-- Work that accepts no query and leaves requests alone, or fails them. -/
theorem of_drains
    {before after : Worker}
    (drains : Drains cfg before after)
    (pending : ∀ entry ∈ after.pending.entries, entry ∈ before.pending.entries)
    (reconnectAt : after.reconnectAt = before.reconnectAt) :
    Stamps cfg now before after where
  accepted := Nat.le_of_eq drains.accepted.symm
  queue := fun _ member => .inl (drains.queue.subset member)
  pending := fun entry member => .inl (pending entry member)
  reconnect := fun _ scheduled => .inl (reconnectAt ▸ scheduled)

end Stamps

variable {cfg : WorkerConfig}

theorem stamps_sendServfail
    (now : Instant)
    (w : Worker)
    (query : AcceptedQuery) :
    Stamps cfg now w (w.sendServfail query) := by
  unfold sendServfail
  split
  · exact .same rfl rfl rfl rfl
  · exact .refl w

theorem stamps_onFailure_sendServfail
    (now : Instant)
    (w : Worker)
    (query : AcceptedQuery) :
    Stamps cfg now w (w.onFailure.sendServfail query) :=
  .behind (stamps_sendServfail now w.onFailure query) rfl rfl rfl rfl

/-- A dispatch after some work at the same time. -/
theorem Stamps.dispatchQuery
    {now : Instant}
    {before w : Worker}
    (stamps : Stamps cfg now before w)
    {query : AcceptedQuery}
    (origin :
      before.accepted ≤ query.serial ∨
        ∃ q ∈ before.queue, q.serial = query.serial ∧ now < q.deadline)
    (env : DispatchEnv) :
    Stamps cfg now before (w.dispatchQuery cfg now query env) := by
  unfold Worker.dispatchQuery
  split
  · exact stamps.trans (w.stamps_onFailure_sendServfail now query)
  next stream conn opened =>
    have opening : Stamps cfg now before { w with conn := some conn } :=
      stamps.trans (.same rfl rfl rfl rfl)
    simp only
    split
    · exact opening.trans (stamps_sendServfail now _ query)
    · split
      · exact opening.trans (stamps_onFailure_sendServfail now _ query)
      · rw [register_eq]
        refine ⟨opening.accepted, opening.queue, ?_, opening.reconnect⟩
        intro entry member
        rw [AList.entries_insert] at member
        rcases List.mem_cons.mp member with rfl | old
        · exact .inr ⟨rfl, origin⟩
        · exact opening.pending entry ((List.kerase_sublist _ _).subset old)

/-- Only queries that have not expired are dispatched from the queue. -/
theorem Stamps.flushLoop
    {now : Instant}
    {before w : Worker}
    {queue : List QueuedQuery}
    (stamps : Stamps cfg now before w)
    (sameQueue : w.queue = queue)
    (envs : List DispatchEnv) :
    Stamps cfg now before (flushLoop cfg now queue envs w) := by
  induction queue generalizing w envs with
  | nil =>
      exact stamps
  | cons q rest inductionHypothesis =>
      have popped : Stamps cfg now before { w with queue := rest } :=
        ⟨stamps.accepted,
          fun other member =>
            stamps.queue other (sameQueue ▸ List.mem_cons_of_mem q member),
          stamps.pending, stamps.reconnect⟩
      rw [Worker.flushLoop]
      split
      · exact inductionHypothesis
          (popped.trans (stamps_onFailure_sendServfail now _ _))
          (queue_sendServfail _ _) envs
      next live =>
        have origin :
            before.accepted ≤ q.serial ∨
              ∃ parked ∈ before.queue,
                parked.serial = q.serial ∧ now < parked.deadline := by
          have front : q ∈ w.queue := sameQueue ▸ List.mem_cons_self
          rcases stamps.queue q front with kept | ⟨accepted, _⟩
          · exact .inr ⟨q, kept, rfl, not_le.mp live⟩
          · exact .inl accepted
        exact inductionHypothesis (popped.dispatchQuery origin _)
          (queue_dispatchQuery now _ _ _) envs.tail

theorem stamps_failAllPending (now : Instant) (w : Worker) :
    Stamps cfg now w w.failAllPending := by
  refine .of_drains w.drains_failAllPending ?_
    w.routine_failAllPending.reconnectAt
  intro entry member
  rw [w.failAllPending_frame.1] at member
  cases member

theorem stamps_erase (now : Instant) (w : Worker) (stream : StreamId) :
    Stamps cfg now w { w with pending := w.pending.erase stream } :=
  .of_drains (Drains.erase w stream)
    (fun _ member => (List.kerase_sublist _ _).subset member) rfl

theorem stamps_failRequest (now : Instant) (w : Worker) (stream : StreamId) :
    Stamps cfg now w (w.failRequest stream) := by
  unfold failRequest
  split
  · exact .refl w
  · exact (w.stamps_erase now stream).trans
      (stamps_onFailure_sendServfail now _ _)

theorem stamps_readStream
    (now : Instant)
    (w : Worker)
    (conn : Connection)
    (stream : StreamId)
    (chunks : List Bytes) :
    Stamps cfg now w (w.readStream conn stream chunks).1 := by
  induction chunks generalizing w with
  | nil =>
      exact .refl w
  | cons chunk rest inductionHypothesis =>
      rw [readStream]
      exact Stamps.behind (inductionHypothesis _) rfl rfl rfl rfl

/-- A reconnect is scheduled for this time or later. -/
theorem Stamps.schedule
    {now t : Instant}
    {before after : Worker}
    (stamps : Stamps cfg now before after)
    (future : now ≤ t)
    {backoff : Duration}
    {goaway : Bool} :
    Stamps cfg now before
      { after with
        goaway := goaway
        backoff := backoff
        reconnectAt := some t } where
  accepted := stamps.accepted
  queue := stamps.queue
  pending := stamps.pending
  reconnect := by
    intro other scheduled
    obtain rfl := Option.some.inj scheduled
    exact .inr future

theorem stamps_dropConnection (now : Instant) (w : Worker) :
    Stamps cfg now w w.dropConnection :=
  (w.stamps_failAllPending now).trans (.same rfl rfl rfl rfl)

theorem le_add_span (now : Instant) (span : Duration) : now ≤ now + span :=
  Int.le_add_of_nonneg_right (Int.natCast_nonneg span)

/-- Work on an event stamps its requests with the time of the turn. -/
theorem stamps_handleQuicEvent
    (now : Instant)
    (w : Worker)
    (event : QuicEvent) :
    Stamps cfg now w (w.handleQuicEvent cfg now event).1 := by
  cases event with
  | connected envs =>
      have settled :
          Stamps cfg now w
            { w with
              backoff := 0
              reconnectAt := none
              rt.failStreak := 0 } :=
        ⟨le_refl _, fun _ member => .inl member, fun _ member => .inl member,
          nofun⟩
      simp only [handleQuicEvent]
      split
      · exact settled
      · refine Stamps.flushLoop ?_ rfl envs
        exact settled.trans (.same rfl rfl rfl rfl)
  | connectionLost applicationClosed =>
      have dropped :
          Stamps cfg now w
            { w with
              rt.failStreak :=
                if applicationClosed then 0
                else saturatingSucc w.rt.failStreak }.dropConnection :=
        .behind (stamps_dropConnection now _) rfl rfl rfl rfl
      exact dropped.schedule (le_add_span now _)
  | readable stream chunks outcome =>
      simp only [handleQuicEvent]
      split
      · exact .same rfl rfl rfl rfl
      next conn connected =>
        have read : Stamps cfg now w (w.readStream conn stream chunks).1 :=
          w.stamps_readStream now conn stream chunks
        cases outcome with
        | blocked =>
            exact read
        | error =>
            exact read.trans (.same rfl rfl rfl rfl)
        | eof =>
            exact read.trans (.same rfl rfl rfl rfl)
  | other =>
      exact .refl w

theorem stamps_handleQuicEvents
    (now : Instant)
    (events : List QuicEvent)
    (w : Worker) :
    Stamps cfg now w (handleQuicEvents cfg now events w).1 := by
  induction events generalizing w with
  | nil =>
      exact .refl w
  | cons event rest inductionHypothesis =>
      exact (stamps_handleQuicEvent now w event).trans (inductionHypothesis _)

theorem stamps_applyH3Event (now : Instant) (w : Worker) (event : H3Event) :
    Stamps cfg now w (w.applyH3Event now event) := by
  cases event with
  | response stream body =>
      simp only [applyH3Event]
      split
      · exact .refl w
      · exact (w.stamps_erase now stream).trans (.same rfl rfl rfl rfl)
  | failed stream =>
      exact w.stamps_failRequest now stream
  | goaway =>
      simp only [applyH3Event]
      split
      · split
        · exact (Stamps.refl w).schedule (le_refl now)
        · exact .same rfl rfl rfl rfl
      · exact .refl w

theorem stamps_drainDns
    (w : Worker)
    (now : Instant)
    (peer : SocketAddr)
    (data : Bytes)
    (env : DispatchEnv) :
    Stamps cfg now w (w.drainDns cfg now peer data env) := by
  have accepts (observation : Observation) :
      Stamps cfg now w
        ({ w with accepted := w.accepted + 1 }.observe observation) :=
    ⟨Nat.le_succ _, fun _ member => .inl member, fun _ member => .inl member,
      fun _ scheduled => .inl scheduled⟩
  unfold drainDns
  simp only
  split
  · split
    · exact (accepts _).trans (stamps_onFailure_sendServfail now _ _)
    · split
      · split
        · exact (accepts _).trans (stamps_onFailure_sendServfail now _ _)
        · refine ⟨Nat.le_succ _, ?_, fun _ member => .inl member,
            fun _ scheduled => .inl scheduled⟩
          intro q member
          rcases List.mem_append.mp member with old | new
          · exact .inl old
          · rw [List.mem_singleton.mp new]
            exact .inr ⟨le_refl _, rfl⟩
      · exact (accepts _).dispatchQuery (.inl (le_refl _)) env
  · exact .refl w

/-- After housekeeping no reconnect is due. -/
theorem lt_reconnectAt_housekeeping
    (w : Worker)
    (env : HousekeepingEnv)
    {t : Instant}
    (scheduled : (w.housekeeping cfg env).reconnectAt = some t) :
    env.now < t := by
  have reconnects :
      w.housekeeping cfg env =
        (w.beforeReconnect cfg env).reconnect env.now env.connect :=
    rfl
  rw [reconnects] at scheduled
  rcases (w.beforeReconnect cfg env).reconnect_cases env.now env.connect with
    ⟨same, notDue⟩ | ⟨_, ⟨_, same⟩ | same⟩
  · rw [same] at scheduled
    exact notDue t scheduled
  · rw [same] at scheduled
    cases scheduled
  · rw [same] at scheduled
    obtain rfl := Option.some.inj scheduled
    exact Int.lt_add_of_pos_right _ (by decide)

/-- Housekeeping stamps with the time of the turn. -/
theorem stamps_housekeeping (w : Worker) (env : HousekeepingEnv) :
    Stamps cfg env.now w (w.housekeeping cfg env) := by
  have drains : Drains cfg w (w.housekeeping cfg env) :=
    w.drains_housekeeping env
  refine ⟨Nat.le_of_eq drains.accepted.symm,
    fun _ member => .inl (drains.queue.subset member), ?_, ?_⟩
  · intro entry member
    exact .inl (((w.housekeeping_holds cfg env).2 entry).mp member).1
  · intro t scheduled
    exact .inr (le_of_lt (w.lt_reconnectAt_housekeeping env scheduled))

/-- Every action sets deadlines from its own time. -/
theorem stamps_step
    {now : Instant}
    {action : Action}
    (atOnce : ∀ time, action.time? = some time → time = now)
    (w : Worker) :
    Stamps cfg now w (w.step cfg action) := by
  unfold step
  split
  · exact .refl w
  · cases action with
    | datagram time peer data env =>
        obtain rfl := atOnce time rfl
        exact w.stamps_drainDns time peer data env
    | quicEvents time events =>
        obtain rfl := atOnce time rfl
        exact (stamps_handleQuicEvents time _ w).trans
          (.foldl (stamps_applyH3Event time) _ _)
    | housekeeping env =>
        obtain rfl := atOnce env.now rfl
        exact w.stamps_housekeeping env
    | drained time =>
        obtain rfl := atOnce time rfl
        simp only [checkDrained]
        split
        · have dropped :
              Stamps cfg time w
                { w with
                  rt.failStreak :=
                    saturatingSucc w.rt.failStreak }.dropConnection :=
            .behind (stamps_dropConnection time _) rfl rfl rfl rfl
          refine ⟨dropped.accepted, dropped.queue, dropped.pending, ?_⟩
          intro t scheduled
          cases already : w.reconnectAt with
          | none =>
              rw [already] at scheduled
              obtain rfl := Option.some.inj scheduled
              exact .inr (le_add_span time _)
          | some scheduledBefore =>
              rw [already] at scheduled
              exact .inl scheduled
        · exact .refl w
    | shutdown =>
        exact (w.stamps_failAllPending now).trans (.same rfl rfl rfl rfl)

end Worker

/-! ## The timer -/

/-- A deadline is set, and not after a time. -/
def SetBy (deadline : Option Instant) (t : Instant) : Prop :=
  ∃ d, deadline = some d ∧ d ≤ t

/-- The earlier of two deadlines is set by each of them. -/
theorem setBy_earlier (next : Option Instant) (t : Instant) :
    SetBy (earlier next t) t := by
  cases next with
  | none =>
      exact ⟨t, rfl, le_refl t⟩
  | some n =>
      exact ⟨min n t, rfl, min_le_right n t⟩

theorem SetBy.earlier
    {next : Option Instant}
    {t : Instant}
    (set : SetBy next t)
    (other : Instant) :
    SetBy (earlier next other) t := by
  obtain ⟨d, rfl, before⟩ := set
  exact ⟨min d other, rfl, le_trans (min_le_left d other) before⟩

theorem eq_or_eq_of_earlier
    {next : Option Instant}
    {t d : Instant}
    (found : earlier next t = some d) :
    d = t ∨ next = some d := by
  cases next with
  | none =>
      exact .inl (Option.some.inj found).symm
  | some n =>
      obtain rfl := Option.some.inj found
      rcases min_choice n t with first | second
      · exact .inr (congrArg some first.symm)
      · exact .inl second

/-- The timer goes off at the deadline, or at once if that is over. -/
theorem armTimer_some (d now : Instant) :
    armTimer (some d) now = some (max d (now + 1)) := by
  have goesOff : now + (max (durationSince d now) 1 : Nat) = max d (now + 1) := by
    unfold durationSince
    unfold Instant at *
    omega
  exact congrArg some goesOff

namespace Worker

/-- The next deadline is no later than the scheduled reconnect. -/
theorem setBy_nextDeadline_reconnect
    {w : Worker}
    {t : Instant}
    (scheduled : w.reconnectAt = some t)
    (quicTimeout : Option Instant) :
    SetBy (w.nextDeadline quicTimeout) t := by
  have first : SetBy (earlier quicTimeout t) t := setBy_earlier quicTimeout t
  unfold nextDeadline
  simp only [scheduled]
  split
  · split
    · exact (first.earlier _).earlier _
    · exact first.earlier _
  · split
    · exact first.earlier _
    · exact first

/-- The next deadline is no later than that of any pending query. -/
theorem setBy_nextDeadline_pending
    {w : Worker}
    {entry : Sigma fun _ : StreamId => Pending}
    (member : entry ∈ w.pending.entries)
    (quicTimeout : Option Instant) :
    SetBy (w.nextDeadline quicTimeout) entry.2.deadline := by
  have listed :
      entry.2.deadline ∈
        w.pending.entries.map fun entry => entry.2.deadline :=
    List.mem_map_of_mem member
  unfold nextDeadline
  simp only
  generalize atReconnect :
    (match w.reconnectAt with
      | some t => earlier quicTimeout t
      | none => quicTimeout) = next
  have first
      {d : Instant}
      (least :
        (w.pending.entries.map fun entry => entry.2.deadline).min? = some d) :
      SetBy (earlier next d) entry.2.deadline := by
    obtain ⟨found, same, before⟩ := setBy_earlier next d
    have lower := (List.min?_eq_some_iff.mp least).2 _ listed
    exact ⟨found, same, le_trans before lower⟩
  split
  next q front =>
    split
    next d least =>
      exact (first least).earlier _
    next none =>
      rw [List.min?_eq_none_iff.mp none] at listed
      cases listed
  next empty =>
    split
    next d least =>
      exact first least
    next none =>
      rw [List.min?_eq_none_iff.mp none] at listed
      cases listed

/-- The front of a sorted queue has its earliest deadline. -/
theorem setBy_nextDeadline_queue
    {w : Worker}
    (sorted : w.queue.Pairwise fun q r => q.deadline ≤ r.deadline)
    {q : QueuedQuery}
    (member : q ∈ w.queue)
    (quicTimeout : Option Instant) :
    SetBy (w.nextDeadline quicTimeout) q.deadline := by
  unfold nextDeadline
  simp only
  cases queue : w.queue with
  | nil =>
      rw [queue] at member
      cases member
  | cons front rest =>
      rw [queue] at member sorted
      have lower : front.deadline ≤ q.deadline := by
        rcases List.mem_cons.mp member with rfl | behind
        · exact le_refl _
        · exact (List.pairwise_cons.mp sorted).1 q behind
      obtain ⟨d, same, before⟩ := setBy_earlier _ front.deadline
      exact ⟨d, same, le_trans before lower⟩

/-- Without a QUIC timer the loop wakes up for something it holds. -/
theorem cases_nextDeadline
    {w : Worker}
    {t : Instant}
    (next : w.nextDeadline none = some t) :
    (∃ entry ∈ w.pending.entries, entry.2.deadline = t) ∨
      (∃ q ∈ w.queue, q.deadline = t) ∨ w.reconnectAt = some t := by
  have ofReconnect
      (found :
        (match w.reconnectAt with
          | some t => earlier none t
          | none => none) = some t) :
      w.reconnectAt = some t := by
    split at found
    next scheduled =>
      rw [scheduled]
      exact found
    · cases found
  have ofPending
      (found :
        (match (w.pending.entries.map fun entry => entry.2.deadline).min? with
          | some d =>
              earlier
                (match w.reconnectAt with
                  | some t => earlier none t
                  | none => none) d
          | none =>
              match w.reconnectAt with
              | some t => earlier none t
              | none => none) = some t) :
      (∃ entry ∈ w.pending.entries, entry.2.deadline = t) ∨
        w.reconnectAt = some t := by
    split at found
    next d least =>
      rcases eq_or_eq_of_earlier found with rfl | before
      · obtain ⟨entry, member, same⟩ :=
          List.mem_map.mp (List.min?_eq_some_iff.mp least).1
        exact .inl ⟨entry, member, same⟩
      · exact .inr (ofReconnect before)
    · exact .inr (ofReconnect found)
  unfold nextDeadline at next
  simp only at next
  split at next
  next q front =>
    rcases eq_or_eq_of_earlier next with rfl | before
    · exact .inr (.inl ⟨q, List.mem_of_head? front, rfl⟩)
    · rcases ofPending before with pending | reconnect
      · exact .inl pending
      · exact .inr (.inr reconnect)
  · rcases ofPending next with pending | reconnect
    · exact .inl pending
    · exact .inr (.inr reconnect)

end Worker

/-! ## Work at one time -/

namespace Worker

/-- Nothing a worker waits for is overdue. -/
structure Live (now : Instant) (w : Worker) : Prop where
  pending : ∀ entry ∈ w.pending.entries, now ≤ entry.2.deadline
  queue : ∀ q ∈ w.queue, now ≤ q.deadline
  reconnect : ∀ t, w.reconnectAt = some t → now ≤ t

/-- A live worker has no deadline in the past. -/
theorem Live.le_nextDeadline
    {now t : Instant}
    {w : Worker}
    (live : w.Live now)
    (next : w.nextDeadline none = some t) :
    now ≤ t := by
  rcases cases_nextDeadline next with
    ⟨entry, member, rfl⟩ | ⟨q, member, rfl⟩ | scheduled
  · exact live.pending entry member
  · exact live.queue q member
  · exact live.reconnect t scheduled

/-- Work that stamps with the time of the turn keeps the worker live. -/
theorem Live.stamps
    {cfg : WorkerConfig}
    {now : Instant}
    {before after : Worker}
    (live : before.Live now)
    (stamps : Stamps cfg now before after) :
    after.Live now where
  pending := by
    intro entry member
    rcases stamps.pending entry member with kept | ⟨deadline, _⟩
    · exact live.pending entry kept
    · exact deadline ▸ le_add_span now _
  queue := by
    intro q member
    rcases stamps.queue q member with kept | ⟨_, deadline⟩
    · exact live.queue q kept
    · exact deadline ▸ le_add_span now _
  reconnect := by
    intro t scheduled
    rcases stamps.reconnect t scheduled with kept | future
    · exact live.reconnect t kept
    · exact future

end Worker

namespace Timed

/-- After housekeeping everything held is due later. -/
theorem lt_deadlines_housekeeping
    {cfg : WorkerConfig}
    {d : Timed}
    (stamped : d.Stamped cfg)
    (env : HousekeepingEnv) :
    (∀ entry ∈ (d.worker.housekeeping cfg env).pending.entries,
      env.now < entry.2.deadline) ∧
      ∀ q ∈ (d.worker.housekeeping cfg env).queue, env.now < q.deadline := by
  obtain ⟨queue, pending⟩ := d.worker.housekeeping_holds cfg env
  constructor
  · intro entry member
    exact ((pending entry).mp member).2
  · intro q member
    rw [queue] at member
    exact live_of_mem_dropWhile stamped.sorted member

/-- Housekeeping leaves nothing overdue. -/
theorem live_housekeeping
    {cfg : WorkerConfig}
    {d : Timed}
    (stamped : d.Stamped cfg)
    (env : HousekeepingEnv) :
    (d.worker.housekeeping cfg env).Live env.now := by
  obtain ⟨pending, queue⟩ := lt_deadlines_housekeeping stamped env
  exact ⟨fun entry member => le_of_lt (pending entry member),
    fun q member => le_of_lt (queue q member),
    fun _ scheduled =>
      le_of_lt (d.worker.lt_reconnectAt_housekeeping env scheduled)⟩

/-- A request in flight is for a query that has arrived. -/
theorem Stamped.lt_of_mem_pending
    {cfg : WorkerConfig}
    {d : Timed}
    (stamped : d.Stamped cfg)
    {entry : Sigma fun _ : StreamId => Pending}
    (member : entry ∈ d.worker.pending.entries) :
    entry.2.serial < d.arrivals.length := by
  have inFlight : entry.2.serial ∈ d.worker.inFlight :=
    Multiset.mem_coe.mpr (List.mem_map_of_mem member)
  have inCustody : entry.2.serial ∈ d.worker.custody := by
    rw [Worker.custody]
    exact Multiset.mem_add.mpr (.inr inFlight)
  rw [stamped.custody, Multiset.mem_range] at inCustody
  exact stamped.count.symm ▸ inCustody

/-- An action is taken at a time, if it has one. -/
def At (now : Instant) (action : Action) : Prop :=
  ∀ time, action.time? = some time → time = now

/-- Everything arrived before a time or at it. -/
structure Ready (cfg : WorkerConfig) (now : Instant) (d : Timed) : Prop where
  stamped : d.Stamped cfg
  past : ∀ arrival ∈ d.arrivals, arrival ≤ now

/-- Every step of a turn keeps the worker ready for the next. -/
theorem ready_step
    (cfg : WorkerConfig)
    {now : Instant}
    (d : Timed)
    (action : Action)
    (atNow : At now action)
    (ready : d.Ready cfg now) :
    (d.step cfg action).Ready cfg now := by
  refine ⟨stamped_step cfg d action ?_ ready.stamped, ?_⟩
  · intro time isTime arrival member
    rw [atNow time isTime]
    exact ready.past arrival member
  · intro arrival member
    rcases mem_arrivals_step member with old | isTime
    · exact ready.past arrival old
    · exact le_of_eq (atNow arrival isTime)

/-- What some work at one time can do. -/
structure Works
    (cfg : WorkerConfig)
    (now : Instant)
    (before after : Timed) :
    Prop where
  stamps : Worker.Stamps cfg now before.worker after.worker
  arrivals :
    ∃ added,
      after.arrivals = before.arrivals ++ added ∧ ∀ arrival ∈ added, arrival = now

/-- Every action of a turn is work at its time. -/
theorem works_step
    (cfg : WorkerConfig)
    {now : Instant}
    (d : Timed)
    {action : Action}
    (atNow : At now action) :
    Works cfg now d (d.step cfg action) := by
  refine ⟨d.worker.stamps_step atNow, ?_⟩
  simp only [step]
  split
  · exact ⟨[], (List.append_nil _).symm,
      fun _ member => absurd member List.not_mem_nil⟩
  · refine ⟨action.time?.toList, rfl, ?_⟩
    intro arrival member
    exact atNow arrival (Option.mem_toList.mp member)

theorem Works.trans
    {cfg : WorkerConfig}
    {now : Instant}
    {first second third : Timed}
    (earlier : Works cfg now first second)
    (later : Works cfg now second third) :
    Works cfg now first third := by
  refine ⟨earlier.stamps.trans later.stamps, ?_⟩
  obtain ⟨early, earlyIs, earlyNow⟩ := earlier.arrivals
  obtain ⟨late, lateIs, lateNow⟩ := later.arrivals
  refine ⟨early ++ late, ?_, ?_⟩
  · rw [lateIs, earlyIs, List.append_assoc]
  · intro arrival member
    rcases List.mem_append.mp member with isEarly | isLate
    · exact earlyNow arrival isEarly
    · exact lateNow arrival isLate

theorem works_foldl
    (cfg : WorkerConfig)
    {now : Instant}
    {actions : List Action}
    (atNow : ∀ action ∈ actions, At now action)
    (d : Timed) :
    Works cfg now d (actions.foldl (step cfg) d) := by
  induction actions generalizing d with
  | nil =>
      exact ⟨.refl _, [], (List.append_nil _).symm,
        fun _ member => absurd member List.not_mem_nil⟩
  | cons action rest inductionHypothesis =>
      rw [List.forall_mem_cons] at atNow
      exact (works_step cfg d atNow.1).trans (inductionHypothesis atNow.2 _)

/-- Housekeeping somewhere among the work leaves nothing overdue. -/
theorem live_of_housekeeping
    (cfg : WorkerConfig)
    {now : Instant}
    {actions : List Action}
    (atNow : ∀ action ∈ actions, At now action)
    {d : Timed}
    (ready : d.Ready cfg now)
    (occurs : ∃ action ∈ actions, ∃ env, action = .housekeeping env) :
    (actions.foldl (step cfg) d).worker.returned = true ∨
      (actions.foldl (step cfg) d).worker.Live now := by
  have all :
      AllSteps (step cfg) (fun d action => At now action ∧ d.Ready cfg now) d
        actions :=
    (allSteps_of_forall_mem atNow d).under
      (ready_step cfg) (fun _ _ atNow ready => ⟨atNow, ready⟩) ready
  refine all.reaches
    (fun d => d.worker.returned = true ∨ d.worker.Live now) ?_ ?_ occurs
  · intro s action meets goal
    rcases goal with returned | live
    · left
      simp only [step, Worker.step, if_pos returned]
      exact returned
    · exact .inr (live.stamps (works_step cfg s meets.1).stamps)
  · rintro s action ⟨atNow, ready⟩ ⟨env, rfl⟩
    obtain rfl := atNow env.now rfl
    by_cases returned : s.worker.returned
    · left
      simp only [step, Worker.step, if_pos returned]
      exact returned
    · right
      rw [step_housekeeping cfg returned]
      exact live_housekeeping ready.stamped env

end Timed

/-! ## Turns -/

namespace WorkerTurn

/-- All actions of a turn see the one time that was read. -/
theorem at_of_mem_actions
    {turn : WorkerTurn}
    {action : Action}
    (member : action ∈ turn.actions) :
    Timed.At turn.wokeAt action := by
  intro time isTime
  unfold actions at member
  split at member
  · rcases List.mem_append.mp member with handled | ending
    · obtain ⟨event, _, among⟩ := List.mem_flatMap.mp handled
      cases event with
      | dns datagrams =>
          obtain ⟨⟨peer, data, env⟩, _, rfl⟩ := List.mem_map.mp among
          exact (Option.some.inj isTime).symm
      | quic events =>
          obtain rfl := List.mem_singleton.mp among
          exact (Option.some.inj isTime).symm
      | timer timeoutOk monoSecs published connect =>
          obtain rfl := List.mem_singleton.mp among
          exact (Option.some.inj isTime).symm
      | signal signaled =>
          cases among
    · split at ending
      · cases ending
      · rcases List.mem_append.mp ending with drained | stopping
        · split at drained
          · obtain rfl := List.mem_singleton.mp drained
            exact (Option.some.inj isTime).symm
          · cases drained
        · split at stopping
          · obtain rfl := List.mem_singleton.mp stopping
            cases isTime
          · cases stopping
  · cases member

theorem pollOk_of_not_fails (turn : WorkerTurn) (fine : turn.fails = false) :
    turn.pollOk = true := by
  rw [fails, Bool.or_eq_false_iff] at fine
  simpa using fine.1

/-- Without an error the whole batch is handled. -/
theorem takeWhile_events (turn : WorkerTurn) (fine : turn.fails = false) :
    turn.events.takeWhile (!·.fails) = turn.events := by
  rw [fails, Bool.or_eq_false_iff] at fine
  have noneFails : ∀ event ∈ turn.events, event.fails = false := by
    simpa using fine.2
  refine List.takeWhile_eq_self_iff.mpr ?_
  intro event member
  rw [noneFails event member]
  rfl

/-- A turn that does not fail handles the timer if it is reported. -/
theorem housekeeping_mem_actions
    {turn : WorkerTurn}
    (fine : turn.fails = false)
    {event : LoopEvent}
    (member : event ∈ turn.events)
    (isTimer : event.isTimer = true) :
    ∃ action ∈ turn.actions, ∃ env, action = .housekeeping env := by
  have pollOk := turn.pollOk_of_not_fails fine
  have whole := turn.takeWhile_events fine
  cases event with
  | timer timeoutOk monoSecs published connect =>
      refine ⟨.housekeeping ⟨turn.wokeAt, monoSecs, published, connect⟩, ?_,
        _, rfl⟩
      rw [actions, if_pos pollOk, whole, List.mem_append]
      exact .inl (List.mem_flatMap.mpr ⟨_, member, List.mem_singleton_self _⟩)
  | dns datagrams =>
      cases isTimer
  | quic events =>
      cases isTimer
  | signal signaled =>
      cases isTimer

end WorkerTurn

namespace WorkerLoop

/-- What holds at the head of the loop. -/
structure Sound (cfg : WorkerConfig) (loop : WorkerLoop) : Prop where
  ready : loop.timed.Ready cfg loop.now
  live : loop.timed.worker.Live loop.now
  /-- A query was dispatched before its deadline in the queue. -/
  dispatched :
    ∀ entry ∈ loop.timed.worker.pending.entries,
      ∀ arrival, loop.timed.arrivals[entry.2.serial]? = some arrival →
        entry.2.deadline ≤ arrival + 2 * cfg.timeout

theorem sound_start
    (cfg : WorkerConfig)
    (set : UpstreamSet)
    (now : Instant)
    (has0rtt zeroRttOffered : Bool) :
    (start cfg set now has0rtt zeroRttOffered).Sound cfg where
  ready :=
    ⟨Timed.stamped_start cfg set now has0rtt zeroRttOffered,
      fun _ member => absurd member List.not_mem_nil⟩
  live :=
    ⟨fun _ member => absurd member List.not_mem_nil,
      fun _ member => absurd member List.not_mem_nil, nofun⟩
  dispatched := fun _ member => absurd member List.not_mem_nil

/-- A timer that was not reported has not gone off: all deadlines lie ahead. -/
theorem lt_of_not_reported
    {loop : WorkerLoop}
    {turn : WorkerTurn}
    (punctual : loop.Punctual turn)
    (silent : ∀ event ∈ turn.events, event.isTimer = false)
    {t : Instant}
    (set : SetBy (loop.timed.worker.nextDeadline turn.quicTimeout) t) :
    turn.wokeAt < t := by
  obtain ⟨d, next, before⟩ := set
  have expires : loop.expiry turn = some (max d (turn.armedAt + 1)) := by
    rw [expiry, next, armTimer_some]
  have ahead : turn.wokeAt < max d (turn.armedAt + 1) := by
    by_contra ended
    obtain ⟨event, member, isTimer⟩ :=
      punctual.reported _ expires (not_lt.mp ended)
    rw [silent event member] at isTimer
    cases isTimer
  rcases lt_max_iff.mp ahead with later | atOnce
  · exact lt_of_lt_of_le later before
  · exact absurd (Int.lt_add_one_iff.mp atOnce) (not_le.mpr punctual.passes)

/-- Without an expired timer nothing of the worker is overdue. -/
theorem live_of_not_reported
    {cfg : WorkerConfig}
    {loop : WorkerLoop}
    {turn : WorkerTurn}
    (sound : loop.Sound cfg)
    (punctual : loop.Punctual turn)
    (silent : ∀ event ∈ turn.events, event.isTimer = false) :
    loop.timed.worker.Live turn.wokeAt where
  pending := fun _ member =>
    le_of_lt (lt_of_not_reported punctual silent
      (Worker.setBy_nextDeadline_pending member _))
  queue := fun _ member =>
    le_of_lt (lt_of_not_reported punctual silent
      (Worker.setBy_nextDeadline_queue sound.ready.stamped.sorted member _))
  reconnect := fun _ scheduled =>
    le_of_lt (lt_of_not_reported punctual silent
      (Worker.setBy_nextDeadline_reconnect scheduled _))

/-- A second timeout after the first. -/
theorem add_le_of_le_add
    {now arrival : Int}
    {timeout : Nat}
    (inTime : now ≤ arrival + timeout) :
    now + timeout ≤ arrival + 2 * timeout := by
  omega

/-- The time a query has left when its request is sent. -/
theorem dispatched_works
    {cfg : WorkerConfig}
    {now : Instant}
    {before after : Timed}
    (stamped : before.Stamped cfg)
    (works : Timed.Works cfg now before after)
    (dispatched :
      ∀ entry ∈ before.worker.pending.entries,
        ∀ arrival, before.arrivals[entry.2.serial]? = some arrival →
          entry.2.deadline ≤ arrival + 2 * cfg.timeout) :
    ∀ entry ∈ after.worker.pending.entries,
      ∀ arrival, after.arrivals[entry.2.serial]? = some arrival →
        entry.2.deadline ≤ arrival + 2 * cfg.timeout := by
  obtain ⟨added, arrivals, allNow⟩ := works.arrivals
  intro entry member arrival found
  rw [arrivals] at found
  rcases works.stamps.pending entry member with
    kept | ⟨deadline, accepted | ⟨q, parked, serial, live⟩⟩
  · rw [List.getElem?_append_left (stamped.lt_of_mem_pending kept)] at found
    exact dispatched entry kept arrival found
  · rw [← stamped.count] at accepted
    rw [List.getElem?_append_right accepted] at found
    rw [deadline]
    exact add_le_of_le_add (allNow arrival (List.mem_of_getElem? found) ▸
      Worker.le_add_span arrival _)
  · obtain ⟨stored, isStored, parkedUntil⟩ := stamped.parked q parked
    rw [serial] at isStored
    rw [List.getElem?_append_left (List.getElem?_eq_some_iff.mp isStored).1]
      at found
    obtain rfl := Option.some.inj (isStored.symm.trans found)
    rw [parkedUntil] at live
    rw [deadline]
    exact add_le_of_le_add (le_of_lt live)

/-- A turn that does not fail runs its actions at the time it woke. -/
theorem turn_eq
    (cfg : WorkerConfig)
    {loop : WorkerLoop}
    (running : loop.ended = false)
    {turn : WorkerTurn}
    (fine : turn.fails = false) :
    loop.turn cfg turn =
      ⟨turn.actions.foldl (Timed.step cfg) loop.timed, turn.wokeAt, false⟩ := by
  have pollOk := turn.pollOk_of_not_fails fine
  rw [WorkerLoop.turn, running, if_neg Bool.false_ne_true, if_pos pollOk, fine]

theorem ended_turn_of_fails
    (cfg : WorkerConfig)
    {loop : WorkerLoop}
    (running : loop.ended = false)
    {turn : WorkerTurn}
    (fails : turn.fails = true) :
    (loop.turn cfg turn).ended = true := by
  rw [WorkerLoop.turn, running, if_neg Bool.false_ne_true, fails]
  rfl

/-- What a turn finds when it starts to handle its events. -/
theorem Sound.ready_woken
    {cfg : WorkerConfig}
    {loop : WorkerLoop}
    (sound : loop.Sound cfg)
    {turn : WorkerTurn}
    (punctual : loop.Punctual turn) :
    loop.timed.Ready cfg turn.wokeAt := by
  refine ⟨sound.ready.stamped, ?_⟩
  intro arrival member
  have earlier : arrival ≤ loop.now := sound.ready.past arrival member
  exact le_trans earlier (le_trans punctual.clock (le_of_lt punctual.passes))

/-- A punctual turn keeps the loop sound or ends it. -/
theorem sound_turn
    (cfg : WorkerConfig)
    (loop : WorkerLoop)
    (turn : WorkerTurn)
    (punctual : loop.Punctual turn)
    (kept : loop.ended = true ∨ loop.Sound cfg) :
    (loop.turn cfg turn).ended = true ∨ (loop.turn cfg turn).Sound cfg := by
  cases ended : loop.ended with
  | true =>
      left
      rw [WorkerLoop.turn, if_pos ended]
      exact ended
  | false =>
      have sound : loop.Sound cfg :=
        kept.resolve_left (ended ▸ Bool.false_ne_true)
      cases fine : turn.fails with
      | true =>
          exact .inl (ended_turn_of_fails cfg ended fine)
      | false =>
          have atNow : ∀ action ∈ turn.actions, Timed.At turn.wokeAt action :=
            fun _ => WorkerTurn.at_of_mem_actions
          have ready := sound.ready_woken punctual
          have works := Timed.works_foldl cfg atNow loop.timed
          have live :
              (turn.actions.foldl (Timed.step cfg)
                  loop.timed).worker.returned = true ∨
                (turn.actions.foldl (Timed.step cfg) loop.timed).worker.Live
                  turn.wokeAt := by
            by_cases reported : ∃ event ∈ turn.events, event.isTimer = true
            · obtain ⟨event, member, isTimer⟩ := reported
              exact Timed.live_of_housekeeping cfg atNow ready
                (WorkerTurn.housekeeping_mem_actions fine member isTimer)
            · have silent : ∀ event ∈ turn.events, event.isTimer = false := by
                simpa using reported
              exact .inr ((live_of_not_reported sound punctual silent).stamps
                works.stamps)
          rw [turn_eq cfg ended fine]
          rcases live with returned | live
          · exact .inl ((Bool.false_or _).trans returned)
          · refine .inr ⟨?_, live, dispatched_works sound.ready.stamped works
              sound.dispatched⟩
            exact (allSteps_of_forall_mem atNow loop.timed).invariant
              (Timed.ready_step cfg) ready

/-- Every query that was accepted is answered, was replaced, or is held. -/
theorem Sound.held
    {cfg : WorkerConfig}
    {loop : WorkerLoop}
    (sound : loop.Sound cfg)
    {serial : Nat}
    {arrival : Instant}
    (found : loop.timed.arrivals[serial]? = some arrival) :
    loop.timed.worker.Answered serial ∨
      serial ∈ loop.timed.worker.overwritten ∨
      ∃ deadline,
        loop.now ≤ deadline ∧ deadline ≤ arrival + 2 * cfg.timeout ∧
          ∀ quicTimeout,
            SetBy (loop.timed.worker.nextDeadline quicTimeout) deadline := by
  have stamped := sound.ready.stamped
  have inCustody : serial ∈ loop.timed.worker.custody := by
    rw [stamped.custody, ← stamped.count]
    exact Multiset.mem_range.mpr (List.getElem?_eq_some_iff.mp found).1
  rw [Worker.custody, Multiset.mem_add, Multiset.mem_add, Multiset.mem_add]
    at inCustody
  rcases inCustody with ((replied | overwritten) | queued) | inFlight
  · exact .inl (Worker.answered_of_mem_replied replied)
  · exact .inr (.inl overwritten)
  · obtain ⟨q, member, rfl⟩ := List.mem_map.mp (Multiset.mem_coe.mp queued)
    obtain ⟨stored, same, deadline⟩ := stamped.parked q member
    obtain rfl := Option.some.inj (same.symm.trans found)
    refine .inr (.inr ⟨q.deadline, sound.live.queue q member, ?_,
      Worker.setBy_nextDeadline_queue stamped.sorted member⟩)
    have once : q.deadline ≤ q.deadline + cfg.timeout :=
      Worker.le_add_span _ _
    exact le_trans once (add_le_of_le_add (le_of_eq deadline))
  · obtain ⟨entry, member, rfl⟩ :=
      List.mem_map.mp (Multiset.mem_coe.mp inFlight)
    exact .inr (.inr ⟨entry.2.deadline, sound.live.pending entry member,
      sound.dispatched entry member arrival found,
      Worker.setBy_nextDeadline_pending member⟩)

/--
While the timer is reported, nothing a worker waits for is overdue when a turn
ends, and no client has been waiting for more than twice the timeout.
-/
theorem onTime_run
    (cfg : WorkerConfig)
    (set : UpstreamSet)
    (now : Instant)
    (has0rtt zeroRttOffered : Bool)
    {turns : List WorkerTurn}
    (punctual :
      AllSteps (turn cfg) Punctual (start cfg set now has0rtt zeroRttOffered)
        turns)
    (running :
      (turns.foldl (turn cfg)
        (start cfg set now has0rtt zeroRttOffered)).ended = false) :
    (turns.foldl (turn cfg)
      (start cfg set now has0rtt zeroRttOffered)).OnTime cfg := by
  have kept :=
    punctual.invariant (sound_turn cfg)
      (.inr (sound_start cfg set now has0rtt zeroRttOffered))
  rcases kept with ended | sound
  · rw [running] at ended
    cases ended
  · refine ⟨sound.live.pending, sound.live.queue, sound.live.reconnect, ?_⟩
    intro serial arrival found
    rcases sound.held found with
      answered | overwritten | ⟨deadline, ahead, limit, _⟩
    · exact .inl answered
    · exact .inr (.inl overwritten)
    · exact .inr (.inr (le_trans ahead limit))

instance (loop : WorkerLoop) (turn : WorkerTurn) :
    Decidable (loop.Punctual turn) :=
  decidable_of_iff
    (loop.now ≤ turn.armedAt ∧ turn.armedAt < turn.wokeAt ∧
      ∀ expiry ∈ loop.expiry turn, expiry ≤ turn.wokeAt →
        ∃ event ∈ turn.events, event.isTimer)
    ⟨fun ⟨clock, passes, reported⟩ => ⟨clock, passes, reported⟩,
      fun punctual => ⟨punctual.clock, punctual.passes, punctual.reported⟩⟩

/--
A query is parked, dispatched after four of its five seconds, and failed five
seconds later.
-/
def waitingTurns : List WorkerTurn :=
  [{ quicTimeout := none
     armedAt := 1
     pollOk := true
     wokeAt := 2
     events :=
       [.dns
         [(Worker.localPeer 5000, Worker.rootQuery, ⟨none, false, false⟩)]]
     drained := false },
   { quicTimeout := none
     armedAt := 3
     pollOk := true
     wokeAt := fromSecs 4
     events := [.quic [.connected [Worker.firstStream]]]
     drained := false },
   { quicTimeout := none
     armedAt := fromSecs 4 + 1
     pollOk := true
     wokeAt := fromSecs 9
     events := [.timer true 9 none ⟨true, false, true, false, true⟩]
     drained := false }]

/-- The worker after these turns. -/
def waited : WorkerLoop :=
  waitingTurns.foldl (turn Worker.plainConfig)
    (start Worker.plainConfig Worker.oldSet 0 false false)

/-- The parked query and its request were both on time. -/
theorem onTime_run_waitingTurns :
    waited.ended = false ∧ waited.timed.arrivals = [2] ∧
      waited.OnTime Worker.plainConfig := by
  have punctual :
      AllSteps (turn Worker.plainConfig) Punctual
        (start Worker.plainConfig Worker.oldSet 0 false false) waitingTurns := by
    decide +kernel
  have running : waited.ended = false := by
    decide +kernel
  have arrivals : waited.timed.arrivals = [2] := by
    decide +kernel
  exact ⟨running, arrivals,
    onTime_run Worker.plainConfig Worker.oldSet 0 false false punctual running⟩

/-- A turn starts soon after the one before, and the poll wakes up soon. -/
structure Prompt
    (work slack : Duration)
    (loop : WorkerLoop)
    (turn : WorkerTurn) :
    Prop extends Punctual loop turn where
  armed : turn.armedAt ≤ loop.now + work
  woken :
    ∀ expiry, loop.expiry turn = some expiry →
      turn.wokeAt ≤ expiry + slack

instance (work slack : Duration) (loop : WorkerLoop) (turn : WorkerTurn) :
    Decidable (loop.Prompt work slack turn) :=
  decidable_of_iff
    (loop.Punctual turn ∧ turn.armedAt ≤ loop.now + work ∧
      ∀ expiry ∈ loop.expiry turn, turn.wokeAt ≤ expiry + slack)
    ⟨fun ⟨punctual, armed, woken⟩ => ⟨punctual, armed, woken⟩,
      fun prompt => ⟨prompt.toPunctual, prompt.armed, prompt.woken⟩⟩

/-- When a turn wakes up, no query has been waiting for more than a time. -/
def AnswersWithin
    (limit : Duration)
    (loop : WorkerLoop)
    (turn : WorkerTurn) :
    Prop :=
  loop.ended = false →
    ∀ serial arrival, loop.timed.arrivals[serial]? = some arrival →
      ¬ loop.timed.worker.Answered serial →
        serial ∉ loop.timed.worker.overwritten →
          turn.wokeAt ≤ arrival + limit

/-- A deadline that lies ahead makes the poll wake up in time. -/
theorem woken_of_setBy
    {work slack : Duration}
    {loop : WorkerLoop}
    {turn : WorkerTurn}
    (prompt : loop.Prompt work slack turn)
    {deadline : Instant}
    (ahead : loop.now ≤ deadline)
    (set : SetBy (loop.timed.worker.nextDeadline turn.quicTimeout) deadline) :
    turn.wokeAt ≤ deadline + (work + slack + 1 : Nat) := by
  obtain ⟨d, next, before⟩ := set
  have expires : loop.expiry turn = some (max d (turn.armedAt + 1)) := by
    rw [expiry, next, armTimer_some]
  have woken := prompt.woken _ expires
  have armed := prompt.armed
  unfold Instant Duration at *
  omega

/--
With turns that take no longer than `work` and a poll that is at most `slack`
late, every client has its answer within twice the timeout and that delay.
-/
theorem answersWithin_run
    (cfg : WorkerConfig)
    (set : UpstreamSet)
    (now : Instant)
    (has0rtt zeroRttOffered : Bool)
    {work slack : Duration}
    {turns : List WorkerTurn}
    (prompt :
      AllSteps (turn cfg) (Prompt work slack)
        (start cfg set now has0rtt zeroRttOffered) turns) :
    AllSteps (turn cfg)
      (AnswersWithin (2 * cfg.timeout + (work + slack + 1)))
      (start cfg set now has0rtt zeroRttOffered) turns := by
  refine prompt.under
    (fun loop turn prompt => sound_turn cfg loop turn prompt.toPunctual) ?_
    (.inr (sound_start cfg set now has0rtt zeroRttOffered))
  intro loop turn prompt kept running serial arrival found unanswered notReplaced
  have sound : loop.Sound cfg :=
    kept.resolve_left (running ▸ Bool.false_ne_true)
  rcases sound.held found with
    answered | overwritten | ⟨deadline, ahead, limit, set⟩
  · exact absurd answered unanswered
  · exact absurd overwritten notReplaced
  · have woken := woken_of_setBy prompt ahead (set turn.quicTimeout)
    have bound :
        deadline + ((work + slack + 1 : Nat) : Int) ≤
          arrival + 2 * cfg.timeout + (work + slack + 1 : Nat) :=
      Int.add_le_add_right limit _
    refine le_trans woken (le_trans bound (le_of_eq ?_))
    push_cast
    ring

/-- The query is answered within twice its timeout. -/
theorem answersWithin_run_waitingTurns :
    waited.timed.worker.history.filterMap Observation.replied? = [0] ∧
      AllSteps (turn Worker.plainConfig)
        (AnswersWithin (fromSecs 10 + 2))
        (start Worker.plainConfig Worker.oldSet 0 false false)
        waitingTurns := by
  have prompt :
      AllSteps (turn Worker.plainConfig) (Prompt 1 0)
        (start Worker.plainConfig Worker.oldSet 0 false false) waitingTurns := by
    decide +kernel
  have replied :
      waited.timed.worker.history.filterMap Observation.replied? = [0] := by
    decide +kernel
  exact ⟨replied,
    answersWithin_run Worker.plainConfig Worker.oldSet 0 false false prompt⟩

/--
A turn that ends with housekeeping leaves the worker with nothing to do before
a later time, so the timer does not spin on a past deadline.  If the connection
was found drained, a reconnect may be due at the time of the turn itself.
-/
def RestsAfter
    (cfg : WorkerConfig)
    (loop : WorkerLoop)
    (turn : WorkerTurn) :
    Prop :=
  loop.ended = false →
    (∃ event, turn.events.getLast? = some event ∧ event.isTimer = true) →
      (loop.turn cfg turn).ended = false →
        ∀ t, (loop.turn cfg turn).timed.worker.nextDeadline none = some t →
          turn.wokeAt ≤ t ∧ (turn.drained = false → turn.wokeAt < t)

/-- A shutdown signal in the batch ends `run` with the turn. -/
theorem ended_turn_of_stops
    (cfg : WorkerConfig)
    {loop : WorkerLoop}
    (running : loop.ended = false)
    {turn : WorkerTurn}
    (fine : turn.fails = false)
    (stops : turn.events.any LoopEvent.stops = true) :
    (loop.turn cfg turn).ended = true := by
  have shutsDown (d : Timed) :
      (d.step cfg .shutdown).worker.returned = true := by
    simp only [Timed.step, Worker.step]
    split
    next returned =>
      exact returned
    · rfl
  have pollOk := turn.pollOk_of_not_fails fine
  rw [turn_eq cfg running fine, ended, Bool.false_or, WorkerTurn.actions,
    if_pos pollOk, fine, if_neg Bool.false_ne_true, stops, if_pos rfl,
    ← List.append_assoc, List.foldl_append]
  exact shutsDown _

/-- A turn that goes on and has the timer last ends with housekeeping. -/
theorem actions_eq_of_getLast?
    {turn : WorkerTurn}
    (fine : turn.fails = false)
    (notDrained : turn.drained = false)
    (goesOn : turn.events.any LoopEvent.stops = false)
    {event : LoopEvent}
    (last : turn.events.getLast? = some event)
    (isTimer : event.isTimer = true) :
    ∃ before env,
      turn.actions = before ++ [.housekeeping env] ∧ env.now = turn.wokeAt := by
  obtain ⟨others, shape⟩ := List.getLast?_eq_some_iff.mp last
  have whole := turn.takeWhile_events fine
  have pollOk := turn.pollOk_of_not_fails fine
  cases event with
  | timer timeoutOk monoSecs published connect =>
      refine ⟨others.flatMap (·.actions turn.wokeAt),
        ⟨turn.wokeAt, monoSecs, published, connect⟩, ?_, rfl⟩
      rw [WorkerTurn.actions, if_pos pollOk, whole, fine,
        if_neg Bool.false_ne_true, notDrained, goesOn,
        if_neg Bool.false_ne_true, if_neg Bool.false_ne_true, shape,
        List.flatMap_append, List.append_nil, List.append_nil]
      rfl
  | dns datagrams =>
      cases isTimer
  | quic events =>
      cases isTimer
  | signal signaled =>
      cases isTimer

/-- No run of the loop spins on a deadline that is over. -/
theorem restsAfter_run
    (cfg : WorkerConfig)
    (set : UpstreamSet)
    (now : Instant)
    (has0rtt zeroRttOffered : Bool)
    {turns : List WorkerTurn}
    (punctual :
      AllSteps (turn cfg) Punctual (start cfg set now has0rtt zeroRttOffered)
        turns) :
    AllSteps (turn cfg) (RestsAfter cfg)
      (start cfg set now has0rtt zeroRttOffered) turns := by
  refine punctual.under (sound_turn cfg) ?_
    (.inr (sound_start cfg set now has0rtt zeroRttOffered))
  rintro loop turn punctual kept running ⟨event, last, isTimer⟩ goesOn t next
  have sound : loop.Sound cfg :=
    kept.resolve_left (running ▸ Bool.false_ne_true)
  have fine : turn.fails = false := by
    cases fails : turn.fails with
    | false =>
        rfl
    | true =>
        rw [ended_turn_of_fails cfg running fails] at goesOn
        cases goesOn
  have after : (loop.turn cfg turn).Sound cfg :=
    (sound_turn cfg loop turn punctual kept).resolve_left
      (goesOn ▸ Bool.false_ne_true)
  have isNow : (loop.turn cfg turn).now = turn.wokeAt := by
    rw [turn_eq cfg running fine]
  refine ⟨isNow ▸ after.live.le_nextDeadline next, ?_⟩
  intro notDrained
  have noSignal : turn.events.any LoopEvent.stops = false := by
    cases stops : turn.events.any LoopEvent.stops with
    | false =>
        rfl
    | true =>
        rw [ended_turn_of_stops cfg running fine stops] at goesOn
        cases goesOn
  obtain ⟨before, env, shape, isNow⟩ :=
    actions_eq_of_getLast? fine notDrained noSignal last isTimer
  have atNow : ∀ action ∈ before, Timed.At turn.wokeAt action := by
    intro action member
    exact WorkerTurn.at_of_mem_actions
      (shape ▸ List.mem_append_left _ member)
  have ready :
      (before.foldl (Timed.step cfg) loop.timed).Ready cfg turn.wokeAt :=
    (allSteps_of_forall_mem atNow loop.timed).invariant (Timed.ready_step cfg)
      (sound.ready_woken punctual)
  rw [turn_eq cfg running fine, shape, List.foldl_append] at goesOn next
  generalize before.foldl (Timed.step cfg) loop.timed = d at *
  have notReturned : ¬ d.worker.returned := by
    intro returned
    simp only [ended, List.foldl_cons, List.foldl_nil, Timed.step, Worker.step,
      if_pos returned, Bool.false_or] at goesOn
    rw [returned] at goesOn
    cases goesOn
  rw [List.foldl_cons, List.foldl_nil,
    Timed.step_housekeeping cfg notReturned] at next
  obtain ⟨pending, queue⟩ :=
    Timed.lt_deadlines_housekeeping ready.stamped env
  rw [← isNow]
  rcases Worker.cases_nextDeadline next with
    ⟨entry, member, rfl⟩ | ⟨q, member, rfl⟩ | scheduled
  · exact pending entry member
  · exact queue q member
  · exact d.worker.lt_reconnectAt_housekeeping env scheduled

/-- With the query answered no deadline is left. -/
theorem restsAfter_run_waitingTurns :
    waited.timed.worker.nextDeadline none = none ∧
      AllSteps (turn Worker.plainConfig) (RestsAfter Worker.plainConfig)
        (start Worker.plainConfig Worker.oldSet 0 false false)
        waitingTurns := by
  have punctual :
      AllSteps (turn Worker.plainConfig) Punctual
        (start Worker.plainConfig Worker.oldSet 0 false false) waitingTurns := by
    decide +kernel
  have idle : waited.timed.worker.nextDeadline none = none := by
    decide +kernel
  exact ⟨idle,
    restsAfter_run Worker.plainConfig Worker.oldSet 0 false false punctual⟩

end WorkerLoop

end DnsServices.Microdoh3
