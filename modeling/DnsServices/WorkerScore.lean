import DnsServices.Runs
import DnsServices.WorkerFrame
import DnsServices.WorkerLoss
import DnsServices.WorkerReplies

namespace DnsServices.Microdoh3

/-!
# The scores a worker publishes

The score is computed from the latency of successful requests alone; whether
the worker is connected goes into the flags.  So a positive score is always
backed by a success on the address it names, but it may be published without a
connection.
-/

open Http3 Runs Shared

/-- The worker has moved to another address. -/
def Observation.isMigration : Observation → Bool
  | .migrated _ _ => true
  | _ => false

/-- The sample that was published. -/
def Observation.published? : Observation → Option ScoreSample
  | .published sample => some sample
  | _ => none

namespace Worker

/-- What is observed during one action. -/
def observed
    (cfg : WorkerConfig)
    (w : Worker)
    (action : Action) :
    List Observation :=
  (w.step cfg action).history.drop w.history.length

/-- The samples written to the score slot during one action. -/
def samples
    (cfg : WorkerConfig)
    (w : Worker)
    (action : Action) :
    List ScoreSample :=
  (w.observed cfg action).filterMap Observation.published?

end Worker

/-- A worker with the address its last connection was dialled to. -/
structure Dialled where
  worker : Worker
  /-- Set when a connection is opened (history only). -/
  remote : SocketAddr

namespace Dialled

/-- A worker that has dialled its first address. -/
def start
    (cfg : WorkerConfig)
    (set : UpstreamSet)
    (now : Instant)
    (has0rtt zeroRttOffered : Bool) :
    Dialled where
  worker := Worker.start cfg set now has0rtt zeroRttOffered
  remote := (Worker.start cfg set now has0rtt zeroRttOffered).rt.myRemote

/-- A connection is dialled to the address the worker has at that moment. -/
def step (cfg : WorkerConfig) (d : Dialled) (action : Action) : Dialled where
  worker := d.worker.step cfg action
  remote :=
    if (d.worker.step cfg action).connections = d.worker.connections then
      d.remote
    else
      (d.worker.step cfg action).rt.myRemote

/-- Actions one after the other. -/
def run (cfg : WorkerConfig) (d : Dialled) (actions : List Action) : Dialled :=
  actions.foldl (step cfg) d

/-- A request succeeds in an action, on a connection to an address. -/
structure Succeeds
    (cfg : WorkerConfig)
    (d : Dialled)
    (action : Action)
    (addr : IpAddr) : Prop where
  connected : d.worker.conn.isSome
  remote : d.remote.ip = addr
  success : ∃ observation ∈ d.worker.observed cfg action, observation.isResponse

/-- No migration in an action. -/
def Stays (cfg : WorkerConfig) (d : Dialled) (action : Action) : Prop :=
  ∀ observation ∈ d.worker.observed cfg action, ¬ observation.isMigration

/--
A request succeeded on a connection to an address, and the worker has not
migrated since.
-/
def MeasuredOn
    (cfg : WorkerConfig)
    (first : Dialled)
    (past : List Action)
    (addr : IpAddr) : Prop :=
  ∃ earlier action later,
    past = earlier ++ action :: later ∧
      (first.run cfg earlier).Succeeds cfg action addr ∧
      AllSteps (step cfg) (Stays cfg) (first.run cfg (earlier ++ [action]))
        later

/--
A published sample is honest: its score is zero, or the worker has a
connection and has measured the address in the sample.
-/
def HonestSample
    (cfg : WorkerConfig)
    (first : Dialled)
    (past : List Action)
    (sample : ScoreSample) : Prop :=
  0 < sample.score →
    (first.run cfg past).worker.conn.isSome ∧
      ∃ addr, sample.addr = some addr ∧ MeasuredOn cfg first past addr

/-- Every sample published in a run is honest. -/
def HonestRun
    (cfg : WorkerConfig)
    (first : Dialled)
    (actions : List Action) : Prop :=
  ∀ past action, past ++ [action] <+: actions →
    ∀ sample ∈ (first.run cfg past).worker.samples cfg action,
      HonestSample cfg first past sample

end Dialled

namespace Worker

/--
Housekeeping publishes while the worker has a connection, or with nothing to
advertise: no latency measured, or one over a second.
-/
def PublishesConnected (w : Worker) : Action → Prop
  | .housekeeping env =>
      ¬ w.returned → scoreInterval ≤ durationSince env.now w.rt.lastScore →
        w.conn.isSome ∨ w.rt.quality.ewmaUs = 0 ∨
          1000000 < w.rt.quality.ewmaUs
  | _ =>
      True

end Worker

/-! ## Steps that publish nothing -/

theorem Observation.not_isReport_of_isRoutine
    {observation : Observation}
    (isRoutine : observation.isRoutine) :
    ¬ observation.isReport := by
  cases observation <;> simp_all [Observation.isRoutine, Observation.isReport]

namespace Worker

/-- Nothing is published or dialled, and the worker does not migrate. -/
structure Measures (before after : Worker) : Prop where
  conn : after.conn.isSome → before.conn.isSome
  myRemote : after.rt.myRemote = before.rt.myRemote
  connections : after.connections = before.connections
  history :
    ∃ added, after.history = before.history ++ added ∧
      (∀ observation ∈ added, ¬ observation.isReport) ∧
      (after.rt.quality.ewmaUs ≠ before.rt.quality.ewmaUs →
        ∃ observation ∈ added, observation.isResponse)

theorem SameScore.measures
    {before after : Worker}
    (same : SameScore before after) :
    Measures before after := by
  obtain ⟨added, history, routine⟩ := same.history
  exact ⟨same.dialled, same.myRemote, same.connections, added, history,
    fun observation member =>
      Observation.not_isReport_of_isRoutine (routine observation member),
    fun changed => absurd same.ewmaUs changed⟩

namespace Measures

theorem refl (w : Worker) : Measures w w :=
  (SameScore.refl w).measures

theorem trans
    {first second third : Worker}
    (earlier : Measures first second)
    (later : Measures second third) :
    Measures first third where
  conn := earlier.conn ∘ later.conn
  myRemote := later.myRemote.trans earlier.myRemote
  connections := later.connections.trans earlier.connections
  history := by
    obtain ⟨added, sameFirst, plainFirst, changedFirst⟩ := earlier.history
    obtain ⟨more, sameSecond, plainSecond, changedSecond⟩ := later.history
    refine ⟨added ++ more, ?_, ?_, ?_⟩
    · rw [sameSecond, sameFirst, List.append_assoc]
    · intro observation member
      rcases List.mem_append.mp member with inAdded | inMore
      · exact plainFirst observation inAdded
      · exact plainSecond observation inMore
    · intro changed
      by_cases changedLater :
          third.rt.quality.ewmaUs = second.rt.quality.ewmaUs
      · rw [changedLater] at changed
        obtain ⟨observation, member, success⟩ := changedFirst changed
        exact ⟨observation, List.mem_append_left _ member, success⟩
      · obtain ⟨observation, member, success⟩ := changedSecond changedLater
        exact ⟨observation, List.mem_append_right _ member, success⟩

end Measures

/-- Only a response changes the measured latency. -/
theorem measures_applyH3Event
    (now : Instant)
    (w : Worker)
    (event : H3Event) :
    Measures w (w.applyH3Event now event) := by
  cases event with
  | response stream body =>
      simp only [applyH3Event]
      split
      · exact .refl w
      · exact ⟨id, rfl, rfl, [_], rfl, by simp [Observation.isReport],
          fun _ => ⟨_, List.mem_singleton_self _, rfl⟩⟩
  | failed stream =>
      exact (w.routine_failRequest stream).toSameScore.measures
  | goaway =>
      simp only [applyH3Event]
      split
      · exact (SameScore.update w).measures
      · exact .refl w

theorem measures_processQuicEvents
    (cfg : WorkerConfig)
    (now : Instant)
    (w : Worker)
    (events : List QuicEvent) :
    Measures w (w.processQuicEvents cfg now events) := by
  have applied (h3Events : List H3Event) (w : Worker) :
      Measures w (h3Events.foldl (applyH3Event now) w) := by
    induction h3Events generalizing w with
    | nil =>
        exact .refl w
    | cons event rest inductionHypothesis =>
        exact (measures_applyH3Event now w event).trans (inductionHypothesis _)
  exact (sameScore_handleQuicEvents cfg now _ w).measures.trans (applied _ _)

/-! ## Housekeeping -/

/-- A latency counts unless it is zero or over a second. -/
theorem scoreFromRtt_pos (rttUs : UInt32) :
    0 < scoreFromRtt rttUs ↔ 0 < rttUs.toNat ∧ rttUs.toNat ≤ 1000000 := by
  unfold scoreFromRtt
  split
  next zero =>
    simp [zero]
  next nonzero =>
    have positive : 0 < rttUs.toNat :=
      Nat.pos_of_ne_zero fun zero => nonzero (UInt32.toNat_inj.mp zero)
    rw [UInt32.lt_iff_toNat_lt, UInt32.toNat_div]
    change 0 < 1000000 / rttUs.toNat ↔ _
    rw [Nat.div_pos_iff]

/-- A score is positive exactly for an average of at most a second. -/
theorem score_sample_pos
    (quality : Quality)
    (addr : Option IpAddr)
    (flags : UInt32) :
    0 < (quality.sample addr flags).score ↔
      0 < quality.ewmaUs ∧ quality.ewmaUs ≤ 1000000 := by
  have bounded : min quality.ewmaUs u32Max < 2 ^ 32 := by
    have := Nat.min_le_right quality.ewmaUs u32Max
    rw [u32Max] at this ⊢
    omega
  change 0 < scoreFromRtt _ ↔ _
  rw [scoreFromRtt_pos, UInt32.toNat_ofNat_of_lt' bounded, u32Max]
  omega

/-- A sample is written once the interval has passed. -/
theorem publishScore_cases (w : Worker) (now : Instant) :
    (durationSince now w.rt.lastScore < scoreInterval ∧
      w.publishScore now = w) ∨
      (scoreInterval ≤ durationSince now w.rt.lastScore ∧
        ∃ flags,
          w.publishScore now =
            { w with
              rt.quality := w.rt.quality.resetWindow
              rt.lastScore := now }.observe
              (.published
                (w.rt.quality.sample (some w.rt.myRemote.ip) flags))) := by
  unfold publishScore
  split
  next due =>
    exact .inr ⟨due, _, rfl⟩
  next notDue =>
    exact .inl ⟨not_le.mp notDue, rfl⟩

/-- A migration forgets the measurement and schedules a reconnect. -/
theorem migrate_cases
    (cfg : WorkerConfig)
    (w : Worker)
    (now : Instant)
    (monoSecs : Nat) :
    w.migrate cfg now monoSecs = w ∨
      ∃ target slot,
        w.migrate cfg now monoSecs =
          { w with
            rt.myRemote := ⟨target, cfg.upstream.port⟩
            rt.slot := slot
            rt.lastMigrate := now
            rt.failStreak := 0
            rt.quality := {}
            reconnectAt := some now }.observe (.migrated now target) := by
  unfold migrate
  split
  next target _ _ =>
    exact .inr ⟨target, _, rfl⟩
  · exact .inl rfl

/-- A reconnect leaves the measurement alone. -/
theorem reconnect_frame (w : Worker) (now : Instant) (env : ConnectEnv) :
    (w.reconnect now env).history = w.history ∧
      (w.reconnect now env).rt.myRemote = w.rt.myRemote ∧
      (w.reconnect now env).rt.quality = w.rt.quality := by
  obtain ⟨_, _, _, _, _, _, _, _, same⟩ := w.reconnect_update now env
  rw [same]
  exact ⟨rfl, rfl, rfl⟩

/-- A connection that was not dialled here is the old one. -/
theorem reconnect_dial
    {w : Worker}
    {now : Instant}
    {env : ConnectEnv}
    (connected : (w.reconnect now env).conn.isSome)
    (notDialled : (w.reconnect now env).connections = w.connections) :
    w.conn.isSome ∧ ∀ t, w.reconnectAt = some t → now < t := by
  have closed : w.closed.connections = w.connections := by
    unfold Worker.closed
    split <;> rfl
  have attempted
      (connected : (w.closed.connect env).1.conn.isSome)
      (notDialled : (w.closed.connect env).1.connections = w.connections) :
      False := by
    unfold connect at connected notDialled
    split at notDialled
    next connectOk =>
      simp [closed] at notDialled
    next notOk =>
      simp [notOk, w.conn_closed] at connected
  rcases w.reconnect_cases now env with
    ⟨same, notDue⟩ | ⟨_, ⟨_, same⟩ | same⟩
  · rw [same] at connected
    exact ⟨connected, notDue⟩
  · rw [same] at connected notDialled
    exact (attempted connected notDialled).elim
  · rw [same] at connected notDialled
    exact (attempted connected notDialled).elim

/-- The part of the history that says what was published. -/
inductive Publishes
    (w : Worker)
    (now : Instant) :
    List Observation → Prop where
  | early
      (notDue : durationSince now w.rt.lastScore < scoreInterval) :
      Publishes w now []
  | due
      {sample : ScoreSample}
      (isDue : scoreInterval ≤ durationSince now w.rt.lastScore)
      (addr : sample.addr = some w.rt.myRemote.ip)
      (score :
        0 < sample.score ↔
          0 < w.rt.quality.ewmaUs ∧ w.rt.quality.ewmaUs ≤ 1000000) :
      Publishes w now [.published sample]

/-- The part of the history that says whether the worker migrated. -/
inductive Migrates (before after : Worker) : List Observation → Prop where
  | stays
      (myRemote : after.rt.myRemote = before.rt.myRemote)
      (ewmaUs : after.rt.quality.ewmaUs = before.rt.quality.ewmaUs) :
      Migrates before after []
  | leaves
      (now : Instant)
      (target : IpAddr)
      (ewmaUs : after.rt.quality.ewmaUs = 0) :
      Migrates before after [.migrated now target]

theorem Publishes.eq_published
    {w : Worker}
    {now : Instant}
    {published : List Observation}
    (publishes : Publishes w now published) :
    ∀ observation ∈ published, ∃ sample, observation = .published sample := by
  intro observation member
  cases publishes with
  | early =>
      cases member
  | due =>
      exact ⟨_, List.mem_singleton.mp member⟩

theorem Migrates.eq_migrated
    {before after : Worker}
    {moved : List Observation}
    (migrates : Migrates before after moved) :
    ∀ observation ∈ moved,
      ∃ now target, observation = .migrated now target := by
  intro observation member
  cases migrates with
  | stays =>
      cases member
  | leaves now target =>
      exact ⟨now, target, List.mem_singleton.mp member⟩

/-- Publishing adds at most one publication to the history. -/
theorem publishes_publishScore (w : Worker) (now : Instant) :
    ∃ published,
      (w.publishScore now).history = w.history ++ published ∧
        Publishes w now published := by
  rcases w.publishScore_cases now with ⟨notDue, same⟩ | ⟨due, flags, same⟩
  · rw [same]
    exact ⟨[], (List.append_nil _).symm, .early notDue⟩
  · rw [same]
    exact ⟨[_], rfl, .due due rfl (score_sample_pos _ _ _)⟩

theorem publishScore_frame (w : Worker) (now : Instant) :
    (w.publishScore now).conn = w.conn ∧
      (w.publishScore now).connections = w.connections ∧
      (w.publishScore now).rt.myRemote = w.rt.myRemote ∧
      (w.publishScore now).rt.quality.ewmaUs = w.rt.quality.ewmaUs := by
  unfold publishScore
  split <;> exact ⟨rfl, rfl, rfl, rfl⟩

theorem goawayDrained_frame (w : Worker) (now : Instant) :
    (w.goawayDrained now).conn = w.conn ∧
      (w.goawayDrained now).connections = w.connections ∧
      (w.goawayDrained now).rt = w.rt ∧
      (w.goawayDrained now).history = w.history := by
  obtain ⟨_, same⟩ := w.goawayDrained_update now
  rw [same]
  exact ⟨rfl, rfl, rfl, rfl⟩

/-- Migrating adds at most one migration to the history. -/
theorem migrates_migrate
    (cfg : WorkerConfig)
    (w : Worker)
    (now : Instant)
    (monoSecs : Nat) :
    ∃ moved,
      (w.migrate cfg now monoSecs).history = w.history ++ moved ∧
        Migrates w (w.migrate cfg now monoSecs) moved := by
  rcases w.migrate_cases cfg now monoSecs with same | ⟨target, slot, same⟩
  · rw [same]
    exact ⟨[], (List.append_nil _).symm, .stays rfl rfl⟩
  · rw [same]
    exact ⟨[_], rfl, .leaves now target rfl⟩

/-- What a housekeeping call does to the history and to the measurement. -/
theorem history_housekeeping
    (cfg : WorkerConfig)
    (w : Worker)
    (env : HousekeepingEnv) :
    ∃ routine published moved,
      (w.housekeeping cfg env).history =
          w.history ++ (routine ++ published ++ moved) ∧
        (∀ observation ∈ routine, observation.isRoutine) ∧
        Publishes w env.now published ∧
        Migrates w (w.housekeeping cfg env) moved := by
  have frame := (w.routine_beforePublication cfg env).toSameScore
  obtain ⟨routine, history, isRoutine⟩ := frame.history
  rw [housekeeping_eq]
  generalize w.beforePublication cfg env = prepared at frame history
  obtain ⟨published, historyPublished, publishes⟩ :=
    prepared.publishes_publishScore env.now
  obtain ⟨_, _, remotePublished, ewmaPublished⟩ :=
    prepared.publishScore_frame env.now
  generalize prepared.publishScore env.now = written at *
  obtain ⟨_, _, rtDrained, historyDrained⟩ :=
    written.goawayDrained_frame env.now
  generalize written.goawayDrained env.now = drained at *
  obtain ⟨moved, historyMoved, migrates⟩ :=
    drained.migrates_migrate cfg env.now env.monoSecs
  generalize drained.migrate cfg env.now env.monoSecs = placed at *
  obtain ⟨historyEnd, remoteEnd, qualityEnd⟩ :=
    placed.reconnect_frame env.now env.connect
  refine ⟨routine, published, moved, ?_, isRoutine, ?_, ?_⟩
  · rw [historyEnd, historyMoved, historyDrained, historyPublished, history]
    simp only [List.append_assoc]
  · cases publishes with
    | early notDue =>
        rw [frame.lastScore] at notDue
        exact .early notDue
    | due isDue addr score =>
        rw [frame.lastScore] at isDue
        rw [frame.myRemote] at addr
        rw [frame.ewmaUs] at score
        exact .due isDue addr score
  · cases migrates with
    | stays myRemote ewmaUs =>
        refine .stays ?_ ?_
        · rw [remoteEnd, myRemote, rtDrained, remotePublished, frame.myRemote]
        · rw [qualityEnd, ewmaUs, rtDrained, ewmaPublished, frame.ewmaUs]
    | leaves now target ewmaUs =>
        refine .leaves now target ?_
        rw [qualityEnd, ewmaUs]

/-- A worker that migrates is due to reconnect at once. -/
theorem migrate_link
    (cfg : WorkerConfig)
    (w : Worker)
    (now : Instant)
    (monoSecs : Nat) :
    (w.migrate cfg now monoSecs).conn = w.conn ∧
      (w.migrate cfg now monoSecs).connections = w.connections ∧
      ((w.migrate cfg now monoSecs).rt.myRemote = w.rt.myRemote ∨
        (w.migrate cfg now monoSecs).reconnectAt = some now) := by
  rcases w.migrate_cases cfg now monoSecs with same | ⟨target, slot, same⟩
  · rw [same]
    exact ⟨rfl, rfl, .inl rfl⟩
  · rw [same]
    exact ⟨rfl, rfl, .inr rfl⟩

/-- A connection that outlives housekeeping keeps its address. -/
theorem dial_housekeeping
    {cfg : WorkerConfig}
    {w : Worker}
    {env : HousekeepingEnv}
    (connected : (w.housekeeping cfg env).conn.isSome)
    (notDialled : (w.housekeeping cfg env).connections = w.connections) :
    w.conn.isSome ∧
      (w.housekeeping cfg env).rt.myRemote = w.rt.myRemote := by
  have frame := w.routine_beforePublication cfg env
  rw [housekeeping_eq] at connected notDialled ⊢
  generalize w.beforePublication cfg env = prepared at *
  obtain ⟨connPublished, countPublished, remotePublished, _⟩ :=
    prepared.publishScore_frame env.now
  generalize prepared.publishScore env.now = written at *
  obtain ⟨connDrained, countDrained, rtDrained, _⟩ :=
    written.goawayDrained_frame env.now
  generalize written.goawayDrained env.now = drained at *
  obtain ⟨connMoved, countMoved, remoteMoved⟩ :=
    drained.migrate_link cfg env.now env.monoSecs
  generalize drained.migrate cfg env.now env.monoSecs = placed at *
  have count : placed.connections = w.connections := by
    rw [countMoved, countDrained, countPublished, frame.connections]
  rw [← count] at notDialled
  obtain ⟨still, notDue⟩ := reconnect_dial connected notDialled
  refine ⟨?_, ?_⟩
  · rw [connMoved, connDrained, connPublished, frame.conn] at still
    exact still
  · rw [(placed.reconnect_frame env.now env.connect).2.1]
    rcases remoteMoved with stays | leaves
    · rw [stays, rtDrained, remotePublished, frame.myRemote]
    · exact absurd (notDue _ leaves) (lt_irrefl _)

/-! ## Steps -/

/-- What a step adds to the history is what it observes. -/
theorem observed_eq
    {cfg : WorkerConfig}
    {w : Worker}
    {action : Action}
    {added : List Observation}
    (history : (w.step cfg action).history = w.history ++ added) :
    w.observed cfg action = added := by
  rw [observed, history, List.drop_left]

/--
A step measures at most, and needs a connection to do so, unless it is a
housekeeping call.
-/
theorem step_score_cases
    (cfg : WorkerConfig)
    (w : Worker)
    (action : Action) :
    (Measures w (w.step cfg action) ∧
      (w.conn.isSome ∨
        (w.step cfg action).rt.quality.ewmaUs = w.rt.quality.ewmaUs) ∧
      w.PublishesConnected action) ∨
      ∃ env,
        action = .housekeeping env ∧ ¬ w.returned ∧
          w.step cfg action = w.housekeeping cfg env := by
  rcases w.step_cases cfg action with
    ⟨same, other⟩ | ⟨now, events, rfl, _, connected, same⟩ | housekeeping
  · refine .inl ⟨same.measures, .inr same.ewmaUs, ?_⟩
    cases action with
    | housekeeping env =>
        exact fun running => absurd rfl (other running env)
    | _ =>
        trivial
  · rw [same]
    exact .inl ⟨measures_processQuicEvents cfg now w events, .inl connected,
      trivial⟩
  · exact .inr housekeeping

end Worker

/-! ## Runs -/

theorem Observation.not_isMigration_of_not_isReport
    {observation : Observation}
    (notReport : ¬ observation.isReport) :
    ¬ observation.isMigration := by
  cases observation <;> simp_all [isMigration, isReport]

theorem Observation.published?_of_not_isReport
    {observation : Observation}
    (notReport : ¬ observation.isReport) :
    observation.published? = none := by
  cases observation <;> simp_all [published?, isReport]

namespace Dialled

theorem run_append
    (cfg : WorkerConfig)
    (d : Dialled)
    (first second : List Action) :
    d.run cfg (first ++ second) = (d.run cfg first).run cfg second :=
  List.foldl_append

theorem run_concat
    (cfg : WorkerConfig)
    (d : Dialled)
    (past : List Action)
    (action : Action) :
    d.run cfg (past ++ [action]) = (d.run cfg past).step cfg action :=
  d.run_append cfg past [action]

theorem worker_run
    (cfg : WorkerConfig)
    (d : Dialled)
    (actions : List Action) :
    (d.run cfg actions).worker = d.worker.run cfg actions := by
  induction actions generalizing d with
  | nil =>
      rfl
  | cons action rest inductionHypothesis =>
      exact inductionHypothesis (d.step cfg action)

/-- The measurement stays good until the next migration. -/
theorem MeasuredOn.extend
    {cfg : WorkerConfig}
    {first : Dialled}
    {past : List Action}
    {addr : IpAddr}
    (measured : MeasuredOn cfg first past addr)
    {action : Action}
    (stays : (first.run cfg past).Stays cfg action) :
    MeasuredOn cfg first (past ++ [action]) addr := by
  obtain ⟨earlier, success, later, rfl, succeeds, stayed⟩ := measured
  refine ⟨earlier, success, later ++ [action], ?_, succeeds, ?_⟩
  · rw [List.append_assoc, List.cons_append]
  · refine stayed.concat ?_
    rw [← List.singleton_append, ← List.append_assoc, run_append] at stays
    exact stays

/-- A success has measured the address dialled last. -/
theorem measuredOn_succeeds
    {cfg : WorkerConfig}
    {first : Dialled}
    {past : List Action}
    {addr : IpAddr}
    {action : Action}
    (succeeds : (first.run cfg past).Succeeds cfg action addr) :
    MeasuredOn cfg first (past ++ [action]) addr :=
  ⟨past, action, [], rfl, succeeds, trivial⟩

/-- The connection leads to the worker's address, and so does its latency. -/
structure Backed
    (cfg : WorkerConfig)
    (first : Dialled)
    (past : List Action) : Prop where
  dialled :
    (first.run cfg past).worker.conn.isSome →
      (first.run cfg past).remote = (first.run cfg past).worker.rt.myRemote
  measured :
    0 < (first.run cfg past).worker.rt.quality.ewmaUs →
      MeasuredOn cfg first past (first.run cfg past).worker.rt.myRemote.ip

/-- One step: a connection keeps its address, a new one takes the current. -/
theorem dialled_step
    (cfg : WorkerConfig)
    {d : Dialled}
    (dialled : d.worker.conn.isSome → d.remote = d.worker.rt.myRemote)
    {action : Action}
    (connected : (d.step cfg action).worker.conn.isSome) :
    (d.step cfg action).remote = (d.step cfg action).worker.rt.myRemote := by
  simp only [step] at connected ⊢
  split
  next notDialled =>
    rcases d.worker.step_score_cases cfg action with
      ⟨measures, _⟩ | ⟨env, _, _, same⟩
    · rw [measures.myRemote]
      exact dialled (measures.conn connected)
    · rw [same] at connected notDialled ⊢
      obtain ⟨before, kept⟩ :=
        Worker.dial_housekeeping connected notDialled
      rw [kept]
      exact dialled before
  · rfl

theorem backed_concat
    {cfg : WorkerConfig}
    {first : Dialled}
    {past : List Action}
    (backed : Backed cfg first past)
    (action : Action) :
    Backed cfg first (past ++ [action]) := by
  refine ⟨?_, ?_⟩
  · rw [run_concat]
    exact dialled_step cfg backed.dialled
  · rw [run_concat]
    intro positive
    have sameWorker :
        ((first.run cfg past).step cfg action).worker =
          (first.run cfg past).worker.step cfg action := rfl
    rw [sameWorker] at positive ⊢
    rcases (first.run cfg past).worker.step_score_cases cfg action with
      ⟨measures, connected, _⟩ | ⟨env, _, _, same⟩
    · obtain ⟨added, history, plain, changed⟩ := measures.history
      have observed := Worker.observed_eq history
      rw [measures.myRemote]
      by_cases kept :
          ((first.run cfg past).worker.step cfg action).rt.quality.ewmaUs =
            (first.run cfg past).worker.rt.quality.ewmaUs
      · rw [kept] at positive
        refine (backed.measured positive).extend ?_
        intro observation member
        rw [observed] at member
        exact Observation.not_isMigration_of_not_isReport
          (plain observation member)
      · have isConnected := connected.resolve_right kept
        refine measuredOn_succeeds ⟨isConnected, ?_, ?_⟩
        · rw [backed.dialled isConnected]
        · rw [observed]
          exact changed kept
    · obtain ⟨routine, published, moved, history, isRoutine, publishes,
        migrates⟩ :=
          (first.run cfg past).worker.history_housekeeping cfg env
      rw [← same] at history migrates
      cases migrates with
      | leaves now target ewmaUs =>
          rw [ewmaUs] at positive
          exact absurd positive (lt_irrefl 0)
      | stays myRemote ewmaUs =>
          rw [ewmaUs] at positive
          rw [myRemote]
          refine (backed.measured positive).extend ?_
          intro observation member
          rw [Worker.observed_eq history, List.append_nil] at member
          rcases List.mem_append.mp member with inRoutine | inPublished
          · exact Observation.not_isMigration_of_not_isReport
              (Observation.not_isReport_of_isRoutine
                (isRoutine observation inRoutine))
          · obtain ⟨sample, rfl⟩ :=
              publishes.eq_published observation inPublished
            exact Bool.false_ne_true

/-- Every run keeps every average backed by a measurement. -/
theorem backed_run
    (cfg : WorkerConfig)
    (set : UpstreamSet)
    (now : Instant)
    (has0rtt zeroRttOffered : Bool)
    (past : List Action) :
    Backed cfg (start cfg set now has0rtt zeroRttOffered) past := by
  induction past using List.reverseRecOn with
  | nil =>
      exact ⟨fun _ => rfl, fun positive => absurd positive (lt_irrefl 0)⟩
  | append_singleton past action inductionHypothesis =>
      exact backed_concat inductionHypothesis action

/-- One step publishes honestly exactly if it publishes connected. -/
theorem honest_step_iff
    {cfg : WorkerConfig}
    {first : Dialled}
    {past : List Action}
    (backed : Backed cfg first past)
    (action : Action) :
    (∀ sample ∈ (first.run cfg past).worker.samples cfg action,
      HonestSample cfg first past sample) ↔
      (first.run cfg past).worker.PublishesConnected action := by
  rcases (first.run cfg past).worker.step_score_cases cfg action with
    ⟨measures, _, publishesConnected⟩ | ⟨env, rfl, running, same⟩
  · refine iff_of_true ?_ publishesConnected
    obtain ⟨added, history, plain, _⟩ := measures.history
    intro sample member
    rw [Worker.samples, Worker.observed_eq history,
      List.filterMap_eq_nil_iff.mpr fun observation inAdded =>
        Observation.published?_of_not_isReport (plain observation inAdded)]
      at member
    cases member
  · obtain ⟨routine, published, moved, history, isRoutine, publishes,
      migrates⟩ := (first.run cfg past).worker.history_housekeeping cfg env
    rw [← same] at history migrates
    have samples :
        (first.run cfg past).worker.samples cfg (.housekeeping env) =
          published.filterMap Observation.published? := by
      have noneRoutine : routine.filterMap Observation.published? = [] :=
        List.filterMap_eq_nil_iff.mpr fun observation inRoutine =>
          Observation.published?_of_not_isReport
            (Observation.not_isReport_of_isRoutine
              (isRoutine observation inRoutine))
      have noneMoved : moved.filterMap Observation.published? = [] := by
        cases migrates <;> rfl
      rw [Worker.samples, Worker.observed_eq history, List.filterMap_append,
        List.filterMap_append, noneRoutine, noneMoved, List.nil_append,
        List.append_nil]
    rw [samples]
    cases publishes with
    | early notDue =>
        refine iff_of_true (by simp) ?_
        intro _ due
        exact absurd due (not_le.mpr notDue)
    | due isDue addr score =>
        constructor
        · intro honest _ _
          by_contra unconnected
          push Not at unconnected
          obtain ⟨noConnection, nonzero, fast⟩ := unconnected
          have positive :=
            score.mpr ⟨Nat.pos_of_ne_zero nonzero, fast⟩
          exact noConnection
            (honest _ (List.mem_singleton_self _) positive).1
        · intro publishesConnected sample member positive
          obtain rfl := List.mem_singleton.mp member
          obtain ⟨measured, fast⟩ := score.mp positive
          refine ⟨?_, _, addr, backed.measured measured⟩
          rcases publishesConnected running isDue with
            connected | zero | slow
          · exact connected
          · exact absurd zero measured.ne'
          · exact absurd slow (not_lt.mpr fast)

/--
In every run, every published score is honest exactly if housekeeping never
publishes a measured latency without a connection.
-/
theorem honestRun_iff
    (cfg : WorkerConfig)
    (set : UpstreamSet)
    (now : Instant)
    (has0rtt zeroRttOffered : Bool)
    (actions : List Action) :
    HonestRun cfg (start cfg set now has0rtt zeroRttOffered) actions ↔
      ∀ past action, past ++ [action] <+: actions →
        ((Worker.start cfg set now has0rtt zeroRttOffered).run cfg
          past).PublishesConnected action := by
  refine forall_congr' fun past => forall_congr' fun action =>
    imp_congr_right fun _ => ?_
  rw [honest_step_iff (backed_run cfg set now has0rtt zeroRttOffered past),
    worker_run]
  rfl

/-! ### A stale score -/

/-- Status 200 and a body of two bytes. -/
def shortAnswer : Bytes :=
  [0x01, 0x03, 0x00, 0x00, 0xD9, 0x00, 0x02, 0xAB, 0xCD]

/-- A failed attempt to connect. -/
def noRoute : ConnectEnv := ⟨false, false, false, false, false⟩

/-- A request succeeds, the connection is lost and cannot be set up again. -/
def lossAfterSuccess : List Action :=
  [.quicEvents 0 [.connected []],
    .datagram 0 (Worker.localPeer 5000) Worker.rootQuery Worker.firstStream,
    .quicEvents (fromMillis 20) [.readable 0 [shortAnswer] .eof],
    .quicEvents (fromMillis 30) [.connectionLost false],
    .housekeeping ⟨fromSecs 1, 1, none, noRoute⟩]

/-- The next housekeeping call publishes. -/
def stalePublication : Action :=
  .housekeeping ⟨fromSecs 3, 3, none, noRoute⟩

/--
Two seconds after its last publication the worker advertises a score of 50,
although it has had no connection since shortly after its only request.
-/
theorem not_honestRun_lossAfterSuccess :
    ¬ HonestRun Worker.plainConfig
      (start Worker.plainConfig Worker.oldSet 0 false false)
      (lossAfterSuccess ++ [stalePublication]) := by
  intro honest
  have disconnected :
      ((start Worker.plainConfig Worker.oldSet 0 false false).run
        Worker.plainConfig lossAfterSuccess).worker.conn.isSome = false := by
    decide +kernel
  have published :
      ((((start Worker.plainConfig Worker.oldSet 0 false false).run
        Worker.plainConfig lossAfterSuccess).worker.samples
          Worker.plainConfig stalePublication).map ScoreSample.score) =
            [50] := by
    decide +kernel
  have positive :
      (50 : UInt32) ∈
        (((start Worker.plainConfig Worker.oldSet 0 false false).run
          Worker.plainConfig lossAfterSuccess).worker.samples
            Worker.plainConfig stalePublication).map ScoreSample.score := by
    rw [published]
    exact List.mem_singleton_self _
  obtain ⟨sample, member, score⟩ := List.mem_map.mp positive
  have connected :=
    (honest _ _ List.prefix_rfl sample member (by rw [score]; decide)).1
  rw [disconnected] at connected
  cases connected

end Dialled

end DnsServices.Microdoh3
