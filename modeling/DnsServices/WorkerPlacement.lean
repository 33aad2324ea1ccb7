import DnsServices.WorkerQueue
import DnsServices.WorkerScore

namespace DnsServices.Microdoh3

/-!
# Where a worker is placed

The upstream set of a worker, its address and the time of its last move change
in housekeeping only.  A housekeeping call first adopts what was published;
then the worker stays where it is, or it leaves for the target of the policy.
-/

open Http3 Runs Shared

namespace Worker

/-- The same set, address and last move; failures and scores may differ. -/
def SamePlacement (before after : Worker) : Prop :=
  ∃ failStreak quality lastScore,
    after.rt =
      { before.rt with
        failStreak := failStreak
        quality := quality
        lastScore := lastScore }

namespace SamePlacement

theorem refl (w : Worker) : SamePlacement w w :=
  ⟨_, _, _, rfl⟩

theorem trans
    {first second third : Worker}
    (earlier : SamePlacement first second)
    (later : SamePlacement second third) :
    SamePlacement first third := by
  obtain ⟨_, _, _, sameFirst⟩ := earlier
  obtain ⟨_, _, _, sameSecond⟩ := later
  exact ⟨_, _, _, by rw [sameSecond, sameFirst]⟩

variable {before after : Worker} (same : SamePlacement before after)

include same

theorem set_eq : after.rt.set = before.rt.set := by
  obtain ⟨_, _, _, rt⟩ := same
  rw [rt]

theorem myRemote_eq : after.rt.myRemote = before.rt.myRemote := by
  obtain ⟨_, _, _, rt⟩ := same
  rw [rt]

theorem lastMigrate_eq : after.rt.lastMigrate = before.rt.lastMigrate := by
  obtain ⟨_, _, _, rt⟩ := same
  rw [rt]

end SamePlacement

/-- What leaves the policy leaves the placement. -/
theorem SamePolicy.samePlacement
    {before after : Worker}
    (same : SamePolicy before after) :
    SamePlacement before after := by
  obtain ⟨quality, lastScore, rt⟩ := same
  exact ⟨_, quality, lastScore, rt⟩

/-! ## Queries and events -/

theorem samePolicy_sendServfail (w : Worker) (query : AcceptedQuery) :
    SamePolicy w (w.sendServfail query) := by
  unfold sendServfail
  split <;> exact ⟨_, _, rfl⟩

/-- Dispatching a query leaves the policy. -/
theorem samePolicy_dispatchQuery
    (cfg : WorkerConfig)
    (now : Instant)
    (w : Worker)
    (query : AcceptedQuery)
    (env : DispatchEnv) :
    SamePolicy w (w.dispatchQuery cfg now query env) := by
  unfold dispatchQuery
  split
  · exact samePolicy_onFailure_sendServfail w query
  next conn _ =>
    simp only
    split
    · exact samePolicy_sendServfail { w with conn := some conn } query
    · split
      · exact samePolicy_onFailure_sendServfail { w with conn := some conn }
          query
      · unfold register
        split <;> exact ⟨_, _, rfl⟩

theorem samePolicy_flushLoop
    (cfg : WorkerConfig)
    (now : Instant)
    (queue : List QueuedQuery)
    (envs : List DispatchEnv)
    (w : Worker) :
    SamePolicy w (flushLoop cfg now queue envs w) := by
  induction queue generalizing envs w with
  | nil =>
      exact .refl w
  | cons q rest inductionHypothesis =>
      rw [flushLoop]
      split
      · have answered :
            SamePolicy w
              ({ w with queue := rest }.onFailure.sendServfail
                q.toAcceptedQuery) :=
          samePolicy_onFailure_sendServfail { w with queue := rest } _
        exact answered.trans (inductionHypothesis _ _)
      · have sent :
            SamePolicy w
              ({ w with queue := rest }.dispatchQuery cfg now
                q.toAcceptedQuery (envs.headD ⟨none, false, false⟩)) :=
          samePolicy_dispatchQuery cfg now { w with queue := rest } _ _
        exact sent.trans (inductionHypothesis _ _)

theorem samePolicy_failAllPending (w : Worker) :
    SamePolicy w w.failAllPending := by
  have answered
      (entries : List (Sigma fun _ : StreamId => Pending))
      (w : Worker) :
      SamePolicy w
        (entries.foldl
          (fun w entry => w.onFailure.sendServfail entry.2.toAcceptedQuery)
          w) := by
    induction entries generalizing w with
    | nil =>
        exact .refl w
    | cons entry rest inductionHypothesis =>
        exact (samePolicy_onFailure_sendServfail w _).trans
          (inductionHypothesis _)
  exact answered w.pending.entries { w with pending := ∅ }

theorem samePolicy_readStream
    (conn : Connection)
    (stream : StreamId)
    (chunks : List Bytes)
    (w : Worker) :
    SamePolicy w (w.readStream conn stream chunks).1 := by
  induction chunks generalizing w with
  | nil =>
      exact .refl w
  | cons chunk rest inductionHypothesis =>
      exact inductionHypothesis
        ({ w with h3 := (w.h3.feed stream chunk).1 }.observe
          (.received conn.serial stream chunk))

/-- A QUIC event counts failures and leaves the placement alone. -/
theorem samePlacement_handleQuicEvent
    (cfg : WorkerConfig)
    (now : Instant)
    (w : Worker)
    (event : QuicEvent) :
    SamePlacement w (w.handleQuicEvent cfg now event).1 := by
  cases event with
  | connected envs =>
      simp only [handleQuicEvent]
      split
      · exact ⟨_, _, _, rfl⟩
      · obtain ⟨quality, lastScore, rt⟩ := samePolicy_flushLoop cfg now _ envs _
        exact ⟨_, quality, lastScore, rt⟩
  | connectionLost applicationClosed =>
      obtain ⟨quality, lastScore, rt⟩ := samePolicy_failAllPending _
      exact ⟨_, quality, lastScore, rt⟩
  | readable stream chunks outcome =>
      simp only [handleQuicEvent]
      split
      · exact .refl w
      next conn _ =>
        have read :=
          (samePolicy_readStream conn stream chunks w).samePlacement
        split
        · exact read
        · exact read
        · exact read
  | other =>
      exact .refl w

/-- QUIC events leave the placement. -/
theorem samePlacement_handleQuicEvents
    (cfg : WorkerConfig)
    (now : Instant)
    (events : List QuicEvent)
    (w : Worker) :
    SamePlacement w (handleQuicEvents cfg now events w).1 := by
  induction events generalizing w with
  | nil =>
      exact .refl w
  | cons event rest inductionHypothesis =>
      exact (samePlacement_handleQuicEvent cfg now w event).trans
        (inductionHypothesis _)

theorem samePolicy_applyH3Event
    (now : Instant)
    (w : Worker)
    (event : H3Event) :
    SamePolicy w (w.applyH3Event now event) := by
  cases event with
  | response stream body =>
      simp only [applyH3Event]
      split <;> exact ⟨_, _, rfl⟩
  | failed stream =>
      exact samePolicy_foldl_failRequest [stream] w
  | goaway =>
      simp only [applyH3Event]
      split <;> exact ⟨_, _, rfl⟩

theorem samePlacement_processQuicEvents
    (cfg : WorkerConfig)
    (now : Instant)
    (w : Worker)
    (events : List QuicEvent) :
    SamePlacement w (w.processQuicEvents cfg now events) := by
  have applied (h3Events : List H3Event) (w : Worker) :
      SamePlacement w (h3Events.foldl (applyH3Event now) w) := by
    induction h3Events generalizing w with
    | nil =>
        exact .refl w
    | cons event rest inductionHypothesis =>
        exact (samePolicy_applyH3Event now w event).samePlacement.trans
          (inductionHypothesis _)
  exact (samePlacement_handleQuicEvents cfg now _ w).trans (applied _ _)

theorem samePolicy_drainDns
    (cfg : WorkerConfig)
    (w : Worker)
    (now : Instant)
    (peer : SocketAddr)
    (data : Bytes)
    (env : DispatchEnv) :
    SamePolicy w (w.drainDns cfg now peer data env) := by
  unfold drainDns
  simp only
  split
  · split
    · exact samePolicy_onFailure_sendServfail _ _
    · split
      · split
        · exact samePolicy_onFailure_sendServfail _ _
        · exact ⟨_, _, rfl⟩
      · exact samePolicy_dispatchQuery cfg now _ _ _
  · exact .refl w

theorem samePlacement_checkDrained (w : Worker) (now : Instant) :
    SamePlacement w (w.checkDrained now) := by
  simp only [checkDrained]
  split
  · obtain ⟨quality, lastScore, rt⟩ := samePolicy_failAllPending _
    exact ⟨_, quality, lastScore, rt⟩
  · exact .refl w

/-- Only housekeeping changes the placement. -/
theorem samePlacement_step
    (cfg : WorkerConfig)
    (w : Worker)
    {action : Action}
    (other : ∀ env, action ≠ .housekeeping env) :
    SamePlacement w (w.step cfg action) := by
  unfold step
  split
  · exact .refl w
  · cases action with
    | datagram now peer data env =>
        exact (w.samePolicy_drainDns cfg now peer data env).samePlacement
    | quicEvents now events =>
        exact w.samePlacement_processQuicEvents cfg now events
    | housekeeping env =>
        exact absurd rfl (other env)
    | drained now =>
        exact w.samePlacement_checkDrained now
    | shutdown =>
        exact (samePolicy_failAllPending w).samePlacement

/-! ## Housekeeping -/

theorem samePolicy_publishScore (w : Worker) (now : Instant) :
    SamePolicy w (w.publishScore now) := by
  obtain ⟨quality, lastScore, _, same⟩ := w.publishScore_update now
  rw [same]
  exact ⟨quality, lastScore, rfl⟩

theorem samePlacement_reconnect
    (w : Worker)
    (now : Instant)
    (env : ConnectEnv) :
    SamePlacement w (w.reconnect now env) := by
  obtain ⟨_, _, _, _, _, _, failStreak, _, same⟩ := w.reconnect_update now env
  rw [same]
  exact ⟨failStreak, _, _, rfl⟩

/-- The worker as the migration rules of a housekeeping call see it. -/
def beforeMigration
    (cfg : WorkerConfig)
    (w : Worker)
    (env : HousekeepingEnv) : Worker :=
  ((w.beforePublication cfg env).publishScore env.now).goawayDrained env.now

/-- The worker after it has adopted what was published, and nothing else. -/
def adopting
    (cfg : WorkerConfig)
    (w : Worker)
    (env : HousekeepingEnv) : Worker :=
  { w with rt := w.rt.adopt cfg env.now env.published }

/-- Adopting a set does not look at the measurements. -/
theorem SamePolicy.adopting
    {before after : Worker}
    (same : SamePolicy before after)
    (cfg : WorkerConfig)
    (env : HousekeepingEnv) :
    SamePolicy (before.adopting cfg env) (after.adopting cfg env) := by
  obtain ⟨quality, lastScore, rt⟩ := same
  refine ⟨quality, lastScore, ?_⟩
  simp only [Worker.adopting, rt]
  unfold Runtime.adopt
  cases env.published with
  | none =>
      rfl
  | some set =>
      simp only
      split <;> rfl

/-- The migration rules see the adopted set and nothing else that is new. -/
theorem samePolicy_beforeMigration
    (cfg : WorkerConfig)
    (w : Worker)
    (env : HousekeepingEnv) :
    SamePolicy (w.adopting cfg env) (w.beforeMigration cfg env) := by
  have expired : SamePolicy w (w.expirePending env.now) :=
    samePolicy_foldl_failRequest _ w
  have published :
      SamePolicy (w.adopting cfg env)
        ((w.beforePublication cfg env).publishScore env.now) :=
    ((expired.adopting cfg env).trans
      (samePolicy_expireQueue env.now _ _)).trans
        (samePolicy_publishScore _ env.now)
  have drained :=
    ((w.beforePublication cfg env).publishScore env.now).goawayDrained_frame
      env.now
  rw [beforeMigration, SamePolicy, drained.2.2.1]
  exact published

/-- A publication is no migration. -/
theorem Publishes.not_isMigration
    {w : Worker}
    {now : Instant}
    {published : List Observation}
    (publishes : Publishes w now published) :
    ∀ observation ∈ published, ¬ observation.isMigration := by
  intro observation member
  obtain ⟨sample, rfl⟩ := publishes.eq_published observation member
  exact Bool.false_ne_true

/-- Nothing seen before the migration is one. -/
theorem history_beforeMigration
    (cfg : WorkerConfig)
    (w : Worker)
    (env : HousekeepingEnv) :
    ∃ added,
      (w.beforeMigration cfg env).history = w.history ++ added ∧
        ∀ observation ∈ added, ¬ observation.isMigration := by
  obtain ⟨routine, history, isRoutine⟩ :=
    (w.routine_beforePublication cfg env).history
  obtain ⟨published, historyPublished, publishes⟩ :=
    (w.beforePublication cfg env).publishes_publishScore env.now
  have drained :=
    ((w.beforePublication cfg env).publishScore env.now).goawayDrained_frame
      env.now
  refine ⟨routine ++ published, ?_, ?_⟩
  · rw [beforeMigration, drained.2.2.2, historyPublished, history,
      List.append_assoc]
  · intro observation member
    rcases List.mem_append.mp member with inRoutine | inPublished
    · exact Observation.not_isMigration_of_not_isReport
        (Observation.not_isReport_of_isRoutine
          (isRoutine observation inRoutine))
    · exact publishes.not_isMigration observation inPublished

/-- A closing connection has no request left that has not timed out. -/
def DrainsGoaway (w : Worker) (now : Instant) : Prop :=
  w.goaway ∧ ∀ entry ∈ w.pending.entries, entry.2.deadline ≤ now

/-- No reconnect is due at the migration exactly if none was scheduled and
nothing was drained. -/
theorem reconnectAt_beforeMigration
    (cfg : WorkerConfig)
    (w : Worker)
    (env : HousekeepingEnv) :
    (w.beforeMigration cfg env).reconnectAt = none ↔
      w.reconnectAt = none ∧ ¬ w.DrainsGoaway env.now := by
  have routine := w.routine_beforePublication cfg env
  obtain ⟨quality, lastScore, history, scored⟩ :=
    (w.beforePublication cfg env).publishScore_update env.now
  rw [beforeMigration, scored, DrainsGoaway, ← expirePending_eq_nil_iff,
    ← pending_beforePublication, ← routine.goaway, ← routine.reconnectAt]
  unfold goawayDrained
  split
  next drained =>
    exact iff_of_false (Option.some_ne_none env.now)
      fun free => free.2 drained
  next inUse =>
    exact (and_iff_left inUse).symm

/-- The worker keeps its address in a housekeeping call. -/
structure Stays
    (cfg : WorkerConfig)
    (w : Worker)
    (env : HousekeepingEnv)
    (added : List Observation) : Prop where
  history : (w.housekeeping cfg env).history = w.history ++ added
  quiet : ∀ observation ∈ added, ¬ observation.isMigration
  placement : SamePlacement (w.adopting cfg env) (w.housekeeping cfg env)
  vetoed :
    w.reconnectAt ≠ none ∨ w.DrainsGoaway env.now ∨
      migrationTarget (w.adopting cfg env).rt cfg env.now env.monoSecs = none

/-- The worker goes to another address in a housekeeping call. -/
structure Leaves
    (cfg : WorkerConfig)
    (w : Worker)
    (env : HousekeepingEnv)
    (added : List Observation)
    (target : IpAddr) : Prop where
  history :
    (w.housekeeping cfg env).history =
      w.history ++ (added ++ [.migrated env.now target])
  quiet : ∀ observation ∈ added, ¬ observation.isMigration
  notScheduled : w.reconnectAt = none
  inUse : ¬ w.DrainsGoaway env.now
  chosen :
    migrationTarget (w.adopting cfg env).rt cfg env.now env.monoSecs =
      some target
  set : (w.housekeeping cfg env).rt.set = (w.adopting cfg env).rt.set
  arrived : (w.housekeeping cfg env).rt.myRemote.ip = target
  lastMigrate : (w.housekeeping cfg env).rt.lastMigrate = env.now

/-- With a reconnect scheduled or no target the worker stays. -/
theorem migrate_eq_self
    {cfg : WorkerConfig}
    {w : Worker}
    {now : Instant}
    {monoSecs : Nat}
    (vetoed :
      w.reconnectAt ≠ none ∨ migrationTarget w.rt cfg now monoSecs = none) :
    w.migrate cfg now monoSecs = w := by
  unfold migrate
  split
  next target scheduled found =>
    rcases vetoed with busy | noTarget
    · exact absurd scheduled busy
    · rw [found] at noTarget
      cases noTarget
  · rfl

/-- With a target and no reconnect scheduled the worker leaves. -/
theorem leaves_of_target
    {cfg : WorkerConfig}
    {w : Worker}
    {env : HousekeepingEnv}
    {target : IpAddr}
    (free : (w.beforeMigration cfg env).reconnectAt = none)
    (chosen :
      migrationTarget (w.adopting cfg env).rt cfg env.now env.monoSecs =
        some target) :
    ∃ added, Leaves cfg w env added target := by
  obtain ⟨added, history, quiet⟩ := w.history_beforeMigration cfg env
  have policy := w.samePolicy_beforeMigration cfg env
  obtain ⟨notScheduled, inUse⟩ := (w.reconnectAt_beforeMigration cfg env).mp free
  have found :
      migrationTarget (w.beforeMigration cfg env).rt cfg env.now env.monoSecs =
        some target :=
    (policy.migrationTarget cfg env.now env.monoSecs).trans chosen
  have stages :
      w.housekeeping cfg env =
        ((w.beforeMigration cfg env).migrate cfg env.now
          env.monoSecs).reconnect env.now env.connect :=
    housekeeping_eq cfg w env
  have moved := ((w.beforeMigration cfg env).migrate cfg env.now
    env.monoSecs).samePlacement_reconnect env.now env.connect
  obtain ⟨historyEnd, -⟩ := ((w.beforeMigration cfg env).migrate cfg env.now
    env.monoSecs).reconnect_frame env.now env.connect
  rw [← stages] at moved historyEnd
  have set := moved.set_eq
  have remote := moved.myRemote_eq
  have last := moved.lastMigrate_eq
  unfold migrate at set remote last historyEnd
  simp only [free, found] at set remote last historyEnd
  exact
    ⟨added,
      { history := by
          rw [historyEnd, ← List.append_assoc, ← history]
          rfl
        quiet := quiet
        notScheduled := notScheduled
        inUse := inUse
        chosen := chosen
        set := set.trans policy.samePlacement.set_eq
        arrived := congrArg SocketAddr.ip remote
        lastMigrate := last }⟩

/-- A housekeeping call leaves the worker where it is, or lets it leave. -/
theorem housekeeping_cases
    (cfg : WorkerConfig)
    (w : Worker)
    (env : HousekeepingEnv) :
    (∃ added, Stays cfg w env added) ∨
      ∃ added target, Leaves cfg w env added target := by
  have policy := w.samePolicy_beforeMigration cfg env
  have reconnectAt := w.reconnectAt_beforeMigration cfg env
  by_cases veto :
      (w.beforeMigration cfg env).reconnectAt ≠ none ∨
        migrationTarget (w.adopting cfg env).rt cfg env.now env.monoSecs = none
  · left
    obtain ⟨added, history, quiet⟩ := w.history_beforeMigration cfg env
    have unmoved :
        (w.beforeMigration cfg env).migrate cfg env.now env.monoSecs =
          w.beforeMigration cfg env := by
      apply migrate_eq_self
      rw [policy.migrationTarget cfg env.now env.monoSecs]
      exact veto
    have stages :
        w.housekeeping cfg env =
          (w.beforeMigration cfg env).reconnect env.now env.connect := by
      rw [housekeeping_eq, ← beforeMigration, unmoved]
    obtain ⟨historyEnd, -⟩ :=
      (w.beforeMigration cfg env).reconnect_frame env.now env.connect
    have placed :=
      (w.beforeMigration cfg env).samePlacement_reconnect env.now env.connect
    rw [← stages] at historyEnd placed
    refine ⟨added, historyEnd.trans history, quiet,
      policy.samePlacement.trans placed, ?_⟩
    rcases veto with busy | noTarget
    · rw [Ne, reconnectAt, not_and_or, not_not] at busy
      exact busy.imp_right .inl
    · exact .inr (.inr noTarget)
  · right
    rw [not_or, not_not] at veto
    obtain ⟨free, hasTarget⟩ := veto
    obtain ⟨target, chosen⟩ := Option.ne_none_iff_exists'.mp hasTarget
    obtain ⟨added, leaves⟩ := leaves_of_target free chosen
    exact ⟨added, target, leaves⟩

/-- Outside of housekeeping the worker keeps its placement. -/
theorem step_placement_cases
    (cfg : WorkerConfig)
    (w : Worker)
    (action : Action) :
    (SamePlacement w (w.step cfg action) ∧
      ∀ observation ∈ w.observed cfg action, ¬ observation.isMigration) ∨
      ∃ env,
        action = .housekeeping env ∧
          w.step cfg action = w.housekeeping cfg env := by
  rcases w.step_score_cases cfg action with
    ⟨measures, -, -⟩ | ⟨env, isHousekeeping, -, same⟩
  · obtain ⟨added, history, notReport, -⟩ := measures.history
    have quiet :
        ∀ observation ∈ w.observed cfg action,
          ¬ observation.isMigration := by
      rw [observed_eq history]
      intro observation member
      exact Observation.not_isMigration_of_not_isReport
        (notReport observation member)
    by_cases housekeeping : ∃ env, action = .housekeeping env
    · obtain ⟨env, rfl⟩ := housekeeping
      by_cases returned : w.returned
      · have idle : w.step cfg (.housekeeping env) = w := if_pos returned
        refine .inl ⟨?_, quiet⟩
        rw [idle]
        exact .refl w
      · exact .inr ⟨env, rfl, if_neg returned⟩
    · exact .inl ⟨samePlacement_step cfg w (not_exists.mp housekeeping), quiet⟩
  · exact .inr ⟨env, isHousekeeping, same⟩

end Worker

end DnsServices.Microdoh3
