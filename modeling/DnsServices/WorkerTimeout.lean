import DnsServices.WorkerQueue

namespace DnsServices.Microdoh3

/-!
# The request timeout

A query that is not answered upstream is to be failed once `cfg.timeout` has
passed since it arrived.  The deadline is stored with a parked query and again
with its request, counted from the time of dispatch: a query that waited in the
queue gets the whole timeout once more.

The times at which queries arrived are a history variable beside the worker.
-/

open Http3 Shared Runs

/-- The time at which an action is taken. -/
def Action.time? : Action → Option Instant
  | .datagram now _ _ _ => some now
  | .quicEvents now _ => some now
  | .housekeeping env => some env.now
  | .drained now => some now
  | .shutdown => none

/-- The clock does not run back. -/
def InOrder (actions : List Action) : Prop :=
  (actions.filterMap Action.time?).Pairwise (· ≤ ·)

instance (actions : List Action) : Decidable (InOrder actions) :=
  inferInstanceAs (Decidable (List.Pairwise _ _))

/-- A worker and the times at which its queries arrived, by serial number. -/
structure Timed where
  worker : Worker
  /-- One time per accepted query (history only). -/
  arrivals : List Instant

namespace Timed

/-- A worker to which no query has come. -/
def start
    (cfg : WorkerConfig)
    (set : UpstreamSet)
    (now : Instant)
    (has0rtt zeroRttOffered : Bool) :
    Timed where
  worker := Worker.start cfg set now has0rtt zeroRttOffered
  arrivals := []

/-- A query arrives at the time of the action that accepts it. -/
def step (cfg : WorkerConfig) (d : Timed) (action : Action) : Timed where
  worker := d.worker.step cfg action
  arrivals :=
    if (d.worker.step cfg action).accepted = d.worker.accepted then
      d.arrivals
    else
      d.arrivals ++ action.time?.toList

/--
The timeout is honoured at a time: every query that arrived `cfg.timeout` ago
or earlier is answered, and nothing in the queue has expired.
-/
structure Honoured (cfg : WorkerConfig) (now : Instant) (d : Timed) : Prop where
  answered :
    ∀ serial arrival, d.arrivals[serial]? = some arrival →
      ¬ d.worker.Answered serial → now < arrival + cfg.timeout
  queue : ∀ q ∈ d.worker.queue, now < q.deadline

/-- After a housekeeping call the timeout is honoured at its time. -/
def Honours (cfg : WorkerConfig) (d : Timed) (action : Action) : Prop :=
  ∀ env, action = .housekeeping env → ¬ d.worker.returned →
    (d.step cfg action).Honoured cfg env.now

/--
A housekeeping call finds no request that was dispatched less than
`cfg.timeout` ago for a query that arrived before that, and no query older than
`cfg.timeout` was replaced in `pending`.
-/
structure NoneOverdue (cfg : WorkerConfig) (now : Instant) (d : Timed) : Prop where
  pending :
    ∀ entry ∈ d.worker.pending.entries,
      ∀ arrival, d.arrivals[entry.2.serial]? = some arrival →
        now < entry.2.started + cfg.timeout → now < arrival + cfg.timeout
  replaced :
    ∀ serial ∈ d.worker.overwritten,
      ∀ arrival, d.arrivals[serial]? = some arrival →
        now < arrival + cfg.timeout

/-- Housekeeping calls find nothing overdue that they cannot see. -/
def Undelayed (cfg : WorkerConfig) (d : Timed) (action : Action) : Prop :=
  ∀ env, action = .housekeeping env → ¬ d.worker.returned →
    d.NoneOverdue cfg env.now

end Timed

/-! ## What a step does to held queries -/

namespace Worker

variable {cfg : WorkerConfig}

theorem drains_housekeeping (w : Worker) (env : HousekeepingEnv) :
    Drains cfg w (w.housekeeping cfg env) := by
  have expired : Drains cfg w (w.expirePending env.now) :=
    .foldl drains_failRequest _ w
  have adopted (w : Worker) :
      Drains cfg w { w with rt := w.rt.adopt cfg env.now env.published } :=
    .same rfl rfl rfl
  have scanned : Drains cfg w (w.beforePublication cfg env) :=
    (expired.trans (adopted _)).trans (drains_expireQueue env.now rfl)
  have settled :
      Drains cfg (w.beforePublication cfg env) (w.beforeReconnect cfg env) := by
    obtain ⟨_, _, _, same⟩ := w.beforeReconnect_update cfg env
    rw [same]
    exact .same rfl rfl rfl
  have reconnected (w : Worker) :
      Drains cfg w (w.reconnect env.now env.connect) := by
    obtain ⟨_, _, _, _, _, _, _, _, same⟩ :=
      w.reconnect_update env.now env.connect
    rw [same]
    exact .same rfl rfl rfl
  exact (scanned.trans settled).trans (reconnected _)

/-- An accepted query is parked with its deadline, or settled at once. -/
structure Arrives
    (cfg : WorkerConfig)
    (now : Instant)
    (before after : Worker) :
    Prop where
  accepted : after.accepted = before.accepted + 1
  queue :
    after.queue <:+ before.queue ∨
      ∃ q : QueuedQuery,
        q.serial = before.accepted ∧ q.deadline = now + cfg.timeout ∧
          after.queue = before.queue ++ [q]
  pending :
    ∀ entry ∈ after.pending.entries,
      entry ∈ before.pending.entries ∨
        entry.2.deadline = entry.2.started + cfg.timeout

/-- A datagram is ignored or arrives as one query. -/
theorem arrives_drainDns
    (w : Worker)
    (now : Instant)
    (peer : SocketAddr)
    (data : Bytes)
    (env : DispatchEnv) :
    w.drainDns cfg now peer data env = w ∨
      Arrives cfg now w (w.drainDns cfg now peer data env) := by
  have settled
      {between after : Worker}
      (drains : Drains cfg between after)
      (accepted : between.accepted = w.accepted + 1)
      (queue : between.queue = w.queue)
      (pending : between.pending = w.pending) :
      Arrives cfg now w after :=
    ⟨drains.accepted.trans accepted, .inl (queue ▸ drains.queue),
      pending ▸ drains.pending⟩
  unfold drainDns
  simp only
  split
  · right
    split
    · exact settled (drains_onFailure_sendServfail _ _) rfl rfl rfl
    · split
      · split
        · exact settled (drains_onFailure_sendServfail _ _) rfl rfl rfl
        · exact ⟨rfl, .inr ⟨_, rfl, rfl, rfl⟩, fun _ member => .inl member⟩
      · exact settled (drains_dispatchQuery now _ _ env) rfl rfl rfl
  · exact .inl rfl

/-- A step accepts one query, or it only drains what is held. -/
theorem drains_or_arrives (w : Worker) (action : Action) :
    Drains cfg w (w.step cfg action) ∨
      ∃ now, action.time? = some now ∧
        Arrives cfg now w (w.step cfg action) := by
  unfold step
  split
  · exact .inl (.refl w)
  · cases action with
    | datagram now peer data env =>
        have outcome :
            w.drainDns cfg now peer data env = w ∨
              Arrives cfg now w (w.drainDns cfg now peer data env) :=
          w.arrives_drainDns now peer data env
        rcases outcome with same | arrives
        · left
          simp only [same]
          exact .refl w
        · exact .inr ⟨now, rfl, arrives⟩
    | quicEvents now events =>
        exact .inl
          ((drains_handleQuicEvents now _ w).trans
            (.foldl (drains_applyH3Event now) _ _))
    | housekeeping env =>
        exact .inl (w.drains_housekeeping env)
    | drained now =>
        left
        simp only [checkDrained]
        split
        · have dropped :
              Drains cfg w
                { w with
                  rt.failStreak :=
                    saturatingSucc w.rt.failStreak }.dropConnection :=
            .behind (drains_dropConnection _) rfl rfl rfl
          exact dropped.trans (.same rfl rfl rfl)
        · exact .refl w
    | shutdown =>
        exact .inl (w.drains_failAllPending.trans (.same rfl rfl rfl))

end Worker

/-! ## Deadlines of held queries -/

namespace Timed

/-- Every held query has the deadline that its arrival or its start gives. -/
structure Stamped (cfg : WorkerConfig) (d : Timed) : Prop where
  custody : d.worker.custody = Multiset.range d.worker.accepted
  count : d.arrivals.length = d.worker.accepted
  parked :
    ∀ q ∈ d.worker.queue, ∃ arrival,
      d.arrivals[q.serial]? = some arrival ∧
        q.deadline = arrival + cfg.timeout
  /-- Later arrivals have later deadlines. -/
  sorted : d.worker.queue.Pairwise fun q r => q.deadline ≤ r.deadline
  pending :
    ∀ entry ∈ d.worker.pending.entries,
      entry.2.deadline = entry.2.started + cfg.timeout

/-- No query arrived after the time of an action. -/
def NotBefore (d : Timed) (action : Action) : Prop :=
  ∀ now, action.time? = some now → ∀ arrival ∈ d.arrivals, arrival ≤ now

theorem stamped_start
    (cfg : WorkerConfig)
    (set : UpstreamSet)
    (now : Instant)
    (has0rtt zeroRttOffered : Bool) :
    (start cfg set now has0rtt zeroRttOffered).Stamped cfg where
  custody := rfl
  count := rfl
  parked := fun _ member => absurd member List.not_mem_nil
  sorted := .nil
  pending := fun _ member => absurd member List.not_mem_nil

theorem Stamped.drained
    {cfg : WorkerConfig}
    {d : Timed}
    {after : Worker}
    (stamped : d.Stamped cfg)
    (custody : after.custody = Multiset.range after.accepted)
    (drains : d.worker.Drains cfg after) :
    Stamped cfg ⟨after, d.arrivals⟩ where
  custody := custody
  count := stamped.count.trans drains.accepted.symm
  parked := fun q member => stamped.parked q (drains.queue.subset member)
  sorted := stamped.sorted.sublist drains.queue.sublist
  pending := by
    intro entry member
    rcases drains.pending entry member with kept | fresh
    · exact stamped.pending entry kept
    · exact fresh

/-- What is parked now is parked behind earlier arrivals. -/
theorem Stamped.arrived
    {cfg : WorkerConfig}
    {d : Timed}
    {after : Worker}
    {now : Instant}
    (stamped : d.Stamped cfg)
    (custody : after.custody = Multiset.range after.accepted)
    (arrives : d.worker.Arrives cfg now after)
    (past : ∀ arrival ∈ d.arrivals, arrival ≤ now) :
    Stamped cfg ⟨after, d.arrivals ++ [now]⟩ := by
  have parkedBefore (q : QueuedQuery) (member : q ∈ d.worker.queue) :
      ∃ arrival,
        (d.arrivals ++ [now])[q.serial]? = some arrival ∧
          q.deadline = arrival + cfg.timeout := by
    obtain ⟨arrival, found, deadline⟩ := stamped.parked q member
    refine ⟨arrival, ?_, deadline⟩
    rw [List.getElem?_append_left (List.getElem?_eq_some_iff.mp found).1]
    exact found
  constructor
  case custody =>
    exact custody
  case count =>
    rw [List.length_append, stamped.count]
    exact arrives.accepted.symm
  case parked =>
    rcases arrives.queue with suffix | ⟨parked, serial, deadline, same⟩
    · intro q member
      exact parkedBefore q (suffix.subset member)
    · intro q member
      rw [same] at member
      rcases List.mem_append.mp member with old | new
      · exact parkedBefore q old
      · rw [List.mem_singleton.mp new]
        refine ⟨now, ?_, deadline⟩
        rw [serial, ← stamped.count]
        exact List.getElem?_concat_length
  case sorted =>
    rcases arrives.queue with suffix | ⟨parked, serial, deadline, same⟩
    · exact stamped.sorted.sublist suffix.sublist
    · rw [same, List.pairwise_append]
      refine ⟨stamped.sorted, List.pairwise_singleton _ _, ?_⟩
      intro q member other isParked
      obtain ⟨arrival, found, earlier⟩ := stamped.parked q member
      have order := past arrival (List.mem_of_getElem? found)
      rw [List.mem_singleton.mp isParked, deadline, earlier]
      exact Int.add_le_add_right order _
  case pending =>
    intro entry member
    rcases arrives.pending entry member with kept | fresh
    · exact stamped.pending entry kept
    · exact fresh

/-- Every step in order keeps the queries stamped with their arrivals. -/
theorem stamped_step
    (cfg : WorkerConfig)
    (d : Timed)
    (action : Action)
    (notBefore : d.NotBefore action)
    (stamped : d.Stamped cfg) :
    (d.step cfg action).Stamped cfg := by
  have custody :
      (d.worker.step cfg action).custody =
        Multiset.range (d.worker.step cfg action).accepted :=
    d.worker.custody_run cfg stamped.custody [action]
  rcases d.worker.drains_or_arrives action with drains | ⟨now, time, arrives⟩
  · rw [step, if_pos drains.accepted]
    exact stamped.drained custody drains
  · have changed :
        (d.worker.step cfg action).accepted ≠ d.worker.accepted := by
      rw [arrives.accepted]
      exact Nat.succ_ne_self _
    rw [step, if_neg changed, time]
    exact stamped.arrived custody arrives (notBefore now time)

end Timed

/-! ## Housekeeping calls -/

namespace Worker

theorem mem_replied_of_answered
    {w : Worker}
    {serial : Nat}
    (answered : w.Answered serial) :
    serial ∈ w.replied := by
  obtain ⟨peer, payload, servfail | response⟩ := answered
  · exact Multiset.mem_coe.mpr (List.mem_filterMap.mpr ⟨_, servfail, rfl⟩)
  · exact Multiset.mem_coe.mpr (List.mem_filterMap.mpr ⟨_, response, rfl⟩)

/-- A query that was replaced or is in flight has not been answered. -/
theorem not_answered_of_mem
    {w : Worker}
    (balanced : w.custody = Multiset.range w.accepted)
    {serial : Nat}
    (member : serial ∈ w.overwritten + w.inFlight) :
    ¬ w.Answered serial := by
  intro answered
  have nodup : w.custody.Nodup := balanced ▸ Multiset.nodup_range _
  have regroup :
      w.custody = w.replied + (w.overwritten + w.inFlight) + w.queued := by
    rw [custody]
    ac_rfl
  rw [regroup] at nodup
  have disjoint :=
    (Multiset.nodup_add.mp (Multiset.nodup_add.mp nodup).1).2.2
  exact Multiset.disjoint_left.mp disjoint (mem_replied_of_answered answered)
    member

/-- What is left of the queue and of `pending` has not expired. -/
theorem housekeeping_holds
    (cfg : WorkerConfig)
    (w : Worker)
    (env : HousekeepingEnv) :
    (w.housekeeping cfg env).queue =
        (w.queue.dropWhile fun q => q.deadline ≤ env.now) ∧
      ∀ entry, entry ∈ (w.housekeeping cfg env).pending.entries ↔
        entry ∈ w.pending.entries ∧ env.now < entry.2.deadline := by
  obtain ⟨queue, -, pending⟩ := w.beforeReconnect_holds cfg env
  obtain ⟨_, _, _, _, _, _, _, _, same⟩ :=
    (w.beforeReconnect cfg env).reconnect_update env.now env.connect
  have reconnects :
      w.housekeeping cfg env =
        (w.beforeReconnect cfg env).reconnect env.now env.connect :=
    rfl
  rw [reconnects, same]
  refine ⟨queue, ?_⟩
  intro entry
  rw [← w.mem_expirePending, ← pending]

/-- Housekeeping loses no query and replaces no request. -/
theorem custody_housekeeping
    (cfg : WorkerConfig)
    {w : Worker}
    (balanced : w.custody = Multiset.range w.accepted)
    (env : HousekeepingEnv) :
    (w.housekeeping cfg env).custody = Multiset.range w.accepted ∧
      (w.housekeeping cfg env).overwritten = w.overwritten := by
  have moves :
      Moves cfg (.housekeeping env) ⟨w, [], []⟩
        ⟨w.housekeeping cfg env, [], []⟩ :=
    moves_housekeeping w rfl env
  have accepted : (w.housekeeping cfg env).accepted = w.accepted :=
    (w.drains_housekeeping env).accepted
  have held : MidStep.Balanced ⟨w, [], []⟩ :=
    (add_zero w.custody).trans balanced
  have kept {before after : MidStep}
      (move : Move cfg (.housekeeping env) before after)
      (same : before.worker.overwritten = w.overwritten) :
      after.worker.overwritten = w.overwritten :=
    (move.overwritten rfl).trans same
  refine ⟨?_, moves.invariant kept rfl⟩
  rw [← accepted]
  exact (add_zero _).symm.trans (moves.invariant Move.balanced held)

end Worker

namespace Timed

/-- In a sorted queue the scan from the front finds all expired queries. -/
theorem live_of_mem_dropWhile
    {queue : List QueuedQuery}
    (sorted : queue.Pairwise fun q r => q.deadline ≤ r.deadline)
    {now : Instant}
    {q : QueuedQuery}
    (member : q ∈ queue.dropWhile fun q => q.deadline ≤ now) :
    now < q.deadline := by
  induction queue with
  | nil =>
      cases member
  | cons front rest inductionHypothesis =>
      rw [List.pairwise_cons] at sorted
      rw [List.dropWhile_cons] at member
      split at member
      · exact inductionHypothesis sorted.2 member
      next live =>
        have frontLive : now < front.deadline := by
          simpa using live
        rcases List.mem_cons.mp member with rfl | behind
        · exact frontLive
        · exact lt_of_lt_of_le frontLive (sorted.1 q behind)

/-- A housekeeping call of a running worker. -/
theorem step_housekeeping
    (cfg : WorkerConfig)
    {d : Timed}
    (running : ¬ d.worker.returned)
    (env : HousekeepingEnv) :
    d.step cfg (.housekeeping env) =
      ⟨d.worker.housekeeping cfg env, d.arrivals⟩ := by
  have stepped :
      d.worker.step cfg (.housekeeping env) = d.worker.housekeeping cfg env :=
    if_neg running
  have accepted : (d.worker.housekeeping cfg env).accepted = d.worker.accepted :=
    (d.worker.drains_housekeeping env).accepted
  rw [step, stepped, if_pos accepted]

/-- What housekeeping leaves overdue was overdue before, unseen. -/
theorem noneOverdue_of_honoured
    {cfg : WorkerConfig}
    {d : Timed}
    (stamped : d.Stamped cfg)
    {env : HousekeepingEnv}
    (honoured :
      Honoured cfg env.now ⟨d.worker.housekeeping cfg env, d.arrivals⟩) :
    d.NoneOverdue cfg env.now := by
  obtain ⟨custody, overwritten⟩ :=
    d.worker.custody_housekeeping cfg stamped.custody env
  have accepted : (d.worker.housekeeping cfg env).accepted = d.worker.accepted :=
    (d.worker.drains_housekeeping env).accepted
  rw [← accepted] at custody
  constructor
  case pending =>
    intro entry member arrival found early
    rw [← stamped.pending entry member] at early
    have left :=
      ((d.worker.housekeeping_holds cfg env).2 entry).mpr ⟨member, early⟩
    have inFlight :
        entry.2.serial ∈ (d.worker.housekeeping cfg env).inFlight :=
      Multiset.mem_coe.mpr (List.mem_map_of_mem left)
    exact honoured.answered _ arrival found
      (Worker.not_answered_of_mem custody
        (Multiset.mem_add.mpr (.inr inFlight)))
  case replaced =>
    intro serial member arrival found
    rw [← overwritten] at member
    exact honoured.answered serial arrival found
      (Worker.not_answered_of_mem custody (Multiset.mem_add.mpr (.inl member)))

/-- An unanswered query is held in time, or was overdue before. -/
theorem honoured_of_noneOverdue
    {cfg : WorkerConfig}
    {d : Timed}
    (stamped : d.Stamped cfg)
    {env : HousekeepingEnv}
    (noneOverdue : d.NoneOverdue cfg env.now) :
    Honoured cfg env.now ⟨d.worker.housekeeping cfg env, d.arrivals⟩ := by
  obtain ⟨custody, replaced⟩ :=
    d.worker.custody_housekeeping cfg stamped.custody env
  obtain ⟨queue, pending⟩ := d.worker.housekeeping_holds cfg env
  have live :
      ∀ q ∈ (d.worker.housekeeping cfg env).queue, env.now < q.deadline := by
    intro q member
    rw [queue] at member
    exact live_of_mem_dropWhile stamped.sorted member
  refine ⟨?_, live⟩
  intro serial arrival found unanswered
  have inCustody : serial ∈ (d.worker.housekeeping cfg env).custody := by
    rw [custody, ← stamped.count]
    exact Multiset.mem_range.mpr (List.getElem?_eq_some_iff.mp found).1
  rw [Worker.custody, Multiset.mem_add, Multiset.mem_add, Multiset.mem_add]
    at inCustody
  rcases inCustody with ((replied | overwritten) | queued) | inFlight
  · exact absurd (Worker.answered_of_mem_replied replied) unanswered
  · rw [replaced] at overwritten
    exact noneOverdue.replaced serial overwritten arrival found
  · obtain ⟨q, member, rfl⟩ :=
      List.mem_map.mp (Multiset.mem_coe.mp queued)
    have inTime := live q member
    rw [queue] at member
    obtain ⟨stored, same, deadline⟩ :=
      stamped.parked q (List.dropWhile_subset _ member)
    obtain rfl := Option.some.inj (same.symm.trans found)
    exact deadline ▸ inTime
  · obtain ⟨entry, member, rfl⟩ :=
      List.mem_map.mp (Multiset.mem_coe.mp inFlight)
    obtain ⟨held, early⟩ := (pending entry).mp member
    rw [stamped.pending entry held] at early
    exact noneOverdue.pending entry held arrival found early

/-- A housekeeping call honours the timeout exactly if nothing is overdue. -/
theorem honours_iff_undelayed
    (cfg : WorkerConfig)
    (d : Timed)
    (action : Action)
    (stamped : d.Stamped cfg) :
    d.Honours cfg action ↔ d.Undelayed cfg action := by
  refine forall_congr' fun env => forall_congr' fun isHousekeeping =>
    forall_congr' fun running => ?_
  subst isHousekeeping
  rw [step_housekeeping cfg running]
  exact ⟨noneOverdue_of_honoured stamped, honoured_of_noneOverdue stamped⟩

/-! ## Runs -/

theorem mem_arrivals_step
    {cfg : WorkerConfig}
    {d : Timed}
    {action : Action}
    {arrival : Instant}
    (member : arrival ∈ (d.step cfg action).arrivals) :
    arrival ∈ d.arrivals ∨ action.time? = some arrival := by
  simp only [step] at member
  split at member
  · exact .inl member
  · rcases List.mem_append.mp member with old | new
    · exact .inl old
    · exact .inr (Option.mem_toList.mp new)

/-- While the clock does not run back, no query arrived after a step. -/
theorem notBefore_of_inOrder
    (cfg : WorkerConfig)
    {d : Timed}
    {actions : List Action}
    (inOrder : InOrder actions)
    (past : ∀ arrival ∈ d.arrivals,
      ∀ now ∈ actions.filterMap Action.time?, arrival ≤ now) :
    AllSteps (step cfg) NotBefore d actions := by
  induction actions generalizing d with
  | nil =>
      trivial
  | cons action rest inductionHypothesis =>
      have restMember {now : Instant} (member : now ∈ rest.filterMap Action.time?) :
          now ∈ (action :: rest).filterMap Action.time? := by
        rw [List.filterMap_cons]
        split
        · exact member
        · exact List.mem_cons_of_mem _ member
      constructor
      · intro now time arrival member
        exact past arrival member now
          (List.mem_filterMap.mpr ⟨action, List.mem_cons_self, time⟩)
      · have restOrder : InOrder rest := by
          rw [InOrder, List.filterMap_cons] at inOrder
          split at inOrder
          · exact inOrder
          · exact inOrder.tail
        refine inductionHypothesis restOrder ?_
        intro arrival member now future
        rcases mem_arrivals_step member with old | time
        · exact past arrival old now (restMember future)
        · rw [InOrder, List.filterMap_cons, time] at inOrder
          exact (List.pairwise_cons.mp inOrder).1 now future

/--
While the clock does not run back, every housekeeping call of a run honours
the timeout exactly if none of them finds a query overdue whose request was
dispatched later, or that was replaced in `pending`.
-/
theorem honours_run_iff
    (cfg : WorkerConfig)
    (set : UpstreamSet)
    (now : Instant)
    (has0rtt zeroRttOffered : Bool)
    (actions : List Action)
    (inOrder : InOrder actions) :
    AllSteps (step cfg) (Honours cfg)
        (start cfg set now has0rtt zeroRttOffered) actions ↔
      AllSteps (step cfg) (Undelayed cfg)
        (start cfg set now has0rtt zeroRttOffered) actions := by
  have notBefore :
      AllSteps (step cfg) NotBefore (start cfg set now has0rtt zeroRttOffered)
        actions :=
    notBefore_of_inOrder cfg inOrder fun _ member =>
      absurd member List.not_mem_nil
  exact notBefore.congr_under (stamped_step cfg)
    (fun d action _ stamped => honours_iff_undelayed cfg d action stamped)
    (stamped_start cfg set now has0rtt zeroRttOffered)

/-- A query is dispatched on arrival and expires upstream. -/
def expiringRun : List Action :=
  [.quicEvents 0 [.connected []],
    .datagram (fromSecs 1) (Worker.localPeer 5000) Worker.rootQuery
      Worker.firstStream,
    .housekeeping
      ⟨fromSecs 6, 6, none, ⟨true, false, true, false, true⟩⟩]

/-- A query that expires upstream is answered when housekeeping comes. -/
theorem honours_run_iff_expiringRun :
    InOrder expiringRun ∧
      (AllSteps (step Worker.plainConfig) (Honours Worker.plainConfig)
          (start Worker.plainConfig Worker.oldSet 0 false false) expiringRun ↔
        AllSteps (step Worker.plainConfig) (Undelayed Worker.plainConfig)
          (start Worker.plainConfig Worker.oldSet 0 false false)
          expiringRun) := by
  have inOrder : InOrder expiringRun := by
    decide
  exact ⟨inOrder,
    honours_run_iff Worker.plainConfig Worker.oldSet 0 false false expiringRun
      inOrder⟩

/--
A query is parked for four of its five seconds; the request that is then sent
for it is still waiting one second after the query's time is over.
-/
def flushedRun : List Action :=
  [.datagram 0 (Worker.localPeer 5000) Worker.rootQuery ⟨none, false, false⟩,
    .quicEvents (fromSecs 4) [.connected [Worker.firstStream]],
    .housekeeping
      ⟨fromSecs 6, 6, none, ⟨true, false, true, false, true⟩⟩]

/-- A query parked for four seconds gets another five. -/
theorem not_honours_flushedRun :
    InOrder flushedRun ∧
      ¬ AllSteps (step Worker.plainConfig) (Honours Worker.plainConfig)
        (start Worker.plainConfig Worker.oldSet 0 false false) flushedRun := by
  refine ⟨by decide, ?_⟩
  rintro ⟨_, _, honours, _⟩
  have running :
      ¬ ((start Worker.plainConfig Worker.oldSet 0 false false).worker.run
        Worker.plainConfig (flushedRun.take 2)).returned := by
    decide +kernel
  have honoured := honours _ rfl running
  have arrived :
      (flushedRun.foldl (step Worker.plainConfig)
        (start Worker.plainConfig Worker.oldSet 0 false false)).arrivals =
          [0] := by
    decide +kernel
  have noReply :
      ((start Worker.plainConfig Worker.oldSet 0 false false).worker.run
        Worker.plainConfig flushedRun).history.filterMap
          Observation.replied? = [] := by
    decide +kernel
  have unanswered :
      ¬ ((start Worker.plainConfig Worker.oldSet 0 false false).worker.run
        Worker.plainConfig flushedRun).Answered 0 := by
    intro answered
    have replied := Worker.mem_replied_of_answered answered
    rw [Worker.replied, noReply] at replied
    exact Multiset.notMem_zero 0 replied
  have late := honoured.answered 0 0 (congrArg (·[0]?) arrived) unanswered
  exact absurd late (by decide)

end Timed

end DnsServices.Microdoh3
