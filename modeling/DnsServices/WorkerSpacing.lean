import DnsServices.WorkerMigration

namespace DnsServices.Microdoh3

/-!
# When a worker may leave its address

The time of the last move is written by a move and, back-dated, by the
adoption of a set that has lost the current address.  Between two moves it
keeps them three minutes apart, or ten seconds when the connection fails.
Losing the address lifts both floors but not the stagger between workers.
-/

open Http3 Runs Shared

/-! ## The floors -/

/-- A housekeeping call that adopts a set without an address. -/
def Action.Drops (addr : IpAddr) : Action → Prop
  | .housekeeping env =>
      ∃ set, env.published = some set ∧ set.addrs ≠ [] ∧ addr ∉ set.addrs
  | _ =>
      False

instance (addr : IpAddr) (action : Action) : Decidable (action.Drops addr) :=
  match action with
  | .housekeeping env =>
      match published : env.published with
      | none =>
          isFalse (by simp [Action.Drops, published])
      | some set =>
          decidable_of_iff (set.addrs ≠ [] ∧ addr ∉ set.addrs)
            (by simp [Action.Drops, published])
  | .datagram .. =>
      isFalse not_false
  | .quicEvents .. =>
      isFalse not_false
  | .drained _ =>
      isFalse not_false
  | .shutdown =>
      isFalse not_false

/-- A positive span that has passed since a moment puts it that far back. -/
theorem le_of_durationSince
    {now earlier : Instant}
    {span : Duration}
    (positive : 0 < span)
    (passed : span ≤ durationSince now earlier) :
    earlier + span ≤ now := by
  have later : 0 ≤ now - earlier := by
    by_contra before
    rw [durationSince, Int.toNat_of_nonpos (Int.le_of_not_le before)] at passed
    exact absurd positive (Nat.not_lt.mpr passed)
  have difference : (span : Int) ≤ now - earlier :=
    (Int.le_toNat later).mp passed
  exact Int.add_le_of_le_sub_left difference

/-- Any target is picked behind one of the two floors. -/
theorem floor_of_migrationTarget
    {rt : Runtime}
    {cfg : WorkerConfig}
    {now : Instant}
    {monoSecs : Nat}
    {target : IpAddr}
    (found : migrationTarget rt cfg now monoSecs = some target) :
    rt.lastMigrate + fromSecs 180 ≤ now ∨
      (2 ≤ rt.failStreak ∧ rt.lastMigrate + fromSecs 10 ≤ now) := by
  unfold migrationTarget at found
  simp only at found
  split at found
  next failing =>
    split at found
    · cases found
    next passed =>
      exact .inr ⟨failing,
        le_of_durationSince (by decide) (Nat.not_lt.mp passed)⟩
  · split at found
    · cases found
    next passed =>
      exact .inl (le_of_durationSince (by decide) (Nat.not_lt.mp passed))

namespace Worker

theorem run_append
    (cfg : WorkerConfig)
    (w : Worker)
    (first second : List Action) :
    w.run cfg (first ++ second) = (w.run cfg first).run cfg second :=
  List.foldl_append

/-- Adopting a set does not move the worker. -/
theorem adopting_frame
    (cfg : WorkerConfig)
    (w : Worker)
    (env : HousekeepingEnv) :
    (w.adopting cfg env).rt.myRemote = w.rt.myRemote ∧
      (w.adopting cfg env).rt.failStreak = w.rt.failStreak ∧
      (w.adopting cfg env).rt.childIdx = w.rt.childIdx := by
  rw [adopting]
  unfold Runtime.adopt
  split
  · exact ⟨rfl, rfl, rfl⟩
  · split
    · exact ⟨rfl, rfl, rfl⟩
    · exact ⟨rfl, rfl, rfl⟩

/-- The last move is back-dated only if the address is lost. -/
theorem lastMigrate_adopting
    {cfg : WorkerConfig}
    {w : Worker}
    {env : HousekeepingEnv}
    (kept : ¬ (Action.housekeeping env).Drops w.rt.myRemote.ip) :
    (w.adopting cfg env).rt.lastMigrate = w.rt.lastMigrate := by
  rw [adopting]
  unfold Runtime.adopt
  split
  · rfl
  next set published =>
    split
    · rfl
    next nonempty =>
      have listed : w.rt.myRemote.ip ∈ set.addrs := by
        by_contra lost
        exact kept ⟨set, published, nonempty, lost⟩
      have notAll : ¬ set.addrs.all (· != w.rt.myRemote.ip) = true := by
        rw [List.all_eq_true]
        intro all
        exact bne_iff_ne.mp (all _ listed) rfl
      simp only [if_neg notAll]

/-- The worker migrates during an action, at a time. -/
def MigratesAt
    (cfg : WorkerConfig)
    (w : Worker)
    (action : Action)
    (now : Instant) : Prop :=
  ∃ target, .migrated now target ∈ w.observed cfg action

/-- A migration is one of a housekeeping call, at its time. -/
theorem leaves_of_migratesAt
    {cfg : WorkerConfig}
    {w : Worker}
    {action : Action}
    {now : Instant}
    (migrates : w.MigratesAt cfg action now) :
    ∃ env added target,
      action = .housekeeping env ∧
        env.now = now ∧
        w.step cfg action = w.housekeeping cfg env ∧
        Leaves cfg w env added target := by
  obtain ⟨target, seen⟩ := migrates
  rcases w.step_placement_cases cfg action with
    ⟨-, quiet⟩ | ⟨env, isHousekeeping, same⟩
  · exact absurd rfl (quiet _ seen)
  · rcases w.housekeeping_cases cfg env with
      ⟨added, stays⟩ | ⟨added, goal, leaves⟩
    · rw [observed_eq (same ▸ stays.history)] at seen
      exact absurd rfl (stays.quiet _ seen)
    · refine ⟨env, added, goal, isHousekeeping, ?_, same, leaves⟩
      rw [observed_eq (same ▸ leaves.history), List.mem_append,
        List.mem_singleton] at seen
      rcases seen with earlier | last
      · exact absurd rfl (leaves.quiet _ earlier)
      · cases last
        rfl

/-- The address of a worker, and when it last moved. -/
def Resting (addr : IpAddr) (since : Instant) (w : Worker) : Prop :=
  w.rt.myRemote.ip = addr ∧ w.rt.lastMigrate = since

/-- A step that neither moves the worker nor drops its address. -/
theorem resting_step
    {cfg : WorkerConfig}
    {addr : IpAddr}
    {since : Instant}
    (w : Worker)
    (action : Action)
    (quiet :
      (∀ now, ¬ w.MigratesAt cfg action now) ∧ ¬ action.Drops addr)
    (resting : Resting addr since w) :
    Resting addr since (w.step cfg action) := by
  obtain ⟨still, kept⟩ := quiet
  obtain ⟨atAddr, moved⟩ := resting
  rcases w.step_placement_cases cfg action with
    ⟨placed, -⟩ | ⟨env, rfl, same⟩
  · exact ⟨by rw [placed.myRemote_eq, atAddr], by
      rw [placed.lastMigrate_eq, moved]⟩
  · rcases w.housekeeping_cases cfg env with
      ⟨added, stays⟩ | ⟨added, target, leaves⟩
    · have placed := stays.placement
      rw [← atAddr] at kept
      rw [same]
      refine ⟨?_, ?_⟩
      · rw [placed.myRemote_eq, (w.adopting_frame cfg env).1, atAddr]
      · rw [placed.lastMigrate_eq, lastMigrate_adopting kept, moved]
    · refine absurd ⟨target, ?_⟩ (still env.now)
      rw [observed_eq (same ▸ leaves.history)]
      exact List.mem_append_right _ (List.mem_singleton_self _)

/--
Two consecutive migrations of a run are three minutes apart, or ten seconds if
the connection kept failing, unless a set adopted between them has lost the
address of the worker.
-/
theorem migrations_spaced
    (cfg : WorkerConfig)
    (w : Worker)
    (earlier between : List Action)
    (first second : Action)
    (left leftAgain : Instant)
    (leaves : (w.run cfg earlier).MigratesAt cfg first left)
    (still :
      AllSteps (step cfg)
        (fun w action => ∀ now, ¬ w.MigratesAt cfg action now)
        (w.run cfg (earlier ++ [first])) between)
    (leavesAgain :
      (w.run cfg (earlier ++ [first] ++ between)).MigratesAt cfg second
        leftAgain) :
    left + fromSecs 180 ≤ leftAgain ∨
      (2 ≤ (w.run cfg (earlier ++ [first] ++ between)).rt.failStreak ∧
        left + fromSecs 10 ≤ leftAgain) ∨
      ∃ action ∈ between ++ [second],
        action.Drops (w.run cfg (earlier ++ [first])).rt.myRemote.ip := by
  by_cases dropped :
      ∃ action ∈ between ++ [second],
        action.Drops (w.run cfg (earlier ++ [first])).rt.myRemote.ip
  · exact .inr (.inr dropped)
  · rw [not_exists] at dropped
    simp only [not_and] at dropped
    rw [List.forall_mem_append, List.forall_mem_singleton] at dropped
    obtain ⟨keptBetween, keptAtEnd⟩ := dropped
    rw [run_append] at leavesAgain ⊢
    -- from the first move on the worker rests
    have arrived :
        Resting (w.run cfg (earlier ++ [first])).rt.myRemote.ip left
          (w.run cfg (earlier ++ [first])) := by
      obtain ⟨env, added, target, rfl, rfl, same, gone⟩ :=
        leaves_of_migratesAt leaves
      refine ⟨rfl, ?_⟩
      rw [run_append]
      exact (congrArg (fun w => w.rt.lastMigrate) same).trans gone.lastMigrate
    have resting :=
      (still.and (allSteps_of_forall_mem keptBetween _)).invariant
        resting_step arrived
    rw [← run] at resting
    generalize (w.run cfg (earlier ++ [first])).run cfg between = last at *
    obtain ⟨env, added, target, rfl, rfl, same, gone⟩ :=
      leaves_of_migratesAt leavesAgain
    obtain ⟨atAddr, moved⟩ := resting
    rw [← atAddr] at keptAtEnd
    have floor := floor_of_migrationTarget gone.chosen
    rw [lastMigrate_adopting keptAtEnd, moved,
      (last.adopting_frame cfg env).2.1] at floor
    rcases floor with long | failing
    · exact .inl long
    · exact .inr (.inl failing)

/-- A set without either of the two addresses, soon after the move. -/
def droppedAgain : Action :=
  .housekeeping
    ⟨fromSecs 25, 25, some ⟨[.v4 192 0 2 3], [100], 1, 5, 0⟩, reconnects⟩

/-- The worker that is about to lose its connection twice. -/
def failingStart : Worker :=
  start plainConfig twoAddrs 0 false false

/-- The housekeeping call that gives the failing address up. -/
def givesUp : Action :=
  .housekeeping ⟨fromSecs 20, 20, none, reconnects⟩

/-- The second migration comes soon because the set dropped the address again.
-/
theorem migrations_spaced_droppedAgain :
    (fromSecs 20 : Instant) + fromSecs 180 ≤ fromSecs 25 ∨
      (2 ≤ (failingStart.run plainConfig
            (failingRun.take 4 ++ [givesUp] ++ [])).rt.failStreak ∧
        (fromSecs 20 : Instant) + fromSecs 10 ≤ fromSecs 25) ∨
      ∃ action ∈ [] ++ [droppedAgain],
        action.Drops (failingStart.run plainConfig
          (failingRun.take 4 ++ [givesUp])).rt.myRemote.ip :=
  migrations_spaced plainConfig failingStart (failingRun.take 4) [] givesUp
    droppedAgain (fromSecs 20) (fromSecs 25)
    ⟨.v4 192 0 2 2, by decide +kernel⟩ trivial
    ⟨.v4 192 0 2 3, by decide +kernel⟩

end Worker

/-! ## Sets without the current address -/

section Dropped

variable {set : UpstreamSet}

/-- An address that is not in the set has no weight. -/
theorem weightOf_eq_zero
    {addr : IpAddr}
    (absent : addr ∉ set.addrs) :
    set.weightOf addr = 0 := by
  have unlisted : set.addrs.findIdx? (· == addr) = none := by
    rw [List.findIdx?_eq_none_iff]
    intro other member
    rw [beq_eq_false_iff_ne]
    rintro rfl
    exact absent member
  rw [UpstreamSet.weightOf, unlisted]

/-- The first address stands beside its weight. -/
theorem exists_first_entry
    (nonempty : set.addrs ≠ [])
    (weighted : ∀ addr ∈ set.addrs, 0 < set.weightOf addr) :
    ∃ addr addrs weight weights,
      set.addrs = addr :: addrs ∧ set.weights = weight :: weights ∧
        0 < weight := by
  obtain ⟨addr, addrs, isAddrs⟩ := List.exists_cons_of_ne_nil nonempty
  have positive := weighted addr (by rw [isAddrs]; exact List.mem_cons_self)
  have first : set.addrs.findIdx? (· == addr) = some 0 := by
    rw [isAddrs, List.findIdx?_cons, beq_self_eq_true]
    rfl
  rw [UpstreamSet.weightOf, first] at positive
  cases isWeights : set.weights with
  | nil =>
      rw [isWeights] at positive
      exact absurd positive (UInt32.lt_irrefl 0)
  | cons weight weights =>
      rw [isWeights] at positive
      exact ⟨addr, addrs, weight, weights, isAddrs, rfl, positive⟩

/-- Every index has a slot of a set that is not empty. -/
theorem exists_slotFor
    (nonempty : set.addrs ≠ [])
    (weighted : ∀ addr ∈ set.addrs, 0 < set.weightOf addr)
    (idx : Nat) :
    ∃ slot addr, set.slotFor idx = some slot ∧ set.addrs[slot]? = some addr := by
  obtain ⟨addr, addrs, weight, weights, isAddrs, isWeights, -⟩ :=
    exists_first_entry nonempty weighted
  have usable : set.usable ≠ 0 := by
    rw [UpstreamSet.usable, isAddrs, isWeights, List.length_cons,
      List.length_cons]
    omega
  have found : ∃ slot, set.slotFor idx = some slot := by
    unfold UpstreamSet.slotFor
    simp only [if_neg usable]
    split
    · exact ⟨_, rfl⟩
    · split
      · exact ⟨_, rfl⟩
      · exact ⟨_, rfl⟩
  obtain ⟨slot, isSlot⟩ := found
  have inside : slot < set.addrs.length :=
    Nat.lt_of_lt_of_le (slotFor_lt isSlot) (Nat.min_le_left _ _)
  exact ⟨slot, _, isSlot, List.getElem?_eq_getElem inside⟩

/-- Once there is a best entry there is one to the end. -/
theorem isSome_foldl_best
    (entries : List (IpAddr × UInt32))
    (best : IpAddr × UInt32) :
    (entries.foldl
        (fun best entry =>
          match best with
          | none => some entry
          | some found =>
              if entry.2 ≥ found.2 then some entry else some found)
        (some best)).isSome = true := by
  induction entries generalizing best with
  | nil =>
      rfl
  | cons entry rest inductionHypothesis =>
      rw [List.foldl_cons]
      simp only
      split
      · exact inductionHypothesis entry
      · exact inductionHypothesis best

/-- Where the current address was dropped there is another to go to. -/
theorem exists_bestAlternative
    {current : IpAddr}
    (nonempty : set.addrs ≠ [])
    (weighted : ∀ addr ∈ set.addrs, 0 < set.weightOf addr)
    (dropped : current ∉ set.addrs) :
    ∃ alt ∈ set.addrs, bestAlternative set current = some alt := by
  obtain ⟨addr, addrs, weight, weights, isAddrs, isWeights, positive⟩ :=
    exists_first_entry nonempty weighted
  have different : (addr != current) = true := by
    rw [bne_iff_ne]
    rintro rfl
    exact dropped (by rw [isAddrs]; exact List.mem_cons_self)
  have found : (bestAlternative set current).isSome = true := by
    rw [bestAlternative, isAddrs, isWeights, List.zip_cons_cons,
      List.filter_cons_of_pos
        (by rw [different, Bool.and_true]; exact decide_eq_true positive)]
    rw [Option.isSome_map, List.foldl_cons]
    exact isSome_foldl_best _ _
  obtain ⟨alt, isAlt⟩ := Option.isSome_iff_exists.mp found
  exact ⟨alt, (bestAlternative_spec isAlt).1, isAlt⟩

/-- Without its address in the set only the floors and the stagger keep a
worker where it is. -/
theorem isSome_migrationTarget_iff
    {rt : Runtime}
    (cfg : WorkerConfig)
    (now : Instant)
    (monoSecs : Nat)
    (nonempty : rt.set.addrs ≠ [])
    (weighted : ∀ addr ∈ rt.set.addrs, 0 < rt.set.weightOf addr)
    (dropped : rt.myRemote.ip ∉ rt.set.addrs) :
    (∃ target ∈ rt.set.addrs,
        migrationTarget rt cfg now monoSecs = some target) ↔
      (2 ≤ rt.failStreak ∧
          failMigrateInterval ≤ durationSince now rt.lastMigrate) ∨
        (¬ 2 ≤ rt.failStreak ∧
          migrateMinInterval ≤ durationSince now rt.lastMigrate ∧
          migrationSlotOpen monoSecs rt.set.workers.toNat rt.childIdx) := by
  have zero := weightOf_eq_zero dropped
  unfold migrationTarget
  simp only
  by_cases failing : 2 ≤ rt.failStreak
  · obtain ⟨alt, listed, best⟩ :=
      exists_bestAlternative nonempty weighted dropped
    simp only [failing, true_and, not_true, false_and, or_false, best, zero,
      gt_iff_lt, weighted alt listed, if_true]
    by_cases early : durationSince now rt.lastMigrate < failMigrateInterval
    · simp only [if_pos early, Nat.not_le.mpr early, iff_false]
      rintro ⟨_, _, none⟩
      cases none
    · simp only [if_neg early, Nat.not_lt.mp early, iff_true]
      exact ⟨alt, listed, rfl⟩
  · obtain ⟨slot, addr, isSlot, isAddr⟩ :=
      exists_slotFor nonempty weighted cfg.childIdx
    have listed := List.mem_of_getElem? isAddr
    have different : addr ≠ rt.myRemote.ip := by
      rintro rfl
      exact dropped listed
    simp only [failing, false_and, not_false_eq_true, true_and, false_or,
      isSlot, isAddr, if_neg different, zero, UInt32.toNat_zero, true_or,
      if_true]
    by_cases early : durationSince now rt.lastMigrate < migrateMinInterval
    · simp only [if_pos early, Nat.not_le.mpr early, false_and, iff_false]
      rintro ⟨_, _, none⟩
      cases none
    · simp only [if_neg early, Nat.not_lt.mp early, true_and]
      cases migrationSlotOpen monoSecs rt.set.workers.toNat rt.childIdx with
      | false =>
          simp
      | true =>
          simp [listed]

end Dropped

namespace Worker

section Leaving

variable
  {cfg : WorkerConfig}
  {w : Worker}
  {env : HousekeepingEnv}
  {set : UpstreamSet}

/-- What a worker adopts that has lost its address. -/
theorem adopting_dropped
    (cfg : WorkerConfig)
    (published : env.published = some set)
    (nonempty : set.addrs ≠ [])
    (dropped : w.rt.myRemote.ip ∉ set.addrs) :
    (w.adopting cfg env).rt.set = set ∧
      (w.adopting cfg env).rt.lastMigrate =
        (checkedSub env.now migrateMinInterval).getD env.now := by
  have all : set.addrs.all (· != w.rt.myRemote.ip) = true := by
    rw [List.all_eq_true]
    intro addr member
    rw [bne_iff_ne]
    rintro rfl
    exact dropped member
  rw [adopting, published, Runtime.adopt]
  simp only [if_neg nonempty, if_pos all]
  exact ⟨trivial, trivial⟩

/-- The clock can be set back by the interval between two moves. -/
def ClockGoesBack (now : Instant) : Prop :=
  (checkedSub now migrateMinInterval).isSome

instance (now : Instant) : Decidable (ClockGoesBack now) :=
  inferInstanceAs (Decidable (_ = true))

/-- The back-dated time of the last move lifts both floors. -/
theorem floors_backdated
    {now last : Instant}
    (backdated : last = (checkedSub now migrateMinInterval).getD now) :
    (failMigrateInterval ≤ durationSince now last ↔ ClockGoesBack now) ∧
      (migrateMinInterval ≤ durationSince now last ↔ ClockGoesBack now) := by
  rw [backdated, ClockGoesBack, checkedSub]
  split
  · simp [durationSince, failMigrateInterval, migrateMinInterval, fromSecs]
  · simp [durationSince, failMigrateInterval, migrateMinInterval, fromSecs]

/-- The worker migrates in a housekeeping call, to an address of the set. -/
def LeavesAtOnce
    (cfg : WorkerConfig)
    (w : Worker)
    (env : HousekeepingEnv)
    (set : UpstreamSet) : Prop :=
  ∃ target ∈ set.addrs,
    (w.housekeeping cfg env).rt.myRemote.ip = target ∧
      .migrated env.now target ∈
        (w.housekeeping cfg env).history.drop w.history.length

/-- A worker without its address in the set leaves exactly if the policy has a
target and no reconnect comes first. -/
theorem leavesAtOnce_iff_target
    (dropped : w.rt.myRemote.ip ∉ set.addrs)
    (notScheduled : w.reconnectAt = none) :
    LeavesAtOnce cfg w env set ↔
      ¬ w.DrainsGoaway env.now ∧
        ∃ target ∈ set.addrs,
          migrationTarget (w.adopting cfg env).rt cfg env.now env.monoSecs =
            some target := by
  constructor
  · rintro ⟨target, listed, arrived, -⟩
    rcases w.housekeeping_cases cfg env with
      ⟨added, stays⟩ | ⟨added, goal, leaves⟩
    · rw [stays.placement.myRemote_eq, (w.adopting_frame cfg env).1] at arrived
      exact absurd (arrived ▸ listed) dropped
    · rw [leaves.arrived] at arrived
      exact ⟨leaves.inUse, target, listed, arrived ▸ leaves.chosen⟩
  · rintro ⟨inUse, target, listed, chosen⟩
    have free :=
      (w.reconnectAt_beforeMigration cfg env).mpr ⟨notScheduled, inUse⟩
    obtain ⟨added, leaves⟩ := leaves_of_target free chosen
    refine ⟨target, listed, leaves.arrived, ?_⟩
    rw [leaves.history, List.drop_left]
    exact List.mem_append_right _ (List.mem_singleton_self _)

end Leaving

/--
A worker whose address is not in the set it adopts leaves in the same call
exactly if no drained connection is to be replaced first, the clock can be set
back, and its connection keeps failing or its stagger window is open.
-/
theorem leavesAtOnce_iff
    (cfg : WorkerConfig)
    (w : Worker)
    (env : HousekeepingEnv)
    (set : UpstreamSet)
    (published : env.published = some set)
    (nonempty : set.addrs ≠ [])
    (weighted : ∀ addr ∈ set.addrs, 0 < set.weightOf addr)
    (dropped : w.rt.myRemote.ip ∉ set.addrs)
    (notScheduled : w.reconnectAt = none) :
    LeavesAtOnce cfg w env set ↔
      ¬ w.DrainsGoaway env.now ∧
        ClockGoesBack env.now ∧
        (2 ≤ w.rt.failStreak ∨
          migrationSlotOpen env.monoSecs set.workers.toNat
            w.rt.childIdx) := by
  rw [leavesAtOnce_iff_target dropped notScheduled]
  obtain ⟨isSet, backdated⟩ :=
    adopting_dropped cfg published nonempty dropped
  obtain ⟨remote, failStreak, childIdx⟩ := w.adopting_frame cfg env
  obtain ⟨failFloor, minFloor⟩ := floors_backdated backdated
  rw [← isSet] at nonempty weighted dropped
  rw [← remote] at dropped
  have target :=
    isSome_migrationTarget_iff cfg env.now env.monoSecs nonempty weighted
      dropped
  rw [failFloor, minFloor, failStreak, childIdx, isSet] at target
  rw [target]
  refine and_congr_right fun _ => ?_
  by_cases failing : 2 ≤ w.rt.failStreak
  · simp [failing]
  · simp [failing]

/-- A set for four workers that has none of the old addresses. -/
def newAddrs : UpstreamSet :=
  ⟨[.v4 192 0 2 9], [100], 2, 4, 0⟩

/-- The first of four workers, in the window of the second. -/
def outsideWindow : HousekeepingEnv :=
  ⟨fromSecs 5, 5, some newAddrs, reconnects⟩

/-- The condition at a moment outside the worker's window. -/
theorem leavesAtOnce_outsideWindow_iff :
    LeavesAtOnce plainConfig failingStart outsideWindow newAddrs ↔
      ¬ failingStart.DrainsGoaway outsideWindow.now ∧
        ClockGoesBack outsideWindow.now ∧
        (2 ≤ failingStart.rt.failStreak ∨
          migrationSlotOpen outsideWindow.monoSecs newAddrs.workers.toNat
            failingStart.rt.childIdx) :=
  leavesAtOnce_iff plainConfig failingStart outsideWindow newAddrs rfl
    (by decide) (by decide) (by decide) rfl

/-- Outside its window a worker stays on an address that was dropped. -/
theorem not_leavesAtOnce_outsideWindow :
    ¬ ∀ cfg w env set,
      HousekeepingEnv.published env = some set →
      set.addrs ≠ [] →
      (∀ addr ∈ set.addrs, 0 < set.weightOf addr) →
      (Worker.rt w).myRemote.ip ∉ set.addrs →
      w.reconnectAt = none →
      LeavesAtOnce cfg w env set := by
  intro always
  obtain ⟨target, listed, arrived, -⟩ :=
    always plainConfig failingStart outsideWindow newAddrs rfl (by decide)
      (by decide) (by decide) rfl
  have stays :
      (failingStart.housekeeping plainConfig outsideWindow).rt.myRemote.ip ∉
        newAddrs.addrs := by
    decide +kernel
  exact stays (arrived ▸ listed)

end Worker

end DnsServices.Microdoh3
