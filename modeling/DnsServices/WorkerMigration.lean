import DnsServices.WorkerPlacement

namespace DnsServices.Microdoh3

/-!
# Migration under stable weights

While the supervisor publishes nothing new, both migration rules lead to an
address of strictly higher weight: the escape from a failing address by its
own comparison, the weighted move by its hysteresis.  The addresses that are
better than the current one become fewer with every migration, so there are
at most as many migrations as addresses.
-/

open Http3 Runs Shared

/-! ## Targets -/

/-- The slot found is one of the weights. -/
theorem firstAbove_lt
    {target acc : UInt64}
    {weights : List UInt32}
    {i : Nat}
    (found : firstAbove target acc weights = some i) :
    i < weights.length := by
  induction weights generalizing acc i with
  | nil =>
      cases found
  | cons weight rest inductionHypothesis =>
      rw [firstAbove] at found
      split at found
      · obtain rfl := Option.some.inj found
        exact Nat.succ_pos rest.length
      · obtain ⟨j, later, rfl⟩ := Option.map_eq_some_iff.mp found
        exact Nat.succ_lt_succ (inductionHypothesis later)

/-- The slot of a worker has an address and a weight. -/
theorem slotFor_lt
    {set : UpstreamSet}
    {idx slot : Nat}
    (found : set.slotFor idx = some slot) :
    slot < set.usable := by
  unfold UpstreamSet.slotFor at found
  simp only at found
  split at found
  · cases found
  next some =>
    split at found
    · obtain rfl := Option.some.inj found
      exact Nat.mod_lt _ (Nat.pos_of_ne_zero some)
    · split at found
      next i above =>
        obtain rfl := Option.some.inj found
        have inside := firstAbove_lt above
        rw [List.length_take] at inside
        exact Nat.lt_of_lt_of_le inside (Nat.min_le_left _ _)
      · obtain rfl := Option.some.inj found
        omega

/-- An address with a weight of its own counts for something. -/
theorem weightOf_pos
    {set : UpstreamSet}
    (weights : ∀ weight ∈ set.weights, 1 ≤ weight)
    {slot : Nat}
    (inside : slot < set.usable)
    {addr : IpAddr}
    (listed : set.addrs[slot]? = some addr) :
    1 ≤ (set.weightOf addr).toNat := by
  obtain ⟨first, earlier, position⟩ := exists_position listed
  have inWeights : first < set.weights.length := by
    rw [UpstreamSet.usable] at inside
    omega
  rw [UpstreamSet.weightOf, position]
  simp only [List.getElem?_eq_getElem inWeights, Option.getD_some]
  exact UInt32.le_iff_toNat_le.mp (weights _ (List.getElem_mem inWeights))

/-- The best entry is one of the entries. -/
theorem mem_of_foldl_best
    {entries : List (IpAddr × UInt32)}
    {best : IpAddr × UInt32}
    (found :
      entries.foldl
          (fun best entry =>
            match best with
            | none => some entry
            | some found =>
                if entry.2 ≥ found.2 then some entry else some found)
          none =
        some best) :
    best ∈ entries := by
  induction entries using List.reverseRecOn generalizing best with
  | nil =>
      cases found
  | append_singleton entries last inductionHypothesis =>
      rw [List.foldl_append, List.foldl_cons, List.foldl_nil] at found
      split at found
      · obtain rfl := Option.some.inj found
        exact List.mem_append_right _ (List.mem_singleton_self _)
      next earlier isBest =>
        split at found
        · obtain rfl := Option.some.inj found
          exact List.mem_append_right _ (List.mem_singleton_self _)
        · obtain rfl := Option.some.inj found
          exact List.mem_append_left _ (inductionHypothesis isBest)

/-- The best alternative is listed and is another address. -/
theorem bestAlternative_spec
    {set : UpstreamSet}
    {current alt : IpAddr}
    (found : bestAlternative set current = some alt) :
    alt ∈ set.addrs ∧ alt ≠ current := by
  obtain ⟨entry, best, rfl⟩ := Option.map_eq_some_iff.mp found
  have member := mem_of_foldl_best best
  obtain ⟨zipped, passed⟩ := List.mem_filter.mp member
  rw [Bool.and_eq_true, bne_iff_ne] at passed
  exact ⟨(List.of_mem_zip zipped).1, passed.2⟩

/-- A move to another address of the set that has a higher weight. -/
structure Improves
    (set : UpstreamSet)
    (current target : IpAddr) : Prop where
  listed : target ∈ set.addrs
  different : target ≠ current
  better : set.weightOf current < set.weightOf target

/-- Both rules pick a better address. -/
theorem improves_migrationTarget
    {rt : Runtime}
    {cfg : WorkerConfig}
    {now : Instant}
    {monoSecs : Nat}
    {target : IpAddr}
    (weights : ∀ weight ∈ rt.set.weights, 1 ≤ weight)
    (found : migrationTarget rt cfg now monoSecs = some target) :
    Improves rt.set rt.myRemote.ip target := by
  unfold migrationTarget at found
  simp only at found
  split at found
  · split at found
    · cases found
    · split at found
      · cases found
      next alt isAlt =>
        split at found
        next better =>
          obtain rfl := Option.some.inj found
          obtain ⟨listed, different⟩ := bestAlternative_spec isAlt
          exact ⟨listed, different, better⟩
        · cases found
  · split at found
    · cases found
    · split at found
      · cases found
      · split at found
        · cases found
        next slot isSlot =>
          split at found
          · cases found
          next addr listed =>
            split at found
            · cases found
            next different =>
              split at found
              next worth =>
                obtain rfl := Option.some.inj found
                have positive := weightOf_pos weights (slotFor_lt isSlot) listed
                refine ⟨List.mem_of_getElem? listed, different, ?_⟩
                rw [UInt32.lt_iff_toNat_lt]
                rw [migrateRatioPct] at worth
                omega
              · cases found

/-! ## The set of a worker -/

/-- A housekeeping call that finds no new set; other actions look for none. -/
def Action.AdoptsNothing : Action → Prop
  | .housekeeping env =>
      ∀ set, env.published = some set → set.addrs = []
  | _ =>
      True

namespace Worker

/-! ## Steps -/

/-- What a step does to the address of the worker, by what is observed. -/
inductive Settles
    (set : UpstreamSet)
    (before after : Worker) :
    List Observation → Prop where
  | stays
      {added : List Observation}
      (myRemote : after.rt.myRemote = before.rt.myRemote)
      (quiet : ∀ observation ∈ added, ¬ observation.isMigration) :
      Settles set before after added
  | leaves
      {added : List Observation}
      (now : Instant)
      (target : IpAddr)
      (quiet : ∀ observation ∈ added, ¬ observation.isMigration)
      (arrived : after.rt.myRemote.ip = target)
      (improves : Improves set before.rt.myRemote.ip target) :
      Settles set before after (added ++ [.migrated now target])

/-- Without a new set there is nothing to adopt. -/
theorem adopting_eq_self
    {cfg : WorkerConfig}
    {w : Worker}
    {env : HousekeepingEnv}
    (nothing : (Action.housekeeping env).AdoptsNothing) :
    w.adopting cfg env = w := by
  have kept : w.rt.adopt cfg env.now env.published = w.rt := by
    unfold Runtime.adopt
    split
    · rfl
    next set published =>
      exact if_pos (nothing set published)
  rw [adopting, kept]

/-- Housekeeping without adoption keeps the set and moves up in weight only. -/
theorem settles_housekeeping
    (cfg : WorkerConfig)
    (w : Worker)
    {env : HousekeepingEnv}
    (weights : ∀ weight ∈ w.rt.set.weights, 1 ≤ weight)
    (nothing : (Action.housekeeping env).AdoptsNothing) :
    (w.housekeeping cfg env).rt.set = w.rt.set ∧
      ∃ added,
        (w.housekeeping cfg env).history = w.history ++ added ∧
          Settles w.rt.set w (w.housekeeping cfg env) added := by
  have kept : w.adopting cfg env = w := adopting_eq_self nothing
  rcases w.housekeeping_cases cfg env with
    ⟨added, stays⟩ | ⟨added, target, leaves⟩
  · have placed := stays.placement
    rw [kept] at placed
    exact ⟨placed.set_eq, added, stays.history,
      .stays placed.myRemote_eq stays.quiet⟩
  · have set := leaves.set
    have chosen := leaves.chosen
    rw [kept] at set chosen
    exact ⟨set, _, leaves.history,
      .leaves env.now target leaves.quiet leaves.arrived
        (improves_migrationTarget weights chosen)⟩

/-- Only an adoption changes the set. -/
theorem set_step
    (cfg : WorkerConfig)
    (w : Worker)
    {action : Action}
    (weights : ∀ weight ∈ w.rt.set.weights, 1 ≤ weight)
    (nothing : action.AdoptsNothing) :
    (w.step cfg action).rt.set = w.rt.set := by
  rcases w.step_placement_cases cfg action with
    ⟨placed, -⟩ | ⟨env, rfl, same⟩
  · exact placed.set_eq
  · rw [same]
    exact (settles_housekeeping cfg w weights nothing).1

/-- A step that adopts no set leads to a better address if to another one. -/
theorem settles_step
    (cfg : WorkerConfig)
    (w : Worker)
    {action : Action}
    (weights : ∀ weight ∈ w.rt.set.weights, 1 ≤ weight)
    (nothing : action.AdoptsNothing) :
    ∃ added,
      (w.step cfg action).history = w.history ++ added ∧
        Settles w.rt.set w (w.step cfg action) added := by
  rcases w.step_score_cases cfg action with
    ⟨measures, -, -⟩ | ⟨env, rfl, -, same⟩
  · obtain ⟨added, history, notReport, -⟩ := measures.history
    refine ⟨added, history, .stays measures.myRemote ?_⟩
    intro observation member
    exact Observation.not_isMigration_of_not_isReport
      (notReport observation member)
  · rw [same]
    exact (settles_housekeeping cfg w weights nothing).2

/-! ## Runs -/

/-- The addresses of the set that are better than the current one. -/
def betterAddrs (set : UpstreamSet) (current : IpAddr) : List IpAddr :=
  set.addrs.filter fun addr => set.weightOf current < set.weightOf addr

/-- A better address leaves fewer addresses that are better still. -/
theorem length_betterAddrs_lt
    {set : UpstreamSet}
    {current target : IpAddr}
    (improves : Improves set current target) :
    (betterAddrs set target).length < (betterAddrs set current).length := by
  have shrunk :
      betterAddrs set target =
        (betterAddrs set current).filter
          fun addr => set.weightOf target < set.weightOf addr := by
    rw [betterAddrs, betterAddrs, List.filter_filter]
    refine List.filter_congr fun addr _ => ?_
    rw [← Bool.decide_and, decide_eq_decide]
    exact
      ⟨fun above => ⟨above, UInt32.lt_trans improves.better above⟩, And.left⟩
  rw [shrunk, List.length_filter_lt_length_iff_exists]
  refine ⟨target, ?_, ?_⟩
  · rw [betterAddrs, List.mem_filter]
    exact ⟨improves.listed, decide_eq_true improves.better⟩
  · rw [decide_eq_true_eq]
    exact UInt32.lt_irrefl _

/-- How often the worker has migrated so far. -/
def migrations (w : Worker) : Nat :=
  w.history.countP Observation.isMigration

/-- Every migration uses up a better address. -/
theorem migrations_step
    (cfg : WorkerConfig)
    (w : Worker)
    {action : Action}
    (weights : ∀ weight ∈ w.rt.set.weights, 1 ≤ weight)
    (nothing : action.AdoptsNothing) :
    (w.step cfg action).migrations +
        (betterAddrs w.rt.set (w.step cfg action).rt.myRemote.ip).length ≤
      w.migrations + (betterAddrs w.rt.set w.rt.myRemote.ip).length := by
  obtain ⟨added, history, settles⟩ := settles_step cfg w weights nothing
  rw [migrations, history, List.countP_append, migrations]
  cases settles with
  | stays myRemote quiet =>
      rw [List.countP_eq_zero.mpr quiet, myRemote, Nat.add_zero]
  | leaves now target quiet arrived improves =>
      have fewer := length_betterAddrs_lt improves
      rw [List.countP_append, List.countP_eq_zero.mpr quiet, arrived,
        List.countP_singleton]
      simp only [Observation.isMigration, if_true]
      omega

/-- The migrations so far and the better addresses left stay in a budget. -/
def WithinBudget (set : UpstreamSet) (budget : Nat) (w : Worker) : Prop :=
  w.rt.set = set ∧
    w.migrations + (betterAddrs set w.rt.myRemote.ip).length ≤ budget

/-- A step keeps the set and settles. -/
def Climbs
    (cfg : WorkerConfig)
    (set : UpstreamSet)
    (w : Worker)
    (action : Action) : Prop :=
  (w.step cfg action).rt.set = set ∧
    Settles set w (w.step cfg action) (w.observed cfg action)

/--
In a run that adopts no new set every migration leads to an address of the set
with a strictly higher weight, so there are at most as many migrations as
addresses.
-/
theorem migrations_climb
    (cfg : WorkerConfig)
    (w : Worker)
    (actions : List Action)
    (weights : ∀ weight ∈ w.rt.set.weights, 1 ≤ weight)
    (nothing : ∀ action ∈ actions, action.AdoptsNothing) :
    AllSteps (step cfg) (Climbs cfg w.rt.set) w actions ∧
      (w.run cfg actions).migrations ≤
        w.migrations + w.rt.set.addrs.length := by
  have all :
      AllSteps (step cfg) (fun _ action => action.AdoptsNothing) w actions :=
    allSteps_of_forall_mem nothing w
  have keepsSet (later : Worker) (action : Action)
      (adopts : action.AdoptsNothing)
      (same : later.rt.set = w.rt.set) :
      (later.step cfg action).rt.set = w.rt.set := by
    rw [← same] at weights ⊢
    exact set_step cfg later weights adopts
  constructor
  · refine all.under keepsSet (fun later action adopts same => ?_) rfl
    refine ⟨keepsSet later action adopts same, ?_⟩
    rw [← same] at weights ⊢
    obtain ⟨added, history, settles⟩ := settles_step cfg later weights adopts
    rw [observed_eq history]
    exact settles
  · have bounded :
        WithinBudget w.rt.set
          (w.migrations + (betterAddrs w.rt.set w.rt.myRemote.ip).length)
          (w.run cfg actions) := by
      refine all.invariant ?_ ⟨rfl, Nat.le_refl _⟩
      rintro later action adopts ⟨same, soFar⟩
      refine ⟨keepsSet later action adopts same, ?_⟩
      rw [← same] at weights soFar ⊢
      exact (migrations_step cfg later weights adopts).trans soFar
    have within := bounded.2
    have better : (betterAddrs w.rt.set w.rt.myRemote.ip).length ≤
        w.rt.set.addrs.length :=
      List.length_filter_le _ _
    omega

/-- Two addresses, the second one better. -/
def twoAddrs : UpstreamSet :=
  ⟨[.v4 192 0 2 1, .v4 192 0 2 2], [100, 300], 1, 4, 0⟩

/-- A connection that can be opened. -/
def reconnects : ConnectEnv := ⟨true, false, true, false, true⟩

/-- Two losses, and a housekeeping call that may give the address up. -/
def failingRun : List Action :=
  [.drained 0,
    .housekeeping ⟨fromSecs 1, 1, none, reconnects⟩,
    .drained (fromSecs 2),
    .housekeeping ⟨fromSecs 3, 3, none, reconnects⟩,
    .housekeeping ⟨fromSecs 20, 20, none, reconnects⟩]

/-- Two losses make the worker give its address up once. -/
theorem migrations_climb_failingRun :
    ((start plainConfig twoAddrs 0 false false).run plainConfig
        failingRun).migrations = 1 ∧
      AllSteps (step plainConfig)
        (Climbs plainConfig
          (start plainConfig twoAddrs 0 false false).rt.set)
        (start plainConfig twoAddrs 0 false false) failingRun ∧
      ((start plainConfig twoAddrs 0 false false).run plainConfig
          failingRun).migrations ≤
        (start plainConfig twoAddrs 0 false false).migrations +
          (start plainConfig twoAddrs 0 false false).rt.set.addrs.length := by
  refine ⟨by decide +kernel, migrations_climb _ _ _ ?_ ?_⟩
  · change ∀ weight ∈ twoAddrs.weights, 1 ≤ weight
    simp [twoAddrs]
  · simp [failingRun, Action.AdoptsNothing]

end Worker

end DnsServices.Microdoh3
