import DnsServices.SupervisorLoop
import DnsServices.WorkerMigration

namespace DnsServices.Microdoh3

open Bootstrap Runs Seqlock Shared

/-!
# The supervisor and its workers

The loop of the supervisor, the resolve page and any number of worker processes
run side by side.  A turn of the loop that publishes starts a write of the page;
the stores of that write and the loads of the workers come one by one and in any
order.  A worker that has finished a read goes on with its housekeeping.

Processes are numbered, so that a process that is started again is another
reader.  When processes are started and when they end is the environment's.
-/

section Code

/-- The parameters of the supervisor's loop and of the workers. -/
structure FleetConfig where
  loop : LoopConfig
  /-- What all workers have in common. -/
  worker : WorkerConfig

/-- A worker process. -/
inductive Process where
  /-- It waits for a set in `read_initial`. -/
  | starting (cfg : WorkerConfig)
  | running (cfg : WorkerConfig) (worker : Worker)

/-- The supervisor, the resolve page between the parties, and the worker
processes by their numbers. -/
structure Fleet where
  loop : SupervisorLoop
  page : ResolveSystem Nat
  /-- How many processes have been started. -/
  spawned : Nat
  processes : Nat → Option Process

/-- One step of one party. -/
inductive FleetAction where
  | turn (turn : LoopTurn)
  /-- The supervisor makes its next store to the page. -/
  | write
  | spawn (childIdx : Nat)
  /-- A process makes its next load; a read that ends is the one of the
  housekeeping call for which `env` answers. -/
  | read (id : Nat) (env : HousekeepingEnv)
  /-- Any other action of a worker. -/
  | act (id : Nat) (action : Action)
  | exit (id : Nat)

namespace Process

/-- The event loop of the process has ended. -/
def returned : Process → Bool
  | starting _ => false
  | running _ worker => worker.returned

/-- What a process does with the result of a read. -/
def receive (env : HousekeepingEnv) (published : Option UpstreamSet) :
    Process → Option Process
  | starting cfg =>
      match published with
      | none =>
          some (starting cfg)
      | some set =>
          if set.addrs = [] then
            some (starting cfg)
          else if env.connect.connectOk ∧ env.connect.connectFlushOk ∧
              env.connect.flushOk then
            some
              (running cfg
                (Worker.start cfg set env.now env.connect.has0rtt
                  env.connect.zeroRttOffered))
          else
            -- `connect_and_preamble` failed, and `run` with it
            none
  | running cfg worker =>
      some
        (running cfg
          (worker.step cfg (.housekeeping { env with published := published })))

end Process

namespace Fleet

/-- The supervisor publishes once before it starts any process. -/
def start (loop : SupervisorLoop) : Fleet where
  loop := loop
  page :=
    match loop.publishes with
    | [] =>
        ResolveSystem.new Nat
    | call :: _ =>
        ((ResolveSystem.new Nat).run resolveProtocol
          (.begin call.2 ::
            List.replicate (call.2.stores.length + 2) .write)).1
  spawned := 0
  processes := fun _ => none

/-- A turn of the supervisor, up to the start of its publish; the supervisor
makes no turn while it is publishing. -/
def turn (cfg : FleetConfig) (s : Fleet) (turn : LoopTurn) : Fleet :=
  match s.page.writer with
  | .idle =>
      let loop := s.loop.turn cfg.loop turn
      { s with
        loop := loop
        page :=
          match loop.publishes.drop s.loop.publishes.length with
          | [] =>
              s.page
          | call :: _ =>
              (s.page.step resolveProtocol (.begin call.2)).1 }
  | _ =>
      s

/-- Put a process in, or take it out. -/
def setProcess (s : Fleet) (id : Nat) (process : Option Process) : Fleet :=
  { s with processes := Function.update s.processes id process }

/-- Start the next process; it has no set to work with yet. -/
def spawn (cfg : FleetConfig) (s : Fleet) (childIdx : Nat) : Fleet :=
  { s with spawned := s.spawned + 1 }.setProcess s.spawned
    (some (.starting { cfg.worker with childIdx := childIdx }))

/-- The next load of a process; a read that ends goes on with its result. -/
def read (s : Fleet) (id : Nat) (env : HousekeepingEnv) : Fleet :=
  match s.processes id with
  | none =>
      s
  | some process =>
      if process.returned then
        s
      else
        match s.page.step resolveProtocol (.read id) with
        | (page, []) =>
            { s with page := page }
        | (page, output :: _) =>
            { s with page := page }.setProcess id (process.receive env output.2)

/-- A worker does nothing else in the middle of a read. -/
def act (s : Fleet) (id : Nat) (action : Action) : Fleet :=
  match s.processes id with
  | some (.running cfg worker) =>
      if (s.page.readers id).call.isSome then
        s
      else
        match action with
        | .housekeeping _ =>
            s
        | other =>
            s.setProcess id (some (.running cfg (worker.step cfg other)))
  | _ =>
      s

/-- One step of the system. -/
def step (cfg : FleetConfig) (s : Fleet) : FleetAction → Fleet
  | .turn turn => s.turn cfg turn
  | .write => { s with page := (s.page.step resolveProtocol .write).1 }
  | .spawn childIdx => s.spawn cfg childIdx
  | .read id env => s.read id env
  | .act id action => s.act id action
  | .exit id => s.setProcess id none

/-- Steps of the parties in any order. -/
def run (cfg : FleetConfig) (s : Fleet) (actions : List FleetAction) : Fleet :=
  actions.foldl (step cfg) s

end Fleet

end Code

section Calls

variable {ρ : Type} [DecidableEq ρ]

/-- The calls of `publish` that were begun, in order. -/
def begun (page : ResolveSystem ρ) : List Publish :=
  page.committed ++
    match page.writer with
    | .idle => []
    | .loaded _ call => [call]
    | .writing _ call _ => [call]

theorem begun_write (page : ResolveSystem ρ) :
    begun (page.step resolveProtocol .write).1 = begun page := by
  simp only [System.step, System.writeStep]
  split
  · rfl
  next loaded =>
    simp [begun, loaded]
  next inWrite =>
    simp [begun, inWrite]
  next inWrite =>
    simp [begun, inWrite]

/-- Beginning a publication appends it to those begun. -/
theorem begun_begin
    {page : ResolveSystem ρ}
    (idle : page.writer = .idle)
    (call : Publish) :
    begun (page.step resolveProtocol (.begin call)).1 =
      begun page ++ [call] := by
  simp [System.step, begun, idle]

theorem begun_read (page : ResolveSystem ρ) (id : ρ) :
    begun (page.step resolveProtocol (.read id)).1 = begun page := by
  obtain ⟨state, frame⟩ :=
    @readStep_frame _ _ _ _ _ resolveProtocol _ page id
  rw [System.step, frame]
  rfl

/-- Only `weigh` publishes, and once at most. -/
theorem publishes_turn
    (cfg : LoopConfig)
    (loop : SupervisorLoop)
    (turn : LoopTurn) :
    (loop.turn cfg turn).publishes = loop.publishes ∨
      ∃ call, (loop.turn cfg turn).publishes = loop.publishes ++ [call] := by
  have refreshed (loop : SupervisorLoop) :
      (loop.beginRefresh cfg turn).publishes = loop.publishes := by
    unfold SupervisorLoop.beginRefresh
    split
    · split <;> rfl
    · rfl
  have replied (loop : SupervisorLoop) :
      (loop.readReplies cfg turn).publishes = loop.publishes := by
    unfold SupervisorLoop.readReplies
    split
    · rfl
    · split
      · dsimp only
        split <;> rfl
      · rfl
  have checked (loop : SupervisorLoop) :
      (loop.checkDeadline turn).publishes = loop.publishes := by
    unfold SupervisorLoop.checkDeadline
    split
    · rfl
    · split
      · split <;> rfl
      · rfl
  have weighed (loop : SupervisorLoop) :
      (loop.weigh cfg turn).publishes = loop.publishes ∨
        ∃ call, (loop.weigh cfg turn).publishes = loop.publishes ++ [call] := by
    unfold SupervisorLoop.weigh
    split
    · dsimp only
      split
      · exact .inl rfl
      · split
        · exact .inr ⟨_, rfl⟩
        · exact .inl rfl
    · exact .inl rfl
  unfold SupervisorLoop.turn
  split
  · exact .inl rfl
  · dsimp only
    split
    · exact .inl rfl
    · have last := weighed
        (((((loop.restartDue turn).reap turn).beginRefresh cfg turn).readReplies
          cfg turn).checkDeadline turn)
      rw [checked, replied, refreshed] at last
      exact last

end Calls

section Placement

variable {known later : IpAddr → Prop}

/-- A worker is at a known address, and was never anywhere else. -/
structure WellPlaced (known : IpAddr → Prop) (w : Worker) : Prop where
  remote : known w.rt.myRemote.ip
  moves : ∀ now target, .migrated now target ∈ w.history → known target

/-- A worker stays well placed as more addresses become known. -/
theorem WellPlaced.mono
    {w : Worker}
    (placed : WellPlaced known w)
    (implies : ∀ ip, known ip → later ip) :
    WellPlaced later w where
  remote := implies _ placed.remote
  moves := fun now target moved => implies target (placed.moves now target moved)

/-- A worker stays well placed when it records moves to known addresses only. -/
theorem WellPlaced.append
    {before after : Worker}
    (placed : WellPlaced known before)
    (remote : known after.rt.myRemote.ip)
    {added : List Observation}
    (history : after.history = before.history ++ added)
    (moves : ∀ now target, .migrated now target ∈ added → known target) :
    WellPlaced known after where
  remote := remote
  moves := by
    intro now target moved
    rw [history] at moved
    rcases List.mem_append.mp moved with earlier | new
    · exact placed.moves now target earlier
    · exact moves now target new

/-- Observations without a migration name no target. -/
theorem not_migrated_of_quiet
    {added : List Observation}
    (quiet : ∀ observation ∈ added, ¬ observation.isMigration) :
    ∀ now target, .migrated now target ∈ added → known target :=
  fun _ _ moved => absurd rfl (quiet _ moved)

/-- Outside of housekeeping a worker keeps its set and its address. -/
theorem wellPlaced_act
    {w : Worker}
    (placed : WellPlaced known w)
    (cfg : WorkerConfig)
    {action : Action}
    (other : ∀ env, action ≠ .housekeeping env) :
    (w.step cfg action).rt.set = w.rt.set ∧
      WellPlaced known (w.step cfg action) := by
  have same := w.samePlacement_step cfg other
  refine ⟨same.set_eq, ?_⟩
  rcases w.step_score_cases cfg action with
    ⟨measures, -, -⟩ | ⟨env, isHousekeeping, -, -⟩
  · obtain ⟨added, history, notReport, -⟩ := measures.history
    refine placed.append (same.myRemote_eq ▸ placed.remote) history
      (not_migrated_of_quiet ?_)
    intro observation member
    exact Observation.not_isMigration_of_not_isReport
      (notReport observation member)
  · exact absurd isHousekeeping (other env)

/-- A worker that adopts a set of known addresses stays among them. -/
theorem wellPlaced_housekeeping
    {w : Worker}
    (placed : WellPlaced known w)
    {cfg : WorkerConfig}
    {env : HousekeepingEnv}
    (running : w.returned = false)
    (weights : ∀ weight ∈ (w.rt.adopt cfg env.now env.published).set.weights,
      1 ≤ weight)
    (addrs : ∀ ip ∈ (w.rt.adopt cfg env.now env.published).set.addrs,
      known ip) :
    (w.step cfg (.housekeeping env)).rt.set =
        (w.rt.adopt cfg env.now env.published).set ∧
      WellPlaced known (w.step cfg (.housekeeping env)) := by
  have step : w.step cfg (.housekeeping env) = w.housekeeping cfg env := by
    simp [Worker.step, running]
  have adopting : (w.adopting cfg env).rt.myRemote = w.rt.myRemote := by
    rw [Worker.adopting]
    unfold Runtime.adopt
    split
    · rfl
    · split <;> rfl
  rw [step]
  rcases w.housekeeping_cases cfg env with
    ⟨added, stays⟩ | ⟨added, target, leaves⟩
  · refine ⟨stays.placement.set_eq, ?_⟩
    refine placed.append ?_ stays.history (not_migrated_of_quiet stays.quiet)
    rw [stays.placement.myRemote_eq, adopting]
    exact placed.remote
  · have isKnown : known target :=
      addrs target (improves_migrationTarget weights leaves.chosen).listed
    refine ⟨leaves.set, ?_⟩
    refine placed.append (leaves.arrived.symm ▸ isKnown) leaves.history ?_
    intro now other moved
    rcases List.mem_append.mp moved with before | last
    · exact not_migrated_of_quiet leaves.quiet now other before
    · cases List.mem_singleton.mp last
      exact isKnown

end Placement

section Safety

variable {cfg : FleetConfig} {resolved : List IpAddr}

/-- A worker uses the set of its last read and a known address. -/
structure WorkerSound
    (known : IpAddr → Prop)
    (page : ResolveSystem Nat)
    (id : Nat)
    (w : Worker) : Prop where
  set : ∃ number call,
    page.committed[number]? = some call ∧
      (page.readers id).lastCount = number + 1 ∧
      w.rt.set = call.upstreamSet (number + 1)
  placed : WellPlaced known w

/-- What holds in every state of the fleet: the page has the supervisor's
publishes, and each worker uses the set of its last read. -/
structure FleetSound
    (cfg : FleetConfig)
    (resolved : List IpAddr)
    (s : Fleet) : Prop where
  loop : GoodLoop cfg.loop resolved s.loop
  page : Seqlock.Invariant resolveProtocol zeroPage s.page
  intact : Intact s.page
  calls : begun s.page = s.loop.publishes.map Prod.snd
  workers : ∀ id wcfg w, s.processes id = some (.running wcfg w) →
    WorkerSound (Learned cfg.loop.dns.parse resolved s.loop.received) s.page id w

/-- A worker's invariant survives further commits and further known addresses.
-/
theorem WorkerSound.mono
    {known later : IpAddr → Prop}
    {page after : ResolveSystem Nat}
    {id : Nat}
    {w : Worker}
    (sound : WorkerSound known page id w)
    (implies : ∀ ip, known ip → later ip)
    {more : List Publish}
    (committed : after.committed = page.committed ++ more)
    (lastCount :
      (after.readers id).lastCount = (page.readers id).lastCount) :
    WorkerSound later after id w where
  set := by
    obtain ⟨number, call, isCall, count, set⟩ := sound.set
    refine ⟨number, call, ?_, lastCount.trans count, set⟩
    rw [committed, List.getElem?_append_left, isCall]
    exact (List.getElem?_eq_some_iff.mp isCall).1
  placed := sound.placed.mono implies

/-- A publish that was completed is one of the supervisor's. -/
theorem FleetSound.published
    {s : Fleet}
    (sound : FleetSound cfg resolved s)
    {number : Nat}
    {call : Publish}
    (committed : s.page.committed[number]? = some call) :
    ∃ publish, s.loop.publishes[number]? = some publish ∧
      publish.2 = call := by
  have both : (begun s.page)[number]? = some call := by
    rw [begun, List.getElem?_append_left, committed]
    exact (List.getElem?_eq_some_iff.mp committed).1
  rw [sound.calls, List.getElem?_map, Option.map_eq_some_iff] at both
  exact both

/-- Every committed publication of a sound fleet is a good one. -/
theorem FleetSound.good
    {s : Fleet}
    (sound : FleetSound cfg resolved s)
    {number : Nat}
    {call : Publish}
    (committed : s.page.committed[number]? = some call) :
    GoodPublish cfg.loop
      (Learned cfg.loop.dns.parse resolved s.loop.received) call := by
  obtain ⟨publish, member, rfl⟩ := sound.published committed
  exact sound.loop.publishes publish (List.mem_of_getElem? member)

/-- No more publications are committed than begun. -/
theorem length_committed_le (page : ResolveSystem Nat) :
    page.committed.length ≤ (begun page).length := by
  rw [begun, List.length_append]
  exact Nat.le_add_right _ _

/-- What the supervisor has received is never forgotten. -/
theorem received_turn
    (cfg : LoopConfig)
    (loop : SupervisorLoop)
    (turn : LoopTurn) :
    ∃ more, (loop.turn cfg turn).received = loop.received ++ more := by
  have keeps
      {before after : SupervisorLoop}
      (step : LoopStep cfg turn before after)
      (kept : ∃ more, before.received = loop.received ++ more) :
      ∃ more, after.received = loop.received ++ more := by
    obtain ⟨more, received⟩ := kept
    cases step with
    | answered pending =>
        exact ⟨more ++ turn.datagrams, by rw [← List.append_assoc, ← received]⟩
    | reads pending =>
        exact ⟨more ++ turn.datagrams, by rw [← List.append_assoc, ← received]⟩
    | _ =>
        exact ⟨more, received⟩
  exact invariant_turn keeps ⟨[], (List.append_nil _).symm⟩

/-- A turn of the supervisor keeps the fleet sound. -/
theorem fleetSound_turn
    {s : Fleet}
    (sound : FleetSound cfg resolved s)
    (turn : LoopTurn) :
    FleetSound cfg resolved (s.turn cfg turn) := by
  unfold Fleet.turn
  split
  next idle =>
    have loop : GoodLoop cfg.loop resolved (s.loop.turn cfg.loop turn) :=
      invariant_turn goodLoop_step sound.loop
    obtain ⟨more, received⟩ := received_turn cfg.loop s.loop turn
    have learned (ip : IpAddr)
        (known : Learned cfg.loop.dns.parse resolved s.loop.received ip) :
        Learned cfg.loop.dns.parse resolved
          (s.loop.turn cfg.loop turn).received ip :=
      received ▸ known.append more
    rcases publishes_turn cfg.loop s.loop turn with same | ⟨call, publishes⟩
    · simp only [same, List.drop_length]
      exact
        { loop := loop
          page := sound.page
          intact := sound.intact
          calls := by rw [same]; exact sound.calls
          workers := fun id wcfg w running =>
            (sound.workers id wcfg w running).mono learned
              (List.append_nil _).symm rfl }
    · simp only [publishes, List.drop_left]
      refine
        { loop := loop
          page := begin_invariant sound.page call.2
          intact := step_intact sound.page sound.intact (by simp)
          calls := ?_
          workers := ?_ }
      · rw [begun_begin idle, sound.calls, publishes, List.map_append]
        rfl
      · intro id wcfg w running
        have committed :
            (s.page.step resolveProtocol (.begin call.2)).1.committed =
              s.page.committed ++ [] := by
          simp [System.step, idle]
        refine (sound.workers id wcfg w running).mono learned committed ?_
        simp [System.step, idle]
  next =>
    exact sound

theorem fleetSound_write
    {s : Fleet}
    (sound : FleetSound cfg resolved s) :
    FleetSound cfg resolved (s.step cfg .write) := by
  have entry := evenEntry_of_intact sound.page sound.intact .write
  obtain ⟨more, committed⟩ :=
    @step_committed _ _ _ _ _ _ resolveProtocol s.page _ .write
  have readers :
      (s.page.step resolveProtocol .write).1.readers = s.page.readers := by
    simp only [System.step, System.writeStep]
    split <;> rfl
  exact
    { loop := sound.loop
      page := write_invariant sound.page entry
      intact := step_intact sound.page sound.intact (by simp)
      calls := (begun_write s.page).trans sound.calls
      workers := fun id wcfg w running =>
        (sound.workers id wcfg w running).mono (fun _ known => known) committed
          (by rw [Fleet.step, readers]) }

/-- Processes that do not run and workers that are sound may be put in. -/
theorem fleetSound_setProcess
    {s : Fleet}
    (sound : FleetSound cfg resolved s)
    {id : Nat}
    {process : Option Process}
    (isSound : ∀ wcfg w, process = some (.running wcfg w) →
      WorkerSound (Learned cfg.loop.dns.parse resolved s.loop.received) s.page
        id w) :
    FleetSound cfg resolved (s.setProcess id process) where
  loop := sound.loop
  page := sound.page
  intact := sound.intact
  calls := sound.calls
  workers := by
    intro other wcfg w running
    simp only [Fleet.setProcess, Function.update_apply] at running
    split at running
    next same =>
      subst same
      exact isSound wcfg w running
    next =>
      exact sound.workers other wcfg w running

theorem fleetSound_act
    {s : Fleet}
    (sound : FleetSound cfg resolved s)
    (id : Nat)
    (action : Action) :
    FleetSound cfg resolved (s.act id action) := by
  unfold Fleet.act
  split
  next wcfg w running =>
    split
    · exact sound
    · split
      · exact sound
      next other =>
        refine fleetSound_setProcess sound ?_
        intro wcfg' w' same
        cases same
        have before := sound.workers id wcfg w running
        obtain ⟨set, placed⟩ := wellPlaced_act before.placed wcfg other
        exact ⟨set ▸ before.set, placed⟩
  · exact sound

/-- A load ends no read, or the one of its reader. -/
theorem readStep_outputs
    (page : ResolveSystem Nat)
    (id : Nat) :
    (page.step resolveProtocol (.read id)).2 = [] ∨
      ∃ result, (page.step resolveProtocol (.read id)).2 = [(id, result)] := by
  simp only [System.step, System.readStep]
  split
  · split
    · exact .inr ⟨_, rfl⟩
    · exact .inl rfl
  · exact .inl rfl
  · split
    · exact .inr ⟨_, rfl⟩
    · split
      · exact .inr ⟨_, rfl⟩
      · exact .inr ⟨_, rfl⟩

/-- What a load of a process comes to. -/
inductive ReadStep (s : Fleet) (id : Nat) (env : HousekeepingEnv) : Fleet → Prop
  | idle
      (ended : ∀ process, s.processes id = some process →
        process.returned = true) :
      ReadStep s id env s
  | goesOn
      {process : Process}
      (isProcess : s.processes id = some process)
      (notReturned : process.returned = false)
      (silent : (s.page.step resolveProtocol (.read id)).2 = []) :
      ReadStep s id env
        { s with page := (s.page.step resolveProtocol (.read id)).1 }
  | ends
      {process : Process}
      {result : Option UpstreamSet}
      (isProcess : s.processes id = some process)
      (notReturned : process.returned = false)
      (output : (s.page.step resolveProtocol (.read id)).2 = [(id, result)]) :
      ReadStep s id env
        ({ s with
          page := (s.page.step resolveProtocol (.read id)).1 }.setProcess id
            (process.receive env result))

/-- Housekeeping of a process either ends its read or leaves it under way. -/
theorem readStep_read (s : Fleet) (id : Nat) (env : HousekeepingEnv) :
    ReadStep s id env (s.read id env) := by
  unfold Fleet.read
  split
  next none =>
    exact .idle fun process isProcess => absurd (none.symm.trans isProcess)
      (Option.some_ne_none process).symm
  next process isProcess =>
    split
    next returned =>
      refine .idle ?_
      intro other isOther
      cases isProcess.symm.trans isOther
      exact returned
    next notReturned =>
      rw [Bool.not_eq_true] at notReturned
      rcases readStep_outputs s.page id with silent | ⟨result, output⟩
      · split
        next stepped =>
          have step : ReadStep s id env _ :=
            .goesOn isProcess notReturned silent
          rw [stepped] at step
          exact step
        next stepped =>
          rw [stepped] at silent
          cases silent
      · split
        next stepped =>
          rw [stepped] at output
          cases output
        next stepped =>
          have step : ReadStep s id env _ :=
            .ends isProcess notReturned output
          rw [stepped] at step output
          cases output
          exact step

/-- What a load does to the page and the other readers: nothing. -/
theorem readStep_others
    (page : ResolveSystem Nat)
    (id : Nat) :
    (page.step resolveProtocol (.read id)).1.committed = page.committed ∧
      ∀ other, other ≠ id →
        (page.step resolveProtocol (.read id)).1.readers other =
          page.readers other := by
  obtain ⟨state, frame⟩ :=
    @readStep_frame _ _ _ _ _ resolveProtocol _ page id
  rw [System.step, frame]
  refine ⟨rfl, ?_⟩
  intro other differs
  exact Function.update_of_ne differs _ _

/-- The counter has not come round. -/
theorem FleetSound.close
    {s : Fleet}
    (sound : FleetSound cfg resolved s)
    (few : s.loop.publishes.length < 2 ^ 31)
    (id : Nat) :
    LoadsClose s.page (.read id : Seqlock.Action Publish Nat) := by
  have committed := length_committed_le s.page
  rw [sound.calls, List.length_map] at committed
  unfold LoadsClose
  dsimp only
  split
  · trivial
  · omega
  · trivial

/-- A read that returns nothing leaves its reader where it was. -/
theorem FleetSound.silent
    {s : Fleet}
    (sound : FleetSound cfg resolved s)
    (few : s.loop.publishes.length < 2 ^ 31)
    {id : Nat}
    (silent :
      resultsOf id (s.page.step resolveProtocol (.read id)).2 = []) :
    ((s.page.step resolveProtocol (.read id)).1.readers id).lastCount =
      (s.page.readers id).lastCount := by
  rcases step_returned sound.page (sound.close few id) id with
    ⟨-, same⟩ | ⟨result, returned, -⟩
  · exact same
  · rw [silent] at returned
    cases returned

/-- The result of a read is the last publish that was completed. -/
theorem FleetSound.result
    {s : Fleet}
    (sound : FleetSound cfg resolved s)
    (few : s.loop.publishes.length < 2 ^ 31)
    {id : Nat}
    {set : UpstreamSet}
    (output :
      (s.page.step resolveProtocol (.read id)).2 = [(id, some set)]) :
    ∃ number call,
      s.page.committed[number]? = some call ∧
        ((s.page.step resolveProtocol (.read id)).1.readers id).lastCount =
          number + 1 ∧
        set = call.upstreamSet (number + 1) := by
  have returned :
      resultsOf id (s.page.step resolveProtocol (.read id)).2 = [set] := by
    simp [output, resultsOf]
  rcases step_returned sound.page (sound.close few id) id with
    ⟨silent, -⟩ | ⟨result, isResult, known⟩
  · rw [returned] at silent
    cases silent
  · rw [returned] at isResult
    cases isResult
    have fresh := known.fresh
    have last : s.page.committed.length - 1 < s.page.committed.length := by
      omega
    have next :
        s.page.committed.length - 1 + 1 = s.page.committed.length := by
      omega
    have read := run_image_take last
    rw [next, List.take_length] at read
    refine ⟨s.page.committed.length - 1, _, List.getElem?_eq_getElem last, ?_,
      ?_⟩
    · rw [next]
      exact known.remembered rfl
    · rw [next]
      exact known.result.trans read

/-- A set that was completely published is one a worker can live on. -/
theorem FleetSound.usableSet
    {s : Fleet}
    (sound : FleetSound cfg resolved s)
    {number : Nat}
    {call : Publish}
    (committed : s.page.committed[number]? = some call) :
    UsableSet cfg.loop
      (Learned cfg.loop.dns.parse resolved s.loop.received)
      (call.upstreamSet (number + 1)) :=
  (sound.good committed).usableSet (number + 1)

/-- A worker starts at an address of its set. -/
theorem wellPlaced_start
    {known : IpAddr → Prop}
    {loop : LoopConfig}
    {set : UpstreamSet}
    (usable : UsableSet loop known set)
    (cfg : WorkerConfig)
    (now : Instant)
    (has0rtt zeroRttOffered : Bool) :
    WellPlaced known (Worker.start cfg set now has0rtt zeroRttOffered) where
  remote := by
    obtain ⟨slot, addr, isSlot, isAddr⟩ := usable.slots cfg.childIdx
    have remote :
        (Worker.start cfg set now has0rtt zeroRttOffered).rt.myRemote.ip =
          addr := by
      simp [Worker.start, Runtime.new, isSlot, List.getD, isAddr]
    exact remote ▸ usable.known addr (List.mem_of_getElem? isAddr)
  moves := by
    intro now target moved
    exact absurd moved List.not_mem_nil

/-- What a sound fleet knows of a worker that does nothing in a load. -/
theorem FleetSound.workers_read
    {s : Fleet}
    (sound : FleetSound cfg resolved s)
    (few : s.loop.publishes.length < 2 ^ 31)
    {id other : Nat}
    (unread :
      other ≠ id ∨
        resultsOf id (s.page.step resolveProtocol (.read id)).2 = [])
    {wcfg : WorkerConfig}
    {w : Worker}
    (running : s.processes other = some (.running wcfg w)) :
    WorkerSound (Learned cfg.loop.dns.parse resolved s.loop.received)
      (s.page.step resolveProtocol (.read id)).1 other w := by
  obtain ⟨committed, others⟩ := readStep_others s.page id
  refine (sound.workers other wcfg w running).mono (fun _ known => known)
    (committed.trans (List.append_nil _).symm) ?_
  by_cases same : other = id
  · subst same
    rcases unread with differs | silent
    · exact absurd rfl differs
    · exact sound.silent few silent
  · rw [others other same]

/-- After a load the fleet is sound if the process of the reader is. -/
theorem fleetSound_load
    {s : Fleet}
    (sound : FleetSound cfg resolved s)
    (few : s.loop.publishes.length < 2 ^ 31)
    {id : Nat}
    {process : Option Process}
    (own : ∀ wcfg w, process = some (.running wcfg w) →
      WorkerSound (Learned cfg.loop.dns.parse resolved s.loop.received)
        (s.page.step resolveProtocol (.read id)).1 id w) :
    FleetSound cfg resolved
      ({ s with
        page := (s.page.step resolveProtocol (.read id)).1 }.setProcess id
          process) where
  loop := sound.loop
  page := read_invariant sound.page id
  intact := step_intact sound.page sound.intact (by simp)
  calls := (begun_read s.page id).trans sound.calls
  workers := by
    intro other wcfg w running
    simp only [Fleet.setProcess, Function.update_apply] at running
    split at running
    next same =>
      subst same
      exact own wcfg w running
    next differs =>
      exact sound.workers_read few (.inl differs) running

/-- A worker that a read starts. -/
theorem workerSound_start
    {s : Fleet}
    (sound : FleetSound cfg resolved s)
    (few : s.loop.publishes.length < 2 ^ 31)
    {id : Nat}
    {set : UpstreamSet}
    (output :
      (s.page.step resolveProtocol (.read id)).2 = [(id, some set)])
    (wcfg : WorkerConfig)
    (now : Instant)
    (has0rtt zeroRttOffered : Bool) :
    WorkerSound (Learned cfg.loop.dns.parse resolved s.loop.received)
      (s.page.step resolveProtocol (.read id)).1 id
      (Worker.start wcfg set now has0rtt zeroRttOffered) := by
  obtain ⟨number, call, isCall, count, rfl⟩ := sound.result few output
  have committed := (readStep_others s.page id).1
  exact
    { set := ⟨number, call, committed.symm ▸ isCall, count, rfl⟩
      placed := wellPlaced_start (sound.usableSet isCall) wcfg now has0rtt
        zeroRttOffered }

/-- A worker that does its housekeeping with what it has read. -/
theorem workerSound_housekeeping
    {s : Fleet}
    (sound : FleetSound cfg resolved s)
    (few : s.loop.publishes.length < 2 ^ 31)
    {id : Nat}
    {result : Option UpstreamSet}
    (output :
      (s.page.step resolveProtocol (.read id)).2 = [(id, result)])
    {wcfg : WorkerConfig}
    {w : Worker}
    (running : s.processes id = some (.running wcfg w))
    (notReturned : w.returned = false)
    (env : HousekeepingEnv) :
    WorkerSound (Learned cfg.loop.dns.parse resolved s.loop.received)
      (s.page.step resolveProtocol (.read id)).1 id
      (w.step wcfg (.housekeeping { env with published := result })) := by
  have before := sound.workers id wcfg w running
  have committed := (readStep_others s.page id).1
  -- the set after the call, with the publish that it comes from
  obtain ⟨number, call, isCall, count, set⟩ :
      ∃ number call,
        s.page.committed[number]? = some call ∧
          ((s.page.step resolveProtocol (.read id)).1.readers id).lastCount =
            number + 1 ∧
          (w.rt.adopt wcfg env.now result).set =
            call.upstreamSet (number + 1) := by
    cases result with
    | none =>
        obtain ⟨number, call, isCall, count, set⟩ := before.set
        have silent :
            resultsOf id (s.page.step resolveProtocol (.read id)).2 = [] := by
          simp [output, resultsOf]
        exact ⟨number, call, isCall, (sound.silent few silent).trans count, set⟩
    | some set =>
        obtain ⟨number, call, isCall, count, rfl⟩ := sound.result few output
        refine ⟨number, call, isCall, count, ?_⟩
        obtain ⟨slot, addr, -, isAddr⟩ := (sound.usableSet isCall).slots 0
        have nonempty : (call.upstreamSet (number + 1)).addrs ≠ [] :=
          List.ne_nil_of_mem (List.mem_of_getElem? isAddr)
        simp only [Runtime.adopt, if_neg nonempty]
  have usable := sound.usableSet isCall
  rw [← set] at usable
  have after :
      (w.step wcfg (.housekeeping { env with published := result })).rt.set =
          (w.rt.adopt wcfg env.now result).set ∧
        WellPlaced (Learned cfg.loop.dns.parse resolved s.loop.received)
          (w.step wcfg (.housekeeping { env with published := result })) :=
    wellPlaced_housekeeping before.placed notReturned usable.positive
      usable.known
  exact
    { set :=
        ⟨number, call, committed.symm ▸ isCall, count, after.1.trans set⟩
      placed := after.2 }

/-- A load from the page keeps the fleet sound. -/
theorem fleetSound_read
    {s next : Fleet}
    {id : Nat}
    {env : HousekeepingEnv}
    (step : ReadStep s id env next)
    (sound : FleetSound cfg resolved s)
    (few : s.loop.publishes.length < 2 ^ 31) :
    FleetSound cfg resolved next := by
  cases step with
  | idle ended =>
      exact sound
  | goesOn isProcess notReturned silent =>
      have own := fleetSound_load sound few
        fun wcfg w running => sound.workers_read few
          (.inr (by rw [silent]; rfl)) running
      rwa [Fleet.setProcess, Function.update_eq_self] at own
  | @ends process result isProcess notReturned output =>
      refine fleetSound_load sound few ?_
      intro wcfg w isRunning
      cases process with
      | starting cfg =>
          cases result with
          | none =>
              simp [Process.receive] at isRunning
          | some set =>
              simp only [Process.receive] at isRunning
              split at isRunning
              · cases isRunning
              · split at isRunning
                · cases isRunning
                  exact workerSound_start sound few output _ _ _ _
                · cases isRunning
      | running cfg worker =>
          cases isRunning
          exact workerSound_housekeeping sound few output isProcess notReturned
            env

/-- Every action keeps the fleet sound while fewer than 2^31 publications were
made. -/
theorem fleetSound_step
    {s : Fleet}
    (sound : FleetSound cfg resolved s)
    (few : s.loop.publishes.length < 2 ^ 31)
    (action : FleetAction) :
    FleetSound cfg resolved (s.step cfg action) := by
  cases action with
  | turn turn =>
      exact fleetSound_turn sound turn
  | write =>
      exact fleetSound_write sound
  | spawn childIdx =>
      have started :
          FleetSound cfg resolved { s with spawned := s.spawned + 1 } :=
        { sound with }
      exact fleetSound_setProcess started fun wcfg w running => by cases running
  | read id env =>
      exact fleetSound_read (readStep_read s id env) sound few
  | act id action =>
      exact fleetSound_act sound id action
  | exit id =>
      exact fleetSound_setProcess sound fun wcfg w running => by cases running

/-- No step takes a publish back. -/
theorem length_publishes_step (s : Fleet) (action : FleetAction) :
    s.loop.publishes.length ≤ (s.step cfg action).loop.publishes.length := by
  cases action with
  | turn turn =>
      simp only [Fleet.step, Fleet.turn]
      split
      · rcases publishes_turn cfg.loop s.loop turn with same | ⟨call, publishes⟩
        · rw [same]
        · rw [publishes, List.length_append]
          exact Nat.le_add_right _ _
      · exact Nat.le_refl _
  | write =>
      exact Nat.le_refl _
  | spawn childIdx =>
      exact Nat.le_refl _
  | read id env =>
      have step := readStep_read s id env
      simp only [Fleet.step]
      generalize s.read id env = next at step ⊢
      cases step <;> exact Nat.le_refl _
  | act id action =>
      simp only [Fleet.step, Fleet.act]
      split
      · split
        · exact Nat.le_refl _
        · split <;> exact Nat.le_refl _
      · exact Nat.le_refl _
  | exit id =>
      exact Nat.le_refl _

/-- Every run keeps the fleet sound while fewer than 2^31 publications were
made. -/
theorem fleetSound_run
    {s : Fleet}
    (sound : FleetSound cfg resolved s)
    {actions : List FleetAction}
    (few : (s.run cfg actions).loop.publishes.length < 2 ^ 31) :
    FleetSound cfg resolved (s.run cfg actions) := by
  induction actions using List.reverseRecOn with
  | nil =>
      exact sound
  | append_singleton earlier last inductionHypothesis =>
      rw [Fleet.run, List.foldl_append, List.foldl_cons, List.foldl_nil] at few ⊢
      have fewEarlier :=
        Nat.lt_of_le_of_lt (@length_publishes_step cfg _ last) few
      exact fleetSound_step (inductionHypothesis fewEarlier) fewEarlier last

variable
  {state : ResolveState}
  {remotes : List SocketAddr}

theorem intact_new : Intact (ResolveSystem.new Nat) := by
  intro odd
  have even : ¬ (0 : UInt32) % 2 = 1 := by
    decide
  exact absurd odd even

/-- Without kills a page stays intact. -/
theorem run_intact
    {page : ResolveSystem Nat}
    (invariant : Seqlock.Invariant resolveProtocol zeroPage page)
    (intact : Intact page)
    {actions : List (Seqlock.Action Publish Nat)}
    (noKill : .kill ∉ actions) :
    Seqlock.Invariant resolveProtocol zeroPage
        (page.run resolveProtocol actions).1 ∧
      Intact (page.run resolveProtocol actions).1 := by
  induction actions generalizing page with
  | nil =>
      exact ⟨invariant, intact⟩
  | cons action rest inductionHypothesis =>
      rw [List.mem_cons, not_or] at noKill
      have entry := evenEntry_of_intact invariant intact action
      exact inductionHypothesis (step_invariant invariant entry)
        (step_intact invariant intact (Ne.symm noKill.1)) noKill.2

/-- The rest of a write, if nobody else makes a step. -/
theorem run_writing
    {page : ResolveSystem Nat}
    {old : UInt32}
    {call : Publish}
    {remaining : List (Store ResolveField.Word)}
    (writer : page.writer = .writing old call remaining) :
    let after :=
      (page.run resolveProtocol
        (List.replicate (remaining.length + 1) .write)).1
    after.writer = .idle ∧ after.committed = page.committed ++ [call] := by
  induction remaining generalizing page with
  | nil =>
      simp [System.run, System.step, System.writeStep, writer]
  | cons store rest inductionHypothesis =>
      have stored := @inductionHypothesis
        { page with
          memory := store.apply page.memory
          writer := .writing old call rest } rfl
      rw [List.length_cons, List.replicate_succ, System.run]
      simp only [System.step, System.writeStep, writer]
      exact stored

/-- The first publish is complete before any process is started. -/
theorem fleetSound_start
    {loop : SupervisorLoop}
    (good : GoodLoop cfg.loop resolved loop)
    {call : Instant × Publish}
    (first : loop.publishes = [call]) :
    FleetSound cfg resolved (Fleet.start loop) ∧
      (Fleet.start loop).page.writer = .idle := by
  have page :
      (Fleet.start loop).page =
        ((ResolveSystem.new Nat).run resolveProtocol
          (.begin call.2 ::
            List.replicate (call.2.stores.length + 2) .write)).1 := by
    simp only [Fleet.start, first]
  have written :
      (Fleet.start loop).page.writer = .idle ∧
        (Fleet.start loop).page.committed = [] ++ [call.2] := by
    rw [page, List.replicate_succ]
    exact run_writing rfl
  have noKill :
      (.kill : Seqlock.Action Publish Nat) ∉
        .begin call.2 :: List.replicate (call.2.stores.length + 2) .write := by
    simp
  have kept := run_intact invariant_new intact_new noKill
  rw [ResolveSystem.new] at page
  rw [← page] at kept
  refine ⟨?_, written.1⟩
  exact
    { loop := good
      page := kept.1
      intact := kept.2
      calls := by
        have shown : (Fleet.start loop).loop.publishes = [call] := first
        rw [begun, written.1, written.2, shown]
        rfl
      workers := fun id wcfg w running => by cases running }

/--
In every run of the fleet each worker uses a set that the supervisor has
published, whole, with an address for every worker, and neither starts at nor
moves to an address that the startup or a reply has not named.
-/
theorem wellPlaced_run
    {state : ResolveState}
    {remotes : List SocketAddr}
    {literal : Option IpAddr}
    {exchanges : QType → Exchange}
    {port : UInt16}
    {resolveNow : Instant}
    (startup :
      resolveUpstream cfg.loop.dns cfg.loop.host literal exchanges port
          resolveNow =
        .ok (state, remotes))
    (supervisor : Supervisor)
    (publishNow now : Instant)
    (monoNowSecs monoNowSecsLater : UInt64)
    (actions : List FleetAction)
    (s : Fleet)
    (reached :
      s =
        (Fleet.start
          (SupervisorLoop.start cfg.loop supervisor state remotes publishNow now
            monoNowSecs monoNowSecsLater)).run cfg actions)
    (few : s.loop.publishes.length < 2 ^ 31) :
    let known :=
      Learned cfg.loop.dns.parse (remotes.map (·.ip)) s.loop.received
    ∀ id wcfg w, s.processes id = some (.running wcfg w) →
      (∃ (number : Nat) (publish : Instant × Publish),
        s.loop.publishes[number]? = some publish ∧
          w.rt.set = publish.2.upstreamSet (number + 1)) ∧
        UsableSet cfg.loop known w.rt.set ∧
        known w.rt.myRemote.ip ∧
        ∀ now target, .migrated now target ∈ w.history → known target := by
  subst reached
  intro known id wcfg w running
  have sound :=
    fleetSound_run
      (fleetSound_start (goodLoop_start (remotes_ne_nil startup)) rfl).1 few
  have workerSound := sound.workers id wcfg w running
  obtain ⟨number, call, committed, -, set⟩ := workerSound.set
  obtain ⟨publish, published, rfl⟩ := sound.published committed
  exact ⟨⟨number, publish, published, set⟩, set ▸ sound.usableSet committed,
    workerSound.placed.remote, workerSound.placed.moves⟩

/-- The worker of the run below, on the fleet whose upstream is a literal
address. -/
def literalFleet : FleetConfig where
  loop := literalLoop
  worker :=
    { upstream := { port := 443, path := [], authority := [] }
      token := none
      timeout := 0
      pad := false
      childIdx := 0 }

/-- Every connection comes about. -/
def overtakenEnv : HousekeepingEnv where
  now := fromSecs 3
  monoSecs := 3
  published := none
  connect := ⟨true, false, true, false, true⟩

/-- A worker starts, and reads again while the supervisor publishes. -/
def overtakenWorker : List FleetAction :=
  [.spawn 1] ++ List.replicate 9 (.read 0 overtakenEnv) ++
    [.turn scoredTurn, .write, .read 0 overtakenEnv] ++
    List.replicate 30 .write ++ List.replicate 9 (.read 0 overtakenEnv)

theorem wellPlaced_run_overtakenWorker :
    let s :=
      (Fleet.start
        (SupervisorLoop.start literalLoop Supervisor.initial
          { addrs := [.v4 192 0 2 1], expiresAt := fromSecs (86400 * 365) }
          [{ ip := .v4 192 0 2 1, port := 443 }] 0 0 10 10)).run literalFleet
        overtakenWorker
    let known := Learned literalLoop.dns.parse [.v4 192 0 2 1] s.loop.received
    ((s.processes 0).any fun process =>
        match process with
        | .starting _ => false
        | .running _ w => w.rt.set.revision == 2) ∧
      ∀ id wcfg w, s.processes id = some (.running wcfg w) →
        (∃ (number : Nat) (publish : Instant × Publish),
          s.loop.publishes[number]? = some publish ∧
            w.rt.set = publish.2.upstreamSet (number + 1)) ∧
          UsableSet literalLoop known w.rt.set ∧
          known w.rt.myRemote.ip ∧
          ∀ now target, .migrated now target ∈ w.history → known target := by
  intro s known
  refine ⟨by decide +kernel, ?_⟩
  have startup :
      resolveUpstream literalLoop.dns literalLoop.host (some (.v4 192 0 2 1))
          (fun _ => { clock := 0, socket := .ok (), rounds := [] }) 443 0 =
        .ok
          ({ addrs := [.v4 192 0 2 1], expiresAt := fromSecs (86400 * 365) },
            [{ ip := .v4 192 0 2 1, port := 443 }]) := by
    decide +kernel
  have few : s.loop.publishes.length < 2 ^ 31 := by
    have two : s.loop.publishes.length = 2 := by
      decide +kernel
    omega
  exact
    @wellPlaced_run literalFleet _ _ _ _ _ _ startup Supervisor.initial 0 0 10 10
      overtakenWorker s rfl few

end Safety

end DnsServices.Microdoh3
