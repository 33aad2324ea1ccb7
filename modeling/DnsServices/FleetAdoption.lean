import DnsServices.Fleet

namespace DnsServices.Microdoh3

open Bootstrap Seqlock Shared

/-!
# Workers take up what was published last

While the supervisor publishes nothing the page stays as it is, and every load
of a worker brings it closer to the set of the last publish, whatever the other
parties do in between.
-/

section Quiet

variable {cfg : FleetConfig} {resolved : List IpAddr} {s : Fleet} {id : Nat}

/-- The action is a load of a process. -/
def FleetAction.loads (id : Nat) : FleetAction → Bool
  | .read other _ => other == id
  | _ => false

/-- A process whose event loop has not ended. -/
def Alive (s : Fleet) (id : Nat) : Prop :=
  ∃ process, s.processes id = some process ∧ process.returned = false

/-- The same page; the readers may have gone on. -/
structure SamePage (before after : ResolveSystem Nat) : Prop where
  seq : after.seq = before.seq
  memory : after.memory = before.memory
  writer : after.writer = before.writer
  committed : after.committed = before.committed

/-- The page is the same across two steps that leave it. -/
theorem SamePage.trans
    {first second third : ResolveSystem Nat}
    (earlier : SamePage first second)
    (later : SamePage second third) :
    SamePage first third where
  seq := later.seq.trans earlier.seq
  memory := later.memory.trans earlier.memory
  writer := later.writer.trans earlier.writer
  committed := later.committed.trans earlier.committed

theorem samePage_read (page : ResolveSystem Nat) (id : Nat) :
    SamePage page (page.step resolveProtocol (.read id)).1 := by
  obtain ⟨state, frame⟩ :=
    @readStep_frame _ _ _ _ _ resolveProtocol _ page id
  rw [System.step, frame]
  exact ⟨rfl, rfl, rfl, rfl⟩

/-- A reader that makes no load lags behind as before. -/
theorem SamePage.lag_eq
    {before after : ResolveSystem Nat}
    (same : SamePage before after)
    (reader : after.readers id = before.readers id) :
    lag resolveProtocol after id = lag resolveProtocol before id := by
  simp only [lag, same.seq, same.memory, reader]

/-- Without a publish nothing but the loads changes the page. -/
theorem quiet_step
    (idle : s.page.writer = .idle)
    {action : FleetAction}
    (quiet :
      (s.step cfg action).loop.publishes.length = s.loop.publishes.length) :
    SamePage s.page (s.step cfg action).page ∧
      (action.loads id = false →
        (s.step cfg action).page.readers id = s.page.readers id) := by
  cases action with
  | turn turn =>
      simp only [Fleet.step, Fleet.turn, idle] at quiet ⊢
      rcases publishes_turn cfg.loop s.loop turn with same | ⟨call, publishes⟩
      · simp only [same, List.drop_length]
        exact ⟨⟨rfl, rfl, rfl, rfl⟩, fun _ => trivial⟩
      · rw [publishes, List.length_append, List.length_singleton] at quiet
        omega
  | write =>
      simp only [Fleet.step, System.step, System.writeStep, idle]
      exact ⟨⟨rfl, rfl, rfl, rfl⟩, fun _ => trivial⟩
  | spawn childIdx =>
      exact ⟨⟨rfl, rfl, rfl, rfl⟩, fun _ => rfl⟩
  | read other env =>
      have step := readStep_read s other env
      have others :
          FleetAction.loads id (.read other env) = false →
            (s.page.step resolveProtocol (.read other)).1.readers id =
              s.page.readers id := by
        intro notId
        refine (readStep_others s.page other).2 id ?_
        rintro rfl
        simp [FleetAction.loads] at notId
      simp only [Fleet.step]
      generalize s.read other env = next at step ⊢
      cases step with
      | idle ended =>
          exact ⟨⟨rfl, rfl, rfl, rfl⟩, fun _ => rfl⟩
      | goesOn isProcess notReturned silent =>
          exact ⟨samePage_read s.page other, others⟩
      | ends isProcess notReturned output =>
          exact ⟨samePage_read s.page other, others⟩
  | act other action =>
      simp only [Fleet.step, Fleet.act]
      split
      · split
        · exact ⟨⟨rfl, rfl, rfl, rfl⟩, fun _ => rfl⟩
        · split <;> exact ⟨⟨rfl, rfl, rfl, rfl⟩, fun _ => rfl⟩
      · exact ⟨⟨rfl, rfl, rfl, rfl⟩, fun _ => rfl⟩
  | exit other =>
      exact ⟨⟨rfl, rfl, rfl, rfl⟩, fun _ => rfl⟩

/-- Alive after being set means set to a process that has not returned. -/
theorem alive_setProcess_self
    {process : Option Process}
    (alive : Alive (s.setProcess id process) id) :
    ∃ found, process = some found ∧ found.returned = false := by
  simpa [Alive, Fleet.setProcess] using alive

/-- Setting one process says nothing of another. -/
theorem alive_setProcess_of_ne
    {other : Nat}
    {process : Option Process}
    (differs : id ≠ other) :
    Alive (s.setProcess other process) id ↔ Alive s id := by
  simp [Alive, Fleet.setProcess, differs]

/-- A process that is alive after a step, and was started before it, was alive
before it. -/
theorem alive_of_step
    (started : id < s.spawned)
    {action : FleetAction}
    (alive : Alive (s.step cfg action) id) :
    Alive s id := by
  cases action with
  | turn turn =>
      have processes : (s.turn cfg turn).processes = s.processes := by
        unfold Fleet.turn
        split <;> rfl
      simpa [Alive, Fleet.step, processes] using alive
  | write =>
      exact alive
  | spawn childIdx =>
      exact (alive_setProcess_of_ne (Nat.ne_of_lt started)).mp alive
  | read other env =>
      have step := readStep_read s other env
      simp only [Fleet.step] at alive
      generalize s.read other env = next at step alive
      cases step with
      | idle ended =>
          exact alive
      | goesOn isProcess notReturned silent =>
          exact alive
      | ends isProcess notReturned output =>
          by_cases same : id = other
          · exact same ▸ ⟨_, isProcess, notReturned⟩
          · exact (alive_setProcess_of_ne same).mp alive
  | act other action =>
      simp only [Fleet.step, Fleet.act] at alive
      split at alive
      next wcfg w running =>
        split at alive
        · exact alive
        · split at alive
          · exact alive
          next notHousekeeping =>
            by_cases same : id = other
            · subst same
              obtain ⟨found, isFound, notReturned⟩ :=
                alive_setProcess_self alive
              cases isFound
              refine ⟨_, running, ?_⟩
              by_contra returned
              rw [Bool.not_eq_false, Process.returned] at returned
              have stays : w.step wcfg action = w := if_pos returned
              rw [stays, Process.returned, returned] at notReturned
              cases notReturned
            · exact (alive_setProcess_of_ne same).mp alive
      · exact alive
  | exit other =>
      by_cases same : id = other
      · subst same
        obtain ⟨found, isFound, -⟩ := alive_setProcess_self alive
        cases isFound
      · exact (alive_setProcess_of_ne same).mp alive

/-- The count of spawned processes never falls. -/
theorem spawned_step (s : Fleet) (action : FleetAction) :
    s.spawned ≤ (s.step cfg action).spawned := by
  cases action with
  | turn turn =>
      simp only [Fleet.step, Fleet.turn]
      split <;> exact Nat.le_refl _
  | spawn childIdx =>
      exact Nat.le_succ _
  | read id env =>
      have step := readStep_read s id env
      simp only [Fleet.step]
      generalize s.read id env = next at step ⊢
      cases step <;> exact Nat.le_refl _
  | act id action =>
      simp only [Fleet.step, Fleet.act]
      split
      · split
        · exact Nat.le_refl _
        · split <;> exact Nat.le_refl _
      · exact Nat.le_refl _
  | _ =>
      exact Nat.le_refl _

/-- A load of a process that is alive brings it closer to the last publish. -/
theorem lag_read
    (notOdd : ¬ s.page.seq % 2 = 1)
    (alive : Alive s id)
    (env : HousekeepingEnv) :
    lag resolveProtocol (s.step cfg (.read id env)).page id ≤
      lag resolveProtocol s.page id - 1 := by
  obtain ⟨process, isProcess, notReturned⟩ := alive
  have loaded := @lag_readStep _ _ _ _ _ resolveProtocol s.page _ rfl notOdd id
  have step := readStep_read s id env
  simp only [Fleet.step]
  generalize s.read id env = next at step ⊢
  cases step with
  | idle ended =>
      rw [ended process isProcess] at notReturned
      cases notReturned
  | goesOn isProcess notReturned silent =>
      exact loaded
  | ends isProcess notReturned output =>
      exact loaded

/-- The supervisor forgets no publication. -/
theorem length_publishes_run (s : Fleet) (actions : List FleetAction) :
    s.loop.publishes.length ≤ (s.run cfg actions).loop.publishes.length := by
  induction actions generalizing s with
  | nil =>
      exact Nat.le_refl _
  | cons action rest inductionHypothesis =>
      exact (length_publishes_step s action).trans (inductionHypothesis _)

/-- A process alive after a run was alive before it. -/
theorem alive_of_run
    {actions : List FleetAction}
    (started : id < s.spawned)
    (alive : Alive (s.run cfg actions) id) :
    Alive s id := by
  induction actions generalizing s with
  | nil =>
      exact alive
  | cons action rest inductionHypothesis =>
      exact alive_of_step started
        (inductionHypothesis (started.trans_le (spawned_step s action)) alive)

/-- Without a publish every load of a process that stays alive brings it
closer, whatever the others do. -/
theorem lag_run
    (idle : s.page.writer = .idle)
    (notOdd : ¬ s.page.seq % 2 = 1)
    (started : id < s.spawned)
    {actions : List FleetAction}
    (quiet :
      (s.run cfg actions).loop.publishes.length = s.loop.publishes.length)
    (alive : Alive (s.run cfg actions) id) :
    SamePage s.page (s.run cfg actions).page ∧
      lag resolveProtocol (s.run cfg actions).page id ≤
        lag resolveProtocol s.page id -
          actions.countP (FleetAction.loads id) := by
  induction actions generalizing s with
  | nil =>
      exact ⟨⟨rfl, rfl, rfl, rfl⟩, Nat.le_refl _⟩
  | cons action rest inductionHypothesis =>
      have quietStep :
          (s.step cfg action).loop.publishes.length =
            s.loop.publishes.length := by
        have first := @length_publishes_step cfg s action
        have later := @length_publishes_run cfg (s.step cfg action) rest
        have both :
            ((s.step cfg action).run cfg rest).loop.publishes.length =
              s.loop.publishes.length := quiet
        omega
      obtain ⟨same, others⟩ := quiet_step idle quietStep
      obtain ⟨samePage, closer⟩ :=
        inductionHypothesis (same.writer.trans idle) (same.seq ▸ notOdd)
          (started.trans_le (spawned_step s action))
          (Eq.trans quiet quietStep.symm) alive
      refine ⟨same.trans samePage, closer.trans ?_⟩
      rw [List.countP_cons]
      cases isLoad : action.loads id with
      | false =>
          rw [same.lag_eq (others isLoad)]
          simp
      | true =>
          cases action with
          | read other env =>
              obtain rfl : other = id := by
                simpa [FleetAction.loads] using isLoad
              have aliveNow : Alive s other :=
                @alive_of_run cfg s other (.read other env :: rest) started alive
              have loaded := @lag_read cfg s other notOdd aliveNow env
              simp only [if_true]
              omega
          | _ =>
              cases isLoad

end Quiet

section Bound

variable {cfg : FleetConfig} {resolved : List IpAddr} {s : Fleet}

/-- Reading the entries adds two loads for each. -/
theorem within_readEntries
    {next : List IpAddr → List UInt32 → ReadProgram ResolveField.Word UpstreamSet}
    {bound : Nat}
    (ends : ∀ addrs weights, (next addrs weights).Within bound)
    (entries : List (Fin maxAddrs))
    (addrs : List IpAddr)
    (weights : List UInt32) :
    (readEntries next entries addrs weights).Within
      (bound + 2 * entries.length) := by
  induction entries generalizing addrs weights with
  | nil =>
      exact ends addrs weights
  | cons i rest inductionHypothesis =>
      exact fun addr weight => inductionHypothesis _ _

/-- The count, sixteen entries of two words each, and three words more. -/
theorem within_program : resolveProtocol.program.Within 36 := by
  intro count
  have length :
      ((List.finRange maxAddrs).take (min count.toNat maxAddrs)).length ≤ 16 :=
    (List.length_take_le _ _).trans (Nat.min_le_right _ _)
  have atMost :
      3 + 2 * ((List.finRange maxAddrs).take
        (min count.toNat maxAddrs)).length ≤ 35 := by
    omega
  refine ReadProgram.Within.mono (within_readEntries ?_ _ _ _) atMost
  intro addrs weights revision workers publishedMonoSecs
  trivial

theorem callsWithin_new : CallsWithin 36 (ResolveSystem.new Nat) := by
  intro reader first program inCall
  cases inCall

theorem callsWithin_run
    {page : ResolveSystem Nat}
    (within : CallsWithin 36 page)
    (actions : List (Seqlock.Action Publish Nat)) :
    CallsWithin 36 (page.run resolveProtocol actions).1 := by
  induction actions generalizing page with
  | nil =>
      exact within
  | cons action rest inductionHypothesis =>
      exact inductionHypothesis
        (step_callsWithin within_program within action)

theorem callsWithin_start (loop : SupervisorLoop) :
    CallsWithin 36 (Fleet.start loop).page := by
  simp only [Fleet.start]
  split
  · exact callsWithin_new
  · exact callsWithin_run callsWithin_new _

theorem callsWithin_step
    (within : CallsWithin 36 s.page)
    (action : FleetAction) :
    CallsWithin 36 (s.step cfg action).page := by
  have stepped := step_callsWithin within_program within
  cases action with
  | turn turn =>
      simp only [Fleet.step, Fleet.turn]
      split
      · dsimp only
        split
        · exact within
        · exact stepped _
      · exact within
  | write =>
      exact stepped _
  | spawn childIdx =>
      exact within
  | read id env =>
      have step := readStep_read s id env
      simp only [Fleet.step]
      generalize s.read id env = next at step ⊢
      cases step with
      | idle ended =>
          exact within
      | goesOn isProcess notReturned silent =>
          exact stepped _
      | ends isProcess notReturned output =>
          exact stepped _
  | act id action =>
      simp only [Fleet.step, Fleet.act]
      split
      · split
        · exact within
        · split <;> exact within
      · exact within
  | exit id =>
      exact within

/-- A run of the fleet keeps reads within 36 loads. -/
theorem callsWithin_fleet
    (within : CallsWithin 36 s.page)
    (actions : List FleetAction) :
    CallsWithin 36 (s.run cfg actions).page := by
  induction actions generalizing s with
  | nil =>
      exact within
  | cons action rest inductionHypothesis =>
      exact inductionHypothesis (callsWithin_step within action)

end Bound

section Starting

variable {cfg : FleetConfig} {resolved : List IpAddr} {s : Fleet}

/-- Processes that are not started or still wait for their first set have read
nothing. -/
structure Unread (s : Fleet) : Prop where
  unstarted : ∀ id, s.spawned ≤ id →
    s.processes id = none ∧ (s.page.readers id).lastCount = 0
  waiting : ∀ id wcfg, s.processes id = some (.starting wcfg) →
    (s.page.readers id).lastCount = 0

/-- Only loads change what a reader has read. -/
theorem Unread.of_readers
    {next : Fleet}
    (unread : Unread s)
    (spawned : next.spawned = s.spawned)
    (processes : next.processes = s.processes)
    (readers : next.page.readers = s.page.readers) :
    Unread next where
  unstarted := by
    rw [spawned, processes, readers]
    exact unread.unstarted
  waiting := by
    rw [processes, readers]
    exact unread.waiting

/-- A process that was started may go on, and its reader with it, if it waits
for nothing new. -/
theorem Unread.moves
    (unread : Unread s)
    {id : Nat}
    (started : id < s.spawned)
    {page : ResolveSystem Nat}
    (others : ∀ other, other ≠ id →
      page.readers other = s.page.readers other)
    {process : Option Process}
    (waits : ∀ wcfg, process = some (.starting wcfg) →
      (page.readers id).lastCount = 0) :
    Unread ({ s with page := page }.setProcess id process) where
  unstarted := by
    intro other notStarted
    have differs : other ≠ id :=
      fun same => absurd notStarted (not_le.mpr (same ▸ started))
    simpa [Fleet.setProcess, differs, others other differs]
      using unread.unstarted other notStarted
  waiting := by
    intro other wcfg isStarting
    by_cases same : other = id
    · subst same
      exact waits wcfg (by simpa [Fleet.setProcess] using isStarting)
    · simp only [Fleet.setProcess, Function.update_of_ne same,
        others other same] at isStarting ⊢
      exact unread.waiting other wcfg isStarting

/-- Only a process that was started is there at all. -/
theorem Unread.started
    (unread : Unread s)
    {id : Nat}
    {process : Process}
    (isProcess : s.processes id = some process) :
    id < s.spawned := by
  by_contra notStarted
  rw [(unread.unstarted id (not_lt.mp notStarted)).1] at isProcess
  cases isProcess

theorem unread_start (loop : SupervisorLoop) : Unread (Fleet.start loop) := by
  have untouched (actions : List (Seqlock.Action Publish Nat))
      (writes : ∀ action ∈ actions, action = .write)
      (page : ResolveSystem Nat) :
      (page.run resolveProtocol actions).1.readers = page.readers := by
    induction actions generalizing page with
    | nil =>
        rfl
    | cons action rest inductionHypothesis =>
        rw [List.forall_mem_cons] at writes
        obtain ⟨rfl, later⟩ := writes
        refine (inductionHypothesis later _).trans ?_
        simp only [System.step, System.writeStep]
        split <;> rfl
  have readers (id : Nat) :
      ((Fleet.start loop).page.readers id).lastCount = 0 := by
    simp only [Fleet.start]
    split
    · rfl
    next call rest _ =>
      have written :=
        untouched (List.replicate (call.2.stores.length + 2) .write)
          (fun action member => List.eq_of_mem_replicate member)
          ((ResolveSystem.new Nat).step resolveProtocol (.begin call.2)).1
      exact congrArg Reader.lastCount (congrFun written id)
  exact
    { unstarted := fun id _ => ⟨rfl, readers id⟩
      waiting := fun id _ _ => readers id }

/-- A set that was read has addresses, so a process that waits for one goes
on. -/
theorem FleetSound.receive_ne_starting
    (sound : FleetSound cfg resolved s)
    (few : s.loop.publishes.length < 2 ^ 31)
    {id : Nat}
    {set : UpstreamSet}
    (output :
      (s.page.step resolveProtocol (.read id)).2 = [(id, some set)])
    (wcfg other : WorkerConfig)
    (env : HousekeepingEnv) :
    (Process.starting wcfg).receive env (some set) ≠
      some (.starting other) := by
  obtain ⟨number, call, isCall, -, rfl⟩ := sound.result few output
  obtain ⟨slot, addr, -, isAddr⟩ := (sound.usableSet isCall).slots 0
  have nonempty : (call.upstreamSet (number + 1)).addrs ≠ [] :=
    List.ne_nil_of_mem (List.mem_of_getElem? isAddr)
  simp only [Process.receive, if_neg nonempty]
  split
  · simp
  · simp

theorem unread_read
    {next : Fleet}
    {id : Nat}
    {env : HousekeepingEnv}
    (step : ReadStep s id env next)
    (sound : FleetSound cfg resolved s)
    (few : s.loop.publishes.length < 2 ^ 31)
    (unread : Unread s) :
    Unread next := by
  cases step with
  | idle ended =>
      exact unread
  | @goesOn process isProcess notReturned silent =>
      have own :=
        unread.moves (unread.started isProcess) (readStep_others s.page id).2
          (fun wcfg isStarting => by
            rw [sound.silent few (by rw [silent]; rfl)]
            exact unread.waiting id wcfg isStarting)
      rwa [Fleet.setProcess, Function.update_eq_self] at own
  | @ends process result isProcess notReturned output =>
      refine unread.moves (unread.started isProcess)
        (readStep_others s.page id).2 ?_
      intro other isStarting
      cases process with
      | running wcfg w =>
          cases isStarting
      | starting wcfg =>
          cases result with
          | none =>
              rw [sound.silent few (by simp [output, resultsOf])]
              exact unread.waiting id wcfg isProcess
          | some set =>
              exact absurd isStarting
                (sound.receive_ne_starting few output wcfg other env)

/-- Every step keeps it true that who is still reading has seen nothing. -/
theorem unread_step
    (sound : FleetSound cfg resolved s)
    (few : s.loop.publishes.length < 2 ^ 31)
    (unread : Unread s)
    (action : FleetAction) :
    Unread (s.step cfg action) := by
  cases action with
  | turn turn =>
      simp only [Fleet.step, Fleet.turn]
      split
      next idle =>
        refine unread.of_readers rfl rfl ?_
        dsimp only
        split
        · rfl
        · simp [System.step, idle]
      next =>
        exact unread
  | write =>
      refine unread.of_readers rfl rfl ?_
      simp only [Fleet.step, System.step, System.writeStep]
      split <;> rfl
  | spawn childIdx =>
      refine
        { unstarted := ?_
          waiting := ?_ }
      · intro id notStarted
        have later : s.spawned + 1 ≤ id := notStarted
        have differs : id ≠ s.spawned := by
          omega
        simpa [Fleet.step, Fleet.spawn, Fleet.setProcess, differs]
          using unread.unstarted id (by omega)
      · intro id wcfg isStarting
        by_cases same : id = s.spawned
        · exact same ▸ (unread.unstarted s.spawned (le_refl _)).2
        · exact unread.waiting id wcfg (by
            simpa [Fleet.step, Fleet.spawn, Fleet.setProcess, same]
              using isStarting)
  | read id env =>
      exact unread_read (readStep_read s id env) sound few unread
  | act id action =>
      simp only [Fleet.step, Fleet.act]
      split
      next wcfg w running =>
        split
        · exact unread
        · split
          · exact unread
          · exact unread.moves (unread.started running) (fun _ _ => rfl)
              (by simp)
      · exact unread
  | exit id =>
      by_cases started : id < s.spawned
      · exact unread.moves started (fun _ _ => rfl) (by simp)
      · have none := (unread.unstarted id (not_lt.mp started)).1
        have same : s.step cfg (.exit id) = s := by
          rw [Fleet.step, Fleet.setProcess, ← none, Function.update_eq_self]
        rw [same]
        exact unread

/-- In every run, a process that is still reading has seen nothing yet. -/
theorem unread_run
    (sound : FleetSound cfg resolved s)
    (unread : Unread s)
    {actions : List FleetAction}
    (few : (s.run cfg actions).loop.publishes.length < 2 ^ 31) :
    Unread (s.run cfg actions) := by
  induction actions using List.reverseRecOn with
  | nil =>
      exact unread
  | append_singleton earlier last inductionHypothesis =>
      rw [Fleet.run, List.foldl_append, List.foldl_cons, List.foldl_nil] at few ⊢
      have fewEarlier :=
        Nat.lt_of_le_of_lt (@length_publishes_step cfg _ last) few
      exact unread_step (fleetSound_run sound fewEarlier) fewEarlier
        (inductionHypothesis fewEarlier) last

end Starting

section Adoption

variable {cfg : FleetConfig} {resolved : List IpAddr} {s : Fleet}

/-- Between two publishes the count is even. -/
theorem FleetSound.notOdd
    (sound : FleetSound cfg resolved s)
    (idle : s.page.writer = .idle) :
    ¬ s.page.seq % 2 = 1 := by
  intro odd
  obtain ⟨old, call, remaining, inWrite⟩ := sound.intact odd
  rw [idle] at inWrite
  cases inWrite

/-- A reader that has caught up has read the last publish. -/
theorem FleetSound.lastCount_of_lag
    (sound : FleetSound cfg resolved s)
    (few : s.loop.publishes.length < 2 ^ 31)
    (idle : s.page.writer = .idle)
    {id : Nat}
    (caught : lag resolveProtocol s.page id = 0) :
    (s.page.readers id).lastCount = s.loop.publishes.length := by
  have calls : s.page.committed = s.loop.publishes.map Prod.snd := by
    have both := sound.calls
    rwa [begun, idle, List.append_nil] at both
  have length : s.page.committed.length = s.loop.publishes.length := by
    rw [calls, List.length_map]
  rw [← length] at few ⊢
  exact sound.page.lastCount_of_lag (sound.notOdd idle) few caught

/-- A process that is alive and has caught up runs, and uses the last
publish. -/
theorem FleetSound.adopted
    (sound : FleetSound cfg resolved s)
    (unread : Unread s)
    (few : s.loop.publishes.length < 2 ^ 31)
    (idle : s.page.writer = .idle)
    {id : Nat}
    (caught : lag resolveProtocol s.page id = 0)
    (alive : Alive s id) :
    ∃ wcfg w last,
      s.processes id = some (.running wcfg w) ∧
        s.loop.publishes.getLast? = some last ∧
        w.rt.set = last.2.upstreamSet s.loop.publishes.length := by
  have count := sound.lastCount_of_lag few idle caught
  have published : 0 < s.loop.publishes.length :=
    List.length_pos_iff.mpr sound.loop.begun
  obtain ⟨process, isProcess, -⟩ := alive
  cases process with
  | starting wcfg =>
      have none := unread.waiting id wcfg isProcess
      omega
  | running wcfg w =>
      obtain ⟨number, call, committed, counted, set⟩ :=
        (sound.workers id wcfg w isProcess).set
      have isLast : number + 1 = s.loop.publishes.length := by
        omega
      obtain ⟨publish, isPublish, rfl⟩ := sound.published committed
      refine ⟨wcfg, w, publish, isProcess, ?_, isLast ▸ set⟩
      rw [List.getLast?_eq_getElem?, ← isLast, Nat.add_sub_cancel]
      exact isPublish

/--
Once the supervisor has completed a publish, every process that stays alive is
a running worker after 75 loads at most that uses it, and keeps it until the
next one, whatever the other workers do and wherever they are in their own
reads.
-/
theorem adopted_run
    {state : ResolveState}
    {remotes : List SocketAddr}
    {literal : Option IpAddr}
    {exchanges : QType → Exchange}
    {port : UInt16}
    {resolveNow : Instant}
    (startup :
      resolveUpstream cfg.loop.dns cfg.loop.host literal exchanges port
          resolveNow =
        .ok (state, remotes))
    (supervisor : Supervisor)
    (publishNow now : Instant)
    (monoNowSecs monoNowSecsLater : UInt64)
    (actions : List FleetAction)
    (s : Fleet)
    (reached :
      s =
        (Fleet.start
          (SupervisorLoop.start cfg.loop supervisor state remotes publishNow now
            monoNowSecs monoNowSecsLater)).run cfg actions)
    (few : s.loop.publishes.length < 2 ^ 31)
    (idle : s.page.writer = .idle)
    (more : List FleetAction)
    (quiet : (s.run cfg more).loop.publishes = s.loop.publishes) :
    ∀ id < s.spawned, 75 ≤ more.countP (FleetAction.loads id) →
      Alive (s.run cfg more) id →
      ∃ wcfg w last,
        (s.run cfg more).processes id = some (.running wcfg w) ∧
          s.loop.publishes.getLast? = some last ∧
          w.rt.set = last.2.upstreamSet s.loop.publishes.length := by
  intro id started enough alive
  have start : FleetSound cfg (remotes.map (·.ip))
      (Fleet.start
        (SupervisorLoop.start cfg.loop supervisor state remotes publishNow now
          monoNowSecs monoNowSecsLater)) :=
    (fleetSound_start (goodLoop_start (remotes_ne_nil startup)) rfl).1
  have sound : FleetSound cfg (remotes.map (·.ip)) s := by
    rw [reached] at few ⊢
    exact fleetSound_run start few
  have unread : Unread s := by
    rw [reached] at few ⊢
    exact unread_run start (unread_start _) few
  have within : CallsWithin 36 s.page := by
    rw [reached]
    exact callsWithin_fleet (callsWithin_start _) actions
  have bound := within.lag_le within_program id
  obtain ⟨same, closer⟩ :=
    lag_run idle (sound.notOdd idle) started (congrArg List.length quiet) alive
  have fewLater : (s.run cfg more).loop.publishes.length < 2 ^ 31 :=
    quiet.symm ▸ few
  have caught : lag resolveProtocol (s.run cfg more).page id = 0 := by
    omega
  have adopted :=
    (fleetSound_run sound fewLater).adopted (unread_run sound unread fewLater)
      fewLater (same.writer.trans idle) caught alive
  rwa [quiet] at adopted

/-- A worker is overtaken by a publish in its first read. -/
def overtakenStart : List FleetAction :=
  [.spawn 1] ++ List.replicate 3 (.read 0 overtakenEnv) ++
    [.turn scoredTurn] ++ List.replicate 30 .write

/-- A process whose first read a publication overtakes runs with the new set in
the end. -/
theorem adopted_run_overtakenStart :
    let s :=
      (Fleet.start
        (SupervisorLoop.start literalLoop Supervisor.initial
          { addrs := [.v4 192 0 2 1], expiresAt := fromSecs (86400 * 365) }
          [{ ip := .v4 192 0 2 1, port := 443 }] 0 0 10 10)).run literalFleet
        overtakenStart
    let more := List.replicate 75 (.read 0 overtakenEnv)
    ∃ wcfg w last,
      (s.run literalFleet more).processes 0 = some (.running wcfg w) ∧
        s.loop.publishes.getLast? = some last ∧
        w.rt.set = last.2.upstreamSet s.loop.publishes.length := by
  intro s more
  have startup :
      resolveUpstream literalLoop.dns literalLoop.host (some (.v4 192 0 2 1))
          (fun _ => { clock := 0, socket := .ok (), rounds := [] }) 443 0 =
        .ok
          ({ addrs := [.v4 192 0 2 1], expiresAt := fromSecs (86400 * 365) },
            [{ ip := .v4 192 0 2 1, port := 443 }]) := by
    decide +kernel
  have few : s.loop.publishes.length < 2 ^ 31 := by
    have two : s.loop.publishes.length = 2 := by
      decide +kernel
    omega
  have idle : s.page.writer = .idle := by
    rfl
  have quiet : (s.run literalFleet more).loop.publishes = s.loop.publishes := by
    decide +kernel
  have alive : Alive (s.run literalFleet more) 0 := by
    have notReturned :
        ((s.run literalFleet more).processes 0).map Process.returned =
          some false := by
      decide +kernel
    exact Option.map_eq_some_iff.mp notReturned
  exact
    @adopted_run literalFleet _ _ _ _ _ _ startup Supervisor.initial 0 0 10 10
      overtakenStart s rfl few idle more quiet 0 (by decide +kernel)
      (by decide +kernel) alive

end Adoption

end DnsServices.Microdoh3
