import Mathlib.Data.Multiset.Range
import DnsServices.KeyedItems
import DnsServices.Runs
import DnsServices.Worker

namespace DnsServices.Microdoh3

open KeyedItems Runs

/-!
# The supervisor

Prefork, reaping and restarting of `main.rs`.  A worker index lives in one of
two maps: `children`, keyed by process id, while its process runs, and
`pending_restarts`, keyed by CPU, while its restart is scheduled.  Time, the
results of `fork` and the reaped process ids are the environment's.
-/

section Code

/-- The number of a process. -/
abbrev Pid := Nat

/-- A running worker process. -/
structure Child where
  cpu : UInt32
  idx : Nat
  started : Instant
  fails : UInt32
  deriving Repr, DecidableEq

/-- A scheduled restart. -/
structure Restart where
  idx : Nat
  restartAt : Instant
  fails : UInt32
  deriving Repr, DecidableEq

/-- What `fork` returns to the supervisor. -/
inductive ForkResult where
  | parent (child : Pid)
  | error
  deriving Repr, DecidableEq

/-- The workers that run, by process, and those that wait for their restart, by
CPU. -/
structure Supervisor where
  children : AList fun _ : Pid => Child
  pendingRestarts : AList fun _ : UInt32 => Restart
  /-- The flag that the signal handler sets. -/
  shutdown : Bool
  /-- How many workers the prefork loop has gone through. -/
  preforked : Nat

/-- Backoff before restarting a repeatedly fast-failing worker. -/
def backoffDelay (fails : UInt32) : Duration :=
  if fails = 0 then
    0
  else
    fromSecs (1 <<< min fails.toNat 5)

namespace Supervisor

/-- The supervisor before its prefork loop. -/
def initial : Supervisor where
  children := ∅
  pendingRestarts := ∅
  shutdown := false
  preforked := 0

/-- Start a worker on a CPU; a `fork` that fails leaves none. -/
def spawnWorker
    (s : Supervisor)
    (cpu : UInt32)
    (childIdx : Nat)
    (fails : UInt32)
    (now : Instant)
    (fork : ForkResult) : Supervisor :=
  match fork with
  | .parent child =>
      { s with
        children := s.children.insert child
          { cpu := cpu, idx := childIdx, started := now, fails := fails } }
  -- the error is logged and nothing else
  | .error => s

/-- Record a dead worker for scheduled restart. -/
def scheduleChildExit
    (s : Supervisor)
    (pid : Pid)
    (now : Instant) : Supervisor :=
  match s.children.lookup pid with
  | none => s
  | some child =>
      let s := { s with children := s.children.erase pid }
      if s.shutdown then
        s
      else
        let fails :=
          if durationSince now child.started < fromSecs 10 then
            child.fails + 1
          else
            0
        { s with
          pendingRestarts := s.pendingRestarts.insert child.cpu
            { idx := child.idx
              restartAt := now + backoffDelay fails
              fails := fails } }

/-- CPUs whose scheduled restart time has arrived. -/
def due (s : Supervisor) (now : Instant) : List UInt32 :=
  (s.pendingRestarts.entries.filter
    fun entry => entry.2.restartAt ≤ now).map Sigma.fst

/-- One pass of the loop over the due restarts. -/
def restart
    (s : Supervisor)
    (cpu : UInt32)
    (now : Instant)
    (fork : ForkResult) : Supervisor :=
  match s.pendingRestarts.lookup cpu with
  | none => s
  | some r =>
      spawnWorker { s with pendingRestarts := s.pendingRestarts.erase cpu }
        cpu r.idx r.fails now fork

/-- Terminate every worker and leave the loop. -/
def stop (s : Supervisor) : Supervisor :=
  if s.shutdown then
    { s with children := ∅ }
  else
    s

end Supervisor

/-- What the supervisor does next, with what the system returns to it. -/
inductive SupervisorAction where
  /-- The prefork loop spawns the next worker. -/
  | prefork (now : Instant) (fork : ForkResult)
  /-- The main loop spawns a worker whose restart is due. -/
  | restart (cpu : UInt32) (now : Instant) (fork : ForkResult)
  /-- `waitpid` reports the exit of a process. -/
  | reap (pid : Pid) (now : Instant)
  /-- SIGTERM or SIGINT arrives. -/
  | signal
  /-- The main loop looks at the shutdown flag. -/
  | stop
  deriving Repr, DecidableEq

namespace Supervisor

/-- The main loop runs once every worker has been preforked. -/
def step
    (cpus : List UInt32)
    (s : Supervisor) : SupervisorAction → Supervisor
  | .prefork now fork =>
      match cpus[s.preforked]? with
      | some cpu =>
          { s.spawnWorker cpu s.preforked 0 now fork with
            preforked := s.preforked + 1 }
      | none => s
  | .restart cpu now fork =>
      if s.preforked = cpus.length ∧ cpu ∈ s.due now then
        s.restart cpu now fork
      else
        s
  | .reap pid now =>
      if s.preforked = cpus.length then
        s.scheduleChildExit pid now
      else
        s
  | .signal => { s with shutdown := true }
  | .stop => if s.preforked = cpus.length then s.stop else s

/-- Steps in any order. -/
def run
    (cpus : List UInt32)
    (s : Supervisor)
    (actions : List SupervisorAction) : Supervisor :=
  actions.foldl (step cpus) s

end Supervisor

end Code

section Accounting

namespace Supervisor

/-- The worker indices of the running processes and the scheduled
restarts. -/
def indices (s : Supervisor) : Multiset Nat :=
  items Child.idx s.children + items Restart.idx s.pendingRestarts

/-- Every worker index below `count` is held exactly once. -/
def Accounted (s : Supervisor) (count : Nat) : Prop :=
  ∀ idx < count, s.indices.count idx = 1

instance (s : Supervisor) (count : Nat) : Decidable (s.Accounted count) :=
  inferInstanceAs (Decidable (∀ idx < count, s.indices.count idx = 1))

end Supervisor

namespace SupervisorAction

/-- A new process gets an id that no child of the supervisor still has. -/
def Fresh (s : Supervisor) : SupervisorAction → Prop
  | prefork _ (.parent child) => child ∉ s.children
  | restart _ _ (.parent child) => child ∉ s.children
  | _ => True

/-- No `fork` fails, and no child exits while the restart of another worker
on its CPU is scheduled. -/
def Keeps
    (cpus : List UInt32)
    (s : Supervisor) : SupervisorAction → Prop
  | prefork _ fork => s.preforked < cpus.length → fork ≠ .error
  | restart cpu now fork =>
      s.preforked = cpus.length ∧ cpu ∈ s.due now → fork ≠ .error
  | reap pid _ =>
      s.preforked = cpus.length →
        ∀ child ∈ s.children.lookup pid, child.cpu ∉ s.pendingRestarts
  | signal => True
  | stop => True

instance decidableFresh
    (s : Supervisor) :
    ∀ action : SupervisorAction, Decidable (action.Fresh s)
  | prefork _ (.parent _) => inferInstanceAs (Decidable (_ ∉ _))
  | prefork _ .error => isTrue trivial
  | restart _ _ (.parent _) => inferInstanceAs (Decidable (_ ∉ _))
  | restart _ _ .error => isTrue trivial
  | reap _ _ => isTrue trivial
  | signal => isTrue trivial
  | stop => isTrue trivial

instance decidableKeeps
    (cpus : List UInt32)
    (s : Supervisor) :
    ∀ action : SupervisorAction, Decidable (action.Keeps cpus s)
  | prefork _ _ => inferInstanceAs (Decidable (_ → _))
  | restart _ _ _ => inferInstanceAs (Decidable (_ → _))
  | reap _ _ => inferInstanceAs (Decidable (_ → _))
  | signal => isTrue trivial
  | stop => isTrue trivial

end SupervisorAction

namespace Supervisor

section Frames

variable (s : Supervisor)

@[simp] theorem preforked_spawnWorker
    (cpu : UInt32)
    (childIdx : Nat)
    (fails : UInt32)
    (now : Instant)
    (fork : ForkResult) :
    (s.spawnWorker cpu childIdx fails now fork).preforked = s.preforked := by
  cases fork <;> rfl

@[simp] theorem shutdown_spawnWorker
    (cpu : UInt32)
    (childIdx : Nat)
    (fails : UInt32)
    (now : Instant)
    (fork : ForkResult) :
    (s.spawnWorker cpu childIdx fails now fork).shutdown = s.shutdown := by
  cases fork <;> rfl

@[simp] theorem preforked_restart
    (cpu : UInt32)
    (now : Instant)
    (fork : ForkResult) :
    (s.restart cpu now fork).preforked = s.preforked := by
  rw [restart]
  split <;> simp

@[simp] theorem shutdown_restart
    (cpu : UInt32)
    (now : Instant)
    (fork : ForkResult) :
    (s.restart cpu now fork).shutdown = s.shutdown := by
  rw [restart]
  split <;> simp

@[simp] theorem preforked_scheduleChildExit (pid : Pid) (now : Instant) :
    (s.scheduleChildExit pid now).preforked = s.preforked := by
  rw [scheduleChildExit]
  split
  · rfl
  · dsimp only
    split <;> rfl

@[simp] theorem shutdown_scheduleChildExit (pid : Pid) (now : Instant) :
    (s.scheduleChildExit pid now).shutdown = s.shutdown := by
  rw [scheduleChildExit]
  split
  · rfl
  · dsimp only
    split <;> rfl

/-- The flag is never taken back. -/
theorem shutdown_of_step
    {cpus : List UInt32}
    {action : SupervisorAction}
    (running : (s.step cpus action).shutdown = false) :
    s.shutdown = false := by
  cases action with
  | prefork now fork =>
      simp only [step] at running
      split at running
      · simpa using running
      · exact running
  | restart cpu now fork =>
      simp only [step] at running
      split at running
      · simpa using running
      · exact running
  | reap pid now =>
      simp only [step] at running
      split at running
      · simpa using running
      · exact running
  | signal =>
      simp [step] at running
  | stop =>
      simp only [step, stop] at running
      split at running
      · split at running <;> exact running
      · exact running

/-- A supervisor that runs in the end ran all along. -/
theorem shutdown_of_run
    {cpus : List UInt32}
    {actions : List SupervisorAction}
    (running : (s.run cpus actions).shutdown = false) :
    s.shutdown = false := by
  induction actions generalizing s with
  | nil =>
      exact running
  | cons action rest inductionHypothesis =>
      exact s.shutdown_of_step (inductionHypothesis _ running)

end Frames

/-- What a `fork` fails to start is lost. -/
theorem indices_spawnWorker
    {s : Supervisor}
    {cpu : UInt32}
    {childIdx : Nat}
    {fails : UInt32}
    {now : Instant}
    {fork : ForkResult}
    (fresh : ∀ child, fork = .parent child → child ∉ s.children) :
    ∃ lost : Multiset Nat,
      lost + (s.spawnWorker cpu childIdx fails now fork).indices =
          childIdx ::ₘ s.indices ∧
        (lost = 0 ↔ fork ≠ .error) := by
  cases fork with
  | parent child =>
      refine ⟨0, ?_, by simp⟩
      rw [Multiset.zero_add, indices, spawnWorker,
        items_insert_of_notMem _ (fresh child rfl), Multiset.cons_add]
      rfl
  | error =>
      exact ⟨{childIdx}, rfl, by simp⟩

/-- A due restart goes back to the children, or is lost with its `fork`. -/
theorem indices_restart
    {s : Supervisor}
    {cpu : UInt32}
    {now : Instant}
    {fork : ForkResult}
    (fresh : ∀ child, fork = .parent child → child ∉ s.children)
    (scheduled : cpu ∈ s.pendingRestarts) :
    ∃ lost : Multiset Nat,
      lost + (s.restart cpu now fork).indices = s.indices ∧
        (lost = 0 ↔ fork ≠ .error) := by
  obtain ⟨r, found⟩ := Option.isSome_iff_exists.mp
    (AList.lookup_isSome.mpr scheduled)
  have taken :
      r.idx ::ₘ { s with
        pendingRestarts := s.pendingRestarts.erase cpu }.indices =
        s.indices := by
    rw [indices, indices, items_of_lookup found, Multiset.add_cons]
  rw [restart, found, ← taken]
  exact indices_spawnWorker fresh

/-- A reaped child goes to the scheduled restarts, where it takes the place
of one on the same CPU. -/
theorem indices_scheduleChildExit
    (s : Supervisor)
    (pid : Pid)
    (now : Instant)
    (running : s.shutdown = false) :
    ∃ lost : Multiset Nat,
      lost + (s.scheduleChildExit pid now).indices = s.indices ∧
        (lost = 0 ↔
          ∀ child ∈ s.children.lookup pid,
            child.cpu ∉ s.pendingRestarts) := by
  rw [scheduleChildExit]
  cases found : s.children.lookup pid with
  | none =>
      exact ⟨0, Multiset.zero_add _, by simp⟩
  | some child =>
      have taken := @items_of_lookup _ _ _ _ _ Child.idx _ _ found
      simp only [running, Bool.false_eq_true, if_false, Option.mem_def,
        Option.some.injEq, forall_eq', indices, taken, items_insert]
      cases replaced : s.pendingRestarts.lookup child.cpu with
      | none =>
          have absent := AList.lookup_eq_none.mp replaced
          refine ⟨0, ?_, by simp [absent]⟩
          rw [erase_of_notMem absent, Multiset.zero_add, Multiset.add_cons,
            Multiset.cons_add]
      | some r =>
          have present : child.cpu ∈ s.pendingRestarts :=
            AList.lookup_isSome.mp (by rw [replaced]; rfl)
          refine ⟨{r.idx}, ?_, by simp [present]⟩
          rw [@items_of_lookup _ _ _ _ _ Restart.idx _ _ replaced,
            Multiset.add_cons, Multiset.cons_add, Multiset.singleton_add,
            Multiset.cons_swap, ← Multiset.add_cons]

/-- What is due was pending. -/
theorem mem_of_mem_due
    {s : Supervisor}
    {cpu : UInt32}
    {now : Instant}
    (isDue : cpu ∈ s.due now) :
    cpu ∈ s.pendingRestarts := by
  obtain ⟨entry, member, rfl⟩ := List.mem_map.mp isDue
  exact List.mem_keys_of_mem (List.mem_of_mem_filter member)

/-- One step adds the index it preforks and loses nothing exactly if it meets
the condition. -/
theorem indices_step
    {cpus : List UInt32}
    {s : Supervisor}
    {action : SupervisorAction}
    (fresh : action.Fresh s)
    (running : (s.step cpus action).shutdown = false) :
    ∃ lost : Multiset Nat,
      lost + (s.step cpus action).indices + Multiset.range s.preforked =
          s.indices + Multiset.range (s.step cpus action).preforked ∧
        (lost = 0 ↔ action.Keeps cpus s) := by
  have runningBefore := s.shutdown_of_step running
  cases action with
  | prefork now fork =>
      have freshFork :
          ∀ child, fork = .parent child → child ∉ s.children := by
        rintro child rfl
        exact fresh
      simp only [step, SupervisorAction.Keeps]
      cases next : cpus[s.preforked]? with
      | none =>
          have finished : ¬ s.preforked < cpus.length := by
            simpa using next
          exact ⟨0, by simp, by simp [finished]⟩
      | some cpu =>
          have notFinished : s.preforked < cpus.length := by
            by_contra finished
            simp [List.getElem?_eq_none (not_lt.mp finished)] at next
          obtain ⟨lost, balance, lostIff⟩ :=
            @indices_spawnWorker s cpu s.preforked 0 now fork freshFork
          refine ⟨lost, ?_, by simp [lostIff, notFinished]⟩
          have spawned :
              { s.spawnWorker cpu s.preforked 0 now fork with
                preforked := s.preforked + 1 }.indices =
                (s.spawnWorker cpu s.preforked 0 now fork).indices := rfl
          rw [spawned, balance, Multiset.range_succ, Multiset.cons_add,
            Multiset.add_cons]
  | restart cpu now fork =>
      have freshFork :
          ∀ child, fork = .parent child → child ∉ s.children := by
        rintro child rfl
        exact fresh
      simp only [step, SupervisorAction.Keeps]
      split
      · rename_i isDue
        obtain ⟨lost, balance, lostIff⟩ :=
          @indices_restart s cpu now fork freshFork
            (mem_of_mem_due isDue.2)
        refine ⟨lost, ?_, by simp [lostIff, isDue]⟩
        rw [balance, preforked_restart]
      · rename_i notDue
        exact ⟨0, by simp, by simp [notDue]⟩
  | reap pid now =>
      simp only [step, SupervisorAction.Keeps]
      split
      · rename_i finished
        obtain ⟨lost, balance, lostIff⟩ :=
          s.indices_scheduleChildExit pid now runningBefore
        refine ⟨lost, ?_, by simp [lostIff, finished]⟩
        rw [balance, preforked_scheduleChildExit]
      · rename_i notFinished
        exact ⟨0, by simp, by simp [notFinished]⟩
  | signal =>
      simp [step] at running
  | stop =>
      have unchanged : s.step cpus .stop = s := by
        simp [step, stop, runningBefore]
      exact ⟨0, by simp [unchanged], by simp [SupervisorAction.Keeps]⟩

/-- A run adds the indices it preforks and loses nothing exactly if every
step meets the condition. -/
theorem indices_run
    {cpus : List UInt32}
    {s : Supervisor}
    {actions : List SupervisorAction}
    (fresh : AllSteps (step cpus) (fun s action => action.Fresh s) s actions)
    (running : (s.run cpus actions).shutdown = false) :
    ∃ lost : Multiset Nat,
      lost + (s.run cpus actions).indices + Multiset.range s.preforked =
          s.indices + Multiset.range (s.run cpus actions).preforked ∧
        (lost = 0 ↔
          AllSteps (step cpus)
            (fun s action => action.Keeps cpus s) s actions) := by
  induction actions generalizing s with
  | nil =>
      exact ⟨0, by simp [run], by simp [AllSteps]⟩
  | cons action rest inductionHypothesis =>
      obtain ⟨freshFirst, freshRest⟩ := fresh
      obtain ⟨first, firstBalance, firstIff⟩ :=
        indices_step freshFirst (shutdown_of_run _ running)
      obtain ⟨later, laterBalance, laterIff⟩ :=
        inductionHypothesis freshRest running
      refine ⟨first + later, ?_, ?_⟩
      · exact balance_trans firstBalance laterBalance
      · rw [← Multiset.card_eq_zero, Multiset.card_add,
          Nat.add_eq_zero_iff, Multiset.card_eq_zero, Multiset.card_eq_zero,
          firstIff, laterIff]
        rfl

/-- Before shutdown the supervisor accounts for every worker exactly if no
`fork` has failed and no child has exited onto a CPU with a scheduled
restart. -/
theorem accounted_run_iff
    (cpus : List UInt32)
    (actions : List SupervisorAction)
    (fresh :
      AllSteps (step cpus) (fun s action => action.Fresh s) initial actions)
    (preforked : (initial.run cpus actions).preforked = cpus.length)
    (running : (initial.run cpus actions).shutdown = false) :
    (initial.run cpus actions).Accounted cpus.length ↔
      AllSteps (step cpus)
        (fun s action => action.Keeps cpus s) initial actions := by
  obtain ⟨lost, balance, lostIff⟩ := indices_run fresh running
  rw [← lostIff, Multiset.eq_zero_iff_forall_notMem]
  have counts : ∀ idx,
      lost.count idx + (initial.run cpus actions).indices.count idx =
        if idx < cpus.length then 1 else 0 := by
    intro idx
    have counted := congrArg (Multiset.count idx) balance
    have nothing : initial.indices = 0 := rfl
    rw [preforked, nothing, Multiset.zero_add, Multiset.count_add,
      Multiset.count_add] at counted
    rw [Multiset.count_eq_of_nodup (Multiset.nodup_range cpus.length)]
      at counted
    simpa [initial] using counted
  constructor
  · intro accounted idx
    rw [← Multiset.count_eq_zero]
    have counted := counts idx
    split at counted
    · rename_i below
      have once := accounted idx below
      omega
    · omega
  · intro nothingLost idx below
    have counted := counts idx
    rw [if_pos below, Multiset.count_eq_zero.mpr (nothingLost idx)]
      at counted
    omega

/-- Two workers on one CPU, both of which die and are started again one
after the other. -/
def restartedRun : List SupervisorAction :=
  [.prefork 0 (.parent 100), .prefork 0 (.parent 101),
    .reap 100 1, .restart 0 (fromSecs 3) (.parent 102),
    .reap 101 (fromSecs 3), .restart 0 (fromSecs 6) (.parent 103)]

/-- Dying one after the other, both workers of the CPU are started again. -/
theorem accounted_restartedRun :
    (initial.run [0, 0] restartedRun).Accounted 2 :=
  (accounted_run_iff [0, 0] restartedRun
    (by decide) (by decide) (by decide)).mpr (by decide)

/-- The workers die at the same time: the second exit replaces the restart
that the first has scheduled. -/
def sharedCpuRun : List SupervisorAction :=
  [.prefork 0 (.parent 100), .prefork 0 (.parent 101),
    .reap 100 1, .reap 101 2]

/-- The restart of the only worker fails in `fork`. -/
def failedForkRun : List SupervisorAction :=
  [.prefork 0 (.parent 100), .reap 100 1, .restart 0 (fromSecs 3) .error]

/-- A shared CPU loses a worker although every `fork` succeeds, and a failed
`fork` loses one although no CPU is shared. -/
theorem not_accounted_sharedCpuRun_failedForkRun :
    (AllSteps (step [0, 0]) (fun s action => action.Fresh s)
          initial sharedCpuRun ∧
        (initial.run [0, 0] sharedCpuRun).preforked = 2 ∧
        (initial.run [0, 0] sharedCpuRun).shutdown = false ∧
        ¬ (initial.run [0, 0] sharedCpuRun).Accounted 2) ∧
      AllSteps (step [0]) (fun s action => action.Fresh s)
          initial failedForkRun ∧
        (initial.run [0] failedForkRun).preforked = 1 ∧
        (initial.run [0] failedForkRun).shutdown = false ∧
        ¬ (initial.run [0] failedForkRun).Accounted 1 := by
  decide

end Supervisor

end Accounting

section DistinctCpus

/-- The `fork` of an action, if it has one, succeeds. -/
def SupervisorAction.Forks : SupervisorAction → Prop
  | prefork _ fork => fork ≠ .error
  | restart _ _ fork => fork ≠ .error
  | _ => True

namespace Supervisor

/-- Every worker is on the CPU that the list gives its index. -/
structure Placed (cpus : List UInt32) (s : Supervisor) : Prop where
  children :
    ∀ pid child, s.children.lookup pid = some child →
      cpus[child.idx]? = some child.cpu
  restarts :
    ∀ cpu r, s.pendingRestarts.lookup cpu = some r →
      cpus[r.idx]? = some cpu

/-- Spawning on the CPU of an index keeps every worker in its place. -/
theorem placed_spawnWorker
    {cpus : List UInt32}
    {s : Supervisor}
    (placed : s.Placed cpus)
    {cpu : UInt32}
    {childIdx : Nat}
    (onCpu : cpus[childIdx]? = some cpu)
    (fails : UInt32)
    (now : Instant)
    (fork : ForkResult) :
    (s.spawnWorker cpu childIdx fails now fork).Placed cpus := by
  cases fork with
  | error =>
      exact placed
  | parent child =>
      refine ⟨?_, placed.restarts⟩
      intro pid found lookedUp
      rcases lookup_of_lookup_insert lookedUp with ⟨_, rfl⟩ | old
      · exact onCpu
      · exact placed.children pid found old

theorem placed_restart
    {cpus : List UInt32}
    {s : Supervisor}
    (placed : s.Placed cpus)
    (cpu : UInt32)
    (now : Instant)
    (fork : ForkResult) :
    (s.restart cpu now fork).Placed cpus := by
  unfold restart
  split
  · exact placed
  next r found =>
    have taken :
        Placed cpus
          { s with pendingRestarts := s.pendingRestarts.erase cpu } :=
      ⟨placed.children, fun other r lookedUp =>
        placed.restarts other r (lookup_of_lookup_erase lookedUp)⟩
    exact placed_spawnWorker taken (placed.restarts cpu r found) _ _ _

theorem placed_scheduleChildExit
    {cpus : List UInt32}
    {s : Supervisor}
    (placed : s.Placed cpus)
    (pid : Pid)
    (now : Instant) :
    (s.scheduleChildExit pid now).Placed cpus := by
  unfold scheduleChildExit
  split
  · exact placed
  next child found =>
    have taken :
        Placed cpus { s with children := s.children.erase pid } :=
      ⟨fun other child lookedUp =>
        placed.children other child (lookup_of_lookup_erase lookedUp),
        placed.restarts⟩
    dsimp only
    split
    · exact taken
    · refine ⟨taken.children, ?_⟩
      intro cpu r lookedUp
      rcases lookup_of_lookup_insert lookedUp with ⟨rfl, rfl⟩ | old
      · exact placed.children pid child found
      · exact placed.restarts cpu r old

/-- Every step keeps every worker in its place. -/
theorem placed_step
    {cpus : List UInt32}
    {s : Supervisor}
    (placed : s.Placed cpus)
    (action : SupervisorAction) :
    (s.step cpus action).Placed cpus := by
  cases action with
  | prefork now fork =>
      simp only [step]
      split
      next cpu onCpu =>
        have spawned := placed_spawnWorker placed onCpu 0 now fork
        exact ⟨spawned.children, spawned.restarts⟩
      · exact placed
  | restart cpu now fork =>
      simp only [step]
      split
      · exact placed_restart placed cpu now fork
      · exact placed
  | reap pid now =>
      simp only [step]
      split
      · exact placed_scheduleChildExit placed pid now
      · exact placed
  | signal =>
      exact ⟨placed.children, placed.restarts⟩
  | stop =>
      simp only [step, stop]
      split
      · split
        · exact ⟨fun pid child lookedUp => by simp at lookedUp, placed.restarts⟩
        · exact placed
      · exact placed

/-- On distinct CPUs a worker is never reaped onto another's restart. -/
theorem keeps_of_placed
    {cpus : List UInt32}
    (distinct : cpus.Nodup)
    {s : Supervisor}
    (placed : s.Placed cpus)
    (once : s.indices.Nodup)
    {action : SupervisorAction}
    (forks : action.Forks) :
    action.Keeps cpus s := by
  cases action with
  | prefork now fork =>
      exact fun _ => forks
  | restart cpu now fork =>
      exact fun _ => forks
  | reap pid now =>
      intro _ child found scheduled
      obtain ⟨r, lookedUp⟩ := Option.isSome_iff_exists.mp
        (AList.lookup_isSome.mpr scheduled)
      have onCpu := placed.children pid child found
      have sameCpu := placed.restarts child.cpu r lookedUp
      have below : child.idx < cpus.length :=
        (List.getElem?_eq_some_iff.mp onCpu).1
      have sameIdx : child.idx = r.idx :=
        (List.getElem?_inj below distinct).mp (onCpu.trans sameCpu.symm)
      rw [indices, items_of_lookup found, items_of_lookup lookedUp,
        Multiset.cons_add, Multiset.nodup_cons] at once
      refine once.1 (Multiset.mem_add.mpr (.inr ?_))
      rw [sameIdx]
      exact Multiset.mem_cons_self _ _
  | signal =>
      trivial
  | stop =>
      trivial

/-- With distinct CPUs and forks that succeed, the indices in use are those
handed out. -/
theorem indices_run_of_nodup
    {cpus : List UInt32}
    (distinct : cpus.Nodup)
    {s : Supervisor}
    (placed : s.Placed cpus)
    (indices : s.indices = Multiset.range s.preforked)
    {actions : List SupervisorAction}
    (fresh : AllSteps (step cpus) (fun s action => action.Fresh s) s actions)
    (forks : ∀ action ∈ actions, action.Forks)
    (running : (s.run cpus actions).shutdown = false) :
    (s.run cpus actions).indices =
      Multiset.range (s.run cpus actions).preforked := by
  induction actions generalizing s with
  | nil =>
      exact indices
  | cons action rest inductionHypothesis =>
      rw [List.forall_mem_cons] at forks
      obtain ⟨lost, balance, lostIff⟩ :=
        indices_step fresh.1 (shutdown_of_run _ running)
      have once : s.indices.Nodup := by
        rw [indices]
        exact Multiset.nodup_range _
      have nothing : lost = 0 :=
        lostIff.mpr (keeps_of_placed distinct placed once forks.1)
      rw [nothing, Multiset.zero_add, indices, add_comm] at balance
      exact inductionHypothesis (placed_step placed action)
        (add_left_cancel balance) fresh.2 forks.2 running

/-- With distinct CPUs only a failing `fork` loses a worker. -/
theorem accounted_run_of_nodup
    {cpus : List UInt32}
    (distinct : cpus.Nodup)
    {actions : List SupervisorAction}
    (fresh :
      AllSteps (step cpus) (fun s action => action.Fresh s) initial actions)
    (forks : ∀ action ∈ actions, action.Forks)
    (preforked : (initial.run cpus actions).preforked = cpus.length)
    (running : (initial.run cpus actions).shutdown = false) :
    (initial.run cpus actions).Accounted cpus.length := by
  have placed : Placed cpus initial :=
    ⟨fun pid child lookedUp => by simp [initial] at lookedUp,
      fun cpu r lookedUp => by simp [initial] at lookedUp⟩
  have exact := indices_run_of_nodup distinct placed rfl fresh forks running
  intro idx below
  rw [exact, preforked, Multiset.count_eq_of_nodup (Multiset.nodup_range _),
    if_pos (Multiset.mem_range.mpr below)]

end Supervisor

end DistinctCpus

end DnsServices.Microdoh3
