import DnsServices.Runs
import DnsServices.ScoreSlot

namespace DnsServices.Shared

/-!
# The page of score slots

`ScoreWriter::map` gives every worker a slot of the page, and workers beyond
the last slot share it.  Each worker brackets its stores with the counter it
has loaded itself, so a shared slot has several writers.  Write calls carry
the index of their worker, which is history only: no store or load sees it.
-/

open Seqlock

/-- Max worker processes with a score slot. -/
def maxWorkers : Nat := 32

/-- The slot that `ScoreWriter::map` claims for a worker. -/
def slotIndex (idx : Nat) : Fin maxWorkers :=
  ⟨min idx (maxWorkers - 1), by simp [maxWorkers]⟩

/-- One slot; a call is a write of the worker with the given index. -/
def ownedProtocol :
    Protocol ScoreField.Word (Nat × ScoreWrite) ScoreSample where
  stores := fun call => call.2.stores
  program := scoreReadProgram
  remembers := false

/-- A slot whose writes carry the worker they come from. -/
abbrev OwnedSystem :=
  System ScoreField.Word (Nat × ScoreWrite) ScoreSample Unit

/-- The slots with the supervisor's reads of them, and where each worker
stands in its write. -/
structure ScorePage where
  slots : Fin maxWorkers → OwnedSystem
  writers : Nat → Writer ScoreField.Word (Nat × ScoreWrite)

/-- One step of a worker or of the supervisor. -/
inductive PageAction where
  /-- A worker starts a write and loads the counter of its slot. -/
  | begin (worker : Nat) (write : ScoreWrite)
  /-- A worker makes its next store. -/
  | write (worker : Nat)
  /-- The supervisor makes its next load for `ScoreReader::read(idx)`. -/
  | read (idx : Nat)
  deriving Repr, DecidableEq

namespace ScorePage

/-- A page that nobody has written. -/
def new : ScorePage where
  slots := fun _ => System.new zeroSlot
  writers := fun _ => .idle

/-- A slot as one worker sees it. -/
def slotOf (page : ScorePage) (worker : Nat) : OwnedSystem :=
  { page.slots (slotIndex worker) with writer := page.writers worker }

/-- A step of a worker on its slot. -/
def workerStep
    (page : ScorePage)
    (worker : Nat)
    (action : Action (Nat × ScoreWrite) Unit) : ScorePage :=
  let stepped := ((page.slotOf worker).step ownedProtocol action).1
  { slots := Function.update page.slots (slotIndex worker) stepped
    writers := Function.update page.writers worker stepped.writer }

/-- One step and what it makes a read return. -/
def step
    (page : ScorePage) :
    PageAction → ScorePage × List (Nat × Option ScoreSample)
  | .begin worker write =>
      (page.workerStep worker (.begin (worker, write)), [])
  | .write worker => (page.workerStep worker .write, [])
  | .read idx =>
      if inRange : idx < maxWorkers then
        let stepped :=
          (page.slots ⟨idx, inRange⟩).step ownedProtocol (.read ())
        ({ page with
            slots := Function.update page.slots ⟨idx, inRange⟩ stepped.1 },
          stepped.2.map fun output => (idx, output.2))
      else
        (page, [(idx, none)])

/-- A run and everything the reads return in it, in order. -/
def run :
    ScorePage → List PageAction →
      ScorePage × List (Nat × Option ScoreSample)
  | page, [] => (page, [])
  | page, action :: rest =>
      let stepped := page.step action
      let later := stepped.1.run rest
      (later.1, stepped.2 ++ later.2)

end ScorePage

section Ownership

/-- A worker with a slot of its own writes an address that is read back as it
is, and fewer than `2 ^ 31` writes of a slot complete between two loads of its
counter. -/
def SafePageStep (page : ScorePage) : PageAction → Prop
  | .begin worker write =>
      worker < maxWorkers ∧ write.sample.addr ≠ some (.v4 0 0 0 0)
  | .write worker => worker < maxWorkers
  | .read idx =>
      ∀ inRange : idx < maxWorkers,
        LoadsClose (page.slots ⟨idx, inRange⟩) (.read ())

instance decidableSafePageStep
    (page : ScorePage) :
    ∀ action, Decidable (SafePageStep page action)
  | .begin _ _ => inferInstanceAs (Decidable (_ ∧ _))
  | .write worker => inferInstanceAs (Decidable (worker < maxWorkers))
  | .read idx =>
      inferInstanceAs (Decidable (∀ inRange : idx < maxWorkers,
        LoadsClose (page.slots ⟨idx, inRange⟩) (.read ())))

/-- The part of a step that concerns one slot. -/
def PageAction.onSlot
    (slot : Fin maxWorkers) :
    PageAction → Option (Action (Nat × ScoreWrite) Unit)
  | begin worker call =>
      if worker = slot then some (.begin (worker, call)) else none
  | write worker => if worker = slot then some .write else none
  | read idx => if idx = slot then some (.read ()) else none

theorem slotIndex_of_lt {worker : Nat} (inPage : worker < maxWorkers) :
    slotIndex worker = ⟨worker, inPage⟩ := by
  refine Fin.ext ?_
  have below : worker ≤ maxWorkers - 1 := Nat.le_sub_one_of_lt inPage
  exact Nat.min_eq_left below

/-- Reading does not look at the writer. -/
theorem readStep_writer
    (s : OwnedSystem)
    (writer : Writer ScoreField.Word (Nat × ScoreWrite)) :
    ({ s with writer := writer } : OwnedSystem).step ownedProtocol
        (.read ()) =
      ({ (s.step ownedProtocol (.read ())).1 with writer := writer },
        (s.step ownedProtocol (.read ())).2) := by
  simp only [System.step, System.readStep]
  split
  · split <;> rfl
  · rfl
  · split
    · rfl
    · split <;> rfl

namespace ScorePage

/-- The slot of a worker after a step of that worker. -/
theorem slotOf_workerStep_same
    (page : ScorePage)
    (worker : Nat)
    (action : Action (Nat × ScoreWrite) Unit) :
    (page.workerStep worker action).slotOf worker =
      ((page.slotOf worker).step ownedProtocol action).1 := by
  simp [slotOf, workerStep]

/-- A worker with another slot changes nothing. -/
theorem slotOf_workerStep_other
    (page : ScorePage)
    {worker other : Nat}
    (action : Action (Nat × ScoreWrite) Unit)
    (differentWorker : other ≠ worker)
    (differentSlot : slotIndex other ≠ slotIndex worker) :
    (page.workerStep worker action).slotOf other = page.slotOf other := by
  simp [slotOf, workerStep, differentWorker, differentSlot]

theorem slotIndex_coe (slot : Fin maxWorkers) : slotIndex slot = slot :=
  slotIndex_of_lt slot.2

/-- A step that concerns a slot is a step of that slot. -/
theorem step_onSlot
    (page : ScorePage)
    {action : PageAction}
    {slot : Fin maxWorkers}
    {part : Action (Nat × ScoreWrite) Unit}
    (concerns : action.onSlot slot = some part) :
    (page.step action).1.slotOf slot =
        ((page.slotOf slot).step ownedProtocol part).1 ∧
      (page.step action).2 =
        ((page.slotOf slot).step ownedProtocol part).2.map
          fun output => (slot.1, output.2) := by
  cases action with
  | begin worker call =>
      simp only [PageAction.onSlot, Option.ite_none_right_eq_some] at concerns
      obtain ⟨rfl, isPart⟩ := concerns
      cases isPart
      refine ⟨page.slotOf_workerStep_same slot _, ?_⟩
      simp only [step, System.step]
      split <;> rfl
  | write worker =>
      simp only [PageAction.onSlot, Option.ite_none_right_eq_some] at concerns
      obtain ⟨rfl, isPart⟩ := concerns
      cases isPart
      exact ⟨page.slotOf_workerStep_same slot _, rfl⟩
  | read idx =>
      simp only [PageAction.onSlot, Option.ite_none_right_eq_some] at concerns
      obtain ⟨rfl, isPart⟩ := concerns
      cases isPart
      have reading :=
        readStep_writer (page.slots slot) (page.writers slot)
      simp only [step, slot.2, dif_pos, slotOf, slotIndex_coe, reading]
      simp

/-- Any other safe step leaves the slot alone and returns nothing of it. -/
theorem step_offSlot
    {page : ScorePage}
    {action : PageAction}
    (safe : SafePageStep page action)
    {slot : Fin maxWorkers}
    (elsewhere : action.onSlot slot = none) :
    (page.step action).1.slotOf slot = page.slotOf slot ∧
      ∀ result, (slot.1, result) ∉ (page.step action).2 := by
  have otherSlot {worker : Nat} (inPage : worker < maxWorkers)
      (different : worker ≠ slot) :
      slotIndex slot ≠ slotIndex worker := by
    rw [slotIndex_coe, slotIndex_of_lt inPage]
    intro same
    exact different (congrArg Fin.val same).symm
  cases action with
  | begin worker call =>
      have different : worker ≠ slot := by
        simpa [PageAction.onSlot] using elsewhere
      exact ⟨page.slotOf_workerStep_other _ (Ne.symm different)
        (otherSlot safe.1 different), by simp [step]⟩
  | write worker =>
      have different : worker ≠ slot := by
        simpa [PageAction.onSlot] using elsewhere
      exact ⟨page.slotOf_workerStep_other _ (Ne.symm different)
        (otherSlot safe different), by simp [step]⟩
  | read idx =>
      have different : idx ≠ slot := by
        simpa [PageAction.onSlot] using elsewhere
      simp only [step]
      split
      · rename_i inRange
        have otherIndex : slot ≠ ⟨idx, inRange⟩ := by
          rintro rfl
          exact different rfl
        refine ⟨?_, ?_⟩
        · simp [slotOf, slotIndex_coe, otherIndex]
        · intro result member
          obtain ⟨output, _, same⟩ := List.mem_map.mp member
          exact different (Prod.ext_iff.mp same).1
      · refine ⟨rfl, ?_⟩
        intro result member
        rw [List.mem_singleton] at member
        exact different (Prod.ext_iff.mp member).1.symm

/-- A safe step of the page is a safe step of each slot. -/
theorem loadsClose_onSlot
    {page : ScorePage}
    {action : PageAction}
    (safe : SafePageStep page action)
    {slot : Fin maxWorkers}
    {part : Action (Nat × ScoreWrite) Unit}
    (concerns : action.onSlot slot = some part) :
    LoadsClose (page.slotOf slot) part := by
  cases action with
  | begin worker call =>
      simp only [PageAction.onSlot, Option.ite_none_right_eq_some] at concerns
      cases concerns.2
      trivial
  | write worker =>
      simp only [PageAction.onSlot, Option.ite_none_right_eq_some] at concerns
      cases concerns.2
      trivial
  | read idx =>
      simp only [PageAction.onSlot, Option.ite_none_right_eq_some] at concerns
      obtain ⟨rfl, isPart⟩ := concerns
      cases isPart
      rw [slotOf, slotIndex_coe]
      exact safe slot.2

/-- The steps of a run that concern a slot are a run of that slot. -/
theorem run_onSlot
    {page : ScorePage}
    {actions : List PageAction}
    (safe :
      Runs.AllSteps (fun page action => (step page action).1) SafePageStep
        page actions)
    (slot : Fin maxWorkers) :
    (page.run actions).1.slotOf slot =
        ((page.slotOf slot).run ownedProtocol
          (actions.filterMap fun action => action.onSlot slot)).1 ∧
      (∀ result, (slot.1, result) ∈ (page.run actions).2 →
        ((), result) ∈
          ((page.slotOf slot).run ownedProtocol
            (actions.filterMap fun action => action.onSlot slot)).2) ∧
      AllSteps ownedProtocol LoadsClose (page.slotOf slot)
        (actions.filterMap fun action => action.onSlot slot) := by
  induction actions generalizing page with
  | nil =>
      exact ⟨rfl, by simp [run], trivial⟩
  | cons action rest inductionHypothesis =>
      obtain ⟨safeFirst, safeRest⟩ := safe
      obtain ⟨reached, returned, close⟩ := inductionHypothesis safeRest
      cases concerns : action.onSlot slot with
      | none =>
          obtain ⟨unchanged, silent⟩ := step_offSlot safeFirst concerns
          rw [List.filterMap_cons_none concerns, ← unchanged]
          refine ⟨reached, ?_, close⟩
          intro result member
          rcases List.mem_append.mp member with now | later
          · exact (silent result now).elim
          · exact returned result later
      | some part =>
          obtain ⟨stepped, outputs⟩ := page.step_onSlot concerns
          rw [List.filterMap_cons_some concerns]
          rw [stepped] at reached returned close
          refine ⟨reached, ?_, loadsClose_onSlot safeFirst concerns, close⟩
          · intro result member
            rcases List.mem_append.mp member with now | later
            · rw [outputs] at now
              obtain ⟨output, outputMember, same⟩ := List.mem_map.mp now
              refine List.mem_append_left _ ?_
              have result_eq : output.2 = result := (Prod.ext_iff.mp same).2
              rw [← result_eq]
              exact outputMember
            · exact List.mem_append_right _ (returned result later)

/-- Beyond the page every read returns nothing. -/
theorem lt_of_mem_run
    {page : ScorePage}
    {actions : List PageAction}
    {idx : Nat}
    {sample : ScoreSample}
    (member : (idx, some sample) ∈ (page.run actions).2) :
    idx < maxWorkers := by
  induction actions generalizing page with
  | nil =>
      cases member
  | cons action rest inductionHypothesis =>
      rcases List.mem_append.mp member with now | later
      · cases action with
        | begin worker call =>
            cases now
        | write worker =>
            cases now
        | read other =>
            simp only [step] at now
            split at now
            · rename_i inRange
              obtain ⟨output, _, same⟩ := List.mem_map.mp now
              obtain rfl : other = idx := (Prod.ext_iff.mp same).1
              exact inRange
            · simp at now
      · exact inductionHypothesis later

theorem kill_notMem_onSlot
    (actions : List PageAction)
    (slot : Fin maxWorkers) :
    .kill ∉ actions.filterMap fun action => action.onSlot slot := by
  intro member
  obtain ⟨action, _, isKill⟩ := List.mem_filterMap.mp member
  cases action <;> simp [PageAction.onSlot] at isKill

/-- The writes of a slot are those its worker has begun. -/
theorem begin_mem_onSlot
    {actions : List PageAction}
    {slot : Fin maxWorkers}
    {call : Nat × ScoreWrite}
    (member :
      .begin call ∈ actions.filterMap fun action => action.onSlot slot) :
    call.1 = slot ∧ .begin slot call.2 ∈ actions := by
  obtain ⟨action, isAction, isBegin⟩ := List.mem_filterMap.mp member
  cases action with
  | begin worker write =>
      simp only [PageAction.onSlot, Option.ite_none_right_eq_some] at isBegin
      obtain ⟨rfl, same⟩ := isBegin
      cases same
      exact ⟨rfl, isAction⟩
  | write worker =>
      simp [PageAction.onSlot] at isBegin
  | read idx =>
      simp [PageAction.onSlot] at isBegin

/-- The last write of a slot is read back as its sample. -/
theorem run_image_of_getLast_owned
    {calls : List (Nat × ScoreWrite)}
    {call : Nat × ScoreWrite}
    (last : calls.getLast? = some call)
    (notZero : call.2.sample.addr ≠ some (.v4 0 0 0 0)) :
    scoreReadProgram.run (image ownedProtocol zeroSlot calls) =
      call.2.recorded := by
  obtain ⟨earlier, rfl⟩ := List.getLast?_eq_some_iff.mp last
  rw [image_snoc]
  exact scoreReadProgram_stores notZero _

end ScorePage

/-- In every run in which only workers with a slot of their own write, no two
workers share a slot, and whatever the supervisor reads for worker `idx` is
the sample of one write call of that worker. -/
theorem read_own_samples
    (actions : List PageAction)
    (safe :
      Runs.AllSteps (fun page action => (ScorePage.step page action).1)
        SafePageStep ScorePage.new actions) :
    (∀ first firstWrite second secondWrite,
      .begin first firstWrite ∈ actions →
        .begin second secondWrite ∈ actions →
        slotIndex first = slotIndex second → first = second) ∧
    ∀ idx sample,
      (idx, some sample) ∈ (ScorePage.new.run actions).2 →
        ∃ write,
          .begin idx write ∈ actions ∧
            (idx, write) ∈
              ((ScorePage.new.run actions).1.slotOf idx).committed ∧
            sample = write.recorded := by
  have begun : ∀ worker write, .begin worker write ∈ actions →
      worker < maxWorkers ∧ write.sample.addr ≠ some (.v4 0 0 0 0) := by
    have eachStep :
        ∀ action ∈ actions, ∀ worker write, action = .begin worker write →
          worker < maxWorkers ∧ write.sample.addr ≠ some (.v4 0 0 0 0) := by
      refine safe.forall_mem ?_
      rintro page action meets worker write rfl
      exact meets
    intro worker write member
    exact eachStep _ member worker write rfl
  refine ⟨?_, ?_⟩
  · intro first firstWrite second secondWrite isFirst isSecond sameSlot
    rw [slotIndex_of_lt (begun first firstWrite isFirst).1,
      slotIndex_of_lt (begun second secondWrite isSecond).1] at sameSlot
    exact congrArg Fin.val sameSlot
  · intro idx sample member
    have inRange := ScorePage.lt_of_mem_run member
    obtain ⟨reached, returned, close⟩ :=
      ScorePage.run_onSlot safe ⟨idx, inRange⟩
    have fresh :
        ScorePage.new.slotOf idx = System.new zeroSlot := rfl
    rw [fresh] at reached returned close
    have started :
        Invariant ownedProtocol zeroSlot
          (System.new zeroSlot : OwnedSystem) :=
      invariant_new
    have entries :=
      allSteps_evenEntry started
        (fun odd => absurd odd (by decide))
        (ScorePage.kill_notMem_onSlot actions ⟨idx, inRange⟩)
    obtain ⟨calls, call, last, isCommitted, rfl⟩ :=
      run_returned started entries close (returned _ member)
    have owned :=
      (run_callsMeet
        (callsMeet_new
          (fun call : Nat × ScoreWrite =>
            call.1 = idx ∧ .begin idx call.2 ∈ actions) zeroSlot)
        (fun call isBegun =>
          ScorePage.begin_mem_onSlot isBegun)).committed call isCommitted
    obtain ⟨isOwner, isBegun⟩ := owned
    refine ⟨call.2, isBegun, ?_, ?_⟩
    · have same : (idx, call.2) = call := Prod.ext isOwner.symm rfl
      rw [reached, same]
      exact isCommitted
    · exact ScorePage.run_image_of_getLast_owned last
        (begun idx call.2 isBegun).2

/-- A whole write of a worker, and then a whole read. -/
def writeThenRead (worker idx : Nat) : List PageAction :=
  [.begin worker (scoreWriteOf 1 50)] ++ List.replicate 8 (.write worker) ++
    List.replicate 8 (.read idx)

/-- The worker of the last slot reads what it wrote. -/
theorem read_own_samples_last_slot :
    ∃ write,
      .begin 31 write ∈ writeThenRead 31 31 ∧
        (31, write) ∈
          ((ScorePage.new.run (writeThenRead 31 31)).1.slotOf 31).committed ∧
        (scoreWriteOf 1 50).recorded = write.recorded :=
  (read_own_samples (writeThenRead 31 31) (by decide)).2 31
    (scoreWriteOf 1 50).recorded (by decide)

/-- Of 33 workers the last two have the same slot, and the supervisor takes a
sample of worker 32 for one of worker 31, which has written nothing. -/
theorem read_other_sample :
    slotIndex 31 = slotIndex 32 ∧
      (31, some (scoreWriteOf 1 50).recorded) ∈
        (ScorePage.new.run (writeThenRead 32 31)).2 ∧
      ∀ write, .begin 31 write ∉ writeThenRead 32 31 := by
  refine ⟨by decide, by decide, ?_⟩
  intro write
  simp [writeThenRead]

end Ownership

end DnsServices.Shared
