import DnsServices.Seqlock
import DnsServices.Shared

namespace DnsServices.Shared

/-!
# A worker's score slot

`ScoreWriter::write` and `ScoreReader::read` as a sequence lock over the
fields of one slot.  The writer of a slot is one worker process at a time; a
killed worker is replaced by one that writes the same slot.  A worker killed
inside a write leaves an odd counter behind, and its successor then works with
inverted parity.
-/

open Seqlock

/-- The words of a slot behind the counter. -/
inductive ScoreField where
  | addr
  | score
  | ok
  | fail
  | flags
  | updatedMonoSecs
  deriving Repr, DecidableEq

/-- The stored form of each field. -/
abbrev ScoreField.Word : ScoreField → Type
  | .addr => RawAddr
  | .score => UInt32
  | .ok => UInt32
  | .fail => UInt32
  | .flags => UInt32
  | .updatedMonoSecs => UInt64

/-- One call of `ScoreWriter::write` and the clock value it reads. -/
structure ScoreWrite where
  sample : ScoreSample
  monoNowSecs : UInt64
  deriving Repr, DecidableEq

namespace ScoreWrite

/-- The field stores between the two stores to the counter. -/
def stores (write : ScoreWrite) : List (Store ScoreField.Word) :=
  [⟨.addr, fun _ =>
      (write.sample.addr.map RawAddr.fromIp).getD RawAddr.default⟩,
    ⟨.score, fun _ => write.sample.score⟩,
    ⟨.ok, fun _ => write.sample.ok⟩,
    ⟨.fail, fun _ => write.sample.fail⟩,
    ⟨.flags, fun _ => write.sample.flags⟩,
    ⟨.updatedMonoSecs, fun _ => write.monoNowSecs⟩]

/-- The sample a call records: the time of the update is the clock's. -/
def recorded (write : ScoreWrite) : ScoreSample :=
  { write.sample with updatedMonoSecs := write.monoNowSecs }

end ScoreWrite

/-- The loads of `ScoreReader::read` and the sample built from them. -/
def scoreReadProgram : ReadProgram ScoreField.Word ScoreSample :=
  .load .addr fun addr =>
  .load .score fun score =>
  .load .ok fun ok =>
  .load .fail fun fail =>
  .load .flags fun flags =>
  .load .updatedMonoSecs fun updatedMonoSecs =>
  .done
    { addr := if addr.isNone then none else some addr.toIp
      score := score
      ok := ok
      fail := fail
      flags := flags
      updatedMonoSecs := updatedMonoSecs }

/-- A reader of scores never skips a sequence number but the initial 0. -/
def scoreProtocol : Protocol ScoreField.Word ScoreWrite ScoreSample where
  stores := ScoreWrite.stores
  program := scoreReadProgram
  remembers := false

/-- A fresh page is zero. -/
def zeroSlot : Memory ScoreField.Word
  | .addr => RawAddr.default
  | .score => 0
  | .ok => 0
  | .fail => 0
  | .flags => 0
  | .updatedMonoSecs => 0

/-- One slot, its writer and the supervisor's readers. -/
abbrev ScoreSystem (ρ : Type) :=
  System ScoreField.Word ScoreWrite ScoreSample ρ

/-- The page as the supervisor creates it. -/
def ScoreSystem.new (ρ : Type) : ScoreSystem ρ :=
  System.new zeroSlot

/-- A completed write is read back as its sample. -/
theorem scoreReadProgram_stores
    {write : ScoreWrite}
    (notZero : write.sample.addr ≠ some (.v4 0 0 0 0))
    (memory : Memory ScoreField.Word) :
    scoreReadProgram.run (write.stores.foldl Store.apply memory) =
      write.recorded := by
  have stored :
      scoreReadProgram.run (write.stores.foldl Store.apply memory) =
        { write.recorded with
          addr :=
            let raw :=
              (write.sample.addr.map RawAddr.fromIp).getD RawAddr.default
            if raw.isNone then none else some raw.toIp } := rfl
  rw [stored]
  cases addr : write.sample.addr with
  | none =>
      simp [ScoreWrite.recorded, addr, RawAddr.isNone_default]
  | some ip =>
      have notNone : ¬ (RawAddr.fromIp ip).isNone = true := by
        rw [RawAddr.isNone_fromIp]
        rintro rfl
        exact notZero addr
      simp [ScoreWrite.recorded, addr, notNone]

/-! ## Runs with worker crashes -/

section Runs

variable {ρ : Type} [DecidableEq ρ]

/-- What the slot is for, after the given steps from a fresh page. -/
structure ScoreSlotSafe (actions : List (Action ScoreWrite ρ)) : Prop where
  /-- Whatever a reader gets is the sample of one write call. -/
  untorn :
    ∀ reader sample,
      (reader, some sample) ∈
          ((ScoreSystem.new ρ).run scoreProtocol actions).2 →
        ∃ write ∈
            ((ScoreSystem.new ρ).run scoreProtocol actions).1.committed,
          sample = write.recorded
  /-- After a finished write an undisturbed read returns its sample. -/
  current :
    ∀ write reader,
      ((ScoreSystem.new ρ).run scoreProtocol actions).1.finished =
          some write →
        (((ScoreSystem.new ρ).run scoreProtocol actions).1.readers
            reader).call = none →
          (((ScoreSystem.new ρ).run scoreProtocol actions).1.run
              scoreProtocol (List.replicate 8 (.read reader))).2 =
            [(reader, some write.recorded)]

/--
A write stores its first counter value over an even counter and does not
record the address 0.0.0.0.
-/
def SafeScoreStep
    (s : ScoreSystem ρ)
    (action : Action ScoreWrite ρ) : Prop :=
  EvenEntry s action ∧
    match action with
    | .begin write => write.sample.addr ≠ some (.v4 0 0 0 0)
    | _ => True

instance (s : ScoreSystem ρ) (action : Action ScoreWrite ρ) :
    Decidable (SafeScoreStep s action) := by
  unfold SafeScoreStep
  cases action <;> infer_instance

omit [DecidableEq ρ] in
/-- The last completed write determines the image of the slot. -/
theorem run_image_of_getLast
    {calls : List ScoreWrite}
    {write : ScoreWrite}
    (last : calls.getLast? = some write)
    (notZero : write.sample.addr ≠ some (.v4 0 0 0 0)) :
    scoreReadProgram.run (image scoreProtocol zeroSlot calls) =
      write.recorded := by
  obtain ⟨earlier, rfl⟩ := List.getLast?_eq_some_iff.mp last
  rw [image_snoc]
  exact scoreReadProgram_stores notZero _

/--
As long as no write starts over an odd counter, crashes are harmless: reads
are never torn, and a finished write can be read back.
-/
theorem scoreSlotSafe_of_safeSteps
    (actions : List (Action ScoreWrite ρ))
    (few : writesBegun actions < 2 ^ 31)
    (safe :
      AllSteps scoreProtocol SafeScoreStep (ScoreSystem.new ρ) actions) :
    ScoreSlotSafe actions := by
  have entries :
      AllSteps scoreProtocol EvenEntry (ScoreSystem.new ρ) actions :=
    safe.imp fun _ _ meets => meets.1
  have begun :
      ∀ write, .begin write ∈ actions →
        write.sample.addr ≠ some (.v4 0 0 0 0) := by
    intro write member
    have eachStep :
        AllSteps scoreProtocol
          (fun _ action =>
            ∀ write, action = Action.begin write →
              write.sample.addr ≠ some (.v4 0 0 0 0))
          (ScoreSystem.new ρ) actions := by
      refine safe.imp ?_
      rintro s action meets other rfl
      exact meets.2
    exact eachStep.of_mem member write rfl
  have started : Invariant scoreProtocol zeroSlot (ScoreSystem.new ρ) :=
    invariant_new
  have invariant := run_invariant started entries
  have meets :
      CallsMeet (fun write => write.sample.addr ≠ some (.v4 0 0 0 0))
        ((ScoreSystem.new ρ).run scoreProtocol actions).1 :=
    run_callsMeet (callsMeet_new _ zeroSlot) begun
  have fresh : writesSoFar (ScoreSystem.new ρ) = 0 := rfl
  refine ⟨?_, ?_⟩
  · intro reader sample member
    have close :
        AllSteps scoreProtocol LoadsClose (ScoreSystem.new ρ) actions :=
      allSteps_loadsClose (by omega)
    obtain ⟨calls, write, last, isCommitted, rfl⟩ :=
      run_returned started entries close member
    exact ⟨write, isCommitted,
      run_image_of_getLast last (meets.committed write isCommitted)⟩
  · intro write reader finished noCall
    obtain ⟨-, -, memory, last⟩ := invariant.finished write finished
    have fewCommitted :=
      Nat.lt_of_le_of_lt
        (@run_committed_le _ _ _ _ _ _ scoreProtocol
          (ScoreSystem.new ρ) _ actions)
        (by omega : writesSoFar (ScoreSystem.new ρ) + writesBegun actions <
          2 ^ 31)
    obtain ⟨notLast, notOdd⟩ :=
      invariant.ready finished fewCommitted rfl reader
    have readAlone :=
      @run_undisturbed _ _ _ _ _ _ scoreProtocol _ _ reader
        noCall notLast notOdd
    have recorded :=
      run_image_of_getLast last
        (meets.committed write (List.mem_of_getLast? last))
    rw [memory] at readAlone
    rw [← recorded]
    exact readAlone

end Runs

/-- The write of an address and its score. -/
def scoreWriteOf (last : UInt8) (score : UInt32) : ScoreWrite where
  sample :=
    { addr := some (.v4 9 9 9 last)
      score := score
      ok := 1
      fail := 0
      flags := flagConnected
      updatedMonoSecs := 0 }
  monoNowSecs := 100

/-- A reader is overtaken by the second of two writes and reads again. -/
def overtakenRead : List (Action ScoreWrite Unit) :=
  [.begin (scoreWriteOf 1 50)] ++ List.replicate 8 .write ++
    List.replicate 8 (.read ()) ++ [.begin (scoreWriteOf 2 60)] ++
    List.replicate 2 (.read ()) ++ List.replicate 8 .write ++
    List.replicate 14 (.read ())

theorem scoreSlotSafe_of_safeSteps_two_writes :
    ((ScoreSystem.new Unit).run scoreProtocol overtakenRead).2 =
        [((), some (scoreWriteOf 1 50).recorded), ((), none),
          ((), some (scoreWriteOf 2 60).recorded)] ∧
      ((ScoreSystem.new Unit).run scoreProtocol overtakenRead).1.finished =
        some (scoreWriteOf 2 60) ∧
      (((ScoreSystem.new Unit).run scoreProtocol overtakenRead).1.readers
          ()).call = none ∧
      ScoreSlotSafe overtakenRead :=
  ⟨by decide, by decide, by rfl,
    scoreSlotSafe_of_safeSteps overtakenRead (by decide) (by decide)⟩

/--
A worker is killed after it stored the address.  The first counter store of
its successor makes the counter even, so a reader accepts the dead worker's
address beside the untouched score; after the successor has finished, the
counter is odd and nothing can be read.
-/
def crashRun : List (Action ScoreWrite Unit) :=
  [.begin (scoreWriteOf 1 50), .write, .write, .kill,
      .begin (scoreWriteOf 2 60), .write] ++
    List.replicate 8 (.read ()) ++ List.replicate 7 .write

/-- What the reader gets in `crashRun`: one worker's address, no score. -/
def mixedSample : ScoreSample where
  addr := some (.v4 9 9 9 1)
  score := 0
  ok := 0
  fail := 0
  flags := 0
  updatedMonoSecs := 0

/-- After the crash a reader takes one worker's address with no score for a
sample. -/
theorem crashRun_unsafe :
    writesBegun crashRun < 2 ^ 31 ∧ ¬ ScoreSlotSafe crashRun := by
  refine ⟨by decide, ?_⟩
  intro safe
  have returned :
      ((), some mixedSample) ∈
        ((ScoreSystem.new Unit).run scoreProtocol crashRun).2 := by
    decide
  have committed :
      ((ScoreSystem.new Unit).run scoreProtocol crashRun).1.committed =
        [scoreWriteOf 2 60] := by
    decide
  obtain ⟨write, member, recorded⟩ := safe.untorn () mixedSample returned
  rw [committed, List.mem_singleton] at member
  rw [member] at recorded
  exact absurd recorded (by decide)

/-- After `crashRun` the finished write cannot be read. -/
example :
    ((ScoreSystem.new Unit).run scoreProtocol crashRun).1.finished =
        some (scoreWriteOf 2 60) ∧
      (((ScoreSystem.new Unit).run scoreProtocol crashRun).1.run
          scoreProtocol (List.replicate 8 (.read ()))).2 =
        List.replicate 8 ((), none) := by
  decide

end DnsServices.Shared
