import DnsServices.WorkerScore

namespace DnsServices.Microdoh3

/-!
# The measured quality of an address

The moving average of the request latencies stays between the smallest and the
largest of them, so it is never zero once there is one.  The score is its
reciprocal in whole units, though, and that is zero for every average above a
second, as if nothing had been measured.
-/

open Runs Shared

/-- A latency in whole microseconds, as it enters the average. -/
def micros (latency : Duration) : Nat :=
  min (latency / 1000) u32Max

/-- A call on the quality of an address; no latency is below a microsecond. -/
inductive QualityCall where
  | onSuccess (latency : Duration) (measurable : 1000 ≤ latency)
  | onFailure
  | resetWindow

/-- A call that measures no latency above a second. -/
def QualityCall.Fast : QualityCall → Prop
  | .onSuccess latency _ =>
      micros latency ≤ 1000000
  | .onFailure =>
      True
  | .resetWindow =>
      True

/-- A quality with the latencies that went into it. -/
structure QualityLog where
  quality : Quality
  latencies : List Nat
  deriving DecidableEq

namespace QualityLog

/-- Nothing was measured. -/
def start : QualityLog where
  quality := {}
  latencies := []

/-- A call, and the latency that it was given. -/
def step (log : QualityLog) : QualityCall → QualityLog
  | .onSuccess latency _ =>
      { quality := log.quality.onSuccess latency
        latencies := log.latencies ++ [micros latency] }
  | .onFailure =>
      { log with quality := log.quality.onFailure }
  | .resetWindow =>
      { log with quality := log.quality.resetWindow }

/-- The average is between two of the latencies. -/
def Between (log : QualityLog) : Prop :=
  (∃ latency ∈ log.latencies, latency ≤ log.quality.ewmaUs) ∧
    ∃ latency ∈ log.latencies, log.quality.ewmaUs ≤ latency

/-- A measured address has an average of its latencies and a score. -/
def ShowsMeasurement (log : QualityLog) : Prop :=
  log.latencies ≠ [] →
    log.Between ∧
      ∀ addr flags, 0 < (log.quality.sample addr flags).score

/-- What the average is in every log. -/
structure Averages (log : QualityLog) : Prop where
  positive : ∀ latency ∈ log.latencies, 1 ≤ latency
  unmeasured : log.latencies = [] → log.quality.ewmaUs = 0
  between : log.latencies ≠ [] → log.Between

theorem averages_start : start.Averages where
  positive := by simp [start]
  unmeasured := fun _ => rfl
  between := fun measured => absurd rfl measured

theorem one_le_micros
    {latency : Duration}
    (measurable : 1000 ≤ latency) :
    1 ≤ micros latency := by
  have whole : 1 ≤ latency / 1000 :=
    (Nat.le_div_iff_mul_le (by decide)).mpr measurable
  exact Nat.le_min.mpr ⟨whole, by decide⟩

/-- The average after a success, and that it is between two latencies. -/
theorem between_onSuccess
    {log : QualityLog}
    (averages : log.Averages)
    {latency : Duration}
    (measurable : 1000 ≤ latency) :
    (log.step (.onSuccess latency measurable)).Between := by
  have last :
      micros latency ∈
        (log.step (.onSuccess latency measurable)).latencies := by
    simp [step]
  have ewma :
      (log.step (.onSuccess latency measurable)).quality.ewmaUs =
        if log.quality.ewmaUs = 0 then
          micros latency
        else
          (log.quality.ewmaUs * 3 + micros latency) / 4 :=
    rfl
  rw [Between, ewma]
  split
  · exact ⟨⟨_, last, Nat.le_refl _⟩, _, last, Nat.le_refl _⟩
  next measured =>
    have some : log.latencies ≠ [] := fun none =>
      measured (averages.unmeasured none)
    obtain ⟨⟨low, lowIn, isLow⟩, high, highIn, isHigh⟩ := averages.between some
    have kept {earlier : Nat} (member : earlier ∈ log.latencies) :
        earlier ∈ (log.step (.onSuccess latency measurable)).latencies :=
      List.mem_append_left _ member
    -- the floor of the average of two numbers is not below the smaller one
    refine ⟨?_, ?_⟩
    · rcases Nat.le_total log.quality.ewmaUs (micros latency) with slower | faster
      · exact ⟨low, kept lowIn, by omega⟩
      · exact ⟨_, last, by omega⟩
    · rcases Nat.le_total log.quality.ewmaUs (micros latency) with slower | faster
      · exact ⟨_, last, by omega⟩
      · exact ⟨high, kept highIn, by omega⟩

/-- Every call keeps the average between the latencies it averages. -/
theorem averages_step
    (log : QualityLog)
    (call : QualityCall)
    (averages : log.Averages) :
    (log.step call).Averages := by
  cases call with
  | onSuccess latency measurable =>
      refine ⟨?_, ?_, fun _ => between_onSuccess averages measurable⟩
      · simp only [step, List.forall_mem_append, List.forall_mem_singleton]
        exact ⟨averages.positive, one_le_micros measurable⟩
      · intro none
        simp [step] at none
  | onFailure =>
      exact ⟨averages.positive, averages.unmeasured, averages.between⟩
  | resetWindow =>
      exact ⟨averages.positive, averages.unmeasured, averages.between⟩

/-- Something was measured exactly if the average is not zero. -/
theorem Averages.ewmaUs_pos
    {log : QualityLog}
    (averages : log.Averages)
    (measured : log.latencies ≠ []) :
    0 < log.quality.ewmaUs := by
  obtain ⟨⟨low, lowIn, isLow⟩, -⟩ := averages.between measured
  exact Nat.lt_of_lt_of_le (averages.positive low lowIn) isLow

/-- The new average of a success is at most a second. -/
def WithinSecond (log : QualityLog) : QualityCall → Prop
  | .onSuccess latency _ =>
      if log.quality.ewmaUs = 0 then
        micros latency ≤ 1000000
      else
        log.quality.ewmaUs * 3 + micros latency < 4 * 1000001
  | .onFailure =>
      True
  | .resetWindow =>
      True

/-- A success stays within a second exactly if the average does. -/
theorem withinSecond_iff
    (log : QualityLog)
    {latency : Duration}
    (measurable : 1000 ≤ latency) :
    log.WithinSecond (.onSuccess latency measurable) ↔
      (log.step (.onSuccess latency measurable)).quality.ewmaUs ≤ 1000000 := by
  have ewma :
      (log.step (.onSuccess latency measurable)).quality.ewmaUs =
        if log.quality.ewmaUs = 0 then
          micros latency
        else
          (log.quality.ewmaUs * 3 + micros latency) / 4 :=
    rfl
  rw [WithinSecond, ewma]
  split
  · exact Iff.rfl
  · omega

/-- A measured address shows as measured exactly up to a second. -/
theorem showsMeasurement_iff
    {log : QualityLog}
    (averages : log.Averages)
    (measured : log.latencies ≠ []) :
    log.ShowsMeasurement ↔ log.quality.ewmaUs ≤ 1000000 := by
  have positive := averages.ewmaUs_pos measured
  rw [ShowsMeasurement]
  simp only [measured, ne_eq, not_false_eq_true, forall_const,
    averages.between measured, true_and, Worker.score_sample_pos, positive]

theorem showsMeasurement_step_iff
    (log : QualityLog)
    (call : QualityCall)
    (averages : log.Averages)
    (shown : log.ShowsMeasurement) :
    (log.step call).ShowsMeasurement ↔ log.WithinSecond call := by
  cases call with
  | onSuccess latency measurable =>
      have measured :
          (log.step (.onSuccess latency measurable)).latencies ≠ [] := by
        simp [step]
      rw [withinSecond_iff, showsMeasurement_iff
        (averages_step log (.onSuccess latency measurable) averages) measured]
  | onFailure =>
      exact iff_of_true shown trivial
  | resetWindow =>
      exact iff_of_true shown trivial

/-- Latencies of at most a second never take the average above it. -/
theorem withinSecond_of_fast
    {calls : List QualityCall}
    (fast : ∀ call ∈ calls, call.Fast) :
    AllSteps step WithinSecond start calls := by
  have next (log : QualityLog) (call : QualityCall)
      (isFast : call.Fast)
      (low : log.quality.ewmaUs ≤ 1000000) :
      log.WithinSecond call ∧ (log.step call).quality.ewmaUs ≤ 1000000 := by
    cases call with
    | onSuccess latency measurable =>
        have short : micros latency ≤ 1000000 := isFast
        rw [← withinSecond_iff, and_self, WithinSecond]
        split
        · exact short
        · omega
    | onFailure =>
        exact ⟨trivial, low⟩
    | resetWindow =>
        exact ⟨trivial, low⟩
  exact (allSteps_of_forall_mem fast start).under
    (fun log call isFast low => (next log call isFast low).2)
    (fun log call isFast low => (next log call isFast low).1)
    (Nat.zero_le 1000000)

/--
The average is between the latencies after every call.  A measured address has
a positive score after every call exactly if no success takes the average above
a second.
-/
theorem showsMeasurement_run_iff (calls : List QualityCall) :
    AllStates step (fun log => log.latencies ≠ [] → log.Between) start calls ∧
      (AllStates step ShowsMeasurement start calls ↔
        AllSteps step WithinSecond start calls) := by
  constructor
  · exact allStates_of_invariant averages_step
      (fun _ averages => averages.between) averages_start calls
  · exact allStates_iff_allSteps averages_step showsMeasurement_step_iff
      averages_start (fun measured => absurd rfl measured) calls

/-- One request that took two seconds. -/
def slowRequest : List QualityCall :=
  [.onSuccess (fromSecs 2) (by decide)]

/-- One answer after two seconds scores 0. -/
theorem not_showsMeasurement_slowRequest :
    ¬ ∀ calls : List QualityCall,
      (calls.foldl step start).ShowsMeasurement := by
  intro always
  obtain ⟨-, scored⟩ := always slowRequest (by decide)
  exact absurd (scored none 0) (by decide)

end QualityLog

end DnsServices.Microdoh3
