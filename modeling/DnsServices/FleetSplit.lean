import DnsServices.Apportion
import DnsServices.Shared

namespace DnsServices.Shared

/-!
# The split of the worker fleet over the upstream addresses

`UpstreamSet.slotFor` picks the address whose cumulative-weight interval holds
the midpoint of a worker's slice.  Below the 64-bit limit its machine
arithmetic is the apportionment by midpoints, so the fleet follows the
published weights up to less than one worker per address.
-/

open Apportion

/-- The weights that take part in the split. -/
def UpstreamSet.usedWeights (set : UpstreamSet) : List Nat :=
  (set.weights.take set.usable).map UInt32.toNat

/-- The weights of all usable entries together. -/
def UpstreamSet.totalWeight (set : UpstreamSet) : Nat :=
  set.usedWeights.sum

/-- The weight in front of entry `i`. -/
def UpstreamSet.weightBefore (set : UpstreamSet) (i : Nat) : Nat :=
  (set.usedWeights.take i).sum

/-- The weight of entry `i`. -/
def UpstreamSet.weightAt (set : UpstreamSet) (i : Nat) : Nat :=
  set.usedWeights.getD i 0

/-- How many of the workers are assigned to entry `i`. -/
def UpstreamSet.assigned (set : UpstreamSet) (i : Nat) : Nat :=
  ((Finset.range set.workers.toNat).filter
    fun idx => set.slotFor idx = some i).card

/-- One weight for each usable entry. -/
theorem UpstreamSet.length_usedWeights (set : UpstreamSet) :
    set.usedWeights.length = set.usable := by
  simp [usedWeights, usable]

/-! ## Machine arithmetic -/

/-- One more weight on a sum that does not overflow. -/
theorem toNat_add_weight
    {acc : UInt64}
    {weight : UInt32}
    (bound : acc.toNat + weight.toNat < 2 ^ 64) :
    (acc + weight.toUInt64).toNat = acc.toNat + weight.toNat := by
  rw [UInt64.toNat_add, UInt32.toNat_toUInt64, Nat.mod_eq_of_lt bound]

/-- The 64-bit sum of the weights does not overflow. -/
theorem toNat_foldl_weights
    {weights : List UInt32}
    {acc : UInt64}
    (bound : acc.toNat + (weights.map UInt32.toNat).sum < 2 ^ 64) :
    (weights.foldl (fun sum weight => sum + weight.toUInt64) acc).toNat =
      acc.toNat + (weights.map UInt32.toNat).sum := by
  induction weights generalizing acc with
  | nil =>
      simp
  | cons weight rest inductionHypothesis =>
      simp only [List.map_cons, List.sum_cons] at bound ⊢
      have added :=
        @toNat_add_weight acc weight (by omega)
      rw [List.foldl_cons, inductionHypothesis (by omega), added]
      omega

/-- The loop finds the interval that holds the target. -/
theorem firstAbove_eq_some_iff
    {target acc : UInt64}
    {weights : List UInt32}
    (bound : acc.toNat + (weights.map UInt32.toNat).sum < 2 ^ 64)
    (below : acc.toNat ≤ target.toNat)
    (i : Nat) :
    firstAbove target acc weights = some i ↔
      i < weights.length ∧
        acc.toNat + ((weights.map UInt32.toNat).take i).sum ≤
          target.toNat ∧
        target.toNat <
          acc.toNat + ((weights.map UInt32.toNat).take (i + 1)).sum := by
  induction weights generalizing acc i with
  | nil =>
      simp [firstAbove]
  | cons weight rest inductionHypothesis =>
      simp only [List.map_cons, List.sum_cons] at bound
      have added := @toNat_add_weight acc weight (by omega)
      have less :
          target < acc + weight.toUInt64 ↔
            target.toNat < acc.toNat + weight.toNat := by
        rw [UInt64.lt_iff_toNat_lt, added]
      by_cases found : target < acc + weight.toUInt64
      · have foundNat := less.mp found
        simp only [firstAbove, if_pos found, Option.some.injEq]
        cases i with
        | zero =>
            simpa [below] using foundNat
        | succ i =>
            refine iff_of_false (by omega) ?_
            simp only [List.map_cons, List.take_succ_cons, List.sum_cons]
            omega
      · have notFoundNat : ¬ target.toNat < acc.toNat + weight.toNat :=
          fun above => found (less.mpr above)
        simp only [firstAbove, if_neg found]
        cases i with
        | zero =>
            refine iff_of_false (by simp) ?_
            simpa using fun _ => not_lt.mp notFoundNat
        | succ i =>
            have later :=
              @inductionHypothesis (acc + weight.toUInt64)
                (by omega) (by omega) i
            rw [added] at later
            simpa [Nat.add_assoc] using later

/-- A target below the total lies in some entry's share. -/
theorem firstAbove_ne_none
    {target acc : UInt64}
    {weights : List UInt32}
    (bound : acc.toNat + (weights.map UInt32.toNat).sum < 2 ^ 64)
    (above :
      target.toNat < acc.toNat + (weights.map UInt32.toNat).sum)
    (below : acc.toNat ≤ target.toNat) :
    firstAbove target acc weights ≠ none := by
  induction weights generalizing acc with
  | nil =>
      simp only [List.map_nil, List.sum_nil] at above
      omega
  | cons weight rest inductionHypothesis =>
      simp only [List.map_cons, List.sum_cons] at bound above
      have added := @toNat_add_weight acc weight (by omega)
      by_cases found : target < acc + weight.toUInt64
      · simp [firstAbove, found]
      · have notBelow := found
        rw [UInt64.lt_iff_toNat_lt] at notBelow
        have later :=
          @inductionHypothesis (acc + weight.toUInt64)
            (by omega) (by omega) (by omega)
        simpa [firstAbove, found] using later

/-! ## The assignment -/

section Assignment

variable {set : UpstreamSet}

/-- What the split is stated for: usable entries, weight, workers, no overflow. -/
structure UpstreamSet.Splittable (set : UpstreamSet) : Prop where
  usable : 1 ≤ set.usable
  weight : 0 < set.totalWeight
  workers : 1 ≤ set.workers.toNat
  bound : 2 * set.workers.toNat * set.totalWeight < 2 ^ 64

/-- The midpoint the source computes for a worker of the fleet. -/
theorem UpstreamSet.Splittable.target
    (splittable : set.Splittable)
    {total workers : UInt64}
    {idx : Nat}
    (totalValue : total.toNat = set.totalWeight)
    (workersValue : workers.toNat = set.workers.toNat)
    (inFleet : idx < set.workers.toNat) :
    ((2 * UInt64.ofNat idx + 1) * total / (2 * workers)).toNat =
      (2 * idx + 1) * set.totalWeight / (2 * set.workers.toNat) := by
  have bound := splittable.bound
  have workersBound : set.workers.toNat < 2 ^ 32 := set.workers.toNat_lt
  have product :
      (2 * idx + 1) * set.totalWeight < 2 ^ 64 :=
    calc
      (2 * idx + 1) * set.totalWeight
          ≤ 2 * set.workers.toNat * set.totalWeight :=
        Nat.mul_le_mul_right _ (by omega)
      _ < 2 ^ 64 := bound
  have index : (2 * UInt64.ofNat idx + 1).toNat = 2 * idx + 1 := by
    simp only [UInt64.toNat_add, UInt64.toNat_mul, UInt64.toNat_ofNat',
      UInt64.reduceToNat]
    omega
  have divisor : (2 * workers).toNat = 2 * set.workers.toNat := by
    simp only [UInt64.toNat_mul, workersValue, UInt64.reduceToNat]
    omega
  rw [UInt64.toNat_div, UInt64.toNat_mul, index, divisor, totalValue,
    Nat.mod_eq_of_lt product]

/-- The sum of the used weights fits the accumulator. -/
theorem UpstreamSet.Splittable.sumBound (splittable : set.Splittable) :
    (0 : UInt64).toNat +
        ((set.weights.take set.usable).map UInt32.toNat).sum <
      2 ^ 64 := by
  have workersPos := splittable.workers
  rw [UInt64.toNat_zero, Nat.zero_add]
  refine Nat.lt_of_le_of_lt ?_ splittable.bound
  exact Nat.le_mul_of_pos_left _ (by omega)

/--
With a positive total that fits the accumulator, the slot is where the loop
finds the midpoint; behind all weights it is the last one.
-/
theorem UpstreamSet.slotFor_eq_firstAbove
    (usablePos : 1 ≤ set.usable)
    (weightPos : 0 < set.totalWeight)
    (sumBound :
      (0 : UInt64).toNat +
          ((set.weights.take set.usable).map UInt32.toNat).sum <
        2 ^ 64)
    (idx : Nat) :
    ∃ total : UInt64,
      total.toNat = set.totalWeight ∧
        set.slotFor idx =
          some ((firstAbove
            ((2 * UInt64.ofNat idx + 1) * total /
              (2 * (max set.workers 1).toUInt64))
            0 (set.weights.take set.usable)).getD (set.usable - 1)) := by
  let total :=
    (set.weights.take set.usable).foldl
      (fun sum weight => sum + weight.toUInt64) (0 : UInt64)
  have totalValue : total.toNat = set.totalWeight := by
    rw [toNat_foldl_weights sumBound, UInt64.toNat_zero, Nat.zero_add]
    rfl
  have totalNonzero : total ≠ 0 := by
    intro zero
    rw [zero, UInt64.toNat_zero] at totalValue
    omega
  refine ⟨total, totalValue, ?_⟩
  rw [slotFor]
  simp only
  refine (if_neg (by omega)).trans ((if_neg totalNonzero).trans ?_)
  split
  next slot isSlot =>
    rw [isSlot]
    rfl
  next notFound =>
    rw [notFound]
    rfl

/--
The slot is where the loop finds the midpoint, and the midpoint is below an
amount exactly if the worker's seat is below the cut of that amount.
-/
theorem UpstreamSet.Splittable.slotFor_eq
    (splittable : set.Splittable)
    {idx : Nat}
    (inFleet : idx < set.workers.toNat) :
    ∃ target : UInt64,
      (∀ amount,
        target.toNat < amount ↔
          idx < cut set.totalWeight set.workers.toNat amount) ∧
      firstAbove target 0 (set.weights.take set.usable) ≠ none ∧
      set.slotFor idx =
        firstAbove target 0 (set.weights.take set.usable) := by
  have weightPos := splittable.weight
  have workersPos := splittable.workers
  have usablePos := splittable.usable
  have sumBound := splittable.sumBound
  obtain ⟨total, totalValue, slot⟩ :=
    slotFor_eq_firstAbove usablePos weightPos sumBound idx
  let workers := (max set.workers 1).toUInt64
  let target := (2 * UInt64.ofNat idx + 1) * total / (2 * workers)
  have workersValue : workers.toNat = set.workers.toNat := by
    have atLeastOne : max set.workers 1 = set.workers := by
      by_cases small : set.workers ≤ 1
      · have one : set.workers = 1 := by
          rw [UInt32.le_iff_toNat_le] at small
          exact UInt32.toNat_inj.mp (Nat.le_antisymm small workersPos)
        rw [one]
        rfl
      · exact if_neg small
    rw [UInt32.toNat_toUInt64, atLeastOne]
  have belowIff (amount : Nat) :
      target.toNat < amount ↔
        idx < cut set.totalWeight set.workers.toNat amount := by
    rw [splittable.target totalValue workersValue inFleet,
      lt_cut_iff weightPos, Nat.div_lt_iff_lt_mul (by omega),
      Nat.mul_comm amount]
  have found :
      firstAbove target 0 (set.weights.take set.usable) ≠ none := by
    refine firstAbove_ne_none sumBound ?_ (Nat.zero_le target.toNat)
    rw [belowIff, UInt64.toNat_zero, Nat.zero_add]
    have allSeats := @cut_total set.totalWeight set.workers.toNat weightPos
    rw [totalWeight, usedWeights] at allSeats
    rw [totalWeight, usedWeights, allSeats]
    exact inFleet
  refine ⟨target, belowIff, found, slot.trans ?_⟩
  obtain ⟨i, isSlot⟩ := Option.ne_none_iff_exists'.mp found
  rw [isSlot]
  rfl

/-- A worker takes entry `i` exactly if its seat lies between the cuts. -/
theorem UpstreamSet.Splittable.slotFor_eq_some_iff
    (splittable : set.Splittable)
    {idx : Nat}
    (inFleet : idx < set.workers.toNat)
    (i : Nat) :
    set.slotFor idx = some i ↔
      i < set.usable ∧
        cut set.totalWeight set.workers.toNat (set.weightBefore i) ≤ idx ∧
        idx <
          cut set.totalWeight set.workers.toNat (set.weightBefore (i + 1)) := by
  obtain ⟨target, belowIff, -, shape⟩ := splittable.slotFor_eq inFleet
  have located :=
    firstAbove_eq_some_iff splittable.sumBound (Nat.zero_le target.toNat) i
  have usableWeights : (set.weights.take set.usable).length = set.usable := by
    simpa [usedWeights] using set.length_usedWeights
  rw [usableWeights, UInt64.toNat_zero, Nat.zero_add, Nat.zero_add,
    ← Nat.not_lt, belowIff, belowIff, Nat.not_lt] at located
  rw [shape, located]
  rfl

/-- Every worker of the fleet gets a usable entry. -/
theorem UpstreamSet.Splittable.exists_slot
    (splittable : set.Splittable)
    {idx : Nat}
    (inFleet : idx < set.workers.toNat) :
    ∃ i < set.usable, set.slotFor idx = some i := by
  obtain ⟨target, -, found, shape⟩ := splittable.slotFor_eq inFleet
  obtain ⟨slot, isSlot⟩ := Option.ne_none_iff_exists'.mp found
  have slotFound : set.slotFor idx = some slot := shape.trans isSlot
  exact ⟨slot, ((splittable.slotFor_eq_some_iff inFleet slot).mp slotFound).1,
    slotFound⟩

/-- Cumulative weights grow with the index. -/
theorem UpstreamSet.weightBefore_mono
    (set : UpstreamSet)
    {less more : Nat}
    (ordered : less ≤ more) :
    set.weightBefore less ≤ set.weightBefore more := by
  obtain ⟨extra, rfl⟩ := Nat.exists_eq_add_of_le ordered
  simp [weightBefore, List.take_add]

/-- Cumulative weights stay within the total. -/
theorem UpstreamSet.weightBefore_le (set : UpstreamSet) (i : Nat) :
    set.weightBefore i ≤ set.totalWeight := by
  calc
    set.weightBefore i
        ≤ (set.usedWeights.take i).sum + (set.usedWeights.drop i).sum :=
      Nat.le_add_right _ _
    _ = set.totalWeight := by
      rw [← List.sum_append, List.take_append_drop, totalWeight]

/-- The seats of entry `i` are those between its cuts. -/
theorem UpstreamSet.Splittable.assigned_eq
    (splittable : set.Splittable)
    {i : Nat}
    (isUsable : i < set.usable) :
    set.assigned i =
      cut set.totalWeight set.workers.toNat (set.weightBefore (i + 1)) -
        cut set.totalWeight set.workers.toNat (set.weightBefore i) := by
  have inFleet :
      cut set.totalWeight set.workers.toNat (set.weightBefore (i + 1)) ≤
        set.workers.toNat := by
    calc
      cut set.totalWeight set.workers.toNat (set.weightBefore (i + 1))
          ≤ cut set.totalWeight set.workers.toNat set.totalWeight :=
        cut_mono _ _ (set.weightBefore_le (i + 1))
      _ = set.workers.toNat := cut_total splittable.weight
  rw [assigned, ← card_between inFleet]
  congr 1
  ext idx
  simp only [Finset.mem_filter, Finset.mem_range]
  refine and_congr_right fun member => ?_
  rw [splittable.slotFor_eq_some_iff member i]
  exact and_iff_right isUsable

/-- The number of workers of an entry misses its share by less than one. -/
theorem UpstreamSet.Splittable.abs_assigned_lt
    (splittable : set.Splittable)
    {i : Nat}
    (isUsable : i < set.usable) :
    |(set.assigned i : Int) * set.totalWeight -
        set.workers.toNat * set.weightAt i| <
      set.totalWeight := by
  have step :
      set.weightBefore (i + 1) - set.weightBefore i =
        set.weightAt i := by
    have inRange : i < set.usedWeights.length := by
      rw [set.length_usedWeights]
      exact isUsable
    rw [weightBefore, weightBefore, List.take_succ_eq_append_getElem inRange,
      List.sum_append, List.sum_singleton, weightAt,
      List.getD_eq_getElem _ _ inRange]
    omega
  rw [splittable.assigned_eq isUsable, ← step]
  exact abs_cut_sub_lt splittable.weight
    (set.weightBefore_mono (Nat.le_succ i))

/--
The fleet split: every worker gets a usable entry, higher workers get later
entries, and every entry gets its share of the fleet up to less than one
worker, exactly if all shares are whole.
-/
theorem slotFor_split
    (set : UpstreamSet)
    (usable : 1 ≤ set.usable)
    (weight : 0 < set.totalWeight)
    (workers : 1 ≤ set.workers.toNat)
    (bound : 2 * set.workers.toNat * set.totalWeight < 2 ^ 64) :
    (∀ idx < set.workers.toNat,
      ∃ i < set.usable, set.slotFor idx = some i) ∧
    (∀ first second i j, first ≤ second → second < set.workers.toNat →
      set.slotFor first = some i → set.slotFor second = some j → i ≤ j) ∧
    (∀ i < set.usable,
      |(set.assigned i : Int) * set.totalWeight -
          set.workers.toNat * set.weightAt i| <
        set.totalWeight) ∧
    ((∀ i < set.usable,
        set.totalWeight ∣ set.workers.toNat * set.weightAt i) →
      ∀ i < set.usable,
        set.assigned i * set.totalWeight =
          set.workers.toNat * set.weightAt i) ∧
    (∀ i < set.usable, set.weightAt i = 0 → set.assigned i = 0) := by
  have splittable : set.Splittable := ⟨usable, weight, workers, bound⟩
  refine ⟨?_, ?_, ?_, ?_, ?_⟩
  · exact fun idx inFleet => splittable.exists_slot inFleet
  · intro first second i j ordered inFleet firstSlot secondSlot
    rw [splittable.slotFor_eq_some_iff (by omega)] at firstSlot
    rw [splittable.slotFor_eq_some_iff inFleet] at secondSlot
    by_contra notOrdered
    have cutsOrdered :=
      cut_mono set.totalWeight set.workers.toNat
        (set.weightBefore_mono (by omega : j + 1 ≤ i))
    omega
  · exact fun i isUsable => splittable.abs_assigned_lt isUsable
  · intro whole i isUsable
    have exact := eq_of_abs_sub_lt (splittable.abs_assigned_lt isUsable)
      (by exact_mod_cast whole i isUsable)
    exact_mod_cast exact
  · intro i isUsable zero
    have close := splittable.abs_assigned_lt isUsable
    rw [zero, Nat.cast_zero, mul_zero, sub_zero] at close
    have divides : (set.totalWeight : Int) ∣
        set.assigned i * set.totalWeight :=
      Int.dvd_mul_left _ _
    have product := Int.eq_zero_of_abs_lt_dvd divides close
    have weightNonzero : (set.totalWeight : Int) ≠ 0 := by
      omega
    exact_mod_cast (mul_eq_zero.mp product).resolve_right weightNonzero

/-- Six workers over weights 3, 2 and 1. -/
theorem slotFor_split_three_two_one :
    let set : UpstreamSet :=
      { addrs := [.v4 9 9 9 9, .v4 8 8 8 8, .v4 1 1 1 1]
        weights := [3, 2, 1]
        revision := 1
        workers := 6
        publishedMonoSecs := 0 }
    (List.range 6).map set.slotFor =
        [some 0, some 0, some 0, some 1, some 1, some 2] ∧
      (set.assigned 0 * 6 = 6 * 3 ∧ set.assigned 1 * 6 = 6 * 2 ∧
        set.assigned 2 * 6 = 6 * 1) := by
  intro set
  have split :=
    slotFor_split set (by decide) (by decide) (by decide) (by decide)
  have whole := split.2.2.2.1 (by decide)
  exact ⟨by decide, whole 0 (by decide), whole 1 (by decide),
    whole 2 (by decide)⟩

end Assignment

end DnsServices.Shared
