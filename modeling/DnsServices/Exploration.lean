import Mathlib.Algebra.Group.Action.Defs
import Mathlib.Algebra.Order.BigOperators.Group.List
import DnsServices.Runs
import DnsServices.WeightsSummary

namespace DnsServices.Microdoh3

open Shared StableSort Runs

/-!
# Exploration of the candidates

The extra share of `compute_weights` is meant to send a worker to a candidate
that nobody has measured.  Whether a worker gets there depends on where the
midpoints of `slot_for` fall between the published shares, and whether the
candidate is new depends on what the samples of earlier rounds have reported.
-/

section Midpoints

/-- The midpoint of a worker's slice, in the 64-bit arithmetic of the
source. -/
def midpoint (workers total idx : Nat) : Nat :=
  (2 * idx + 1) * total % 2 ^ 64 / (2 * max workers 1)

variable {set : UpstreamSet}

/-- The target of a slot is its midpoint, free of overflow. -/
theorem toNat_target
    {total : UInt64}
    (totalValue : total.toNat = set.totalWeight)
    (idx : Nat) :
    ((2 * UInt64.ofNat idx + 1) * total /
        (2 * (max set.workers 1).toUInt64)).toNat =
      midpoint set.workers.toNat set.totalWeight idx := by
  have divisor :
      (2 * (max set.workers 1).toUInt64).toNat =
        2 * max set.workers.toNat 1 := by
    have workersBound : set.workers.toNat < 2 ^ 32 := set.workers.toNat_lt
    have two : (2 : UInt64).toNat = 2 := rfl
    have one : (1 : UInt32).toNat = 1 := rfl
    rw [UInt64.toNat_mul, UInt32.toNat_toUInt64, toNat_max, one, two]
    exact Nat.mod_eq_of_lt (by omega)
  have odd :
      (2 * UInt64.ofNat idx + 1).toNat = (2 * idx + 1) % 2 ^ 64 := by
    simp only [UInt64.toNat_add, UInt64.toNat_mul, UInt64.toNat_ofNat',
      UInt64.reduceToNat]
    omega
  have product :
      (2 * idx + 1) % 2 ^ 64 * set.totalWeight % 2 ^ 64 =
        (2 * idx + 1) * set.totalWeight % 2 ^ 64 := by
    rw [Nat.mul_mod, Nat.mod_mod, ← Nat.mul_mod]
  rw [UInt64.toNat_div, divisor, UInt64.toNat_mul, odd, totalValue, product,
    midpoint]

/-- The slot is the entry whose span holds the worker's midpoint, and the
last entry takes what lies behind all spans. -/
theorem slotFor_eq_some_iff_midpoint
    (usable : 1 ≤ set.usable)
    (weight : 0 < set.totalWeight)
    (bound : set.totalWeight < 2 ^ 64)
    (idx i : Nat) :
    set.slotFor idx = some i ↔
      i < set.usable ∧
        set.weightBefore i ≤
          midpoint set.workers.toNat set.totalWeight idx ∧
        (midpoint set.workers.toNat set.totalWeight idx <
            set.weightBefore (i + 1) ∨
          i + 1 = set.usable) := by
  have sumBound :
      (0 : UInt64).toNat +
        ((set.weights.take set.usable).map UInt32.toNat).sum < 2 ^ 64 := by
    rw [UInt64.toNat_zero, Nat.zero_add]
    exact bound
  obtain ⟨total, totalValue, shape⟩ :=
    UpstreamSet.slotFor_eq_firstAbove usable weight sumBound idx
  let target := (2 * UInt64.ofNat idx + 1) * total /
    (2 * (max set.workers 1).toUInt64)
  have targetValue :
      target.toNat = midpoint set.workers.toNat set.totalWeight idx :=
    toNat_target totalValue idx
  have located (j : Nat) :
      firstAbove target 0 (set.weights.take set.usable) = some j ↔
        j < set.usable ∧ set.weightBefore j ≤ target.toNat ∧
          target.toNat < set.weightBefore (j + 1) := by
    have found :=
      firstAbove_eq_some_iff sumBound (Nat.zero_le target.toNat) j
    have usableWeights :
        (set.weights.take set.usable).length = set.usable := by
      simpa [UpstreamSet.usedWeights] using set.length_usedWeights
    rw [usableWeights, UInt64.toNat_zero, Nat.zero_add, Nat.zero_add] at found
    exact found
  rw [shape, Option.some_inj, ← targetValue]
  cases found : firstAbove target 0 (set.weights.take set.usable) with
  | some j =>
      obtain ⟨inRange, low, high⟩ := (located j).mp found
      constructor
      · rintro rfl
        exact ⟨inRange, low, Or.inl high⟩
      · rintro ⟨isUsable, atLeast, below | last⟩
        · have alsoFound := (located i).mpr ⟨isUsable, atLeast, below⟩
          rw [found] at alsoFound
          exact Option.some.inj alsoFound
        · by_contra different
          have earlier : j + 1 ≤ i := by
            have : j ≠ i := different
            omega
          have ordered := set.weightBefore_mono earlier
          omega
  | none =>
      have behind : set.totalWeight ≤ target.toNat := by
        by_contra inside
        refine firstAbove_ne_none sumBound ?_ (Nat.zero_le _) found
        rw [UInt64.toNat_zero, Nat.zero_add]
        exact not_le.mp inside
      constructor
      · intro last
        have isLast : set.usable - 1 = i := last
        have before := set.weightBefore_le i
        exact ⟨by omega, before.trans behind, Or.inr (by omega)⟩
      · rintro ⟨isUsable, atLeast, below | last⟩
        · have alsoFound := (located i).mpr ⟨isUsable, atLeast, below⟩
          rw [found] at alsoFound
          cases alsoFound
        · have isLast : set.usable - 1 = i := by
            omega
          exact isLast

end Midpoints

section Probe

variable
  (candidates : List IpAddr)
  (samples : List (Option ScoreSample))
  (workerCount : Nat)

/-- The share of a candidate: its best score, but at least the floor, and for
the probe one slot more. -/
def shareOf (addr : IpAddr) : Nat :=
  (weight candidates samples (UInt32.ofNat (max workerCount 1)) addr).toNat

/-- All shares together. -/
def shareTotal : Nat :=
  (candidates.map (shareOf candidates samples workerCount)).sum

/-- The shares of the candidates that outrank one: larger ones, and equal
ones of candidates listed earlier. -/
def shareAhead (addr : IpAddr) : Nat :=
  ((candidates.filter fun other =>
      shareOf candidates samples workerCount addr <
        shareOf candidates samples workerCount other).map
    (shareOf candidates samples workerCount)).sum +
  (((candidates.takeWhile (· ≠ addr)).filter fun other =>
      shareOf candidates samples workerCount other =
        shareOf candidates samples workerCount addr).map
    (shareOf candidates samples workerCount)).sum

/-- Some worker's midpoint falls into the span of a candidate's share, or
behind it if no share follows. -/
def MidpointInShare (addr : IpAddr) : Prop :=
  ∃ idx < workerCount,
    shareAhead candidates samples workerCount addr ≤
        midpoint (workerCount % 2 ^ 32)
          (shareTotal candidates samples workerCount) idx ∧
      (midpoint (workerCount % 2 ^ 32)
            (shareTotal candidates samples workerCount) idx <
          shareAhead candidates samples workerCount addr +
            shareOf candidates samples workerCount addr ∨
        shareAhead candidates samples workerCount addr +
            shareOf candidates samples workerCount addr =
          shareTotal candidates samples workerCount)

instance (addr : IpAddr) :
    Decidable (MidpointInShare candidates samples workerCount addr) :=
  inferInstanceAs (Decidable (∃ idx < workerCount, _))

variable {candidates samples workerCount}

/-- A published set as its readers see it, if every candidate fits the
page. -/
theorem upstreamSet_publishWeights
    {weights : List (IpAddr × UInt32)}
    (few : weights.length ≤ maxAddrs)
    (number : Nat)
    (now later : UInt64) :
    ((publishWeights weights workerCount now later).upstreamSet number).addrs =
        weights.map Prod.fst ∧
      ((publishWeights weights workerCount now later).upstreamSet
          number).weights = weights.map Prod.snd := by
  have count :
      (publishWeights weights workerCount now later).count =
        weights.length := by
    simpa [publishWeights, Publish.count] using few
  refine ⟨?_, ?_⟩
  · rw [Publish.upstreamSet, publishWeights]
    exact List.take_of_length_le (by simpa using few)
  · rw [Publish.upstreamSet]
    dsimp only
    rw [count]
    refine List.ext_getElem (by simp) ?_
    intro i inRange inWeights
    have inList : i < weights.length := by
      simpa using inWeights
    simp [Publish.weight, publishWeights, inList]

/-- Every published entry within the page is usable. -/
theorem usable_publishWeights
    {weights : List (IpAddr × UInt32)}
    (few : weights.length ≤ maxAddrs)
    (number : Nat)
    (now later : UInt64) :
    ((publishWeights weights workerCount now later).upstreamSet
      number).usable = weights.length := by
  obtain ⟨addrs, published⟩ :=
    @upstreamSet_publishWeights workerCount weights few number now later
  rw [UpstreamSet.usable, addrs, published]
  simp

/-- The weights a worker splits by are the published ones. -/
theorem usedWeights_publishWeights
    {weights : List (IpAddr × UInt32)}
    (few : weights.length ≤ maxAddrs)
    (number : Nat)
    (now later : UInt64) :
    ((publishWeights weights workerCount now later).upstreamSet
      number).usedWeights = weights.map fun entry => entry.2.toNat := by
  rw [UpstreamSet.usedWeights, usable_publishWeights few,
    (upstreamSet_publishWeights few number now later).2,
    List.take_of_length_le (by simp), List.map_map]
  rfl

/-- No candidate is left without a share. -/
theorem shareOf_pos (addr : IpAddr) :
    0 < shareOf candidates samples workerCount addr := by
  rw [shareOf]
  exact Nat.lt_of_lt_of_le (one_le_floorShare _ _)
    (floorShare_le_weight candidates samples _ addr)

/-- Sixteen shares do not overflow the 64-bit total. -/
theorem shareTotal_lt (few : candidates.length ≤ maxAddrs) :
    shareTotal candidates samples workerCount < 2 ^ 64 := by
  have each : ∀ share ∈ candidates.map
      (shareOf candidates samples workerCount), share ≤ 2 ^ 32 := by
    intro share member
    obtain ⟨addr, _, rfl⟩ := List.mem_map.mp member
    exact (UInt32.toNat_lt _).le
  have bound := List.sum_le_card_nsmul _ _ each
  rw [shareTotal]
  simp only [List.length_map, smul_eq_mul, maxAddrs] at bound few
  omega

/-- A candidate stands behind the shares that outrank it. -/
theorem sorted_split
    (distinct : candidates.Nodup)
    {addr : IpAddr}
    (member : addr ∈ candidates) :
    ∃ front rest,
      sortByKeyReverse (fun entry : IpAddr × UInt32 => entry.2.toNat)
          (candidates.map fun a =>
            (a, weight candidates samples
              (UInt32.ofNat (max workerCount 1)) a)) =
        front ++ (addr, weight candidates samples
          (UInt32.ofNat (max workerCount 1)) addr) :: rest ∧
      (front.map fun entry => entry.2.toNat).sum =
        shareAhead candidates samples workerCount addr := by
  obtain ⟨left, right, rfl⟩ := List.mem_iff_append.mp member
  have notLeft : addr ∉ left := by
    have notBoth := (List.nodup_append.mp distinct).2.2
    intro inLeft
    exact notBoth addr inLeft addr List.mem_cons_self rfl
  have earlier : (left ++ addr :: right).takeWhile (· ≠ addr) = left := by
    rw [List.takeWhile_append_of_pos]
    · simp
    · intro other inLeft
      rw [decide_eq_true_eq]
      rintro rfl
      exact notLeft inLeft
  rw [List.map_append, List.map_cons]
  obtain ⟨front, rest, shape, outranked⟩ :=
    @sortByKeyReverse_split _ _ _
      (fun entry : IpAddr × UInt32 => entry.2.toNat) _ _ _
  refine ⟨front, rest, shape, ?_⟩
  have shares :
      shareOf (left ++ addr :: right) samples workerCount =
        fun a => (weight (left ++ addr :: right) samples
          (UInt32.ofNat (max workerCount 1)) a).toNat := rfl
  rw [(outranked.map _).sum_eq, shareAhead, earlier, outranking, shares]
  simp [List.filter_map, Function.comp_def, Nat.add_assoc]

/-- The worker with this index is assigned to an address. -/
def AssignedTo (set : UpstreamSet) (idx : Nat) (addr : IpAddr) : Prop :=
  ∃ slot, set.slotFor idx = some slot ∧ set.addrs[slot]? = some addr

instance (set : UpstreamSet) (idx : Nat) (addr : IpAddr) :
    Decidable (AssignedTo set idx addr) :=
  decidable_of_iff ((set.slotFor idx).bind (fun slot => set.addrs[slot]?) =
      some addr) (by simp [AssignedTo, Option.bind_eq_some_iff])

/-- Where the names are distinct, a name stands in one place only. -/
theorem getElem?_map_fst_eq_some_iff
    {front rest : List (IpAddr × UInt32)}
    {entry : IpAddr × UInt32}
    (distinct : ((front ++ entry :: rest).map Prod.fst).Nodup)
    {slot : Nat} :
    ((front ++ entry :: rest).map Prod.fst)[slot]? = some entry.1 ↔
      slot = front.length := by
  have present :
      ((front ++ entry :: rest).map Prod.fst)[front.length]? =
        some entry.1 := by
    simp
  constructor
  · intro found
    obtain ⟨inRange, _⟩ := List.getElem?_eq_some_iff.mp found
    exact (List.getElem?_inj inRange distinct).mp (found.trans present.symm)
  · rintro rfl
    exact present

/-- Positive weights add up to zero only if there are none. -/
theorem sum_weights_eq_zero_iff
    {entries : List (IpAddr × UInt32)}
    (positive : ∀ other ∈ entries, 0 < other.2.toNat) :
    (entries.map fun other => other.2.toNat).sum = 0 ↔ entries = [] := by
  cases entries with
  | nil =>
      simp
  | cons next rest =>
      have nextPositive := positive next (by simp)
      refine iff_of_false ?_ (by simp)
      simp only [List.map_cons, List.sum_cons]
      omega

/-- A worker is assigned to the entry in whose span its midpoint falls. -/
theorem assignedTo_publishWeights_iff
    {front rest : List (IpAddr × UInt32)}
    {entry : IpAddr × UInt32}
    (fits : (front ++ entry :: rest).length ≤ maxAddrs)
    (distinct : ((front ++ entry :: rest).map Prod.fst).Nodup)
    (positive : ∀ other ∈ front ++ entry :: rest, 0 < other.2.toNat)
    (bound :
      ((front ++ entry :: rest).map fun other => other.2.toNat).sum < 2 ^ 64)
    (number : Nat)
    (now later : UInt64)
    (idx : Nat) :
    AssignedTo
        ((publishWeights (front ++ entry :: rest) workerCount now
          later).upstreamSet number) idx entry.1 ↔
      (front.map fun other => other.2.toNat).sum ≤
          midpoint (workerCount % 2 ^ 32)
            ((front ++ entry :: rest).map fun other => other.2.toNat).sum
            idx ∧
        (midpoint (workerCount % 2 ^ 32)
              ((front ++ entry :: rest).map fun other => other.2.toNat).sum
              idx <
            (front.map fun other => other.2.toNat).sum + entry.2.toNat ∨
          (front.map fun other => other.2.toNat).sum + entry.2.toNat =
            ((front ++ entry :: rest).map
              fun other => other.2.toNat).sum) := by
  have usable :=
    @usable_publishWeights workerCount _ fits number now later
  have used :=
    @usedWeights_publishWeights workerCount _ fits number now later
  have addrs :=
    (@upstreamSet_publishWeights workerCount _ fits number now later).1
  have workers :
      ((publishWeights (front ++ entry :: rest) workerCount now
        later).upstreamSet number).workers.toNat =
        workerCount % 2 ^ 32 :=
    UInt32.toNat_ofNat'
  generalize (publishWeights (front ++ entry :: rest) workerCount now
    later).upstreamSet number = set at usable used addrs workers ⊢
  have entryPositive := positive entry (by simp)
  have total :
      set.totalWeight =
        ((front ++ entry :: rest).map fun other => other.2.toNat).sum := by
    rw [UpstreamSet.totalWeight, used]
  have before :
      set.weightBefore front.length =
        (front.map fun other => other.2.toNat).sum := by
    rw [UpstreamSet.weightBefore, used, ← List.map_take,
      List.take_left' rfl]
  have through :
      set.weightBefore (front.length + 1) =
        (front.map fun other => other.2.toNat).sum + entry.2.toNat := by
    have taken :
        (front ++ entry :: rest).take (front.length + 1) =
          front ++ [entry] := by
      rw [List.take_append, List.take_of_length_le (Nat.le_succ _)]
      simp
    rw [UpstreamSet.weightBefore, used, ← List.map_take, taken]
    simp
  have position (slot : Nat) :
      set.addrs[slot]? = some entry.1 ↔ slot = front.length := by
    rw [addrs]
    exact getElem?_map_fst_eq_some_iff distinct
  have lastIff :
      front.length + 1 = set.usable ↔
        (front.map fun other => other.2.toNat).sum + entry.2.toNat =
          ((front ++ entry :: rest).map fun other => other.2.toNat).sum := by
    have nothingBehind : (rest.map fun other => other.2.toNat).sum = 0 ↔
        rest = [] := by
      apply sum_weights_eq_zero_iff
      intro other member
      exact positive other (by simp [member])
    rw [usable]
    simp only [List.length_append, List.length_cons, List.map_append,
      List.map_cons, List.sum_append, List.sum_cons]
    rw [← List.length_eq_zero_iff] at nothingBehind
    omega
  have totalPositive : 0 < set.totalWeight := by
    rw [total]
    simp only [List.map_append, List.map_cons, List.sum_append,
      List.sum_cons]
    omega
  have slotIff :=
    @slotFor_eq_some_iff_midpoint set (by simp [usable]; omega) totalPositive
      (by rw [total]; exact bound) idx front.length
  rw [workers, total, before, through, lastIff] at slotIff
  simp only [AssignedTo, position, exists_eq_right, slotIff, usable]
  simp

/-- Of published weights, a worker is assigned to the candidate in whose share
its midpoint falls. -/
theorem assignedTo_iff
    (distinct : candidates.Nodup)
    (few : candidates.length ≤ maxAddrs)
    {weights : List (IpAddr × UInt32)}
    (computed : computeWeights candidates samples workerCount = some weights)
    {addr : IpAddr}
    (member : addr ∈ candidates)
    (number : Nat)
    (now later : UInt64)
    (idx : Nat) :
    AssignedTo
        ((publishWeights weights workerCount now later).upstreamSet number)
        idx addr ↔
      shareAhead candidates samples workerCount addr ≤
          midpoint (workerCount % 2 ^ 32)
            (shareTotal candidates samples workerCount) idx ∧
        (midpoint (workerCount % 2 ^ 32)
              (shareTotal candidates samples workerCount) idx <
            shareAhead candidates samples workerCount addr +
              shareOf candidates samples workerCount addr ∨
          shareAhead candidates samples workerCount addr +
              shareOf candidates samples workerCount addr =
            shareTotal candidates samples workerCount) := by
  rw [computeWeights_eq distinct] at computed
  split at computed
  · cases computed
  · obtain ⟨front, rest, shape, ahead⟩ :=
      @sorted_split candidates samples workerCount distinct addr member
    have perm :=
      sortByKeyReverse_perm (fun entry : IpAddr × UInt32 => entry.2.toNat)
        (candidates.map fun a =>
          (a, weight candidates samples
            (UInt32.ofNat (max workerCount 1)) a))
    rw [Option.some_inj] at computed
    rw [computed] at shape perm
    have total :
        (weights.map fun other => other.2.toNat).sum =
          shareTotal candidates samples workerCount := by
      rw [(perm.map _).sum_eq, List.map_map]
      rfl
    have addresses : (weights.map Prod.fst).Perm candidates := by
      have mapped := perm.map Prod.fst
      simpa [Function.comp_def] using mapped
    have positive : ∀ other ∈ weights, 0 < other.2.toNat := by
      intro other inWeights
      obtain ⟨a, _, rfl⟩ := List.mem_map.mp (perm.mem_iff.mp inWeights)
      exact shareOf_pos a
    have fits : weights.length ≤ maxAddrs := by
      rw [perm.length_eq, List.length_map]
      exact few
    have bound :
        (weights.map fun other => other.2.toNat).sum < 2 ^ 64 := by
      rw [total]
      exact shareTotal_lt few
    rw [← ahead, ← total]
    subst shape
    exact assignedTo_publishWeights_iff fits
      (addresses.nodup_iff.mpr distinct) positive bound number now later idx

/-- A worker is sent to the first unmeasured candidate exactly if a midpoint
falls into its share. -/
theorem probe_assigned_iff
    (candidates : List IpAddr)
    (samples : List (Option ScoreSample))
    (workerCount : Nat)
    (weights : List (IpAddr × UInt32))
    (target : IpAddr)
    (number : Nat)
    (now later : UInt64)
    (distinct : candidates.Nodup)
    (few : candidates.length ≤ maxAddrs)
    (computed : computeWeights candidates samples workerCount = some weights)
    (isProbe : probe candidates samples = some target) :
    (∃ idx < workerCount,
        AssignedTo
          ((publishWeights weights workerCount now later).upstreamSet number)
          idx target) ↔
      MidpointInShare candidates samples workerCount target := by
  have member : target ∈ candidates := List.mem_of_find?_eq_some isProbe
  rw [MidpointInShare]
  refine exists_congr fun idx => and_congr_right fun _ => ?_
  exact assignedTo_iff distinct few computed member number now later idx

/-- One of the candidates 10.0.0.0/24. -/
def addressOf (last : UInt8) : IpAddr := .v4 10 0 0 last

/-- A report of a worker that sits on an address. -/
def sampleOf (last : UInt8) (score : UInt32) : Option ScoreSample :=
  some
    { addr := some (addressOf last)
      score := score
      ok := 1
      fail := 0
      flags := flagConnected
      updatedMonoSecs := 1 }

/-- With one measured candidate the probe gets a worker. -/
theorem probe_assigned_two_workers :
    ∃ idx < 2,
      AssignedTo
        ((publishWeights [(addressOf 1, 50), (addressOf 2, 37)] 2 0
          0).upstreamSet 1) idx (addressOf 2) :=
  (probe_assigned_iff [addressOf 1, addressOf 2]
    [sampleOf 1 50, sampleOf 1 40] 2
    [(addressOf 1, 50), (addressOf 2, 37)] (addressOf 2) 1 0 0
    (by decide) (by decide) (by decide) (by decide)).mpr (by decide)

/-- Three workers measure three candidates alike; the fourth, which nobody
has measured, gets none of them. -/
theorem probe_not_assigned_three_workers :
    probe (([1, 2, 3, 4] : List UInt8).map addressOf)
        [sampleOf 1 50, sampleOf 2 50, sampleOf 3 50] =
      some (addressOf 4) ∧
    computeWeights (([1, 2, 3, 4] : List UInt8).map addressOf)
        [sampleOf 1 50, sampleOf 2 50, sampleOf 3 50] 3 =
      some [(addressOf 1, 50), (addressOf 2, 50), (addressOf 3, 50),
        (addressOf 4, 24)] ∧
    ¬ ∃ idx < 3,
      AssignedTo
        ((publishWeights [(addressOf 1, 50), (addressOf 2, 50),
          (addressOf 3, 50), (addressOf 4, 24)] 3 0 0).upstreamSet 1)
        idx (addressOf 4) := by
  decide

end Probe

section Rounds

/-- The score or the floor an entry has without the extra share. -/
def plainShare
    (candidates : List IpAddr)
    (samples : List (Option ScoreSample))
    (workerCount : Nat)
    (addr : IpAddr) : UInt32 :=
  max (bestScore samples addr)
    (floorShare (topScore candidates samples)
      (UInt32.ofNat (max workerCount 1)))

/-- The extra share of a round. -/
def extraShare
    (candidates : List IpAddr)
    (samples : List (Option ScoreSample))
    (workerCount : Nat) : UInt32 :=
  oneSlot (topScore candidates samples) (UInt32.ofNat (max workerCount 1))

/-- The weight of an entry includes the extra share: it is the score or the
floor with one slot added, and more than it is without. -/
def IncludesOneSlot
    (candidates : List IpAddr)
    (samples : List (Option ScoreSample))
    (workerCount : Nat)
    (entry : IpAddr × UInt32) : Prop :=
  entry.2 =
      saturatingAdd (plainShare candidates samples workerCount entry.1)
        (extraShare candidates samples workerCount) ∧
    plainShare candidates samples workerCount entry.1 < entry.2

/-- Among the computed weights only a candidate that no sample of this or an
earlier round has reported includes the extra share, and none does once every
candidate has been reported. -/
structure ProbesNew
    (candidates : List IpAddr)
    (workerCount : Nat)
    (earlier : List (List (Option ScoreSample)))
    (samples : List (Option ScoreSample)) : Prop where
  unreported :
    ∀ out, computeWeights candidates samples workerCount = some out →
      ∀ entry ∈ out, IncludesOneSlot candidates samples workerCount entry →
        reported samples entry.1 = false ∧
          ∀ round ∈ earlier, reported round entry.1 = false
  finished :
    (∀ addr ∈ candidates, ∃ round ∈ earlier, reported round addr = true) →
      ∀ out, computeWeights candidates samples workerCount = some out →
        ∀ entry ∈ out, ¬ IncludesOneSlot candidates samples workerCount entry

/-- The round computes weights, and one worker's share of them is not zero. -/
def GivesShare
    (candidates : List IpAddr)
    (workerCount : Nat)
    (samples : List (Option ScoreSample)) : Prop :=
  2 * UInt32.ofNat (max workerCount 1) ≠ 0 ∧
    extraShare candidates samples workerCount ≠ 0

instance
    (candidates : List IpAddr)
    (workerCount : Nat)
    (samples : List (Option ScoreSample)) :
    Decidable (GivesShare candidates workerCount samples) :=
  inferInstanceAs (Decidable (_ ∧ _))

/-- A candidate that has been reported is reported again, unless one that
never was is listed before it. -/
def StillReported
    (candidates : List IpAddr)
    (earlier : List (List (Option ScoreSample)))
    (samples : List (Option ScoreSample)) : Prop :=
  ∀ addr ∈ candidates,
    (∃ round ∈ earlier, reported round addr = true) →
    reported samples addr = false →
    ∃ other ∈ candidates.takeWhile (· ≠ addr),
      reported samples other = false ∧
        ∀ round ∈ earlier, reported round other = false

instance
    (candidates : List IpAddr)
    (earlier : List (List (Option ScoreSample)))
    (samples : List (Option ScoreSample)) :
    Decidable (StillReported candidates earlier samples) :=
  inferInstanceAs (Decidable (∀ addr ∈ candidates, _ → _ → _))

/-- What is listed before the probe is reported, and the probe is not. -/
theorem probe_eq_some_iff
    {candidates : List IpAddr}
    {samples : List (Option ScoreSample)}
    {addr : IpAddr} :
    probe candidates samples = some addr ↔
      addr ∈ candidates ∧ reported samples addr = false ∧
        ∀ other ∈ candidates.takeWhile (· ≠ addr),
          reported samples other = true := by
  induction candidates with
  | nil =>
      simp [probe]
  | cons head rest inductionHypothesis =>
      rw [probe, List.find?_cons]
      cases isReported : reported samples head with
      | false =>
          by_cases same : head = addr
          · subst same
            simp [isReported]
          · simp [same, isReported]
      | true =>
          change probe rest samples = some addr ↔ _
          rw [inductionHypothesis]
          by_cases same : head = addr
          · subst same
            simp [isReported]
          · have different : addr ≠ head := fun equal => same equal.symm
            simp [same, different, isReported]

/-- Of two candidates one is listed before the other. -/
theorem listed_before_or_after
    {candidates : List IpAddr}
    {first second : IpAddr}
    (firstMember : first ∈ candidates)
    (secondMember : second ∈ candidates)
    (different : first ≠ second) :
    first ∈ candidates.takeWhile (· ≠ second) ∨
      second ∈ candidates.takeWhile (· ≠ first) := by
  induction candidates with
  | nil =>
      cases firstMember
  | cons head rest inductionHypothesis =>
      by_cases headFirst : head = first
      · subst headFirst
        simp [different]
      · by_cases headSecond : head = second
        · subst headSecond
          simp [headFirst]
        · have firstLater : first ∈ rest :=
            (List.mem_cons.mp firstMember).resolve_left (Ne.symm headFirst)
          have secondLater : second ∈ rest :=
            (List.mem_cons.mp secondMember).resolve_left (Ne.symm headSecond)
          rcases inductionHypothesis firstLater secondLater with
            before | after
          · rw [List.takeWhile_cons_of_pos (by simpa using headSecond)]
            exact Or.inl (List.mem_cons_of_mem head before)
          · rw [@List.takeWhile_cons_of_pos _ (· ≠ first) _ _
              (by simpa using headFirst)]
            exact Or.inr (List.mem_cons_of_mem head after)

/-- Half a worker's share is less than half of what fits. -/
theorem toNat_half_lt (top workers : UInt32) :
    (top / (2 * workers)).toNat < 2 ^ 31 := by
  have topBound : top.toNat < 2 ^ 32 := top.toNat_lt
  have notOne : (2 * workers).toNat ≠ 1 := by
    have two : (2 : UInt32).toNat = 2 := rfl
    rw [UInt32.toNat_mul, two]
    omega
  rw [UInt32.toNat_div]
  rcases Nat.eq_zero_or_pos (2 * workers).toNat with zero | positive
  · rw [zero, Nat.div_zero]
    omega
  · have halved : top.toNat / (2 * workers).toNat ≤ top.toNat / 2 :=
      Nat.div_le_div_left (by omega) (by omega)
    omega

/-- Without a report an address has the floor, which leaves room for more. -/
theorem plainShare_lt_saturatingAdd_iff
    {candidates : List IpAddr}
    {samples : List (Option ScoreSample)}
    {addr : IpAddr}
    (notReported : reported samples addr = false)
    (share : UInt32)
    (workerCount : Nat) :
    plainShare candidates samples workerCount addr <
        saturatingAdd (plainShare candidates samples workerCount addr)
          share ↔
      share ≠ 0 := by
  have noScore : bestScore samples addr = 0 :=
    bestScore_of_not_reported notReported
  have half :=
    toNat_half_lt (topScore candidates samples)
      (UInt32.ofNat (max workerCount 1))
  have room :
      (plainShare candidates samples workerCount addr).toNat < 2 ^ 31 := by
    have one : (1 : UInt32).toNat = 1 := rfl
    rw [plainShare, noScore, floorShare, toNat_max, toNat_max,
      UInt32.toNat_zero, one]
    omega
  rw [UInt32.lt_iff_toNat_lt, toNat_saturatingAdd, ne_eq, ← UInt32.toNat_inj,
    UInt32.toNat_zero]
  omega

/-- The extra share is with the first candidate that the round does not
report, if it is a share at all. -/
theorem includesOneSlot_iff
    {candidates : List IpAddr}
    {samples : List (Option ScoreSample)}
    {workerCount : Nat}
    {out : List (IpAddr × UInt32)}
    (distinct : candidates.Nodup)
    (computed : computeWeights candidates samples workerCount = some out)
    {entry : IpAddr × UInt32}
    (member : entry ∈ out) :
    IncludesOneSlot candidates samples workerCount entry ↔
      probe candidates samples = some entry.1 ∧
        extraShare candidates samples workerCount ≠ 0 := by
  have weighed :
      entry.2 =
        weight candidates samples (UInt32.ofNat (max workerCount 1))
          entry.1 := by
    rw [computeWeights_eq distinct] at computed
    split at computed
    · cases computed
    · obtain rfl := Option.some.inj computed
      exact mem_sorted_weighted member
  by_cases isProbe : probe candidates samples = some entry.1
  · have notReported : reported samples entry.1 = false := by
      simpa using List.find?_some isProbe
    have added :
        entry.2 =
          saturatingAdd (plainShare candidates samples workerCount entry.1)
            (extraShare candidates samples workerCount) := by
      rw [weighed, weight]
      exact if_pos isProbe
    rw [IncludesOneSlot, added, plainShare_lt_saturatingAdd_iff notReported]
    simp only [isProbe, true_and]
  · have plain :
        entry.2 = plainShare candidates samples workerCount entry.1 := by
      rw [weighed, weight_of_ne_probe isProbe]
      rfl
    refine iff_of_false ?_ (fun found => isProbe found.1)
    rintro ⟨-, larger⟩
    rw [← plain] at larger
    exact UInt32.lt_irrefl _ larger

/-- The probe of a round is among its weights and includes the share. -/
theorem exists_includesOneSlot
    {candidates : List IpAddr}
    {samples : List (Option ScoreSample)}
    {workerCount : Nat}
    {addr : IpAddr}
    (distinct : candidates.Nodup)
    (gives : GivesShare candidates workerCount samples)
    (found : probe candidates samples = some addr) :
    ∃ out, computeWeights candidates samples workerCount = some out ∧
      ∃ entry ∈ out, entry.1 = addr ∧
        IncludesOneSlot candidates samples workerCount entry := by
  let entry : IpAddr × UInt32 :=
    (addr,
      weight candidates samples (UInt32.ofNat (max workerCount 1)) addr)
  have computed := computeWeights_eq distinct samples workerCount
  rw [if_neg gives.1] at computed
  have member :
      entry ∈ sortByKeyReverse (fun entry : IpAddr × UInt32 => entry.2.toNat)
        (candidates.map fun a =>
          (a,
            weight candidates samples (UInt32.ofNat (max workerCount 1))
              a)) := by
    rw [(sortByKeyReverse_perm _ _).mem_iff]
    exact List.mem_map_of_mem (List.mem_of_find?_eq_some found)
  exact ⟨_, computed, entry, member, rfl,
    (includesOneSlot_iff distinct computed member).mpr ⟨found, gives.2⟩⟩

/-- An entry with the extra share is the probe of a round that gives one. -/
theorem probe_of_includesOneSlot
    {candidates : List IpAddr}
    {samples : List (Option ScoreSample)}
    {workerCount : Nat}
    {out : List (IpAddr × UInt32)}
    (distinct : candidates.Nodup)
    (computed : computeWeights candidates samples workerCount = some out)
    {entry : IpAddr × UInt32}
    (member : entry ∈ out)
    (includes : IncludesOneSlot candidates samples workerCount entry) :
    probe candidates samples = some entry.1 ∧
      GivesShare candidates workerCount samples := by
  obtain ⟨found, positive⟩ :=
    (includesOneSlot_iff distinct computed member).mp includes
  refine ⟨found, ?_, positive⟩
  intro zero
  rw [computeWeights_eq distinct, if_pos zero] at computed
  cases computed

/-- The weights of a round give the extra share to what is new exactly if the
reports go on. -/
theorem probesNew_iff
    {candidates : List IpAddr}
    (distinct : candidates.Nodup)
    (workerCount : Nat)
    (earlier : List (List (Option ScoreSample)))
    (samples : List (Option ScoreSample)) :
    ProbesNew candidates workerCount earlier samples ↔
      (GivesShare candidates workerCount samples →
        StillReported candidates earlier samples) := by
  constructor
  · intro new gives addr member wasReported notReported
    cases found : probe candidates samples with
    | none =>
        have everywhere := List.find?_eq_none.mp found addr member
        simp [notReported] at everywhere
    | some first =>
        obtain ⟨out, computed, entry, inOut, rfl, includes⟩ :=
          exists_includesOneSlot distinct gives found
        obtain ⟨firstUnreported, firstNew⟩ :=
          new.unreported out computed entry inOut includes
        obtain ⟨firstMember, _, ahead⟩ := probe_eq_some_iff.mp found
        refine ⟨entry.1, ?_, firstUnreported, firstNew⟩
        have different : entry.1 ≠ addr := by
          rintro rfl
          obtain ⟨round, isEarlier, isReported⟩ := wasReported
          rw [firstNew round isEarlier] at isReported
          cases isReported
        refine (listed_before_or_after firstMember member
          different).resolve_right ?_
        intro addrAhead
        rw [ahead addr addrAhead] at notReported
        cases notReported
  · intro still
    have unreported :
        ∀ out, computeWeights candidates samples workerCount = some out →
          ∀ entry ∈ out,
            IncludesOneSlot candidates samples workerCount entry →
            reported samples entry.1 = false ∧
              ∀ round ∈ earlier, reported round entry.1 = false := by
      intro out computed entry inOut includes
      obtain ⟨found, gives⟩ :=
        probe_of_includesOneSlot distinct computed inOut includes
      obtain ⟨member, notReported, ahead⟩ := probe_eq_some_iff.mp found
      refine ⟨notReported, ?_⟩
      intro round isEarlier
      by_contra wasReported
      rw [Bool.not_eq_false] at wasReported
      obtain ⟨other, isAhead, otherUnreported, _⟩ :=
        still gives entry.1 member ⟨round, isEarlier, wasReported⟩
          notReported
      rw [ahead other isAhead] at otherUnreported
      cases otherUnreported
    refine ⟨unreported, ?_⟩
    intro allReported out computed entry inOut includes
    have member : entry.1 ∈ candidates :=
      List.mem_of_find?_eq_some
        (probe_of_includesOneSlot distinct computed inOut includes).1
    obtain ⟨round, isEarlier, wasReported⟩ := allReported entry.1 member
    have new :=
      (unreported out computed entry inOut includes).2 round isEarlier
    rw [new] at wasReported
    cases wasReported

/--
Over any sequence of weight rounds the computed weights give the extra share
only to candidates that nobody has ever measured, exactly if no round with an
extra share loses the report of a measured one that comes first.
-/
theorem probesNew_rounds_iff
    (candidates : List IpAddr)
    (workerCount : Nat)
    (rounds : List (List (Option ScoreSample)))
    (distinct : candidates.Nodup) :
    AllSteps (fun earlier samples => earlier ++ [samples])
        (ProbesNew candidates workerCount) [] rounds ↔
      AllSteps (fun earlier samples => earlier ++ [samples])
        (fun earlier samples =>
          GivesShare candidates workerCount samples →
            StillReported candidates earlier samples) [] rounds :=
  allSteps_congr (probesNew_iff distinct workerCount) [] rounds

/-- Two workers that report on: the second candidate gets the share until it
is measured. -/
theorem probesNew_rounds_two_workers :
    AllSteps (fun earlier samples => earlier ++ [samples])
      (ProbesNew [addressOf 1, addressOf 2] 2) []
      [[sampleOf 1 50, none], [sampleOf 1 60, sampleOf 2 40]] :=
  (probesNew_rounds_iff [addressOf 1, addressOf 2] 2
    [[sampleOf 1 50, none], [sampleOf 1 60, sampleOf 2 40]]
    (by decide)).mpr (by decide)

/-- One worker that measures two candidates in turn: the second round gives
the extra share to the candidate of the first. -/
theorem not_probesNew_one_worker :
    computeWeights [addressOf 1, addressOf 2] [sampleOf 2 40] 1 =
        some [(addressOf 1, 60), (addressOf 2, 40)] ∧
      ¬ AllSteps (fun earlier samples => earlier ++ [samples])
        (ProbesNew [addressOf 1, addressOf 2] 1) []
        [[sampleOf 1 50], [sampleOf 2 40], [sampleOf 2 40]] := by
  have computed :
      computeWeights [addressOf 1, addressOf 2] [sampleOf 2 40] 1 =
        some [(addressOf 1, 60), (addressOf 2, 40)] := by
    decide
  refine ⟨computed, ?_⟩
  rintro ⟨_, second, _⟩
  have includes :
      IncludesOneSlot [addressOf 1, addressOf 2] [sampleOf 2 40] 1
        (addressOf 1, 60) := by
    unfold IncludesOneSlot
    decide
  have new :=
    (second.unreported _ computed (addressOf 1, 60) (by simp) includes).2
      [sampleOf 1 50] (by simp)
  revert new
  decide

end Rounds

end DnsServices.Microdoh3
