import Mathlib.Data.List.ReduceOption
import DnsServices.Weights

namespace DnsServices.Microdoh3

open Shared StableSort

/-!
# The weights as a summary of the samples

What `compute_weights` promises about its output for distinct candidates: every
candidate once, best first and with a positive weight, ordered by the scores
apart from the one candidate that is being probed.  The order of the samples
does not matter, and neither do samples that name no candidate.
-/

section Samples

variable {candidates : List IpAddr} {samples other : List (Option ScoreSample)}

/-- The samples are used for the best scores and the reports only. -/
theorem computeWeights_congr
    (same : bestMeasured candidates samples = bestMeasured candidates other)
    (workerCount : Nat) :
    computeWeights candidates samples workerCount =
      computeWeights candidates other workerCount := by
  simp only [computeWeights, same]

/-- A sample that names no candidate changes nothing. -/
theorem tally_foreign
    {s : ScoreSample}
    (foreign : ∀ addr, s.addr = some addr → addr ∉ candidates)
    (acc : List UInt32 × List Bool) :
    tally candidates acc s = acc := by
  rw [tally]
  cases named : s.addr with
  | none =>
      rfl
  | some addr =>
      have absent : candidates.findIdx? (· == addr) = none := by
        rw [List.findIdx?_eq_none_iff]
        intro a member
        rw [beq_eq_false_iff_ne]
        rintro rfl
        exact foreign a named member
      simp only [absent]

/-- An empty slot of the score page does not matter. -/
theorem bestMeasured_insert_none
    (candidates : List IpAddr)
    (left right : List (Option ScoreSample)) :
    bestMeasured candidates (left ++ none :: right) =
      bestMeasured candidates (left ++ right) := by
  rw [bestMeasured, bestMeasured, List.reduceOption_append,
    List.reduceOption_append, List.reduceOption_cons_of_none]

/-- A sample of an address that is no candidate does not matter. -/
theorem bestMeasured_insert_foreign
    {s : ScoreSample}
    (foreign : ∀ addr, s.addr = some addr → addr ∉ candidates)
    (left right : List (Option ScoreSample)) :
    bestMeasured candidates (left ++ some s :: right) =
      bestMeasured candidates (left ++ right) := by
  rw [bestMeasured, bestMeasured, List.reduceOption_append,
    List.reduceOption_append, List.reduceOption_cons_of_some,
    List.foldl_append, List.foldl_append, List.foldl_cons,
    tally_foreign foreign]

theorem bestScore_perm
    (perm : samples.Perm other)
    (addr : IpAddr) :
    bestScore samples addr = bestScore other addr := by
  have commutes :
      RightCommutative fun (best : UInt32) (s : ScoreSample) =>
        max best s.score := by
    constructor
    intro best first second
    apply UInt32.toNat_inj.mp
    simp only [toNat_max]
    exact Nat.max_right_comm _ _ _
  exact ((perm.filterMap id).filter _).foldl_eq 0

theorem reported_perm
    (perm : samples.Perm other)
    (addr : IpAddr) :
    reported samples addr = reported other addr :=
  (perm.filterMap id).any_eq

/-- The tally does not depend on the order of the samples. -/
theorem bestMeasured_perm
    (perm : samples.Perm other)
    (candidates : List IpAddr) :
    bestMeasured candidates samples = bestMeasured candidates other := by
  rw [bestMeasured_eq_atFirst, bestMeasured_eq_atFirst]
  exact Prod.ext
    (atFirst_congr (fun addr _ => bestScore_perm perm addr) 0)
    (atFirst_congr (fun addr _ => reported_perm perm addr) false)

/-- An address without a report has no score. -/
theorem bestScore_of_not_reported
    {addr : IpAddr}
    (unmeasured : reported samples addr = false) :
    bestScore samples addr = 0 := by
  have none :
      (samples.reduceOption.filter fun s => s.addr = some addr) = [] := by
    rw [List.filter_eq_nil_iff]
    simpa [reported] using unmeasured
  rw [bestScore, none]
  rfl

end Samples

/-- The weight of a candidate that is not being probed. -/
theorem weight_of_ne_probe
    {candidates : List IpAddr}
    {samples : List (Option ScoreSample)}
    {addr : IpAddr}
    (plain : probe candidates samples ≠ some addr)
    (workers : UInt32) :
    weight candidates samples workers addr =
      max (bestScore samples addr)
        (floorShare (topScore candidates samples) workers) := by
  rw [weight]
  exact if_neg plain

section Summary

/-- What the published weights say about the candidates. -/
structure FairSummary
    (candidates : List IpAddr)
    (samples : List (Option ScoreSample))
    (out : List (IpAddr × UInt32)) : Prop where
  addresses : (out.map Prod.fst).Perm candidates
  descending : out.Pairwise fun first second => second.2 ≤ first.2
  positive : ∀ entry ∈ out, 1 ≤ entry.2
  stable :
    ∀ value,
      ((out.filter fun entry => entry.2 = value).map Prod.fst).Sublist
        candidates
  monotone :
    ∀ first ∈ out,
      ∀ second ∈ out,
        probe candidates samples ≠ some first.1 →
        probe candidates samples ≠ some second.1 →
        bestScore samples first.1 ≤ bestScore samples second.1 →
        first.2 ≤ second.2
  unmeasured :
    ∀ first ∈ out,
      ∀ second ∈ out,
        reported samples first.1 = false →
        probe candidates samples ≠ some first.1 →
        first.2 ≤ second.2

variable
  (candidates : List IpAddr)
  (samples : List (Option ScoreSample))
  (workers : UInt32)

/-- The candidates with their weights, in the order of the candidates. -/
def weighted : List (IpAddr × UInt32) :=
  candidates.map fun addr => (addr, weight candidates samples workers addr)

/-- Sorting leaves every entry with its weight. -/
theorem mem_sorted_weighted
    {candidates : List IpAddr}
    {samples : List (Option ScoreSample)}
    {workers : UInt32}
    {entry : IpAddr × UInt32}
    (member :
      entry ∈ sortByKeyReverse (fun entry => entry.2.toNat)
        (weighted candidates samples workers)) :
    entry.2 = weight candidates samples workers entry.1 := by
  rw [(sortByKeyReverse_perm _ _).mem_iff, weighted] at member
  obtain ⟨addr, -, rfl⟩ := List.mem_map.mp member
  rfl

/-- The weighted entries are the candidates. -/
theorem map_fst_weighted :
    (weighted candidates samples workers).map Prod.fst = candidates := by
  rw [weighted, List.map_map]
  exact List.map_id candidates

/-- Sorting the weighted candidates gives a fair summary. -/
theorem fairSummary_sorted :
    FairSummary candidates samples
      (sortByKeyReverse (fun entry => entry.2.toNat)
        (weighted candidates samples workers)) := by
  refine
    { addresses := ?_
      descending := ?_
      positive := ?_
      stable := ?_
      monotone := ?_
      unmeasured := ?_ }
  · have perm :=
      (sortByKeyReverse_perm (fun entry : IpAddr × UInt32 => entry.2.toNat)
        (weighted candidates samples workers)).map Prod.fst
    rwa [map_fst_weighted] at perm
  · refine (pairwise_sortByKeyReverse _ _).imp ?_
    intro first second ordered
    exact UInt32.le_iff_toNat_le.mpr ordered
  · intro entry member
    rw [mem_sorted_weighted member, UInt32.le_iff_toNat_le]
    exact (one_le_floorShare _ workers).trans
      (floorShare_le_weight candidates samples workers entry.1)
  · intro value
    have kept :
        ((sortByKeyReverse (fun entry => entry.2.toNat)
            (weighted candidates samples workers)).filter
            fun entry => entry.2.toNat = value.toNat) =
          (weighted candidates samples workers).filter
            fun entry => entry.2.toNat = value.toNat :=
      filter_sortByKeyReverse _ _
    simp only [UInt32.toNat_inj] at kept
    rw [kept]
    have within :
        (((weighted candidates samples workers).filter
            fun entry => entry.2 = value).map Prod.fst).Sublist
          ((weighted candidates samples workers).map Prod.fst) :=
      List.filter_sublist.map Prod.fst
    rwa [map_fst_weighted] at within
  · intro first firstIn second secondIn firstPlain secondPlain better
    rw [mem_sorted_weighted firstIn, mem_sorted_weighted secondIn,
      weight_of_ne_probe firstPlain, weight_of_ne_probe secondPlain,
      UInt32.le_iff_toNat_le, toNat_max, toNat_max]
    rw [UInt32.le_iff_toNat_le] at better
    omega
  · intro first firstIn second secondIn unreported plain
    rw [mem_sorted_weighted firstIn, mem_sorted_weighted secondIn,
      weight_of_ne_probe plain, bestScore_of_not_reported unreported,
      UInt32.le_iff_toNat_le, toNat_max, UInt32.toNat_zero, Nat.zero_max]
    exact floorShare_le_weight candidates samples workers second.1

end Summary

theorem two_mul_workers_ne_zero
    {workerCount : Nat}
    (positive : 1 ≤ workerCount)
    (bound : workerCount < 2 ^ 31) :
    2 * UInt32.ofNat (max workerCount 1) ≠ 0 := by
  intro zero
  have value := congrArg UInt32.toNat zero
  rw [Nat.max_eq_left positive, UInt32.toNat_mul, UInt32.toNat_ofNat',
    UInt32.toNat_zero] at value
  have two : (2 : UInt32).toNat = 2 := rfl
  rw [two] at value
  omega

/--
For distinct candidates the weights are a fair summary of the samples.  They
do not depend on the order of the samples, on empty samples or on samples for
other addresses.
-/
theorem computeWeights_fair
    (candidates : List IpAddr)
    (samples : List (Option ScoreSample))
    (workerCount : Nat)
    (distinct : candidates.Nodup)
    (positive : 1 ≤ workerCount)
    (bound : workerCount < 2 ^ 31) :
    (∃ out,
        computeWeights candidates samples workerCount = some out ∧
          FairSummary candidates samples out) ∧
      (∀ other,
        samples.Perm other →
        computeWeights candidates samples workerCount =
          computeWeights candidates other workerCount) ∧
      (∀ left right,
        samples = left ++ right →
        computeWeights candidates (left ++ none :: right) workerCount =
          computeWeights candidates samples workerCount) ∧
      ∀ left right s,
        samples = left ++ right →
        (∀ addr, ScoreSample.addr s = some addr → addr ∉ candidates) →
        computeWeights candidates (left ++ some s :: right) workerCount =
          computeWeights candidates samples workerCount := by
  refine ⟨⟨_, ?_, fairSummary_sorted candidates samples
    (UInt32.ofNat (max workerCount 1))⟩, ?_, ?_, ?_⟩
  · rw [computeWeights_eq distinct,
      if_neg (two_mul_workers_ne_zero positive bound)]
    rfl
  · intro other perm
    exact computeWeights_congr (bestMeasured_perm perm candidates) workerCount
  · rintro left right rfl
    exact computeWeights_congr (bestMeasured_insert_none candidates left right)
      workerCount
  · rintro left right s rfl foreign
    exact computeWeights_congr (bestMeasured_insert_foreign foreign left right)
      workerCount

/-- Two addresses to choose from. -/
def twoCandidates : List IpAddr := [.v4 10 0 0 1, .v4 10 0 0 2]

/-- Somebody has measured the second candidate. -/
def secondMeasured : List (Option ScoreSample) :=
  [none, some ⟨some (.v4 10 0 0 2), 100, 5, 0, 0, 0⟩]

/-- Two candidates of which one is measured. -/
theorem computeWeights_fair_twoCandidates :
    ∃ out,
      computeWeights twoCandidates secondMeasured 2 = some out ∧
        FairSummary twoCandidates secondMeasured out :=
  (computeWeights_fair twoCandidates secondMeasured 2 (by decide) (by decide)
    (by decide)).1

end DnsServices.Microdoh3
