import Mathlib.Data.List.NodupEquivFin
import DnsServices.Weights

namespace DnsServices.Microdoh3

open Shared StableSort

/-!
# Candidate addresses

`update_candidates` of `main.rs` makes the candidate list from a DNS answer:
sorted by family on request, cut to the addresses that fit the page, repeats
kept.  Cutting behind the sort makes the flag decide which addresses are kept,
and a repeated address has a second entry that no sample ever reaches.
-/

section Code

/-- `IpAddr::is_ipv6` -/
def isIpv6 : IpAddr → Bool
  | .v4 .. =>
      false
  | .v6 _ =>
      true

/-- Rebuild the candidate list from a fresh DNS answer. -/
def updateCandidates
    (candidates resolved : List IpAddr)
    (preferIpv4 : Bool) : List IpAddr :=
  let next := if preferIpv4 then sortByKey isIpv6 resolved else resolved
  let next := if next.length > maxAddrs then next.take maxAddrs else next
  if next.isEmpty then candidates else next

end Code

section Families

variable {candidates resolved : List IpAddr}

/-- The flag changes the order of the candidates and nothing else. -/
structure OnlyReorders (candidates resolved : List IpAddr) : Prop where
  perm :
    (updateCandidates candidates resolved true).Perm
      (updateCandidates candidates resolved false)
  families :
    (∃ addr ∈ resolved, isIpv6 addr = false) →
      (∃ addr ∈ resolved, isIpv6 addr = true) →
      ∀ preferIpv4,
        (∃ addr ∈ updateCandidates candidates resolved preferIpv4,
            isIpv6 addr = false) ∧
          ∃ addr ∈ updateCandidates candidates resolved preferIpv4,
            isIpv6 addr = true

/-- The addresses of an answer in the order of the flag. -/
def listed (resolved : List IpAddr) (preferIpv4 : Bool) : List IpAddr :=
  if preferIpv4 then sortByKey isIpv6 resolved else resolved

/-- Listing reorders the resolved addresses and nothing else. -/
theorem listed_perm (resolved : List IpAddr) (preferIpv4 : Bool) :
    (listed resolved preferIpv4).Perm resolved := by
  cases preferIpv4 with
  | false =>
      exact List.Perm.refl resolved
  | true =>
      exact sortByKey_perm isIpv6 resolved

/-- An empty answer keeps the candidates that were there. -/
theorem updateCandidates_nil (preferIpv4 : Bool) :
    updateCandidates candidates [] preferIpv4 = candidates := by
  cases preferIpv4 with
  | false =>
      rfl
  | true =>
      rfl

/-- An answer with an address replaces the candidates. -/
theorem updateCandidates_eq
    (answered : resolved ≠ [])
    (preferIpv4 : Bool) :
    updateCandidates candidates resolved preferIpv4 =
      (listed resolved preferIpv4).take maxAddrs := by
  have cut :
      (if (listed resolved preferIpv4).length > maxAddrs then
          (listed resolved preferIpv4).take maxAddrs
        else
          listed resolved preferIpv4) =
        (listed resolved preferIpv4).take maxAddrs := by
    split
    · rfl
    next short =>
      exact (List.take_of_length_le (Nat.not_lt.mp short)).symm
  have nonempty :
      ¬ ((listed resolved preferIpv4).take maxAddrs).isEmpty = true := by
    rw [List.isEmpty_iff, List.take_eq_nil_iff]
    rintro (zero | none)
    · cases zero
    · have perm := listed_perm resolved preferIpv4
      rw [none] at perm
      exact answered perm.symm.eq_nil
  rw [updateCandidates, ← listed, cut, if_neg nonempty]

/-- Both families are among some addresses. -/
def BothFamilies (addrs : List IpAddr) : Prop :=
  (∃ addr ∈ addrs, isIpv6 addr = false) ∧ ∃ addr ∈ addrs, isIpv6 addr = true

/-- Having both families does not depend on the order. -/
theorem BothFamilies.of_perm
    {first second : List IpAddr}
    (both : BothFamilies first)
    (perm : first.Perm second) :
    BothFamilies second := by
  obtain ⟨⟨four, fourIn, isFour⟩, six, sixIn, isSix⟩ := both
  exact
    ⟨⟨four, perm.mem_iff.mp fourIn, isFour⟩, six, perm.mem_iff.mp sixIn, isSix⟩

/-- What is cut off does not matter if nothing is, or only IPv6 addresses
behind another one. -/
theorem bothFamilies_take
    (both : BothFamilies resolved)
    (kept :
      resolved.length ≤ maxAddrs ∨
        (∀ addr ∈ resolved.drop maxAddrs, isIpv6 addr = true) ∧
          ∃ addr ∈ resolved.take maxAddrs, isIpv6 addr = true) :
    BothFamilies (resolved.take maxAddrs) := by
  rcases kept with short | ⟨rest, six⟩
  · rwa [List.take_of_length_le short]
  · obtain ⟨⟨four, fourIn, isFour⟩, -⟩ := both
    refine ⟨⟨four, ?_, isFour⟩, six⟩
    rw [← List.take_append_drop maxAddrs resolved, List.mem_append] at fourIn
    rcases fourIn with front | behind
    · exact front
    · rw [rest four behind] at isFour
      cases isFour

/-- The cut keeps the same addresses in both orders. -/
theorem listed_take_perm_iff (resolved : List IpAddr) :
    ((listed resolved true).take maxAddrs).Perm
        ((listed resolved false).take maxAddrs) ↔
      (∀ addr ∈ resolved.take maxAddrs, isIpv6 addr = false) ∨
        ∀ addr ∈ resolved.drop maxAddrs, isIpv6 addr = true :=
  take_sortByKey_perm_iff isIpv6 resolved maxAddrs

/-- A long answer with an IPv6 address is cut behind its IPv4 addresses. -/
theorem kept_of_onlyReorders
    (long : maxAddrs < resolved.length)
    (mixed : ∃ addr ∈ resolved, isIpv6 addr = true)
    (reorders : OnlyReorders candidates resolved) :
    (∀ addr ∈ resolved.drop maxAddrs, isIpv6 addr = true) ∧
      ∃ addr ∈ resolved.take maxAddrs, isIpv6 addr = true := by
  have answered : resolved ≠ [] := by
    rintro rfl
    cases long
  obtain ⟨perm, families⟩ := reorders
  simp only [updateCandidates_eq answered] at perm families
  obtain ⟨first, rest, rfl⟩ := List.exists_cons_of_ne_nil answered
  have firstIn : first ∈ (first :: rest).take maxAddrs :=
    List.mem_cons_self
  have sixKept :
      (∃ addr ∈ first :: rest, isIpv6 addr = false) →
        ∃ addr ∈ (first :: rest).take maxAddrs, isIpv6 addr = true :=
    fun four => (families four mixed false).2
  have sixIn :
      ∃ addr ∈ (first :: rest).take maxAddrs, isIpv6 addr = true := by
    cases isFirst : isIpv6 first with
    | false =>
        exact sixKept ⟨first, List.mem_cons_self, isFirst⟩
    | true =>
        exact ⟨first, firstIn, isFirst⟩
  rcases (listed_take_perm_iff _).mp perm with front | behind
  · obtain ⟨six, sixFront, isSix⟩ := sixIn
    rw [front six sixFront] at isSix
    cases isSix
  · exact ⟨behind, sixIn⟩

/-- An answer that is not cut, or cut where it does no harm, is reordered. -/
theorem onlyReorders_of_kept
    (answered : resolved ≠ [])
    (kept :
      resolved.length ≤ maxAddrs ∨
        (∀ addr ∈ resolved, isIpv6 addr = false) ∨
        (∀ addr ∈ resolved.drop maxAddrs, isIpv6 addr = true) ∧
          ∃ addr ∈ resolved.take maxAddrs, isIpv6 addr = true) :
    OnlyReorders candidates resolved := by
  have perm :
      ((listed resolved true).take maxAddrs).Perm
        ((listed resolved false).take maxAddrs) := by
    rw [listed_take_perm_iff]
    rcases kept with short | allFour | ⟨behind, -⟩
    · right
      rw [List.drop_of_length_le short]
      intro _ member
      cases member
    · left
      intro addr member
      exact allFour addr (List.mem_of_mem_take member)
    · exact Or.inr behind
  refine ⟨?_, ?_⟩
  · rw [updateCandidates_eq answered, updateCandidates_eq answered]
    exact perm
  · intro four six preferIpv4
    have both : BothFamilies ((listed resolved false).take maxAddrs) := by
      refine bothFamilies_take ⟨four, six⟩ ?_
      rcases kept with short | allFour | cut
      · exact Or.inl short
      · obtain ⟨addr, member, isSix⟩ := six
        rw [allFour addr member] at isSix
        cases isSix
      · exact Or.inr cut
    rw [updateCandidates_eq answered]
    cases preferIpv4 with
    | false =>
        exact both
    | true =>
        exact both.of_perm perm.symm

/-- An empty answer changes nothing, whatever the flag. -/
theorem onlyReorders_nil (candidates : List IpAddr) :
    OnlyReorders candidates [] := by
  refine ⟨?_, ?_⟩
  · rw [updateCandidates_nil, updateCandidates_nil]
  · rintro ⟨_, member, _⟩
    cases member

/--
The flag only reorders the candidates exactly if the answer is not cut, has no
IPv6 address, or is cut behind all of its IPv4 addresses and behind an IPv6
address.
-/
theorem onlyReorders_iff (candidates resolved : List IpAddr) :
    OnlyReorders candidates resolved ↔
      resolved.length ≤ maxAddrs ∨
        (∀ addr ∈ resolved, isIpv6 addr = false) ∨
        (∀ addr ∈ resolved.drop maxAddrs, isIpv6 addr = true) ∧
          ∃ addr ∈ resolved.take maxAddrs, isIpv6 addr = true := by
  constructor
  · intro reorders
    rcases Nat.lt_or_ge maxAddrs resolved.length with long | short
    · by_cases mixed : ∃ addr ∈ resolved, isIpv6 addr = true
      · exact Or.inr (Or.inr (kept_of_onlyReorders long mixed reorders))
      · refine Or.inr (Or.inl fun addr member => ?_)
        rw [← Bool.not_eq_true]
        exact fun isSix => mixed ⟨addr, member, isSix⟩
    · exact Or.inl short
  · intro kept
    by_cases answered : resolved = []
    · rw [answered]
      exact onlyReorders_nil candidates
    · exact onlyReorders_of_kept answered kept

/-- Sixteen IPv6 addresses and one IPv4 address. -/
def lateIpv4 : List IpAddr :=
  (List.range 16).map
      (fun i => .v6 (Vector.replicate 16 (UInt8.ofNat i))) ++
    [.v4 192 0 2 1]

/-- Sixteen IPv6 addresses push the one IPv4 address behind the cut. -/
theorem not_onlyReorders_lateIpv4 :
    ¬ ∀ candidates resolved, OnlyReorders candidates resolved := by
  intro always
  have families := (always [] lateIpv4).families
  have lost :
      ¬ ∃ addr ∈ updateCandidates [] lateIpv4 false, isIpv6 addr = false := by
    decide
  exact lost (families (by decide) (by decide) false).1

end Families

section Repeats

/-- The entry that gets the extra share, if there is one. -/
def probePosition
    (candidates : List IpAddr)
    (samples : List (Option ScoreSample)) : Option Nat :=
  (bestMeasured candidates samples).2.findIdx? fun m => !m

/-- No entry gets an extra share, and every weight is the best score of its
address or the floor. -/
structure Undistorted
    (candidates : List IpAddr)
    (samples : List (Option ScoreSample))
    (workers : UInt32)
    (out : List (IpAddr × UInt32)) : Prop where
  noShare :
    probePosition candidates samples = none ∨
      oneSlot (topScore candidates samples) workers = 0
  weights :
    ∀ entry ∈ out,
      entry.2 =
        max (bestScore samples entry.1)
          (floorShare (topScore candidates samples) workers)

variable {candidates : List IpAddr} {samples : List (Option ScoreSample)}

/-- An address is repeated if it is listed where it is not listed first. -/
theorem duplicate_iff (candidates : List IpAddr) (addr : IpAddr) :
    candidates.Duplicate addr ↔
      ∃ (i : Nat) (inRange : i < candidates.length),
        candidates[i] = addr ∧
          candidates.findIdx? (· == addr) ≠ some i := by
  rw [List.duplicate_iff_exists_distinct_get]
  constructor
  · rintro ⟨first, second, earlier, isFirst, isSecond⟩
    refine ⟨second, second.isLt, isSecond.symm, ?_⟩
    intro position
    obtain ⟨_, _, unseen⟩ := List.findIdx?_eq_some_iff_getElem.mp position
    exact unseen first earlier (beq_iff_eq.mpr isFirst.symm)
  · rintro ⟨i, inRange, isAddr, notFirst⟩
    obtain ⟨j, noLater, position⟩ :=
      exists_position (List.getElem?_eq_some_iff.mpr ⟨inRange, isAddr⟩)
    obtain ⟨inFront, isFirst, -⟩ :=
      List.findIdx?_eq_some_iff_getElem.mp position
    have earlier : j < i := by
      refine Nat.lt_of_le_of_ne noLater ?_
      rintro rfl
      exact notFirst position
    exact ⟨⟨j, inFront⟩, ⟨i, inRange⟩, earlier, (beq_iff_eq.mp isFirst).symm,
      isAddr.symm⟩

/-- A running maximum is bounded exactly when its start and all scores are. -/
theorem foldl_max_le_iff (scores : List UInt32) (start : UInt32) (bound : Nat) :
    (scores.foldl max start).toNat ≤ bound ↔
      start.toNat ≤ bound ∧ ∀ score ∈ scores, score.toNat ≤ bound := by
  induction scores generalizing start with
  | nil =>
      simp
  | cons score rest inductionHypothesis =>
      rw [List.foldl_cons, inductionHypothesis, toNat_max, Nat.max_le,
        List.forall_mem_cons, and_assoc]

/-- Repeats do not change the top score. -/
theorem foldl_max_atFirst
    (candidates : List IpAddr)
    (samples : List (Option ScoreSample)) :
    (atFirst 0 (bestScore samples) candidates).foldl max 0 =
      topScore candidates samples := by
  apply UInt32.toNat_inj.mp
  refine eq_of_forall_ge_iff fun bound => ?_
  have entries :
      (∀ score ∈ atFirst 0 (bestScore samples) candidates,
          score.toNat ≤ bound) ↔
        ∀ addr ∈ candidates, (bestScore samples addr).toNat ≤ bound :=
    forall_mem_atFirst (by simp) (bestScore samples) candidates
  rw [topScore, foldl_max_le_iff, foldl_max_le_iff, List.forall_mem_map,
    entries]

theorem saturatingAdd_zero (w : UInt32) :
    saturatingAdd w 0 = w := by
  have bound := w.toNat_lt
  apply UInt32.toNat_inj.mp
  rw [toNat_saturatingAdd, UInt32.toNat_zero]
  omega

/-- The weight of an entry, by its position. -/
def entryWeight
    (candidates : List IpAddr)
    (samples : List (Option ScoreSample))
    (workers : UInt32)
    (i : Nat) : UInt32 :=
  let top := topScore candidates samples
  let w := max ((atFirst 0 (bestScore samples) candidates).getD i 0)
    (floorShare top workers)
  if some i = probePosition candidates samples then
    saturatingAdd w (oneSlot top workers)
  else
    w

/-- The output has one entry for each position. -/
theorem mem_computeWeights_iff
    {workerCount : Nat}
    {out : List (IpAddr × UInt32)}
    (computed : computeWeights candidates samples workerCount = some out)
    (entry : IpAddr × UInt32) :
    entry ∈ out ↔
      ∃ (i : Nat) (inRange : i < candidates.length),
        entry =
          (candidates[i],
            entryWeight candidates samples
              (UInt32.ofNat (max workerCount 1)) i) := by
  simp only [computeWeights, bestMeasured_eq_atFirst, foldl_max_atFirst]
    at computed
  split at computed
  · cases computed
  · obtain rfl := Option.some.inj computed
    rw [(sortByKeyReverse_perm _ _).mem_iff, List.mem_map]
    constructor
    · rintro ⟨⟨addr, i⟩, member, rfl⟩
      have position : candidates[i]? = some addr :=
        List.mem_zipIdx_iff_getElem?.mp member
      obtain ⟨inRange, rfl⟩ := List.getElem?_eq_some_iff.mp position
      refine ⟨i, inRange, ?_⟩
      rw [entryWeight, probePosition, bestMeasured_eq_atFirst]
    · rintro ⟨i, inRange, rfl⟩
      refine ⟨(candidates[i], i), ?_, ?_⟩
      · rw [List.mem_zipIdx_iff_getElem?]
        exact List.getElem?_eq_getElem inRange
      · rw [entryWeight, probePosition, bestMeasured_eq_atFirst]

/-- Only the first occurrence of a repeated address keeps its score. -/
theorem getD_atFirst
    {i : Nat}
    (inRange : i < candidates.length) :
    (atFirst 0 (bestScore samples) candidates).getD i 0 =
      if candidates.findIdx? (· == candidates[i]) = some i then
        bestScore samples candidates[i]
      else
        0 := by
  have inAtFirst :
      i < (atFirst 0 (bestScore samples) candidates).length := by
    rwa [length_atFirst]
  rw [List.getD_eq_getElem?_getD, List.getElem?_eq_getElem inAtFirst,
    Option.getD_some, getElem_atFirst _ _ _ inRange]

section Reported

variable
  {workers : UInt32}
  (allReported : ∀ addr ∈ candidates, reported samples addr = true)

include allReported

/-- With every address reported, an entry is measured where its address is
listed first. -/
theorem getElem_measured
    {i : Nat}
    (inRange : i < candidates.length)
    (inMeasured : i < (atFirst false (reported samples) candidates).length) :
    (atFirst false (reported samples) candidates)[i] =
      decide (candidates.findIdx? (· == candidates[i]) = some i) := by
  rw [getElem_atFirst _ _ _ inRange,
    allReported _ (List.getElem_mem inRange)]
  split
  next first =>
    exact (decide_eq_true first).symm
  next again =>
    exact (decide_eq_false again).symm

/-- Nothing is probed if no address is repeated. -/
theorem probePosition_eq_none_iff :
    probePosition candidates samples = none ↔
      ∀ addr, ¬ candidates.Duplicate addr := by
  rw [probePosition, bestMeasured_eq_atFirst, List.findIdx?_eq_none_iff]
  constructor
  · intro all addr repeated
    obtain ⟨i, inRange, rfl, again⟩ := (duplicate_iff _ _).mp repeated
    have inMeasured :
        i < (atFirst false (reported samples) candidates).length := by
      rwa [length_atFirst]
    have measured := all _ (List.getElem_mem inMeasured)
    rw [getElem_measured allReported inRange, decide_eq_false again] at measured
    cases measured
  · intro distinct m member
    obtain ⟨i, inMeasured, rfl⟩ := List.mem_iff_getElem.mp member
    have inRange : i < candidates.length := by
      rwa [length_atFirst] at inMeasured
    have first : candidates.findIdx? (· == candidates[i]) = some i := by
      by_contra again
      exact distinct candidates[i]
        ((duplicate_iff _ _).mpr ⟨i, inRange, rfl, again⟩)
    rw [getElem_measured allReported inRange, decide_eq_true first]
    rfl

/-- The weight of an entry whose address is listed first here. -/
theorem entryWeight_first
    {i : Nat}
    (inRange : i < candidates.length)
    (first : candidates.findIdx? (· == candidates[i]) = some i) :
    entryWeight candidates samples workers i =
      max (bestScore samples candidates[i])
        (floorShare (topScore candidates samples) workers) := by
  have notProbed : some i ≠ probePosition candidates samples := by
    intro probed
    rw [probePosition, bestMeasured_eq_atFirst] at probed
    obtain ⟨inMeasured, unmeasured, -⟩ :=
      List.findIdx?_eq_some_iff_getElem.mp probed.symm
    rw [getElem_measured allReported inRange, decide_eq_true first]
      at unmeasured
    cases unmeasured
  rw [entryWeight, getD_atFirst inRange, if_pos first]
  exact if_neg notProbed

end Reported

/-- The weight of an entry whose address was listed before, when the extra
share is nothing. -/
theorem entryWeight_again
    {workers : UInt32}
    {i : Nat}
    (inRange : i < candidates.length)
    (again : candidates.findIdx? (· == candidates[i]) ≠ some i)
    (noShare : oneSlot (topScore candidates samples) workers = 0) :
    entryWeight candidates samples workers i =
      floorShare (topScore candidates samples) workers := by
  have floor :
      max 0 (floorShare (topScore candidates samples) workers) =
        floorShare (topScore candidates samples) workers := by
    apply UInt32.toNat_inj.mp
    rw [toNat_max, UInt32.toNat_zero, Nat.zero_max]
  rw [entryWeight, getD_atFirst inRange, if_neg again, floor, noShare,
    saturatingAdd_zero, ite_self]

theorem max_eq_right_iff (score floor : UInt32) :
    floor = max score floor ↔ score ≤ floor := by
  rw [← UInt32.toNat_inj, toNat_max, UInt32.le_iff_toNat_le]
  omega

/--
For candidates with a report each, the weights are undistorted exactly if no
address is repeated, or one worker's share is nothing and no repeated address
has a score above the floor.
-/
theorem undistorted_iff
    (previous resolved : List IpAddr)
    (preferIpv4 : Bool)
    (samples : List (Option ScoreSample))
    (workerCount : Nat)
    (out : List (IpAddr × UInt32))
    (allReported :
      ∀ addr ∈ updateCandidates previous resolved preferIpv4,
        reported samples addr = true)
    (computed :
      computeWeights (updateCandidates previous resolved preferIpv4) samples
        workerCount = some out) :
    Undistorted (updateCandidates previous resolved preferIpv4) samples
        (UInt32.ofNat (max workerCount 1)) out ↔
      ∀ addr,
        (updateCandidates previous resolved preferIpv4).Duplicate addr →
        oneSlot
              (topScore (updateCandidates previous resolved preferIpv4)
                samples)
              (UInt32.ofNat (max workerCount 1)) = 0 ∧
          bestScore samples addr ≤
            floorShare
              (topScore (updateCandidates previous resolved preferIpv4)
                samples)
              (UInt32.ofNat (max workerCount 1)) := by
  generalize updateCandidates previous resolved preferIpv4 = candidates
    at allReported computed
  constructor
  · rintro ⟨noShare, weights⟩ addr repeated
    have free :
        oneSlot (topScore candidates samples)
          (UInt32.ofNat (max workerCount 1)) = 0 := by
      rcases noShare with unprobed | free
      · exact absurd repeated
          ((probePosition_eq_none_iff allReported).mp unprobed addr)
      · exact free
    obtain ⟨i, inRange, rfl, again⟩ := (duplicate_iff _ _).mp repeated
    have weight :=
      weights _ ((mem_computeWeights_iff computed _).mpr ⟨i, inRange, rfl⟩)
    rw [entryWeight_again inRange again free] at weight
    exact ⟨free, (max_eq_right_iff _ _).mp weight⟩
  · intro harmless
    refine ⟨?_, ?_⟩
    · by_cases repeated : ∃ addr, candidates.Duplicate addr
      · obtain ⟨addr, isRepeated⟩ := repeated
        exact Or.inr (harmless addr isRepeated).1
      · exact Or.inl
          ((probePosition_eq_none_iff allReported).mpr
            (not_exists.mp repeated))
    · intro entry member
      obtain ⟨i, inRange, rfl⟩ := (mem_computeWeights_iff computed _).mp member
      by_cases first : candidates.findIdx? (· == candidates[i]) = some i
      · exact entryWeight_first allReported inRange first
      · obtain ⟨free, low⟩ :=
          harmless candidates[i]
            ((duplicate_iff _ _).mpr ⟨i, inRange, rfl, first⟩)
        rw [entryWeight_again inRange first free]
        exact (max_eq_right_iff _ _).mpr low

/-- An answer that lists one address twice. -/
def repeatedAnswer : List IpAddr := [.v4 192 0 2 1, .v4 192 0 2 1]

/-- The address has been measured. -/
def oneReport : List (Option ScoreSample) :=
  [some ⟨some (.v4 192 0 2 1), 100, 5, 0, 0, 0⟩]

/-- The second entry outweighs the first by the probe share. -/
def repeatedWeights : List (IpAddr × UInt32) :=
  [(.v4 192 0 2 1, 150), (.v4 192 0 2 1, 100)]

theorem undistorted_repeatedAnswer_iff :
    Undistorted (updateCandidates [] repeatedAnswer true) oneReport
        (UInt32.ofNat (max 1 1)) repeatedWeights ↔
      ∀ addr,
        (updateCandidates [] repeatedAnswer true).Duplicate addr →
        oneSlot
              (topScore (updateCandidates [] repeatedAnswer true) oneReport)
              (UInt32.ofNat (max 1 1)) = 0 ∧
          bestScore oneReport addr ≤
            floorShare
              (topScore (updateCandidates [] repeatedAnswer true) oneReport)
              (UInt32.ofNat (max 1 1)) :=
  undistorted_iff [] repeatedAnswer true oneReport 1 repeatedWeights
    (by decide) (by decide +kernel)

/-- One address listed twice takes the share of a second, unmeasured candidate.
-/
theorem not_undistorted_repeatedAnswer :
    ¬ ∀ previous resolved preferIpv4 samples workerCount out,
      (∀ addr ∈ updateCandidates previous resolved preferIpv4,
        reported samples addr = true) →
      computeWeights (updateCandidates previous resolved preferIpv4) samples
        workerCount = some out →
      Undistorted (updateCandidates previous resolved preferIpv4) samples
        (UInt32.ofNat (max workerCount 1)) out := by
  intro always
  have undistorted :=
    always [] repeatedAnswer true oneReport 1 repeatedWeights (by decide)
      (by decide +kernel)
  have weight :=
    undistorted.weights (.v4 192 0 2 1, 150) List.mem_cons_self
  exact absurd weight (by decide +kernel)

end Repeats

end DnsServices.Microdoh3
