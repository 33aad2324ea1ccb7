import DnsServices.FleetSplit
import DnsServices.ResolvePage
import DnsServices.StableSort

namespace DnsServices.Microdoh3

open Shared StableSort

/-!
# Selection weights

`compute_weights` of `main.rs` turns the scores the workers report into a
weight per candidate address: the best score reported for it or a floor, plus
an extra share for the first candidate without a report.  The weights are
stated here as functions of the samples alone; the supervisor publishes them
best-first.
-/

section Code

/-- `u32::saturating_add`. -/
def saturatingAdd (a b : UInt32) : UInt32 :=
  if a.toNat + b.toNat < 2 ^ 32 then a + b else 4294967295

/-- Enter one sample into the best scores and the measured flags. -/
def tally
    (candidates : List IpAddr)
    (acc : List UInt32 × List Bool)
    (s : ScoreSample) : List UInt32 × List Bool :=
  match s.addr with
  | none => acc
  | some addr =>
      match candidates.findIdx? (· == addr) with
      | none => acc
      | some i =>
          (acc.1.modify i fun best => max best s.score, acc.2.set i true)

/-- Best score any worker reported for each candidate, and whether anyone has
reported anything for it. -/
def bestMeasured
    (candidates : List IpAddr)
    (samples : List (Option ScoreSample)) : List UInt32 × List Bool :=
  samples.reduceOption.foldl (tally candidates)
    (List.replicate candidates.length 0,
      List.replicate candidates.length false)

/-- Half a worker's share. -/
def floorShare (top : UInt32) (workers : UInt32) : UInt32 :=
  max (top / (2 * workers)) 1

/-- One worker's share, for the first address nobody has measured. -/
def oneSlot (top : UInt32) (workers : UInt32) : UInt32 :=
  top / workers

/-- The relative weight per candidate, best first.  A fleet of a multiple of
`2 ^ 31` workers makes the source divide by zero. -/
def computeWeights
    (candidates : List IpAddr)
    (samples : List (Option ScoreSample))
    (workerCount : Nat) : Option (List (IpAddr × UInt32)) :=
  let (best, measured) := bestMeasured candidates samples
  let top := best.foldl max 0
  let workers := UInt32.ofNat (max workerCount 1)
  if 2 * workers = 0 then
    none
  else
    let probe := measured.findIdx? fun m => !m
    let out := candidates.zipIdx.map fun (a, i) =>
      let w := max (best.getD i 0) (floorShare top workers)
      (a, if some i = probe then saturatingAdd w (oneSlot top workers) else w)
    some (sortByKeyReverse (fun entry => entry.2.toNat) out)

/-- The call that publishes weights, for another minute. -/
def publishWeights
    (weights : List (IpAddr × UInt32))
    (workerCount : Nat)
    (monoNowSecs monoNowSecsLater : UInt64) : Publish where
  addrs := weights.map Prod.fst
  weights := weights.map Prod.snd
  workers := workerCount
  monoNowSecs := monoNowSecs
  monoNowSecsLater := monoNowSecsLater
  secsToExpiry := 60

end Code

section Arithmetic

theorem toNat_max (a b : UInt32) :
    (max a b).toNat = max a.toNat b.toNat := by
  by_cases ordered : a ≤ b
  · have larger : max a b = b := if_pos ordered
    rw [larger, max_eq_right (UInt32.le_iff_toNat_le.mp ordered)]
  · have larger : max a b = a := if_neg ordered
    rw [UInt32.le_iff_toNat_le, not_le] at ordered
    rw [larger, max_eq_left ordered.le]

/-- A saturating sum is the sum cut off at 2^32 - 1. -/
theorem toNat_saturatingAdd (a b : UInt32) :
    (saturatingAdd a b).toNat = min (a.toNat + b.toNat) (2 ^ 32 - 1) := by
  rw [saturatingAdd]
  split
  · rename_i fits
    rw [UInt32.toNat_add, Nat.mod_eq_of_lt fits, min_eq_left (by omega)]
  · rename_i overflows
    rw [min_eq_right (by omega)]
    rfl

/-- The floor share is positive. -/
theorem one_le_floorShare (top workers : UInt32) :
    1 ≤ (floorShare top workers).toNat := by
  rw [floorShare, toNat_max]
  exact Nat.le_max_right _ _

end Arithmetic

section Samples

/-- The best score that samples report for an address. -/
def bestScore
    (samples : List (Option ScoreSample))
    (addr : IpAddr) : UInt32 :=
  (samples.reduceOption.filter fun s => s.addr = some addr).foldl
    (fun best s => max best s.score) 0

/-- Some sample names the address. -/
def reported
    (samples : List (Option ScoreSample))
    (addr : IpAddr) : Bool :=
  samples.reduceOption.any fun s => s.addr = some addr

/-- The best score reported for any candidate. -/
def topScore
    (candidates : List IpAddr)
    (samples : List (Option ScoreSample)) : UInt32 :=
  (candidates.map (bestScore samples)).foldl max 0

/-- The candidate that gets the extra share: the first without a report. -/
def probe
    (candidates : List IpAddr)
    (samples : List (Option ScoreSample)) : Option IpAddr :=
  candidates.find? fun addr => !reported samples addr

/-- The weight of a candidate. -/
def weight
    (candidates : List IpAddr)
    (samples : List (Option ScoreSample))
    (workers : UInt32)
    (addr : IpAddr) : UInt32 :=
  let top := topScore candidates samples
  let w := max (bestScore samples addr) (floorShare top workers)
  if probe candidates samples = some addr then
    saturatingAdd w (oneSlot top workers)
  else
    w

/-- No weight is below the floor. -/
theorem floorShare_le_weight
    (candidates : List IpAddr)
    (samples : List (Option ScoreSample))
    (workers : UInt32)
    (addr : IpAddr) :
    (floorShare (topScore candidates samples) workers).toNat ≤
      (weight candidates samples workers addr).toNat := by
  have floorBound :=
    (floorShare (topScore candidates samples) workers).toNat_lt
  rw [weight]
  split
  · rw [toNat_saturatingAdd, toNat_max]
    omega
  · rw [toNat_max]
    exact Nat.le_max_right _ _

/-- A value where an item is listed first, and a filler where it is listed
again. -/
def atFirst
    {β : Type}
    (filler : β)
    (value : IpAddr → β)
    (candidates : List IpAddr) : List β :=
  candidates.zipIdx.map fun (a, i) =>
    if candidates.findIdx? (· == a) = some i then value a else filler

theorem length_atFirst
    {β : Type}
    (filler : β)
    (value : IpAddr → β)
    (candidates : List IpAddr) :
    (atFirst filler value candidates).length = candidates.length := by
  rw [atFirst, List.length_map, List.length_zipIdx]

theorem getElem_atFirst
    {β : Type}
    (filler : β)
    (value : IpAddr → β)
    {candidates : List IpAddr}
    {i : Nat}
    (inAtFirst : i < (atFirst filler value candidates).length)
    (inRange : i < candidates.length) :
    (atFirst filler value candidates)[i] =
      if candidates.findIdx? (· == candidates[i]) = some i then
        value candidates[i]
      else
        filler := by
  simp only [atFirst, List.getElem_map, List.getElem_zipIdx, Nat.zero_add]

/-- Only the values of the candidates matter. -/
theorem atFirst_congr
    {β : Type}
    {candidates : List IpAddr}
    {value other : IpAddr → β}
    (same : ∀ a ∈ candidates, value a = other a)
    (filler : β) :
    atFirst filler value candidates = atFirst filler other candidates := by
  refine List.ext_getElem (by simp [length_atFirst]) ?_
  intro i inFirst inSecond
  have inRange : i < candidates.length := by
    rwa [length_atFirst] at inFirst
  rw [getElem_atFirst _ _ _ inRange, getElem_atFirst _ _ _ inRange,
    same _ (List.getElem_mem inRange)]

theorem atFirst_const
    {β : Type}
    (filler : β)
    (candidates : List IpAddr) :
    atFirst filler (fun _ => filler) candidates =
      List.replicate candidates.length filler := by
  simp only [atFirst, ite_self, List.map_const', List.length_zipIdx]

/-- Distinct items are listed once. -/
theorem atFirst_of_nodup
    {β : Type}
    {candidates : List IpAddr}
    (distinct : candidates.Nodup)
    (filler : β)
    (value : IpAddr → β) :
    atFirst filler value candidates = candidates.map value := by
  refine List.ext_getElem (by simp [length_atFirst]) ?_
  intro i inAtFirst inMap
  have inRange : i < candidates.length := by
    rwa [length_atFirst] at inAtFirst
  have first : candidates.findIdx? (· == candidates[i]) = some i := by
    rw [List.findIdx?_eq_some_iff_getElem]
    refine ⟨inRange, by simp, ?_⟩
    intro j earlier same
    exact earlier.ne (distinct.getElem_inj_iff.mp (eq_of_beq same))
  rw [getElem_atFirst _ _ _ inRange, if_pos first, List.getElem_map]

/-- Every item is listed first somewhere. -/
theorem forall_mem_atFirst
    {β : Type}
    {filler : β}
    {property : β → Prop}
    (ofFiller : property filler)
    (value : IpAddr → β)
    (candidates : List IpAddr) :
    (∀ x ∈ atFirst filler value candidates, property x) ↔
      ∀ a ∈ candidates, property (value a) := by
  constructor
  · intro all a member
    obtain ⟨_, listed⟩ := List.mem_iff_getElem?.mp member
    obtain ⟨i, -, position⟩ := exists_position listed
    obtain ⟨inRange, named, -⟩ := List.findIdx?_eq_some_iff_getElem.mp position
    have isAddr : candidates[i] = a := eq_of_beq named
    have inAtFirst : i < (atFirst filler value candidates).length := by
      rwa [length_atFirst]
    have entry := all _ (List.getElem_mem inAtFirst)
    rwa [getElem_atFirst _ _ _ inRange, isAddr, if_pos position] at entry
  · intro all x member
    obtain ⟨i, inAtFirst, rfl⟩ := List.mem_iff_getElem.mp member
    have inRange : i < candidates.length := by
      rwa [length_atFirst] at inAtFirst
    rw [getElem_atFirst _ _ _ inRange]
    split
    · exact all _ (List.getElem_mem inRange)
    · exact ofFiller

/-- A change at the position of an item is a change of its value. -/
theorem modify_atFirst
    {β : Type}
    {candidates : List IpAddr}
    {addr : IpAddr}
    {i : Nat}
    (position : candidates.findIdx? (· == addr) = some i)
    (filler : β)
    (value : IpAddr → β)
    (change : β → β) :
    (atFirst filler value candidates).modify i change =
      atFirst filler
        (fun a => if a = addr then change (value a) else value a)
        candidates := by
  obtain ⟨inRange, named, -⟩ := List.findIdx?_eq_some_iff_getElem.mp position
  have isAddr : candidates[i] = addr := by
    simpa using named
  refine List.ext_getElem (by simp [length_atFirst]) ?_
  intro j inModified inAtFirst
  have inCandidates : j < candidates.length := by
    rwa [length_atFirst] at inAtFirst
  rw [List.getElem_modify, getElem_atFirst _ _ _ inCandidates,
    getElem_atFirst _ _ _ inCandidates]
  by_cases here : i = j
  · subst here
    rw [isAddr, if_pos rfl, if_pos position, if_pos position, if_pos rfl]
  · rw [if_neg here]
    by_cases same : candidates[j] = addr
    · have elsewhere :
          candidates.findIdx? (· == candidates[j]) ≠ some j := by
        rw [same, position]
        exact fun equal => here (Option.some.inj equal)
      rw [if_neg elsewhere, if_neg elsewhere]
    · rw [if_neg same]

/-- One sample changes the entries of the candidate it names. -/
theorem tally_eq
    (candidates : List IpAddr)
    (best : IpAddr → UInt32)
    (measured : IpAddr → Bool)
    (s : ScoreSample) :
    tally candidates
        (atFirst 0 best candidates, atFirst false measured candidates) s =
      (atFirst 0
          (fun a => if s.addr = some a then max (best a) s.score else best a)
          candidates,
        atFirst false (fun a => measured a || decide (s.addr = some a))
          candidates) := by
  rw [tally]
  cases named : s.addr with
  | none =>
      simp
  | some addr =>
      have nameIff : ∀ a, some addr = some a ↔ a = addr := by
        intro a
        rw [Option.some_inj, eq_comm]
      simp only [nameIff]
      cases position : candidates.findIdx? (· == addr) with
      | none =>
          have absent : ∀ a ∈ candidates, a ≠ addr := by
            simpa using position
          dsimp only
          refine congrArg₂ Prod.mk (atFirst_congr ?_ 0) (atFirst_congr ?_ false)
          · intro a member
            rw [if_neg (absent a member)]
          · intro a member
            simp [absent a member]
      | some i =>
          refine Prod.ext ?_ ?_
          · exact modify_atFirst position 0 best _
          · have flagged := modify_atFirst position false measured fun _ => true
            dsimp only
            rw [List.set_eq_modify, flagged]
            refine atFirst_congr (fun a _ => ?_) false
            by_cases same : a = addr
            · simp [same]
            · simp [same]

/-- Tallying the samples one by one is tallying them all. -/
theorem foldl_tally_eq
    (candidates : List IpAddr)
    (best : IpAddr → UInt32)
    (measured : IpAddr → Bool)
    (samples : List ScoreSample) :
    samples.foldl (tally candidates)
        (atFirst 0 best candidates, atFirst false measured candidates) =
      (atFirst 0
          (fun a =>
            (samples.filter fun s => s.addr = some a).foldl
              (fun best s => max best s.score) (best a))
          candidates,
        atFirst false
          (fun a => measured a || samples.any fun s => s.addr = some a)
          candidates) := by
  induction samples generalizing best measured with
  | nil =>
      simp
  | cons s rest inductionHypothesis =>
      rw [List.foldl_cons, tally_eq, inductionHypothesis]
      refine congrArg₂ Prod.mk (atFirst_congr ?_ 0) (atFirst_congr ?_ false)
      · intro a _
        by_cases named : s.addr = some a
        · simp [named]
        · simp [named]
      · intro a _
        simp [Bool.or_assoc]

/-- The loop over the samples computes the best scores and the reports, both
where an address is listed first. -/
theorem bestMeasured_eq_atFirst
    (candidates : List IpAddr)
    (samples : List (Option ScoreSample)) :
    bestMeasured candidates samples =
      (atFirst 0 (bestScore samples) candidates,
        atFirst false (reported samples) candidates) := by
  rw [bestMeasured, ← atFirst_const, ← atFirst_const, foldl_tally_eq]
  simp only [Bool.false_or]
  rfl

/-- For distinct candidates the tally is their best scores and who was reported.
-/
theorem bestMeasured_eq
    {candidates : List IpAddr}
    (distinct : candidates.Nodup)
    (samples : List (Option ScoreSample)) :
    bestMeasured candidates samples =
      (candidates.map (bestScore samples),
        candidates.map (reported samples)) := by
  rw [bestMeasured_eq_atFirst, atFirst_of_nodup distinct,
    atFirst_of_nodup distinct]

/-- The position of the probe is that of the candidate it names. -/
theorem probe_position
    {candidates : List IpAddr}
    (distinct : candidates.Nodup)
    (samples : List (Option ScoreSample))
    {i : Nat}
    (inRange : i < candidates.length) :
    some i = (candidates.map (reported samples)).findIdx? (fun m => !m) ↔
      probe candidates samples = some candidates[i] := by
  induction candidates generalizing i with
  | nil =>
      simp at inRange
  | cons head rest inductionHypothesis =>
      obtain ⟨notInRest, restDistinct⟩ := List.nodup_cons.mp distinct
      rw [probe, List.find?_cons, List.map_cons, List.findIdx?_cons]
      cases isReported : reported samples head with
      | false =>
          cases i with
          | zero =>
              simp
          | succ i =>
              have inRest : i < rest.length := by
                simpa using inRange
              have different : head ≠ rest[i] := by
                intro same
                exact notInRest (same ▸ List.getElem_mem _)
              simp [different]
      | true =>
          cases i with
          | zero =>
              have notLater :
                  ¬ probe rest samples = some head := fun found =>
                notInRest (List.mem_of_find?_eq_some found)
              simpa [probe] using notLater
          | succ i =>
              have inRest : i < rest.length := by
                simpa using inRange
              have later := inductionHypothesis restDistinct inRest
              simpa [probe, eq_comm] using later

/-- The published weights are those of the candidates, sorted. -/
theorem computeWeights_eq
    {candidates : List IpAddr}
    (distinct : candidates.Nodup)
    (samples : List (Option ScoreSample))
    (workerCount : Nat) :
    computeWeights candidates samples workerCount =
      if 2 * UInt32.ofNat (max workerCount 1) = 0 then
        none
      else
        some (sortByKeyReverse (fun entry => entry.2.toNat)
          (candidates.map fun a =>
            (a, weight candidates samples
              (UInt32.ofNat (max workerCount 1)) a))) := by
  simp only [computeWeights, bestMeasured_eq distinct]
  congr 3
  refine List.ext_getElem (by simp) ?_
  intro i inZip inRange
  have inCandidates : i < candidates.length := by
    simpa using inRange
  have position := probe_position distinct samples inCandidates
  simp only [List.getElem_map, List.getElem_zipIdx, Nat.zero_add, weight,
    topScore, position]
  simp [List.getD_eq_getElem?_getD, inCandidates]

end Samples

end DnsServices.Microdoh3
