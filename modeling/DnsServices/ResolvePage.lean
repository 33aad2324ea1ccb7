import DnsServices.Seqlock
import DnsServices.Shared

namespace DnsServices.Shared

/-!
# The resolve page

`ResolveWriter::publish` and `ResolveReader::read_if_changed` as a sequence
lock over the words of the page.  The supervisor is the only writer and lives
as long as its workers.  Addresses behind the published count stay in the page
from earlier publishes; readers never look at them.
-/

open Seqlock

/-- The words of the page behind the counter. -/
inductive ResolveField where
  | count
  | revision
  | workers
  | publishedMonoSecs
  | expiresMonoSecs
  | addrs (i : Fin maxAddrs)
  | weights (i : Fin maxAddrs)
  deriving Repr, DecidableEq

/-- The stored form of each field. -/
abbrev ResolveField.Word : ResolveField → Type
  | .count => UInt32
  | .revision => UInt32
  | .workers => UInt32
  | .publishedMonoSecs => UInt64
  | .expiresMonoSecs => UInt64
  | .addrs _ => RawAddr
  | .weights _ => UInt32

/-- One call of `publish` and the clock values it reads. -/
structure Publish where
  addrs : List IpAddr
  weights : List UInt32
  workers : Nat
  /-- The two readings of the monotonic clock, in seconds. -/
  monoNowSecs : UInt64
  monoNowSecsLater : UInt64
  /-- Whole seconds until `expires_at`. -/
  secsToExpiry : UInt64
  deriving Repr, DecidableEq

namespace Publish

/-- The number of addresses that fit the page. -/
def count (publish : Publish) : Nat :=
  min publish.addrs.length maxAddrs

/-- The weight stored for entry `i`; missing weights are 1. -/
def weight (publish : Publish) (i : Nat) : UInt32 :=
  (publish.weights[i]?).getD 1

/-- The stores of one pass through the loop over the addresses. -/
def entryStores
    (publish : Publish)
    (i : Fin maxAddrs) :
    List (Store ResolveField.Word) :=
  match publish.addrs[i.1]? with
  | some addr =>
      [⟨.addrs i, fun _ => RawAddr.fromIp addr⟩,
        ⟨.weights i, fun _ => publish.weight i⟩]
  | none =>
      []

/-- The loop that clears the weights behind the last entry. -/
def clearStores (publish : Publish) : List (Store ResolveField.Word) :=
  ((List.finRange maxAddrs).filter fun i => publish.count ≤ i.1).map
    fun i => ⟨.weights i, fun _ => 0⟩

/-- The stores between the two stores to the counter. -/
def stores (publish : Publish) : List (Store ResolveField.Word) :=
  [⟨.count, fun _ => UInt32.ofNat publish.count⟩,
    ⟨.revision, fun page => page .revision + 1⟩,
    ⟨.workers, fun _ => UInt32.ofNat publish.workers⟩] ++
  (List.finRange maxAddrs).flatMap publish.entryStores ++
  publish.clearStores ++
  [⟨.publishedMonoSecs, fun _ => publish.monoNowSecs⟩,
    ⟨.expiresMonoSecs, fun _ =>
      publish.monoNowSecsLater + publish.secsToExpiry⟩]

/-- The upstream set that publish number `number` describes. -/
def upstreamSet (number : Nat) (publish : Publish) : UpstreamSet where
  addrs := publish.addrs.take maxAddrs
  weights := (List.range publish.count).map publish.weight
  revision := UInt32.ofNat number
  workers := UInt32.ofNat publish.workers
  publishedMonoSecs := publish.monoNowSecs

end Publish

/-- Load the given entries, then go on with the addresses and weights. -/
def readEntries
    (next :
      List IpAddr → List UInt32 →
        ReadProgram ResolveField.Word UpstreamSet) :
    List (Fin maxAddrs) → List IpAddr → List UInt32 →
      ReadProgram ResolveField.Word UpstreamSet
  | [], addrs, weights =>
      next addrs weights
  | i :: rest, addrs, weights =>
      .load (.addrs i) fun addr =>
      .load (.weights i) fun weight =>
      readEntries next rest (addrs ++ [addr.toIp]) (weights ++ [weight])

/-- The loads of `read_if_changed` and the set built from them. -/
def resolveReadProgram : ReadProgram ResolveField.Word UpstreamSet :=
  .load .count fun count =>
  readEntries
    (fun addrs weights =>
      .load .revision fun revision =>
      .load .workers fun workers =>
      .load .publishedMonoSecs fun publishedMonoSecs =>
      .done
        { addrs := addrs
          weights := weights
          revision := revision
          workers := workers
          publishedMonoSecs := publishedMonoSecs })
    ((List.finRange maxAddrs).take (min count.toNat maxAddrs)) [] []

/-- The protocol of the page: a reader remembers what it has read. -/
def resolveProtocol : Protocol ResolveField.Word Publish UpstreamSet where
  stores := Publish.stores
  program := resolveReadProgram
  remembers := true

/-- A fresh page is zero. -/
def zeroPage : Memory ResolveField.Word
  | .count => 0
  | .revision => 0
  | .workers => 0
  | .publishedMonoSecs => 0
  | .expiresMonoSecs => 0
  | .addrs _ => RawAddr.default
  | .weights _ => 0

/-- The page, the supervisor and any number of workers reading. -/
abbrev ResolveSystem (ρ : Type) :=
  System ResolveField.Word Publish UpstreamSet ρ

/-- The page as `ResolveWriter::create` leaves it. -/
def ResolveSystem.new (ρ : Type) : ResolveSystem ρ :=
  System.new zeroPage

/-! ## One publish -/

/-- The set a reader builds from a page that does not change. -/
def pageSet (page : Memory ResolveField.Word) : UpstreamSet where
  addrs :=
    ((List.finRange maxAddrs).take
      (min (page .count).toNat maxAddrs)).map fun i => (page (.addrs i)).toIp
  weights :=
    ((List.finRange maxAddrs).take
      (min (page .count).toNat maxAddrs)).map fun i => page (.weights i)
  revision := page .revision
  workers := page .workers
  publishedMonoSecs := page .publishedMonoSecs

theorem readEntries_run
    (next :
      List IpAddr → List UInt32 →
        ReadProgram ResolveField.Word UpstreamSet)
    (page : Memory ResolveField.Word)
    (entries : List (Fin maxAddrs))
    (addrs : List IpAddr)
    (weights : List UInt32) :
    (readEntries next entries addrs weights).run page =
      (next
        (addrs ++ entries.map fun i => (page (.addrs i)).toIp)
        (weights ++ entries.map fun i => page (.weights i))).run page := by
  induction entries generalizing addrs weights with
  | nil =>
      simp [readEntries]
  | cons i rest inductionHypothesis =>
      simp only [readEntries, ReadProgram.run]
      rw [inductionHypothesis]
      simp

/-- On one memory image a whole read is the set of that image. -/
theorem resolveReadProgram_run (page : Memory ResolveField.Word) :
    resolveReadProgram.run page = pageSet page := by
  simp only [resolveReadProgram, ReadProgram.run, readEntries_run,
    List.nil_append, pageSet]

namespace Publish

variable (publish : Publish)

/-- A store of the entry loop goes to an address or a weight of an entry. -/
theorem mem_entryStores
    {store : Store ResolveField.Word}
    (member :
      store ∈ (List.finRange maxAddrs).flatMap publish.entryStores) :
    ∃ (i : Fin maxAddrs) (addr : IpAddr),
      publish.addrs[i.1]? = some addr ∧
        (store = ⟨.addrs i, fun _ => RawAddr.fromIp addr⟩ ∨
          store = ⟨.weights i, fun _ => publish.weight i⟩) := by
  obtain ⟨i, -, inEntry⟩ := List.mem_flatMap.mp member
  rw [entryStores] at inEntry
  split at inEntry
  next addr found =>
    refine ⟨i, addr, found, ?_⟩
    simpa using inEntry
  · cases inEntry

theorem mem_clearStores
    {store : Store ResolveField.Word}
    (member : store ∈ publish.clearStores) :
    ∃ i : Fin maxAddrs,
      publish.count ≤ i.1 ∧ store = ⟨.weights i, fun _ => 0⟩ := by
  obtain ⟨i, filtered, rfl⟩ := List.mem_map.mp member
  rw [List.mem_filter, decide_eq_true_eq] at filtered
  exact ⟨i, filtered.2, rfl⟩

/-- All stores of a call. -/
theorem mem_stores
    {store : Store ResolveField.Word}
    (member : store ∈ publish.stores) :
    store = ⟨.count, fun _ => UInt32.ofNat publish.count⟩ ∨
      store = ⟨.revision, fun page => page .revision + 1⟩ ∨
      store = ⟨.workers, fun _ => UInt32.ofNat publish.workers⟩ ∨
      (∃ (i : Fin maxAddrs) (addr : IpAddr),
        publish.addrs[i.1]? = some addr ∧
          (store = ⟨.addrs i, fun _ => RawAddr.fromIp addr⟩ ∨
            store = ⟨.weights i, fun _ => publish.weight i⟩)) ∨
      (∃ i : Fin maxAddrs,
        publish.count ≤ i.1 ∧ store = ⟨.weights i, fun _ => 0⟩) ∨
      store = ⟨.publishedMonoSecs, fun _ => publish.monoNowSecs⟩ ∨
      store =
        ⟨.expiresMonoSecs, fun _ =>
          publish.monoNowSecsLater + publish.secsToExpiry⟩ := by
  rw [stores] at member
  simp only [List.mem_append, List.mem_cons, List.not_mem_nil, or_false]
    at member
  rcases member with (((isCount | isRevision | isWorkers) | entry) | cleared) |
    isPublished | isExpires
  · exact .inl isCount
  · exact .inr (.inl isRevision)
  · exact .inr (.inr (.inl isWorkers))
  · exact .inr (.inr (.inr (.inl (publish.mem_entryStores entry))))
  · exact .inr (.inr (.inr (.inr (.inl (publish.mem_clearStores cleared)))))
  · exact .inr (.inr (.inr (.inr (.inr (.inl isPublished)))))
  · exact .inr (.inr (.inr (.inr (.inr (.inr isExpires)))))

/-- The page after a call of `publish`. -/
structure Holds
    (publish : Publish)
    (before after : Memory ResolveField.Word) : Prop where
  count : after .count = UInt32.ofNat publish.count
  revision : after .revision = before .revision + 1
  workers : after .workers = UInt32.ofNat publish.workers
  published : after .publishedMonoSecs = publish.monoNowSecs
  addrs :
    ∀ (i : Fin maxAddrs) (addr : IpAddr),
      publish.addrs[i.1]? = some addr →
        after (.addrs i) = RawAddr.fromIp addr
  weights :
    ∀ i : Fin maxAddrs, i.1 < publish.count →
      after (.weights i) = publish.weight i

/-- After its stores the page holds the publication. -/
theorem stores_holds (before : Memory ResolveField.Word) :
    publish.Holds before (publish.stores.foldl Store.apply before) := by
  refine ⟨?_, ?_, ?_, ?_, ?_, ?_⟩
  · refine foldl_apply_eq ?_ (by simp [stores]) before
    intro store member
    rcases publish.mem_stores member with rfl | rfl | rfl |
      ⟨i, addr, -, rfl | rfl⟩ | ⟨i, -, rfl⟩ | rfl | rfl <;>
    simp
  · -- the only store that reads the page comes right after the count
    let rest :=
      [⟨.workers, fun _ => UInt32.ofNat publish.workers⟩] ++
      (List.finRange maxAddrs).flatMap publish.entryStores ++
      publish.clearStores ++
      [⟨.publishedMonoSecs, fun _ => publish.monoNowSecs⟩,
        ⟨.expiresMonoSecs, fun _ =>
          publish.monoNowSecsLater + publish.secsToExpiry⟩]
    have kept : ∀ store ∈ rest, ResolveField.revision ≠ store.cell := by
      intro store member
      simp only [rest, List.mem_append, List.mem_cons, List.not_mem_nil,
        or_false] at member
      rcases member with ((rfl | entry) | cleared) | rfl | rfl
      · simp
      · obtain ⟨i, addr, -, rfl | rfl⟩ := publish.mem_entryStores entry <;>
        simp
      · obtain ⟨i, -, rfl⟩ := publish.mem_clearStores cleared
        simp
      · simp
      · simp
    exact (foldl_apply_of_ne kept _).trans rfl
  · refine foldl_apply_eq ?_ (by simp [stores]) before
    intro store member
    rcases publish.mem_stores member with rfl | rfl | rfl |
      ⟨i, addr, -, rfl | rfl⟩ | ⟨i, -, rfl⟩ | rfl | rfl <;>
    simp
  · refine foldl_apply_eq ?_ (by simp [stores]) before
    intro store member
    rcases publish.mem_stores member with rfl | rfl | rfl |
      ⟨i, addr, -, rfl | rfl⟩ | ⟨i, -, rfl⟩ | rfl | rfl <;>
    simp
  · intro i addr found
    refine foldl_apply_eq ?_ ?_ before
    · intro store member
      rcases publish.mem_stores member with rfl | rfl | rfl |
        ⟨j, other, otherFound, rfl | rfl⟩ | ⟨j, -, rfl⟩ | rfl | rfl <;>
      simp
      by_cases same : i = j
      · subst same
        rw [found] at otherFound
        cases otherFound
        simp
      · simp [same]
    · refine List.mem_append_left _ (List.mem_append_left _
        (List.mem_append_right _ ?_))
      refine List.mem_flatMap.mpr ⟨i, List.mem_finRange i, ?_⟩
      simp [entryStores, found]
  · intro i inRange
    obtain ⟨addr, found⟩ : ∃ addr, publish.addrs[i.1]? = some addr := by
      have inAddrs : i.1 < publish.addrs.length :=
        Nat.lt_of_lt_of_le inRange (Nat.min_le_left _ _)
      exact ⟨_, List.getElem?_eq_getElem inAddrs⟩
    refine foldl_apply_eq ?_ ?_ before
    · intro store member
      rcases publish.mem_stores member with rfl | rfl | rfl |
        ⟨j, other, -, rfl | rfl⟩ | ⟨j, cleared, rfl⟩ | rfl | rfl <;>
      simp
      · by_cases same : i = j
        · simp [same]
        · simp [same]
      · have different : i ≠ j := by
          rintro rfl
          omega
        simp [different]
    · refine List.mem_append_left _ (List.mem_append_left _
        (List.mem_append_right _ ?_))
      refine List.mem_flatMap.mpr ⟨i, List.mem_finRange i, ?_⟩
      simp [entryStores, found]

/-- A page that holds a publish is read as its upstream set. -/
theorem Holds.pageSet
    {publish : Publish}
    {before after : Memory ResolveField.Word}
    {number : Nat}
    (holds : publish.Holds before after)
    (revision : before .revision = UInt32.ofNat number) :
    pageSet after = publish.upstreamSet (number + 1) := by
  have countValue : min (after .count).toNat maxAddrs = publish.count := by
    rw [holds.count, UInt32.toNat_ofNat']
    unfold Publish.count maxAddrs
    omega
  have revisionValue :
      after .revision = UInt32.ofNat (number + 1) := by
    rw [holds.revision, revision, UInt32.ofNat_add]
    rfl
  rw [Shared.pageSet, upstreamSet, countValue, revisionValue, holds.workers,
    holds.published]
  have countBound : publish.count ≤ maxAddrs := Nat.min_le_right _ _
  congr 1
  · refine List.ext_getElem ?_ ?_
    · simp [Publish.count, Nat.min_comm]
    · intro k inEntries inAddrs
      rw [List.length_take, lt_min_iff] at inAddrs
      have found :=
        holds.addrs ⟨k, inAddrs.1⟩ _ (List.getElem?_eq_getElem inAddrs.2)
      rw [List.getElem_map, List.getElem_take, List.getElem_take,
        List.getElem_finRange]
      exact (congrArg RawAddr.toIp found).trans (RawAddr.toIp_fromIp _)
  · refine List.ext_getElem ?_ ?_
    · simp [countBound]
    · intro k inEntries inCount
      rw [List.length_map, List.length_range] at inCount
      have found := holds.weights ⟨k, by omega⟩ inCount
      rw [List.getElem_map, List.getElem_take, List.getElem_finRange,
        List.getElem_map, List.getElem_range]
      exact found

theorem length_upstreamSet (publish : Publish) (number : Nat) :
    (publish.upstreamSet number).addrs.length =
      (publish.upstreamSet number).weights.length := by
  simp [upstreamSet, count, Nat.min_comm]

end Publish

/-! ## Runs -/

/-- The revision counts the complete publishes. -/
theorem image_revision (calls : List Publish) :
    image resolveProtocol zeroPage calls .revision =
      UInt32.ofNat calls.length := by
  induction calls using List.reverseRecOn with
  | nil =>
      rfl
  | append_singleton earlier last inductionHypothesis =>
      have holds :=
        last.stores_holds (image resolveProtocol zeroPage earlier)
      rw [image_snoc, List.length_append, List.length_singleton,
        UInt32.ofNat_add, ← inductionHypothesis]
      exact holds.revision

/-- After `count` publishes the page is read as the last of them. -/
theorem run_image_take
    {calls : List Publish}
    {number : Nat}
    (inRange : number < calls.length) :
    resolveReadProgram.run
        (image resolveProtocol zeroPage (calls.take (number + 1))) =
      (calls[number]).upstreamSet (number + 1) := by
  rw [List.take_succ_eq_append_getElem inRange, image_snoc,
    resolveReadProgram_run]
  refine Publish.Holds.pageSet (Publish.stores_holds _ _) ?_
  rw [image_revision, List.length_take, Nat.min_eq_left (by omega)]

/--
Every set a worker reads is exactly what one publish wrote, and each set a
worker reads comes from a later publish than the one before.
-/
theorem resolve_reads_whole_publishes
    {ρ : Type}
    [DecidableEq ρ]
    (actions : List (Action Publish ρ))
    (supervisorLives : .kill ∉ actions)
    (close :
      AllSteps resolveProtocol LoadsClose (ResolveSystem.new ρ) actions)
    (reader : ρ) :
    let final := (ResolveSystem.new ρ).run resolveProtocol actions
    ∃ numbers : List Nat,
      numbers.Pairwise (· < ·) ∧
      (resultsOf reader final.2).map some =
        numbers.map (fun number =>
          (final.1.committed[number]?).map
            (Publish.upstreamSet (number + 1))) ∧
      ∀ set ∈ resultsOf reader final.2,
        set.addrs.length = set.weights.length := by
  intro final
  have started : Invariant resolveProtocol zeroPage (ResolveSystem.new ρ) :=
    invariant_new
  have intact : Intact (ResolveSystem.new ρ) := by
    intro odd
    have even : ¬ (0 : UInt32) % 2 = 1 := by
      decide
    exact absurd odd even
  have entries := allSteps_evenEntry started intact supervisorLives
  obtain ⟨counts, increasing, bounds, results⟩ :=
    run_resultsOf started entries close reader
  -- a count of complete publishes names the last of them
  have named :
      ∀ count ∈ counts, ∃ publish,
        final.1.committed[count - 1]? = some publish ∧
          resolveReadProgram.run
              (image resolveProtocol zeroPage
                (final.1.committed.take count)) =
            publish.upstreamSet (count - 1 + 1) := by
    intro count member
    obtain ⟨positive, bound⟩ := bounds count member
    have positive : 0 < count := Nat.lt_of_le_of_lt (Nat.zero_le _) positive
    have inRange : count - 1 < final.1.committed.length := by
      have : count ≤ final.1.committed.length := bound
      omega
    refine ⟨_, List.getElem?_eq_getElem inRange, ?_⟩
    have read := run_image_take inRange
    rwa [Nat.sub_add_cancel positive] at read ⊢
  refine ⟨counts.map (· - 1), ?_, ?_, ?_⟩
  · rw [List.pairwise_map]
    refine (increasing rfl).imp_of_mem ?_
    intro first second firstMember secondMember less
    have := (bounds first firstMember).1
    omega
  · rw [results, List.map_map, List.map_map]
    refine List.map_congr_left ?_
    intro count member
    obtain ⟨publish, isCommitted, read⟩ := named count member
    simp only [Function.comp_apply, isCommitted, Option.map_some]
    exact congrArg some read
  · intro set member
    rw [results, List.mem_map] at member
    obtain ⟨count, counted, rfl⟩ := member
    obtain ⟨publish, -, read⟩ := named count counted
    have same :
        resolveProtocol.program.run
            (image resolveProtocol zeroPage
              (final.1.committed.take count)) =
          publish.upstreamSet (count - 1 + 1) := read
    rw [same]
    exact publish.length_upstreamSet _

/-- A publish of one address, for the run below. -/
def publishOf (last : UInt8) : Publish where
  addrs := [.v4 9 9 9 last]
  weights := []
  workers := 2
  monoNowSecs := 100
  monoNowSecsLater := 100
  secsToExpiry := 60

/-- A reader that is overtaken by a publish retries and gets the later one. -/
def overtakenRun : List (Action Publish Bool) :=
  [.begin (publishOf 1)] ++ List.replicate 24 .write ++
    [.read true, .read true, .begin (publishOf 2)] ++
    List.replicate 24 .write ++ List.replicate 16 (.read true)

/-- A read that a second publication overtakes starts again and returns it
whole. -/
theorem resolve_reads_whole_publishes_overtaken :
    resultsOf true
        ((ResolveSystem.new Bool).run resolveProtocol overtakenRun).2 =
      [(publishOf 2).upstreamSet 2] ∧
    let final := (ResolveSystem.new Bool).run resolveProtocol overtakenRun
    ∃ numbers : List Nat,
      numbers.Pairwise (· < ·) ∧
      (resultsOf true final.2).map some =
        numbers.map (fun number =>
          (final.1.committed[number]?).map
            (Publish.upstreamSet (number + 1))) ∧
      ∀ set ∈ resultsOf true final.2,
        set.addrs.length = set.weights.length :=
  ⟨by decide +kernel,
    resolve_reads_whole_publishes overtakenRun (by decide)
      (by decide +kernel) true⟩

end DnsServices.Shared
