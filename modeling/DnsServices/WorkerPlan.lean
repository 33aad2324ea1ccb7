import Mathlib.Data.Prod.Lex
import DnsServices.BootstrapAgreement
import DnsServices.CpuMask
import DnsServices.DefaultRoute
import DnsServices.OrderedMap
import DnsServices.Supervisor

namespace DnsServices.Microdoh3

open Text OrderedMap Runs

/-!
# The CPUs of the workers

Which CPUs `main.rs` runs its workers on: those of `--cpus`, or the first few of
a pool, which is made of the CPUs that the transmit queues are steered to, or of
one CPU for each physical core.  Directories and files are the environment's: a
directory is a list of entries, in any order, and `none` where it cannot be
read.
-/

section Code

/-- `str::parse::<u32>` -/
def parseU32 (s : Str) : Option UInt32 :=
  (fromStrRadix 10 (2 ^ 32) s).map UInt32.ofNat

/-- `str::parse::<i64>` -/
def parseI64 : Str → Option Int
  | '-' :: rest =>
      if rest.isEmpty then
        none
      else
        (pushDigits 10 (2 ^ 63 + 1) 0 rest).map fun value => -(value : Int)
  | s =>
      (fromStrRadix 10 (2 ^ 63) s).map fun value => (value : Int)

/-- An entry of `/sys/devices/system/cpu`; the name is `none` unless it is
UTF-8. -/
structure CpuEntry where
  name : Option Str
  physicalPackageId : Option Str
  coreId : Option Str
  deriving Repr, DecidableEq

namespace CpuEntry

/-- The number behind `cpu`. -/
def cpu (entry : CpuEntry) : Option UInt32 := do
  let name ← entry.name
  let digits ← stripPrefix "cpu".toList name
  parseU32 digits

/-- The package and the core, compared in this order. -/
def core (entry : CpuEntry) : Option (Int ×ₗ Int) := do
  let pkg ← entry.physicalPackageId.bind fun s => parseI64 (trim s)
  let core ← entry.coreId.bind fun s => parseI64 (trim s)
  some (toLex (pkg, core))

end CpuEntry

/-- What the loop of `physical_cores` collects. -/
structure CoreScan where
  cores : List ((Int ×ₗ Int) × UInt32)
  fallback : List UInt32

/-- One pass of the loop: the lowest CPU of a core is kept. -/
def CoreScan.visit (scan : CoreScan) (entry : CpuEntry) : CoreScan :=
  match entry.cpu with
  | none =>
      scan
  | some cpu =>
      { cores :=
          match entry.core with
          | none =>
              scan.cores
          | some key =>
              upsert min key cpu scan.cores
        fallback := scan.fallback ++ [cpu] }

/-- Representative CPUs of the physical cores; `parallelism` is what the
standard library reports where there is no sysfs. -/
def physicalCores
    (dir : Option (List CpuEntry))
    (parallelism : Option Nat) : List UInt32 :=
  let scan := (dir.getD []).foldl CoreScan.visit { cores := [], fallback := [] }
  if scan.cores.isEmpty then
    if scan.fallback.isEmpty then
      (List.range (parallelism.getD 1 % 2 ^ 32)).map UInt32.ofNat
    else
      scan.fallback.insertionSort (· ≤ ·)
  else
    scan.cores.map Prod.snd

/-- An entry of the directory of an interface's queues. -/
structure QueueEntry where
  name : Option Str
  xpsCpus : Option Str
  deriving Repr, DecidableEq

/-- `push`, unless the vector contains the CPU. -/
def pushNew (cpus : List UInt32) (cpu : UInt32) : List UInt32 :=
  if cpu ∈ cpus then cpus else cpus ++ [cpu]

/-- The CPUs of one queue; other entries have none. -/
def QueueEntry.cpus (entry : QueueEntry) : List UInt32 :=
  match entry.name with
  | none =>
      []
  | some name =>
      if "tx-".toList.isPrefixOf name then
        match entry.xpsCpus with
        | none =>
            []
        | some mask =>
            parseCpumask mask
      else
        []

/-- CPUs that the transmit queues of an interface are steered to. -/
def xpsCpusOf (queues : Option (List QueueEntry)) : List UInt32 :=
  match queues with
  | none =>
      []
  | some entries =>
      (entries.foldl (fun cpus entry => entry.cpus.foldl pushNew cpus)
        []).insertionSort (· ≤ ·)

/-- What `main` reads of the machine. -/
structure Host where
  cpuDir : Option (List CpuEntry)
  parallelism : Option Nat
  queues : Str → Option (List QueueEntry)
  routes : Option Str

/-- The CPUs of the named interfaces, or of the one with the default route. -/
def xpsWorkerCpus (host : Host) (ifaces : List Str) : List UInt32 :=
  let chosen :=
    if ifaces.isEmpty then
      (defaultRouteIface host.routes).toList
    else
      ifaces
  (chosen.foldl
    (fun cpus iface => (xpsCpusOf (host.queues iface)).foldl pushNew cpus)
    []).insertionSort (· ≤ ·)

/-- The options that decide the CPUs. -/
structure PlanOptions where
  workers : UInt32
  cpus : Option Str
  xpsCpus : Bool
  xpsInterface : List Str

/-- How `main` ends where it has no CPUs. -/
inductive PlanError where
  /-- `exit(2)` -/
  | invalidCpus
  /-- The slice of an empty pool. -/
  | panic
  deriving Repr, DecidableEq

/-- The CPUs that the first workers are taken from. -/
def cpuPool (host : Host) (cli : PlanOptions) : List UInt32 :=
  let fromXps := if cli.xpsCpus then xpsWorkerCpus host cli.xpsInterface else []
  if fromXps.isEmpty then
    physicalCores host.cpuDir host.parallelism
  else
    fromXps

/-- The CPU of each worker. -/
def workerCpus
    (host : Host)
    (cli : PlanOptions) : Except PlanError (List UInt32) :=
  match cli.cpus with
  | some list =>
      match (list.splitOn ',').mapM fun s => parseU32 (trim s) with
      | some cpus =>
          if cpus.isEmpty then .error .invalidCpus else .ok cpus
      | none =>
          .error .invalidCpus
  | none =>
      let pool := cpuPool host cli
      let n :=
        if cli.workers = 0 then
          pool.length
        else
          min cli.workers.toNat pool.length
      if max n 1 ≤ pool.length then
        .ok (pool.take (max n 1))
      else
        .error .panic

end Code

section Cores

/-- The CPUs with a known core, as the directory lists them. -/
def coreItems (entries : List CpuEntry) : List ((Int ×ₗ Int) × UInt32) :=
  entries.filterMap fun entry => do
    let cpu ← entry.cpu
    let key ← entry.core
    some (key, cpu)

/-- The items are the CPUs whose core is known. -/
theorem mem_coreItems
    {entries : List CpuEntry}
    {key : Int ×ₗ Int}
    {cpu : UInt32} :
    (key, cpu) ∈ coreItems entries ↔
      ∃ entry ∈ entries, entry.core = some key ∧ entry.cpu = some cpu := by
  rw [coreItems, List.mem_filterMap]
  constructor
  · rintro ⟨entry, member, found⟩
    obtain ⟨number, isCpu, rest⟩ := Option.bind_eq_some_iff.mp found
    obtain ⟨core, isCore, same⟩ := Option.bind_eq_some_iff.mp rest
    obtain ⟨rfl, rfl⟩ := Prod.mk.inj (Option.some.inj same)
    exact ⟨entry, member, isCore, isCpu⟩
  · rintro ⟨entry, member, isCore, isCpu⟩
    exact ⟨entry, member, by simp [isCore, isCpu]⟩

/-- The loop gathers the cores and keeps all numbers. -/
theorem foldl_visit (entries : List CpuEntry) (scan : CoreScan) :
    entries.foldl CoreScan.visit scan =
      { cores :=
          (coreItems entries).foldl
            (fun map item => upsert min item.1 item.2 map) scan.cores
        fallback := scan.fallback ++ entries.filterMap CpuEntry.cpu } := by
  induction entries generalizing scan with
  | nil =>
      simp [coreItems]
  | cons entry rest inductionHypothesis =>
      rw [List.foldl_cons, inductionHypothesis]
      cases isCpu : entry.cpu with
      | none =>
          simp [CoreScan.visit, coreItems, isCpu]
      | some cpu =>
          cases isCore : entry.core with
          | none =>
              simp [CoreScan.visit, coreItems, isCpu, isCore]
          | some key =>
              simp [CoreScan.visit, coreItems, isCpu, isCore]

/-- The cores' CPUs, else all listed ones, else as many as the parallelism. -/
theorem physicalCores_eq
    (dir : Option (List CpuEntry))
    (parallelism : Option Nat) :
    physicalCores dir parallelism =
      if coreItems (dir.getD []) = [] then
        if (dir.getD []).filterMap CpuEntry.cpu = [] then
          (List.range (parallelism.getD 1 % 2 ^ 32)).map UInt32.ofNat
        else
          ((dir.getD []).filterMap CpuEntry.cpu).insertionSort (· ≤ ·)
      else
        (gather min (coreItems (dir.getD []))).map Prod.snd := by
  have empty :
      gather min (coreItems (dir.getD [])) = [] ↔
        coreItems (dir.getD []) = [] := by
    constructor
    · exact fun none => not_not.mp fun some_item => gather_ne_nil some_item none
    · exact fun none => by rw [none]; rfl
  rw [physicalCores, foldl_visit, List.nil_append]
  simp only [List.isEmpty_iff, ← empty]
  rfl

/-- The lowest CPU of a core. -/
def LowestOfCore
    (entries : List CpuEntry)
    (key : Int ×ₗ Int)
    (cpu : UInt32) : Prop :=
  (∃ entry ∈ entries, entry.core = some key ∧ entry.cpu = some cpu) ∧
    ∀ entry ∈ entries,
      entry.core = some key → ∀ other ∈ entry.cpu, cpu ≤ other

/-- The lesser of two CPUs is one of them. -/
theorem min_picks (first second : UInt32) :
    min first second = first ∧ first ≤ second ∨
      min first second = second ∧ second ≤ first := by
  rw [UInt32.min_def]
  split
  next below =>
    exact .inl ⟨rfl, below⟩
  next above =>
    exact .inr ⟨rfl, UInt32.le_of_lt (UInt32.not_le.mp above)⟩

/-- Under each core stands its lowest CPU. -/
theorem mem_gather_coreItems
    (entries : List CpuEntry)
    (key : Int ×ₗ Int)
    (cpu : UInt32) :
    (key, cpu) ∈ gather min (coreItems entries) ↔
      LowestOfCore entries key cpu := by
  have mem_values (number : UInt32) :
      number ∈ valuesOf key (coreItems entries) ↔
        ∃ entry ∈ entries, entry.core = some key ∧ entry.cpu = some number := by
    rw [← mem_coreItems, valuesOf]
    simp
  have least
      {number : UInt32}
      (merged : combine min (valuesOf key (coreItems entries)) = some number) :=
    least_of_combine UInt32.le_refl (fun _ _ _ => UInt32.le_trans) min_picks
      merged
  rw [mem_iff_find (ordered_gather _), find_gather]
  constructor
  · intro merged
    obtain ⟨member, below⟩ := least merged
    refine ⟨(mem_values cpu).mp member, ?_⟩
    intro entry isEntry isCore other isCpu
    exact below other ((mem_values other).mpr ⟨entry, isEntry, isCore, isCpu⟩)
  · rintro ⟨listed, below⟩
    have member := (mem_values cpu).mpr listed
    obtain ⟨number, merged⟩ :
        ∃ number, combine min (valuesOf key (coreItems entries)) = some number := by
      obtain ⟨value, rest, cons⟩ :=
        List.exists_cons_of_ne_nil (List.ne_nil_of_mem member)
      exact ⟨_, cons ▸ combine_cons value rest⟩
    obtain ⟨isNumber, belowNumber⟩ := least merged
    obtain ⟨entry, isEntry, isCore, isCpu⟩ := (mem_values number).mp isNumber
    rw [merged, UInt32.le_antisymm (belowNumber cpu member)
      (below entry isEntry isCore number isCpu)]

/-- Sorting numbers puts them in order. -/
theorem pairwise_insertionSort_cpus (cpus : List UInt32) :
    (cpus.insertionSort (· ≤ ·)).Pairwise (· ≤ ·) := by
  have total : Std.Total fun first second : UInt32 => first ≤ second :=
    ⟨UInt32.le_total⟩
  have transitive : IsTrans UInt32 (· ≤ ·) := ⟨fun _ _ _ => UInt32.le_trans⟩
  exact List.pairwise_insertionSort _ cpus

/-- The order of the numbers does not matter to their sorted list. -/
theorem insertionSort_cpus_perm
    {cpus others : List UInt32}
    (perm : cpus.Perm others) :
    cpus.insertionSort (· ≤ ·) = others.insertionSort (· ≤ ·) := by
  have sorted : (cpus.insertionSort (· ≤ ·)).Perm
      (others.insertionSort (· ≤ ·)) :=
    (List.perm_insertionSort _ _).trans
      (perm.trans (List.perm_insertionSort _ _).symm)
  exact sorted.eq_of_pairwise
    (fun _ _ _ _ below above => UInt32.le_antisymm below above)
    (pairwise_insertionSort_cpus cpus) (pairwise_insertionSort_cpus others)

/-- Nor does the order of the directory matter. -/
theorem physicalCores_perm
    {listing entries : List CpuEntry}
    (perm : listing.Perm entries)
    (parallelism : Option Nat) :
    physicalCores (some listing) parallelism =
      physicalCores (some entries) parallelism := by
  have items : (coreItems listing).Perm (coreItems entries) :=
    perm.filterMap _
  have numbers :
      (listing.filterMap CpuEntry.cpu).Perm
        (entries.filterMap CpuEntry.cpu) :=
    perm.filterMap _
  have noItems : coreItems listing = [] ↔ coreItems entries = [] := by
    rw [← List.length_eq_zero_iff, ← List.length_eq_zero_iff,
      items.length_eq]
  have noNumbers :
      listing.filterMap CpuEntry.cpu = [] ↔
        entries.filterMap CpuEntry.cpu = [] := by
    rw [← List.length_eq_zero_iff, ← List.length_eq_zero_iff,
      numbers.length_eq]
  simp only [physicalCores_eq, Option.getD_some, noItems, noNumbers,
    gather_perm items, insertionSort_cpus_perm numbers]

/--
The order of the directory does not matter.  Where the core of some CPU is
known, each core of which a CPU is known gets its lowest one, in the order of
packages and cores.
-/
theorem physicalCores_lowest
    (entries : List CpuEntry)
    (parallelism : Option Nat) :
    (∀ listing : List CpuEntry, listing.Perm entries →
        physicalCores (some listing) parallelism =
          physicalCores (some entries) parallelism) ∧
      ∃ cores : List ((Int ×ₗ Int) × UInt32),
        Ordered cores ∧
          (∀ key cpu, (key, cpu) ∈ cores ↔ LowestOfCore entries key cpu) ∧
          ((∃ entry ∈ entries, entry.core.isSome ∧ entry.cpu.isSome) →
            physicalCores (some entries) parallelism =
              cores.map Prod.snd) := by
  refine ⟨fun listing perm => physicalCores_perm perm parallelism,
    gather min (coreItems entries), ordered_gather _,
    mem_gather_coreItems entries, ?_⟩
  rintro ⟨entry, member, isCore, isCpu⟩
  obtain ⟨key, isCore⟩ := Option.isSome_iff_exists.mp isCore
  obtain ⟨cpu, isCpu⟩ := Option.isSome_iff_exists.mp isCpu
  have listed : (key, cpu) ∈ coreItems entries :=
    mem_coreItems.mpr ⟨entry, member, isCore, isCpu⟩
  rw [physicalCores_eq, Option.getD_some, if_neg (List.ne_nil_of_mem listed)]

/-- Two cores with two CPUs each, and a directory that is no CPU. -/
def fourCpus : List CpuEntry :=
  let entry (name core : String) : CpuEntry :=
    { name := some name.toList
      physicalPackageId := some "0\n".toList
      coreId := some core.toList }
  [entry "cpu3" "1\n",
    { name := some "cpufreq".toList, physicalPackageId := none, coreId := none },
    entry "cpu1" "1\n", entry "cpu2" "0\n", entry "cpu0" "0\n"]

/-- The two lowest CPUs, in whatever order the four are listed. -/
theorem physicalCores_lowest_fourCpus :
    (∀ listing : List CpuEntry, listing.Perm fourCpus →
        physicalCores (some listing) none =
          physicalCores (some fourCpus) none) ∧
      ∃ cores : List ((Int ×ₗ Int) × UInt32),
        Ordered cores ∧
          (∀ key cpu, (key, cpu) ∈ cores ↔ LowestOfCore fourCpus key cpu) ∧
          physicalCores (some fourCpus) none = cores.map Prod.snd := by
  obtain ⟨sameOrder, cores, ordered, lowest, plan⟩ :=
    physicalCores_lowest fourCpus none
  exact ⟨sameOrder, cores, ordered, lowest,
    plan ⟨_, List.mem_cons_self, by decide +kernel, by decide +kernel⟩⟩

-- the other CPUs of a core stay free
example : physicalCores (some fourCpus) none = [0, 1] := by
  decide +kernel

end Cores

section Queues

/-- The set of CPUs that an entry of an interface's queues is steered to, as
the kernel prints it. -/
inductive Steers : QueueEntry → Finset UInt32 → Prop
  | queue
      (number : Str)
      {layout : MaskLayout}
      {cpus : Finset UInt32}
      (fits : layout.Fits cpus) :
      Steers
        { name := some ("tx-".toList ++ number)
          xpsCpus := some (layout.print cpus) }
        cpus
  | unreadable
      (name : Option Str) :
      Steers { name := name, xpsCpus := none } ∅
  | other
      {entry : QueueEntry}
      (notQueue : ∀ number, entry.name ≠ some ("tx-".toList ++ number)) :
      Steers entry ∅

/-- A printed mask is read back as the set of its CPUs. -/
theorem mem_parseCpumask_print
    {layout : MaskLayout}
    {cpus : Finset UInt32}
    (fits : layout.Fits cpus)
    (cpu : UInt32) :
    cpu ∈ parseCpumask (layout.print cpus) ↔ cpu ∈ cpus := by
  simp only [parseCpumask_print fits, List.mem_flatMap, List.mem_range,
    mem_groupCpus_maskWord]
  constructor
  · rintro ⟨group, -, member, -⟩
    exact member
  · intro member
    exact ⟨cpu.toNat / 32, fits.covers cpu member, member, rfl⟩

/-- An entry that steers to some CPUs is read as those CPUs. -/
theorem Steers.mem_cpus
    {entry : QueueEntry}
    {cpus : Finset UInt32}
    (steers : Steers entry cpus)
    (cpu : UInt32) :
    cpu ∈ entry.cpus ↔ cpu ∈ cpus := by
  cases steers with
  | queue number fits =>
      have isQueue : "tx-".toList.isPrefixOf ("tx-".toList ++ number) = true := by
        simp
      simp only [QueueEntry.cpus, isQueue, if_true]
      exact mem_parseCpumask_print fits cpu
  | unreadable name =>
      cases name <;> simp [QueueEntry.cpus]
  | other notQueue =>
      have none : entry.cpus = [] := by
        unfold QueueEntry.cpus
        split
        · rfl
        next name isName =>
          split
          next isQueue =>
            obtain ⟨number, rfl⟩ := List.isPrefixOf_iff_prefix.mp isQueue
            exact absurd isName (notQueue number)
          · rfl
      simp [none]

/-- Collecting without repetition collects everything. -/
theorem mem_foldl_pushNew
    {cpu : UInt32}
    {more cpus : List UInt32} :
    cpu ∈ more.foldl pushNew cpus ↔ cpu ∈ cpus ∨ cpu ∈ more := by
  induction more generalizing cpus with
  | nil =>
      simp
  | cons next rest inductionHypothesis =>
      rw [List.foldl_cons, inductionHypothesis, pushNew]
      split
      next listed =>
        rw [List.mem_cons]
        constructor
        · exact Or.imp_right .inr
        · rintro (old | rfl | later)
          · exact .inl old
          · exact .inl listed
          · exact .inr later
      next =>
        simp [or_assoc]

/-- Collecting without repetition repeats nothing. -/
theorem nodup_foldl_pushNew
    {cpus : List UInt32}
    (distinct : cpus.Nodup)
    (more : List UInt32) :
    (more.foldl pushNew cpus).Nodup := by
  induction more generalizing cpus with
  | nil =>
      exact distinct
  | cons cpu rest inductionHypothesis =>
      refine inductionHypothesis ?_
      rw [pushNew]
      split
      · exact distinct
      next absent =>
        exact List.concat_eq_append ▸ distinct.concat absent

/-- What the loops over entries and over interfaces collect. -/
theorem foldl_foldl_pushNew
    {ι : Type}
    (cpusOf : ι → List UInt32)
    (items : List ι)
    {cpus : List UInt32}
    (distinct : cpus.Nodup) :
    (items.foldl (fun cpus item => (cpusOf item).foldl pushNew cpus)
        cpus).Nodup ∧
      ∀ cpu,
        cpu ∈ items.foldl (fun cpus item => (cpusOf item).foldl pushNew cpus)
            cpus ↔
          cpu ∈ cpus ∨ ∃ item ∈ items, cpu ∈ cpusOf item := by
  induction items generalizing cpus with
  | nil =>
      simpa using distinct
  | cons item rest inductionHypothesis =>
      obtain ⟨nodup, members⟩ :=
        inductionHypothesis (nodup_foldl_pushNew distinct (cpusOf item))
      refine ⟨nodup, ?_⟩
      intro cpu
      rw [List.foldl_cons, members, mem_foldl_pushNew]
      simp [or_assoc]

/-- The CPUs of an interface are those of its queues. -/
theorem mem_xpsCpusOf
    (queues : Option (List QueueEntry))
    (cpu : UInt32) :
    cpu ∈ xpsCpusOf queues ↔ ∃ entry ∈ queues.getD [], cpu ∈ entry.cpus := by
  cases queues with
  | none =>
      simp [xpsCpusOf]
  | some entries =>
      have members :=
        (foldl_foldl_pushNew QueueEntry.cpus entries List.nodup_nil).2 cpu
      rw [xpsCpusOf, List.mem_insertionSort, members]
      simp

/-- The CPUs found through transmit steering are distinct. -/
theorem nodup_xpsWorkerCpus (host : Host) (ifaces : List Str) :
    (xpsWorkerCpus host ifaces).Nodup :=
  (List.perm_insertionSort _ _).nodup_iff.mpr
    (foldl_foldl_pushNew (fun iface => xpsCpusOf (host.queues iface)) _
      List.nodup_nil).1

/-- The interfaces whose queues are looked at. -/
def chosenIfaces (host : Host) (ifaces : List Str) : List Str :=
  if ifaces.isEmpty then (defaultRouteIface host.routes).toList else ifaces

/--
Whatever the interfaces, the order of their queues and the layout of the masks,
the CPUs are exactly those that some transmit queue is steered to, each once and
in increasing order.
-/
theorem xpsWorkerCpus_exact
    (host : Host)
    (ifaces : List Str)
    (masks : Str → List (Finset UInt32))
    (steered : ∀ iface ∈ chosenIfaces host ifaces,
      List.Forall₂ Steers ((host.queues iface).getD []) (masks iface)) :
    (xpsWorkerCpus host ifaces).Pairwise (· < ·) ∧
      ∀ cpu, cpu ∈ xpsWorkerCpus host ifaces ↔
        ∃ iface ∈ chosenIfaces host ifaces,
          ∃ cpus ∈ masks iface, cpu ∈ cpus := by
  refine ⟨?_, ?_⟩
  · have sorted := pairwise_insertionSort_cpus
      ((chosenIfaces host ifaces).foldl
        (fun cpus iface => (xpsCpusOf (host.queues iface)).foldl pushNew cpus)
        [])
    refine (sorted.and (nodup_xpsWorkerCpus host ifaces)).imp ?_
    intro first second both
    exact UInt32.lt_of_le_of_ne both.1 both.2
  · intro cpu
    have members :=
      (foldl_foldl_pushNew (fun iface => xpsCpusOf (host.queues iface))
        (chosenIfaces host ifaces) List.nodup_nil).2 cpu
    have unsorted :
        cpu ∈ xpsWorkerCpus host ifaces ↔
          ∃ iface ∈ chosenIfaces host ifaces,
            cpu ∈ xpsCpusOf (host.queues iface) := by
      rw [xpsWorkerCpus, List.mem_insertionSort]
      exact members.trans (by simp)
    rw [unsorted]
    refine exists_congr fun iface => and_congr_right fun isChosen => ?_
    rw [mem_xpsCpusOf]
    have entries := steered iface isChosen
    generalize (host.queues iface).getD [] = queue at entries
    generalize masks iface = sets at entries
    induction entries with
    | nil =>
        simp
    | cons steers _ inductionHypothesis =>
        simp [steers.mem_cpus cpu, inductionHypothesis]

/-- A receive queue and two transmit queues, one of them with two CPUs. -/
theorem xpsWorkerCpus_exact_twoQueues :
    let layout : MaskLayout :=
      { groups := 1
        zeros := fun _ => 1
        before := fun _ => []
        after := fun _ => ['\n'] }
    let queue (number : Str) (cpus : Finset UInt32) : QueueEntry :=
      { name := some ("tx-".toList ++ number)
        xpsCpus := some (layout.print cpus) }
    let host : Host :=
      { cpuDir := none
        parallelism := none
        queues := fun _ =>
          some
            [queue ['1'] {2, 3},
              { name := some "rx-0".toList, xpsCpus := none }, queue ['0'] {0}]
        routes := none }
    let masks (_ : Str) : List (Finset UInt32) := [{2, 3}, ∅, {0}]
    (queue ['1'] {2, 3}).xpsCpus = some "0c\n".toList ∧
      (xpsWorkerCpus host ["ppp0".toList]).Pairwise (· < ·) ∧
      ∀ cpu, cpu ∈ xpsWorkerCpus host ["ppp0".toList] ↔
        ∃ iface ∈ chosenIfaces host ["ppp0".toList],
          ∃ cpus ∈ masks iface, cpu ∈ cpus := by
  intro layout queue host masks
  have blank : ∀ c ∈ ['\n'], isWhitespace c = true := by
    intro c member
    rw [List.mem_singleton.mp member]
    decide
  have fitsTwo : layout.Fits {2, 3} := by
    refine ⟨by decide, ?_, by decide +kernel, ?_, fun _ _ => blank⟩
    · intro cpu member
      simp only [Finset.mem_insert, Finset.mem_singleton] at member
      rcases member with rfl | rfl
      · decide
      · decide
    · exact fun _ _ _ member => absurd member List.not_mem_nil
  have fitsOne : layout.Fits {0} := by
    refine ⟨by decide, ?_, by decide +kernel, ?_, fun _ _ => blank⟩
    · intro cpu member
      rw [Finset.mem_singleton.mp member]
      decide
    · exact fun _ _ _ member => absurd member List.not_mem_nil
  refine ⟨by decide +kernel, xpsWorkerCpus_exact host _ masks ?_⟩
  intro iface _
  exact .cons (.queue ['1'] fitsTwo)
    (.cons (.unreadable _) (.cons (.queue ['0'] fitsOne) .nil))

end Queues

section Plan

/-- No CPU is listed twice, and the number of CPUs is one that a machine
has. -/
structure Host.Sound (host : Host) : Prop where
  listedOnce : ((host.cpuDir.getD []).filterMap CpuEntry.cpu).Nodup
  parallelism : ∀ count ∈ host.parallelism, 0 < count ∧ count < 2 ^ 32

/-- A CPU has one entry in the listing. -/
theorem entry_eq_of_cpu
    {entries : List CpuEntry}
    (listedOnce : (entries.filterMap CpuEntry.cpu).Nodup)
    {first second : CpuEntry}
    (isFirst : first ∈ entries)
    (isSecond : second ∈ entries)
    {cpu : UInt32}
    (firstCpu : first.cpu = some cpu)
    (secondCpu : second.cpu = some cpu) :
    first = second := by
  induction entries with
  | nil =>
      exact absurd isFirst List.not_mem_nil
  | cons entry rest inductionHypothesis =>
      have unlisted
          (same : entry.cpu = some cpu)
          {other : CpuEntry}
          (later : other ∈ rest) :
          other.cpu ≠ some cpu := by
        intro isCpu
        rw [List.filterMap_cons_some same, List.nodup_cons] at listedOnce
        exact listedOnce.1 (List.mem_filterMap.mpr ⟨other, later, isCpu⟩)
      have listedLater : (rest.filterMap CpuEntry.cpu).Nodup :=
        listedOnce.sublist ((List.sublist_cons_self entry rest).filterMap _)
      rcases List.mem_cons.mp isFirst with rfl | firstLater
      · rcases List.mem_cons.mp isSecond with rfl | secondLater
        · rfl
        · exact absurd secondCpu (unlisted firstCpu secondLater)
      · rcases List.mem_cons.mp isSecond with rfl | secondLater
        · exact absurd firstCpu (unlisted secondCpu firstLater)
        · exact inductionHypothesis listedLater firstLater secondLater

theorem nodup_range_cpus {count : Nat} (bounded : count ≤ 2 ^ 32) :
    ((List.range count).map UInt32.ofNat).Nodup := by
  refine List.Nodup.map_on ?_ List.nodup_range
  intro first isFirst second isSecond same
  have firstBelow := List.mem_range.mp isFirst
  have secondBelow := List.mem_range.mp isSecond
  have toNat := congrArg UInt32.toNat same
  rwa [UInt32.toNat_ofNat', UInt32.toNat_ofNat',
    Nat.mod_eq_of_lt (firstBelow.trans_le bounded),
    Nat.mod_eq_of_lt (secondBelow.trans_le bounded)] at toNat

/-- The chosen CPUs of a sound host are distinct. -/
theorem nodup_physicalCores {host : Host} (sound : host.Sound) :
    (physicalCores host.cpuDir host.parallelism).Nodup := by
  rw [physicalCores_eq]
  split
  · split
    · exact nodup_range_cpus (Nat.mod_lt _ (by omega)).le
    · exact (List.perm_insertionSort _ _).nodup_iff.mpr sound.listedOnce
  · refine List.pairwise_map.mpr ?_
    refine (ordered_gather _).imp_of_mem ?_
    rintro ⟨firstKey, cpu⟩ ⟨secondKey, other⟩ isFirst isSecond below same
    obtain rfl : cpu = other := same
    obtain ⟨⟨first, firstListed, firstCore, firstCpu⟩, -⟩ :=
      (mem_gather_coreItems _ _ _).mp isFirst
    obtain ⟨⟨second, secondListed, secondCore, secondCpu⟩, -⟩ :=
      (mem_gather_coreItems _ _ _).mp isSecond
    obtain rfl :=
      entry_eq_of_cpu sound.listedOnce firstListed secondListed firstCpu
        secondCpu
    rw [firstCore, Option.some.injEq] at secondCore
    exact below.ne secondCore

/-- A sound host has a CPU to choose. -/
theorem physicalCores_ne_nil {host : Host} (sound : host.Sound) :
    physicalCores host.cpuDir host.parallelism ≠ [] := by
  rw [physicalCores_eq]
  split
  · split
    · have count : 0 < host.parallelism.getD 1 % 2 ^ 32 := by
        cases reported : host.parallelism with
        | none =>
            decide
        | some count =>
            obtain ⟨positive, bounded⟩ := sound.parallelism count reported
            rwa [Option.getD_some, Nat.mod_eq_of_lt bounded]
      rw [Ne, List.map_eq_nil_iff, List.range_eq_nil]
      exact count.ne'
    next listed =>
      intro empty
      have perm := List.perm_insertionSort (· ≤ ·)
        ((host.cpuDir.getD []).filterMap CpuEntry.cpu)
      rw [empty] at perm
      exact listed perm.nil_eq.symm
  next known =>
    rw [Ne, List.map_eq_nil_iff]
    exact gather_ne_nil known

/-- The pool is the steered CPUs if there are any, else the physical cores. -/
theorem cpuPool_cases (host : Host) (cli : PlanOptions) :
    cpuPool host cli = physicalCores host.cpuDir host.parallelism ∨
      cpuPool host cli = xpsWorkerCpus host cli.xpsInterface ∧
        cpuPool host cli ≠ [] := by
  cases aligned : cli.xpsCpus with
  | false =>
      exact .inl (by simp [cpuPool, aligned])
  | true =>
      cases queues : xpsWorkerCpus host cli.xpsInterface with
      | nil =>
          exact .inl (by simp [cpuPool, aligned, queues])
      | cons cpu rest =>
          exact .inr (by simp [cpuPool, aligned, queues])

/-- The pool of a sound host is not empty and repeats no CPU. -/
theorem cpuPool_sound
    {host : Host}
    (sound : host.Sound)
    (cli : PlanOptions) :
    (cpuPool host cli).Nodup ∧ cpuPool host cli ≠ [] := by
  rcases cpuPool_cases host cli with cores | ⟨queues, nonempty⟩
  · rw [cores]
    exact ⟨nodup_physicalCores sound, physicalCores_ne_nil sound⟩
  · exact ⟨queues ▸ nodup_xpsWorkerCpus host _, nonempty⟩

/--
Unless the CPUs are named, the workers get different ones from the front of the
pool, one at least and no more than asked for; so each worker stays running or
scheduled in every run in which no `fork` fails.
-/
theorem workerCpus_accounted
    (host : Host)
    (sound : host.Sound)
    (cli : PlanOptions)
    (unnamed : cli.cpus = none) :
    ∃ cpus : List UInt32,
      workerCpus host cli = .ok cpus ∧
        cpus.Nodup ∧
        cpus ≠ [] ∧
        cpus <+: cpuPool host cli ∧
        (cli.workers ≠ 0 → cpus.length ≤ cli.workers.toNat) ∧
        (cli.workers = 0 → cpus = cpuPool host cli) ∧
        ∀ actions : List SupervisorAction,
          AllSteps (Supervisor.step cpus) (fun s action => action.Fresh s)
              .initial actions →
            (∀ action ∈ actions, action.Forks) →
            (Supervisor.initial.run cpus actions).preforked = cpus.length →
            (Supervisor.initial.run cpus actions).shutdown = false →
            (Supervisor.initial.run cpus actions).Accounted cpus.length := by
  obtain ⟨distinct, nonempty⟩ := cpuPool_sound sound cli
  have positive : 0 < (cpuPool host cli).length :=
    List.length_pos_iff.mpr nonempty
  -- a pool that is not empty has room for one worker at least
  obtain ⟨count, plan, one, fits, all, asked⟩ :
      ∃ count,
        workerCpus host cli = .ok ((cpuPool host cli).take count) ∧
          1 ≤ count ∧
          count ≤ (cpuPool host cli).length ∧
          (cli.workers = 0 → count = (cpuPool host cli).length) ∧
          (cli.workers ≠ 0 → count ≤ cli.workers.toNat) := by
    by_cases all : cli.workers = 0
    · refine ⟨(cpuPool host cli).length, ?_, positive, le_rfl, fun _ => rfl,
        absurd all⟩
      simp only [workerCpus, unnamed, if_pos all, Nat.max_eq_left positive,
        le_refl, if_true]
    · have someAsked : 0 < cli.workers.toNat := by
        refine Nat.pos_of_ne_zero ?_
        exact fun zero => all (UInt32.toNat_inj.mp zero)
      have oneFits : 1 ≤ min cli.workers.toNat (cpuPool host cli).length :=
        le_min someAsked positive
      refine ⟨min cli.workers.toNat (cpuPool host cli).length, ?_, oneFits,
        min_le_right _ _, fun zero => absurd zero all, fun _ => min_le_left _ _⟩
      simp only [workerCpus, unnamed, if_neg all, Nat.max_eq_left oneFits,
        min_le_right, if_true]
  have length : ((cpuPool host cli).take count).length = count :=
    List.length_take_of_le fits
  have kept : ((cpuPool host cli).take count).Nodup :=
    distinct.sublist (List.take_sublist _ _)
  refine ⟨(cpuPool host cli).take count, plan, kept, ?_,
    List.take_prefix _ _, ?_, ?_, ?_⟩
  · exact List.ne_nil_of_length_pos (by omega)
  · exact fun some => length.symm ▸ asked some
  · exact fun zero => List.take_of_length_le (all zero).ge
  · intro actions fresh forks preforked running
    exact Supervisor.accounted_run_of_nodup kept fresh forks preforked running

/-- The CPUs of `fourCpus`, two workers, and no transmit queue. -/
theorem workerCpus_accounted_fourCpus :
    let host : Host :=
      { cpuDir := some fourCpus
        parallelism := some 4
        queues := fun _ => none
        routes := none }
    let cli : PlanOptions :=
      { workers := 2, cpus := none, xpsCpus := true, xpsInterface := [] }
    ∃ cpus : List UInt32,
      workerCpus host cli = .ok cpus ∧
        cpus.Nodup ∧
        cpus ≠ [] ∧
        cpus <+: cpuPool host cli ∧
        (cli.workers ≠ 0 → cpus.length ≤ cli.workers.toNat) ∧
        (cli.workers = 0 → cpus = cpuPool host cli) ∧
        ∀ actions : List SupervisorAction,
          AllSteps (Supervisor.step cpus) (fun s action => action.Fresh s)
              .initial actions →
            (∀ action ∈ actions, action.Forks) →
            (Supervisor.initial.run cpus actions).preforked = cpus.length →
            (Supervisor.initial.run cpus actions).shutdown = false →
            (Supervisor.initial.run cpus actions).Accounted cpus.length := by
  intro host cli
  have sound : host.Sound :=
    { listedOnce := by decide +kernel
      parallelism := by
        intro count reported
        obtain rfl := Option.mem_some_iff.mp reported
        decide }
  exact workerCpus_accounted host sound cli rfl

end Plan

end DnsServices.Microdoh3
