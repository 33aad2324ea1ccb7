import Mathlib.Algebra.Group.Nat.Defs
import Mathlib.Logic.Function.Basic
import Mathlib.Data.List.Induction

namespace DnsServices.Seqlock

/-!
# Sequence locks with a killable writer

A sequence lock over arbitrary memory cells: one writer brackets its stores
with two stores to a 32-bit counter, readers load the counter before and after
their loads.  All steps interleave under sequential consistency.  The writer
may be killed between any two steps; its successor starts from the counter it
finds.

The counter tells which write the memory belongs to as long as every write is
entered with an even counter.  `Invariant` states this relation, and the run
theorems derive what readers return.
-/

/-- The contents of all cells. -/
abbrev Memory {ι : Type} (V : ι → Type) := (cell : ι) → V cell

/-- A store to one cell; the value may depend on what the writer finds. -/
structure Store {ι : Type} (V : ι → Type) where
  cell : ι
  value : Memory V → V cell

/-- The loads of a reader, each of which may depend on the earlier ones. -/
inductive ReadProgram {ι : Type} (V : ι → Type) (R : Type) where
  | done (result : R)
  | load (cell : ι) (next : V cell → ReadProgram V R)

/-- What one write stores and what one read loads. -/
structure Protocol {ι : Type} (V : ι → Type) (C R : Type) where
  stores : C → List (Store V)
  program : ReadProgram V R
  /-- A reader skips the sequence number it has returned last. -/
  remembers : Bool

/-- Where the writer stands. -/
inductive Writer {ι : Type} (V : ι → Type) (C : Type) where
  | idle
  | loaded (old : UInt32) (call : C)
  | writing (old : UInt32) (call : C) (remaining : List (Store V))

/-- Where one reader stands. -/
structure Reader {ι : Type} (V : ι → Type) (R : Type) where
  last : UInt32 := 0
  /-- The counter loaded first and the loads left to do. -/
  call : Option (UInt32 × ReadProgram V R) := none
  /-- Writes complete at the last successful read (history only). -/
  lastCount : Nat := 0
  /-- Writes complete at the last load of the counter (history only). -/
  loadedAt : Option Nat := none

/-- The shared page, its writer and its readers. -/
structure System {ι : Type} (V : ι → Type) (C R ρ : Type) where
  seq : UInt32
  memory : Memory V
  writer : Writer V C
  readers : ρ → Reader V R
  /-- The writes that ran to completion, in order (history only). -/
  committed : List C
  /-- The most recent write, if it ran to completion (history only). -/
  finished : Option C

/-- One step of one party. -/
inductive Action (C ρ : Type) where
  /-- The writer starts a call and loads the counter. -/
  | begin (call : C)
  /-- The writer makes its next store. -/
  | write
  /-- The writer is killed; a new writer takes over. -/
  | kill
  /-- A reader makes its next load. -/
  | read (reader : ρ)
  deriving Repr, DecidableEq

variable {ι : Type} {V : ι → Type} {C R ρ : Type}

/-- The result of the loads on a memory that does not change. -/
def ReadProgram.run (memory : Memory V) : ReadProgram V R → R
  | .done result => result
  | .load cell next => (next (memory cell)).run memory

/-- The number of loads on a memory that does not change. -/
def ReadProgram.loads (memory : Memory V) : ReadProgram V R → Nat
  | .done _ => 0
  | .load cell next => (next (memory cell)).loads memory + 1

section Steps

variable [DecidableEq ι] [DecidableEq ρ] (protocol : Protocol V C R)

/-- What a store does to the memory. -/
def Store.apply (memory : Memory V) (store : Store V) : Memory V :=
  Function.update memory store.cell (store.value memory)

@[simp] theorem Store.apply_same (memory : Memory V) (store : Store V) :
    store.apply memory store.cell = store.value memory := by
  simp [apply]

theorem Store.apply_other
    (memory : Memory V)
    {store : Store V}
    {cell : ι}
    (different : cell ≠ store.cell) :
    store.apply memory cell = memory cell := by
  simp [apply, different]

/-- Stores to other cells keep a cell. -/
theorem foldl_apply_of_ne
    {stores : List (Store V)}
    {cell : ι}
    (others : ∀ store ∈ stores, cell ≠ store.cell)
    (memory : Memory V) :
    stores.foldl Store.apply memory cell = memory cell := by
  induction stores generalizing memory with
  | nil =>
      rfl
  | cons store rest inductionHypothesis =>
      rw [List.foldl_cons, inductionHypothesis
        (fun other member => others other (List.mem_cons_of_mem _ member)),
        Store.apply_other _ (others store List.mem_cons_self)]

/-- A cell holds a value if all stores to it store that value. -/
theorem foldl_apply_eq
    {stores : List (Store V)}
    {cell : ι}
    {value : V cell}
    (agree :
      ∀ store ∈ stores, cell ≠ store.cell ∨ store = ⟨cell, fun _ => value⟩)
    (stored : ⟨cell, fun _ => value⟩ ∈ stores)
    (memory : Memory V) :
    stores.foldl Store.apply memory cell = value := by
  induction stores using List.reverseRecOn with
  | nil =>
      cases stored
  | append_singleton stores last inductionHypothesis =>
      rw [List.foldl_append, List.foldl_cons, List.foldl_nil]
      rcases agree last (by simp) with different | rfl
      · rw [Store.apply_other _ different]
        refine inductionHypothesis
          (fun other member => agree other (by simp [member])) ?_
        rcases List.mem_append.mp stored with earlier | isLast
        · exact earlier
        · rw [← List.mem_singleton.mp isLast] at different
          exact absurd rfl different
      · exact Store.apply_same _ _

/-- The memory after the given complete writes. -/
def image (initial : Memory V) (calls : List C) : Memory V :=
  calls.foldl
    (fun memory call => (protocol.stores call).foldl Store.apply memory)
    initial

/-- Nobody has written or read. -/
def System.new (initial : Memory V) : System V C R ρ where
  seq := 0
  memory := initial
  writer := .idle
  readers := fun _ => {}
  committed := []
  finished := none

/-- Put the state of a reader in. -/
def System.setReader
    (s : System V C R ρ)
    (reader : ρ)
    (state : Reader V R) :
    System V C R ρ :=
  { s with readers := Function.update s.readers reader state }

/-- The next store of the writer. -/
def System.writeStep (s : System V C R ρ) : System V C R ρ :=
  match s.writer with
  | .idle =>
      s
  | .loaded old call =>
      -- odd: write in progress
      { s with
        seq := old + 1
        writer := .writing old call (protocol.stores call) }
  | .writing old call (store :: remaining) =>
      { s with
        memory := store.apply s.memory
        writer := .writing old call remaining }
  | .writing old call [] =>
      -- even: committed
      { s with
        seq := old + 2
        writer := .idle
        committed := s.committed ++ [call]
        finished := some call }

/-- The next load of a reader, and what it returns if the call ends. -/
def System.readStep
    (s : System V C R ρ)
    (reader : ρ) :
    System V C R ρ × List (ρ × Option R) :=
  let state := s.readers reader
  match state.call with
  | none =>
      let state := { state with loadedAt := some s.committed.length }
      if s.seq = state.last ∨ s.seq % 2 = 1 then
        (s.setReader reader state, [(reader, none)])
      else
        (s.setReader reader
          { state with call := some (s.seq, protocol.program) }, [])
  | some (first, .load cell next) =>
      (s.setReader reader
        { state with call := some (first, next (s.memory cell)) }, [])
  | some (first, .done result) =>
      let state :=
        { state with call := none, loadedAt := some s.committed.length }
      if first ≠ s.seq then
        -- torn read
        (s.setReader reader state, [(reader, none)])
      else if protocol.remembers then
        (s.setReader reader
          { state with last := first, lastCount := s.committed.length },
          [(reader, some result)])
      else
        (s.setReader reader state, [(reader, some result)])

/-- One step and what it makes a reader return. -/
def System.step
    (s : System V C R ρ) :
    Action C ρ → System V C R ρ × List (ρ × Option R)
  | .begin call =>
      match s.writer with
      | .idle =>
          ({ s with writer := .loaded s.seq call, finished := none }, [])
      | _ =>
          (s, [])
  | .write =>
      (s.writeStep protocol, [])
  | .kill =>
      ({ s with writer := .idle }, [])
  | .read reader =>
      s.readStep protocol reader

/-- A run and everything the readers return in it, in order. -/
def System.run :
    System V C R ρ →
      List (Action C ρ) →
        System V C R ρ × List (ρ × Option R)
  | s, [] =>
      (s, [])
  | s, action :: rest =>
      let stepped := s.step protocol action
      let later := stepped.1.run rest
      (later.1, stepped.2 ++ later.2)

/-- Every step of a run meets a condition on the state before it. -/
def AllSteps
    (condition : System V C R ρ → Action C ρ → Prop) :
    System V C R ρ → List (Action C ρ) → Prop
  | _, [] =>
      True
  | s, action :: rest =>
      condition s action ∧
        AllSteps condition (s.step protocol action).1 rest

variable {protocol} in
theorem AllSteps.imp
    {condition weaker : System V C R ρ → Action C ρ → Prop}
    (implies : ∀ s action, condition s action → weaker s action)
    {s : System V C R ρ}
    {actions : List (Action C ρ)}
    (allSteps : AllSteps protocol condition s actions) :
    AllSteps protocol weaker s actions := by
  induction actions generalizing s with
  | nil =>
      trivial
  | cons action rest inductionHypothesis =>
      exact ⟨implies s action allSteps.1, inductionHypothesis allSteps.2⟩

variable {protocol} in
theorem AllSteps.of_mem
    {condition : Action C ρ → Prop}
    {s : System V C R ρ}
    {actions : List (Action C ρ)}
    (allSteps : AllSteps protocol (fun _ => condition) s actions)
    {action : Action C ρ}
    (member : action ∈ actions) :
    condition action := by
  induction actions generalizing s with
  | nil =>
      cases member
  | cons first rest inductionHypothesis =>
      rcases List.mem_cons.mp member with rfl | member
      · exact allSteps.1
      · exact inductionHypothesis allSteps.2 member

/-- A write makes its first store only over an even counter. -/
def EvenEntry (s : System V C R ρ) (action : Action C ρ) : Prop :=
  match action, s.writer with
  | .write, .loaded old _ => old % 2 = 0
  | _, _ => True

instance (s : System V C R ρ) (action : Action C ρ) :
    Decidable (EvenEntry s action) := by
  unfold EvenEntry
  split <;> infer_instance

instance AllSteps.decidable
    (condition : System V C R ρ → Action C ρ → Prop)
    [∀ s action, Decidable (condition s action)] :
    (s : System V C R ρ) → (actions : List (Action C ρ)) →
      Decidable (AllSteps protocol condition s actions)
  | _, [] =>
      .isTrue trivial
  | s, action :: rest =>
      have := AllSteps.decidable condition (s.step protocol action).1 rest
      inferInstanceAs (Decidable (_ ∧ _))

/--
Fewer than `2 ^ 31` writes complete between two consecutive loads of the
counter by one reader.
-/
def LoadsClose (s : System V C R ρ) (action : Action C ρ) : Prop :=
  match action with
  | .read reader =>
      match (s.readers reader).call, (s.readers reader).loadedAt with
      | some (_, .load _ _), _ => True
      | _, some count => s.committed.length < count + 2 ^ 31
      | _, none => True
  | _ => True

instance (s : System V C R ρ) (action : Action C ρ) :
    Decidable (LoadsClose s action) := by
  unfold LoadsClose
  split
  · split <;> infer_instance
  · infer_instance

/-- The results returned to one reader, in order. -/
def resultsOf (reader : ρ) (outputs : List (ρ × Option R)) : List R :=
  outputs.filterMap fun output =>
    if output.1 = reader then output.2 else none

end Steps

/-! ## Counter values -/

/-- The counter after `count` complete writes. -/
def IsEven (seq : UInt32) (count : Nat) : Prop :=
  seq.toNat = 2 * count % 2 ^ 32

/-- The counter inside the write that follows `count` complete writes. -/
def IsOdd (seq : UInt32) (count : Nat) : Prop :=
  seq.toNat = (2 * count + 1) % 2 ^ 32

section Counter

variable {seq other : UInt32} {count later : Nat}

theorem odd_iff : seq % 2 = 1 ↔ seq.toNat % 2 = 1 := by
  rw [← UInt32.toNat_inj, UInt32.toNat_mod]
  simp

theorem even_iff : seq % 2 = 0 ↔ seq.toNat % 2 = 0 := by
  rw [← UInt32.toNat_inj, UInt32.toNat_mod]
  simp

theorem IsEven.not_odd (even : IsEven seq count) : ¬ seq % 2 = 1 := by
  rw [odd_iff]
  unfold IsEven at even
  omega

theorem IsOdd.odd (odd : IsOdd seq count) : seq % 2 = 1 := by
  rw [odd_iff]
  unfold IsOdd at odd
  omega

theorem IsOdd.not_even (odd : IsOdd seq count) : ¬ seq % 2 = 0 := by
  rw [even_iff]
  unfold IsOdd at odd
  omega

theorem IsEven.succ (even : IsEven seq count) : IsOdd (seq + 1) count := by
  unfold IsEven at even
  rw [IsOdd, UInt32.toNat_add, even]
  simp

theorem IsEven.next (even : IsEven seq count) :
    IsEven (seq + 2) (count + 1) := by
  unfold IsEven at even ⊢
  rw [UInt32.toNat_add, even]
  simp [Nat.mul_add]

/-- Equal counters belong to the same write unless the counter wrapped. -/
theorem IsEven.count_eq
    (even : IsEven seq count)
    (laterEven : IsEven seq later)
    (ordered : count ≤ later)
    (close : later < count + 2 ^ 31) :
    count = later := by
  unfold IsEven at even laterEven
  omega

end Counter

/-! ## The invariant -/

section Invariant

variable [DecidableEq ι]

/-- Which write the memory belongs to. -/
inductive Phase
    (protocol : Protocol V C R)
    (initial : Memory V)
    (s : System V C R ρ) : Prop where
  | clean
      (seq : IsEven s.seq s.committed.length)
      (memory : s.memory = image protocol initial s.committed)
      (writer : s.writer = .idle ∨ ∃ call, s.writer = .loaded s.seq call)
  | writing
      (old : UInt32)
      (call : C)
      (remaining : List (Store V))
      (seq : IsOdd s.seq s.committed.length)
      (oldEven : IsEven old s.committed.length)
      (writer : s.writer = .writing old call remaining)
      (memory :
        remaining.foldl Store.apply s.memory =
          image protocol initial (s.committed ++ [call]))
  /-- A writer was killed inside a write. -/
  | broken
      (seq : IsOdd s.seq s.committed.length)
      (writer : s.writer = .idle ∨ ∃ call, s.writer = .loaded s.seq call)

/-- What a reader knows about the write it started to read. -/
structure CallInvariant
    (protocol : Protocol V C R)
    (initial : Memory V)
    (s : System V C R ρ)
    (state : Reader V R)
    (first : UInt32)
    (program : ReadProgram V R)
    (count : Nat) : Prop where
  loadedAt :
    state.loadedAt = some count
  fresh :
    state.lastCount < count
  bound :
    count ≤ s.committed.length
  first :
    IsEven first count
  -- as long as nothing was stored since the first load
  loads :
    count = s.committed.length → IsEven s.seq count →
      program.run (image protocol initial s.committed) =
        protocol.program.run (image protocol initial s.committed)

/-- What is known of a reader: what it has read last, and that the read it is in
is sound. -/
structure ReaderInvariant
    (protocol : Protocol V C R)
    (initial : Memory V)
    (s : System V C R ρ)
    (state : Reader V R) : Prop where
  last :
    IsEven state.last state.lastCount
  lastCount :
    state.lastCount ≤ s.committed.length
  forgetful :
    protocol.remembers = false → state.last = 0
  call :
    ∀ first program, state.call = some (first, program) →
      ∃ count, CallInvariant protocol initial s state first program count

/-- What holds in every state of a run. -/
structure Invariant
    (protocol : Protocol V C R)
    (initial : Memory V)
    (s : System V C R ρ) : Prop where
  phase :
    Phase protocol initial s
  readers :
    ∀ reader, ReaderInvariant protocol initial s (s.readers reader)
  finished :
    ∀ call, s.finished = some call →
      s.writer = .idle ∧ IsEven s.seq s.committed.length ∧
        s.memory = image protocol initial s.committed ∧
        s.committed.getLast? = some call

variable {protocol : Protocol V C R} {initial : Memory V}
  {s : System V C R ρ}

/-- A fresh page satisfies the invariant. -/
theorem invariant_new :
    Invariant protocol initial (System.new initial : System V C R ρ) where
  phase := .clean rfl rfl (.inl rfl)
  readers := by
    intro reader
    refine ⟨rfl, Nat.le_refl _, fun _ => rfl, ?_⟩
    intro first program inCall
    cases inCall
  finished := by
    intro call finished
    cases finished

/-- The image after a further call applies its stores last. -/
theorem image_snoc (calls : List C) (call : C) :
    image protocol initial (calls ++ [call]) =
      (protocol.stores call).foldl Store.apply
        (image protocol initial calls) := by
  simp [image]

/-- A new counter value that is not the even one of the same count. -/
theorem ReaderInvariant.of_odd
    {t : System V C R ρ}
    {state : Reader V R}
    (invariant : ReaderInvariant protocol initial s state)
    (sameCommitted : t.committed = s.committed)
    (odd : IsOdd t.seq t.committed.length) :
    ReaderInvariant protocol initial t state := by
  refine ⟨invariant.last, ?_, invariant.forgetful, ?_⟩
  · rw [sameCommitted]
    exact invariant.lastCount
  · intro first program inCall
    obtain ⟨count, known⟩ := invariant.call first program inCall
    refine ⟨count, known.loadedAt, known.fresh, ?_, known.first, ?_⟩
    · rw [sameCommitted]
      exact known.bound
    · intro _ even
      exact absurd odd.odd even.not_odd

/-- Steps that leave the counter and the history alone keep readers' facts. -/
theorem ReaderInvariant.of_same
    {t : System V C R ρ}
    {state : Reader V R}
    (invariant : ReaderInvariant protocol initial s state)
    (sameCommitted : t.committed = s.committed)
    (sameSeq : t.seq = s.seq) :
    ReaderInvariant protocol initial t state := by
  refine ⟨invariant.last, ?_, invariant.forgetful, ?_⟩
  · rw [sameCommitted]
    exact invariant.lastCount
  · intro first program inCall
    obtain ⟨count, known⟩ := invariant.call first program inCall
    refine ⟨count, known.loadedAt, known.fresh, ?_, known.first, ?_⟩
    · rw [sameCommitted]
      exact known.bound
    · rw [sameCommitted, sameSeq]
      exact known.loads

/-- A completed write takes the count away from all calls in progress. -/
theorem ReaderInvariant.of_commit
    {t : System V C R ρ}
    {state : Reader V R}
    {call : C}
    (invariant : ReaderInvariant protocol initial s state)
    (committed : t.committed = s.committed ++ [call]) :
    ReaderInvariant protocol initial t state := by
  have grown : t.committed.length = s.committed.length + 1 := by
    rw [committed, List.length_append, List.length_singleton]
  refine ⟨invariant.last, ?_, invariant.forgetful, ?_⟩
  · have := invariant.lastCount
    omega
  · intro first program inCall
    obtain ⟨count, known⟩ := invariant.call first program inCall
    have bound := known.bound
    refine ⟨count, known.loadedAt, known.fresh, by omega, known.first, ?_⟩
    intro same
    omega

/-! ### One step -/

variable [DecidableEq ρ]

theorem begin_invariant
    (invariant : Invariant protocol initial s)
    (call : C) :
    Invariant protocol initial (s.step protocol (.begin call)).1 := by
  simp only [System.step]
  split
  next idle =>
    refine ⟨?_, ?_, ?_⟩
    · cases invariant.phase with
      | clean seq memory writer =>
          exact .clean seq memory (.inr ⟨call, rfl⟩)
      | writing old other remaining seq oldEven writer memory =>
          rw [idle] at writer
          cases writer
      | broken seq writer =>
          exact .broken seq (.inr ⟨call, rfl⟩)
    · intro reader
      exact (invariant.readers reader).of_same rfl rfl
    · intro done finished
      cases finished
  · exact invariant

theorem kill_invariant (invariant : Invariant protocol initial s) :
    Invariant protocol initial (s.step protocol .kill).1 := by
  refine ⟨?_, ?_, ?_⟩
  · cases invariant.phase with
    | clean seq memory writer =>
        exact .clean seq memory (.inl rfl)
    | writing old other remaining seq oldEven writer memory =>
        exact .broken seq (.inl rfl)
    | broken seq writer =>
        exact .broken seq (.inl rfl)
  · intro reader
    exact (invariant.readers reader).of_same rfl rfl
  · intro call finished
    exact ⟨rfl, (invariant.finished call finished).2⟩

omit [DecidableEq ρ] in
/-- Entering a write over an even counter. -/
theorem enter_invariant
    (invariant : Invariant protocol initial s)
    {old : UInt32}
    {call : C}
    (loaded : s.writer = .loaded old call)
    (even : old % 2 = 0) :
    Invariant protocol initial
      { s with
        seq := old + 1
        writer := .writing old call (protocol.stores call) } := by
  cases invariant.phase with
  | clean seq memory writer =>
      have oldSeq : old = s.seq := by
        rcases writer with idle | ⟨other, isLoaded⟩
        · rw [idle] at loaded
          cases loaded
        · rw [isLoaded] at loaded
          cases loaded
          rfl
      subst oldSeq
      refine ⟨?_, ?_, ?_⟩
      · exact .writing s.seq call _ seq.succ seq rfl (by
          rw [memory, image_snoc])
      · intro reader
        exact (invariant.readers reader).of_odd rfl seq.succ
      · intro done finished
        have idle := (invariant.finished done finished).1
        rw [loaded] at idle
        cases idle
  | writing other otherCall remaining seq oldEven writer memory =>
      rw [loaded] at writer
      cases writer
  | broken seq writer =>
      rcases writer with idle | ⟨other, isLoaded⟩
      · rw [idle] at loaded
        cases loaded
      · rw [isLoaded] at loaded
        cases loaded
        exact absurd even seq.not_even

/-- A store of a writer that entered at an even counter keeps the invariant. -/
theorem write_invariant
    (invariant : Invariant protocol initial s)
    (entry : EvenEntry s .write) :
    Invariant protocol initial (s.step protocol .write).1 := by
  simp only [System.step, System.writeStep]
  split
  · exact invariant
  next old call loaded =>
    have even : old % 2 = 0 := by
      simpa [EvenEntry, loaded] using entry
    exact enter_invariant invariant loaded even
  next old call store remaining inWrite =>
    refine ⟨?_, ?_, ?_⟩
    · cases invariant.phase with
      | clean seq memory writer =>
          rcases writer with idle | ⟨other, loaded⟩ <;> simp_all
      | writing other otherCall left seq oldEven writer memory =>
          rw [inWrite] at writer
          cases writer
          exact .writing old call remaining seq oldEven rfl memory
      | broken seq writer =>
          rcases writer with idle | ⟨other, loaded⟩ <;> simp_all
    · intro reader
      exact (invariant.readers reader).of_same rfl rfl
    · intro done finished
      have idle := (invariant.finished done finished).1
      rw [inWrite] at idle
      cases idle
  next old call inWrite =>
    cases invariant.phase with
    | clean seq memory writer =>
        rcases writer with idle | ⟨other, loaded⟩ <;> simp_all
    | writing other otherCall left seq oldEven writer memory =>
        rw [inWrite] at writer
        cases writer
        have grown :
            (s.committed ++ [call]).length = s.committed.length + 1 := by
          simp
        have nextEven : IsEven (old + 2) (s.committed ++ [call]).length := by
          rw [grown]
          exact oldEven.next
        refine ⟨.clean nextEven memory (.inl rfl), ?_, ?_⟩
        · intro reader
          exact (invariant.readers reader).of_commit rfl
        · intro done finished
          cases finished
          exact ⟨rfl, nextEven, memory, by simp⟩
    | broken seq writer =>
        rcases writer with idle | ⟨other, loaded⟩ <;> simp_all

omit [DecidableEq ρ] in
/-- An even counter means that the memory is the image of complete writes. -/
theorem Phase.clean_of_not_odd
    (phase : Phase protocol initial s)
    (notOdd : ¬ s.seq % 2 = 1) :
    IsEven s.seq s.committed.length ∧
      s.memory = image protocol initial s.committed := by
  cases phase with
  | clean seq memory writer =>
      exact ⟨seq, memory⟩
  | writing old call remaining seq oldEven writer memory =>
      exact absurd seq.odd notOdd
  | broken seq writer =>
      exact absurd seq.odd notOdd

theorem setReader_invariant
    (invariant : Invariant protocol initial s)
    (reader : ρ)
    {state : Reader V R}
    (stateInvariant : ReaderInvariant protocol initial s state) :
    Invariant protocol initial (s.setReader reader state) := by
  refine ⟨?_, ?_, invariant.finished⟩
  · cases invariant.phase with
    | clean seq memory writer =>
        exact .clean seq memory writer
    | writing old call remaining seq oldEven writer memory =>
        exact .writing old call remaining seq oldEven writer memory
    | broken seq writer =>
        exact .broken seq writer
  · intro other
    by_cases same : other = reader
    · subst same
      simp only [System.setReader, Function.update_self]
      exact stateInvariant.of_same rfl rfl
    · simp only [System.setReader, Function.update_of_ne same]
      exact (invariant.readers other).of_same rfl rfl

omit [DecidableEq ρ] in
/-- The first load of a call. -/
theorem ReaderInvariant.start
    {state : Reader V R}
    (phase : Phase protocol initial s)
    (invariant : ReaderInvariant protocol initial s state)
    (notLast : s.seq ≠ state.last)
    (notOdd : ¬ s.seq % 2 = 1) :
    ReaderInvariant protocol initial s
      { state with
        loadedAt := some s.committed.length
        call := some (s.seq, protocol.program) } := by
  obtain ⟨even, -⟩ := phase.clean_of_not_odd notOdd
  have fresh : state.lastCount < s.committed.length := by
    refine Nat.lt_of_le_of_ne invariant.lastCount ?_
    intro same
    refine notLast (UInt32.toNat_inj.mp ?_)
    rw [even, invariant.last, same]
  refine ⟨invariant.last, invariant.lastCount, invariant.forgetful, ?_⟩
  intro first program inCall
  cases inCall
  exact ⟨s.committed.length, rfl, fresh, Nat.le_refl _, even,
    fun _ _ => rfl⟩

omit [DecidableEq ρ] in
/-- A load of one cell. -/
theorem ReaderInvariant.load
    {state : Reader V R}
    {first : UInt32}
    {cell : ι}
    {next : V cell → ReadProgram V R}
    (phase : Phase protocol initial s)
    (invariant : ReaderInvariant protocol initial s state)
    (inCall : state.call = some (first, .load cell next)) :
    ReaderInvariant protocol initial s
      { state with call := some (first, next (s.memory cell)) } := by
  obtain ⟨count, known⟩ := invariant.call first _ inCall
  refine ⟨invariant.last, invariant.lastCount, invariant.forgetful, ?_⟩
  intro other program nowInCall
  cases nowInCall
  refine ⟨count, known.loadedAt, known.fresh, known.bound, known.first, ?_⟩
  intro same even
  rw [(phase.clean_of_not_odd even.not_odd).2]
  exact known.loads same even

theorem read_invariant
    (invariant : Invariant protocol initial s)
    (reader : ρ) :
    Invariant protocol initial (s.step protocol (.read reader)).1 := by
  have known := invariant.readers reader
  -- a reader between two calls
  have resting (loadedAt : Option Nat) :
      ReaderInvariant protocol initial s
        { s.readers reader with call := none, loadedAt := loadedAt } := by
    refine ⟨known.last, known.lastCount, known.forgetful, ?_⟩
    intro first program inCall
    cases inCall
  simp only [System.step, System.readStep]
  split
  next noCall =>
    split
    · refine setReader_invariant invariant reader ?_
      have rested := resting (some s.committed.length)
      rw [← noCall] at rested
      exact rested
    next proceeds =>
      rw [not_or] at proceeds
      exact setReader_invariant invariant reader
        (known.start invariant.phase proceeds.1 proceeds.2)
  next first cell next inCall =>
    exact setReader_invariant invariant reader
      (known.load invariant.phase inCall)
  next first result inCall =>
    split
    · exact setReader_invariant invariant reader (resting _)
    next sameSeq =>
      split
      next remembers =>
        obtain ⟨count, callKnown⟩ := known.call first _ inCall
        have firstSeq : first = s.seq := not_not.mp sameSeq
        have even :=
          (invariant.phase.clean_of_not_odd
            (firstSeq ▸ callKnown.first.not_odd)).1
        refine setReader_invariant invariant reader
          ⟨firstSeq ▸ even, Nat.le_refl _, ?_, ?_⟩
        · intro forgets
          rw [remembers] at forgets
          cases forgets
        · intro other program nowInCall
          cases nowInCall
      · exact setReader_invariant invariant reader (resting _)

/-- Every step that enters writes over even counters keeps the invariant. -/
theorem step_invariant
    (invariant : Invariant protocol initial s)
    {action : Action C ρ}
    (entry : EvenEntry s action) :
    Invariant protocol initial (s.step protocol action).1 := by
  cases action with
  | begin call =>
      exact begin_invariant invariant call
  | write =>
      exact write_invariant invariant entry
  | kill =>
      exact kill_invariant invariant
  | read reader =>
      exact read_invariant invariant reader

/-- What a step returns to a reader, and what it does to the reader. -/
structure Returned
    (protocol : Protocol V C R)
    (initial : Memory V)
    (s : System V C R ρ)
    (reader : ρ)
    (after : Reader V R)
    (result : R) : Prop where
  fresh :
    (s.readers reader).lastCount < s.committed.length
  result :
    result = protocol.program.run (image protocol initial s.committed)
  remembered :
    protocol.remembers = true → after.lastCount = s.committed.length
  monotone :
    (s.readers reader).lastCount ≤ after.lastCount

/-- A reader returns nothing, or the image of the complete writes. -/
theorem step_returned
    (invariant : Invariant protocol initial s)
    {action : Action C ρ}
    (close : LoadsClose s action)
    (reader : ρ) :
    (resultsOf reader (s.step protocol action).2 = [] ∧
        ((s.step protocol action).1.readers reader).lastCount =
          (s.readers reader).lastCount) ∨
      ∃ result,
        resultsOf reader (s.step protocol action).2 = [result] ∧
          Returned protocol initial s reader
            ((s.step protocol action).1.readers reader) result := by
  cases action with
  | begin call =>
      left
      simp only [System.step]
      split <;> exact ⟨rfl, rfl⟩
  | write =>
      left
      simp only [System.step, System.writeStep]
      split <;> exact ⟨rfl, rfl⟩
  | kill =>
      exact .inl ⟨rfl, rfl⟩
  | read stepping =>
      by_cases same : reader = stepping
      · subst same
        simp only [System.step, System.readStep]
        split
        next noCall =>
          left
          split <;> simp [resultsOf, System.setReader]
        next first cell next inCall =>
          left
          simp [resultsOf, System.setReader]
        next first result inCall =>
          by_cases sameSeq : first = s.seq
          · right
            obtain ⟨count, known⟩ :=
              (invariant.readers reader).call first _ inCall
            obtain ⟨even, memory⟩ :=
              invariant.phase.clean_of_not_odd
                (sameSeq ▸ known.first.not_odd)
            have notWrapped : s.committed.length < count + 2 ^ 31 := by
              simpa [LoadsClose, inCall, known.loadedAt] using close
            have counted : count = s.committed.length :=
              (sameSeq ▸ known.first).count_eq even known.bound notWrapped
            have loaded :
                result =
                  protocol.program.run
                    (image protocol initial s.committed) :=
              known.loads counted (sameSeq ▸ known.first)
            have fresh := known.fresh
            rw [counted] at fresh
            refine ⟨result, ?_, fresh, loaded, ?_, ?_⟩
            · simp only [sameSeq, ne_eq, not_true_eq_false, ↓reduceIte]
              split <;> simp [resultsOf]
            · intro remembers
              simp [sameSeq, remembers, System.setReader]
            · simp only [sameSeq, ne_eq, not_true_eq_false, ↓reduceIte]
              split
              · simpa [System.setReader] using Nat.le_of_lt fresh
              · simp [System.setReader]
          · left
            simp [sameSeq, resultsOf, System.setReader]
      · left
        have notReader : ¬ stepping = reader := Ne.symm same
        simp only [System.step, System.readStep]
        split
        · split <;> simp [resultsOf, System.setReader, same, notReader]
        · simp [resultsOf, System.setReader, same]
        · split
          · simp [resultsOf, System.setReader, same, notReader]
          · split <;> simp [resultsOf, System.setReader, same, notReader]

/-! ### Whole runs -/

omit [DecidableEq ι] in
/-- A load changes nothing but the reader itself. -/
theorem readStep_frame (s : System V C R ρ) (reader : ρ) :
    ∃ state, (s.readStep protocol reader).1 = s.setReader reader state := by
  simp only [System.readStep]
  split
  · split <;> exact ⟨_, rfl⟩
  · exact ⟨_, rfl⟩
  · split
    · exact ⟨_, rfl⟩
    · split <;> exact ⟨_, rfl⟩

theorem step_committed (action : Action C ρ) :
    ∃ more, (s.step protocol action).1.committed = s.committed ++ more := by
  cases action with
  | begin call =>
      refine ⟨[], ?_⟩
      simp only [System.step]
      split <;> simp
  | write =>
      simp only [System.step, System.writeStep]
      split
      · exact ⟨[], by simp⟩
      · exact ⟨[], by simp⟩
      · exact ⟨[], by simp⟩
      next old call inWrite =>
        exact ⟨[call], rfl⟩
  | kill =>
      exact ⟨[], by simp [System.step]⟩
  | read reader =>
      obtain ⟨state, frame⟩ :=
        @readStep_frame _ _ _ _ _ protocol _ s reader
      exact ⟨[], by simp [System.step, frame, System.setReader]⟩

/-- A run only adds committed calls. -/
theorem run_committed (actions : List (Action C ρ)) :
    ∃ more, (s.run protocol actions).1.committed = s.committed ++ more := by
  induction actions generalizing s with
  | nil =>
      exact ⟨[], by simp [System.run]⟩
  | cons action rest inductionHypothesis =>
      obtain ⟨first, stepped⟩ := @step_committed _ _ _ _ _ _ protocol s _ action
      obtain ⟨more, reached⟩ :=
        @inductionHypothesis (s.step protocol action).1
      refine ⟨first ++ more, ?_⟩
      rw [System.run]
      simp only
      rw [reached, stepped, List.append_assoc]

/-- The invariant holds after every run that enters writes evenly. -/
theorem run_invariant
    (invariant : Invariant protocol initial s)
    {actions : List (Action C ρ)}
    (entries : AllSteps protocol EvenEntry s actions) :
    Invariant protocol initial (s.run protocol actions).1 := by
  induction actions generalizing s with
  | nil =>
      exact invariant
  | cons action rest inductionHypothesis =>
      exact inductionHypothesis (step_invariant invariant entries.1) entries.2

/--
Everything a reader returns in a run is the image of a prefix of the completed
writes, and a reader that remembers never goes back.
-/
theorem run_resultsOf
    (invariant : Invariant protocol initial s)
    {actions : List (Action C ρ)}
    (entries : AllSteps protocol EvenEntry s actions)
    (close : AllSteps protocol LoadsClose s actions)
    (reader : ρ) :
    ∃ counts : List Nat,
      (protocol.remembers = true → counts.Pairwise (· < ·)) ∧
      (∀ count ∈ counts,
        (s.readers reader).lastCount < count ∧
          count ≤ (s.run protocol actions).1.committed.length) ∧
      resultsOf reader (s.run protocol actions).2 =
        counts.map fun count =>
          protocol.program.run
            (image protocol initial
              ((s.run protocol actions).1.committed.take count)) := by
  induction actions generalizing s with
  | nil =>
      exact ⟨[], by simp, by simp, rfl⟩
  | cons action rest inductionHypothesis =>
      obtain ⟨counts, increasing, bounds, later⟩ :=
        inductionHypothesis (step_invariant invariant entries.1)
          entries.2 close.2
      have joined :
          resultsOf reader (s.run protocol (action :: rest)).2 =
            resultsOf reader (s.step protocol action).2 ++
              resultsOf reader
                ((s.step protocol action).1.run protocol rest).2 := by
        simp [System.run, resultsOf]
      rw [joined]
      rcases step_returned invariant close.1 reader with
        ⟨silent, sameCount⟩ | ⟨result, returned, known⟩
      · refine ⟨counts, increasing, ?_, ?_⟩
        · rw [← sameCount]
          exact bounds
        · rw [silent, later]
          rfl
      · obtain ⟨more, reached⟩ :=
          @run_committed _ _ _ _ _ _ protocol s _ (action :: rest)
        refine ⟨s.committed.length :: counts, ?_, ?_, ?_⟩
        · intro remembers
          refine List.pairwise_cons.mpr ⟨?_, increasing remembers⟩
          intro count member
          have after := (bounds count member).1
          rwa [known.remembered remembers] at after
        · intro count member
          rcases List.mem_cons.mp member with rfl | member
          · refine ⟨known.fresh, ?_⟩
            rw [reached, List.length_append]
            omega
          · exact ⟨Nat.lt_of_le_of_lt known.monotone (bounds count member).1,
              (bounds count member).2⟩
        · rw [returned, later, List.map_cons, known.result]
          have front :
              (s.run protocol (action :: rest)).1.committed.take
                  s.committed.length =
                s.committed := by
            rw [reached]
            exact List.take_left
          rw [front]
          rfl

/-! ### The calls of a run -/

omit [DecidableEq ι] [DecidableEq ρ] in
/-- Every call that was begun and not killed meets a condition. -/
structure CallsMeet (condition : C → Prop) (s : System V C R ρ) : Prop where
  committed :
    ∀ call ∈ s.committed, condition call
  loaded :
    ∀ old call, s.writer = .loaded old call → condition call
  writing :
    ∀ old call remaining,
      s.writer = .writing old call remaining → condition call

omit [DecidableEq ι] [DecidableEq ρ] in
theorem callsMeet_new (condition : C → Prop) (initial : Memory V) :
    CallsMeet condition (System.new initial : System V C R ρ) := by
  refine ⟨?_, ?_, ?_⟩
  · intro call member
    cases member
  · intro old call loaded
    cases loaded
  · intro old call remaining inWrite
    cases inWrite

/-- A step keeps all calls meeting the condition if the begun one does. -/
theorem step_callsMeet
    {condition : C → Prop}
    (meets : CallsMeet condition s)
    {action : Action C ρ}
    (begun : ∀ call, action = .begin call → condition call) :
    CallsMeet condition (s.step protocol action).1 := by
  cases action with
  | begin call =>
      simp only [System.step]
      split
      · refine ⟨meets.committed, ?_, ?_⟩
        · intro old other loaded
          cases loaded
          exact begun call rfl
        · intro old other remaining inWrite
          cases inWrite
      · exact meets
  | write =>
      simp only [System.step, System.writeStep]
      split
      · exact meets
      next old call loaded =>
        refine ⟨meets.committed, ?_, ?_⟩
        · intro other otherCall stillLoaded
          cases stillLoaded
        · intro other otherCall remaining inWrite
          cases inWrite
          exact meets.loaded old call loaded
      next old call store remaining inWrite =>
        refine ⟨meets.committed, ?_, ?_⟩
        · intro other otherCall loaded
          cases loaded
        · intro other otherCall left stillInWrite
          cases stillInWrite
          exact meets.writing old call _ inWrite
      next old call inWrite =>
        refine ⟨?_, ?_, ?_⟩
        · intro other member
          rcases List.mem_append.mp member with member | member
          · exact meets.committed other member
          · rw [List.mem_singleton.mp member]
            exact meets.writing old call _ inWrite
        · intro other otherCall loaded
          cases loaded
        · intro other otherCall left stillInWrite
          cases stillInWrite
  | kill =>
      refine ⟨meets.committed, ?_, ?_⟩
      · intro old call loaded
        cases loaded
      · intro old call remaining inWrite
        cases inWrite
  | read reader =>
      obtain ⟨state, frame⟩ :=
        @readStep_frame _ _ _ _ _ protocol _ s reader
      rw [System.step, frame]
      exact ⟨meets.committed, meets.loaded, meets.writing⟩

/-- A run keeps all calls meeting the condition if the begun ones do. -/
theorem run_callsMeet
    {condition : C → Prop}
    (meets : CallsMeet condition s)
    {actions : List (Action C ρ)}
    (begun : ∀ call, .begin call ∈ actions → condition call) :
    CallsMeet condition (s.run protocol actions).1 := by
  induction actions generalizing s with
  | nil =>
      exact meets
  | cons action rest inductionHypothesis =>
      refine inductionHypothesis
        (step_callsMeet meets ?_) ?_
      · rintro call rfl
        exact begun call List.mem_cons_self
      · intro call member
        exact begun call (List.mem_cons_of_mem _ member)

omit [DecidableEq ι] in
theorem mem_resultsOf
    {reader : ρ}
    {result : R}
    {outputs : List (ρ × Option R)}
    (member : (reader, some result) ∈ outputs) :
    result ∈ resultsOf reader outputs := by
  refine List.mem_filterMap.mpr ⟨_, member, ?_⟩
  simp

/-- Whatever a read returns is the image of completed writes, the last of
which is known. -/
theorem run_returned
    (invariant : Invariant protocol initial s)
    {actions : List (Action C ρ)}
    (entries : AllSteps protocol EvenEntry s actions)
    (close : AllSteps protocol LoadsClose s actions)
    {reader : ρ}
    {result : R}
    (member : (reader, some result) ∈ (s.run protocol actions).2) :
    ∃ calls call,
      calls.getLast? = some call ∧
        call ∈ (s.run protocol actions).1.committed ∧
        result = protocol.program.run (image protocol initial calls) := by
  obtain ⟨counts, -, bounds, results⟩ :=
    run_resultsOf invariant entries close reader
  have returned := mem_resultsOf member
  rw [results, List.mem_map] at returned
  obtain ⟨count, counted, rfl⟩ := returned
  obtain ⟨positive, bound⟩ := bounds count counted
  obtain ⟨call, last⟩ :
      ∃ call,
        ((s.run protocol actions).1.committed.take count).getLast? =
          some call := by
    rw [← Option.ne_none_iff_exists', Ne, List.getLast?_eq_none_iff,
      List.take_eq_nil_iff]
    rintro (rfl | empty)
    · exact absurd positive (Nat.not_lt_zero _)
    · rw [empty, List.length_nil] at bound
      exact absurd positive (Nat.not_lt.mpr (Nat.le_trans bound (by simp)))
  exact ⟨_, call, last, List.mem_of_mem_take (List.mem_of_getLast? last), rfl⟩

/-! ### Runs without kills -/

omit [DecidableEq ι] [DecidableEq ρ] in
/-- An odd counter belongs to a write in progress. -/
def Intact (s : System V C R ρ) : Prop :=
  s.seq % 2 = 1 → ∃ old call remaining, s.writer = .writing old call remaining

omit [DecidableEq ρ] in
/-- On an intact page every writer enters at an even counter. -/
theorem evenEntry_of_intact
    (invariant : Invariant protocol initial s)
    (intact : Intact s)
    (action : Action C ρ) :
    EvenEntry s action := by
  unfold EvenEntry
  split
  next old call loaded =>
    have isSeq : old = s.seq := by
      cases invariant.phase with
      | clean seq memory writer =>
          rcases writer with idle | ⟨other, isLoaded⟩ <;> simp_all
      | writing other otherCall remaining seq oldEven writer memory =>
          simp_all
      | broken seq writer =>
          rcases writer with idle | ⟨other, isLoaded⟩ <;> simp_all
    have notOdd : ¬ s.seq % 2 = 1 := by
      intro odd
      obtain ⟨other, otherCall, remaining, inWrite⟩ := intact odd
      rw [loaded] at inWrite
      cases inWrite
    rw [odd_iff] at notOdd
    rw [isSeq, even_iff]
    omega
  · trivial

/-- Only a kill leaves an odd counter behind. -/
theorem step_intact
    (invariant : Invariant protocol initial s)
    (intact : Intact s)
    {action : Action C ρ}
    (notKill : action ≠ .kill) :
    Intact (s.step protocol action).1 := by
  cases action with
  | begin call =>
      simp only [System.step]
      split
      next idle =>
        intro odd
        obtain ⟨old, other, remaining, inWrite⟩ := intact odd
        rw [idle] at inWrite
        cases inWrite
      · exact intact
  | write =>
      have later :=
        step_invariant invariant (evenEntry_of_intact invariant intact .write)
      simp only [System.step, System.writeStep] at later ⊢
      split
      · exact intact
      next old call loaded =>
        exact fun _ => ⟨old, call, _, rfl⟩
      next old call store remaining inWrite =>
        exact fun _ => ⟨old, call, remaining, rfl⟩
      next old call inWrite =>
        intro odd
        rw [inWrite] at later
        exact absurd odd (later.finished call rfl).2.1.not_odd
  | kill =>
      exact absurd rfl notKill
  | read reader =>
      obtain ⟨state, frame⟩ :=
        @readStep_frame _ _ _ _ _ protocol _ s reader
      rw [System.step, frame]
      exact intact

/-- Without kills every write is entered over an even counter. -/
theorem allSteps_evenEntry
    (invariant : Invariant protocol initial s)
    (intact : Intact s)
    {actions : List (Action C ρ)}
    (noKill : .kill ∉ actions) :
    AllSteps protocol EvenEntry s actions := by
  induction actions generalizing s with
  | nil =>
      trivial
  | cons action rest inductionHypothesis =>
      rw [List.mem_cons, not_or] at noKill
      have entry := evenEntry_of_intact invariant intact action
      exact ⟨entry,
        inductionHypothesis (step_invariant invariant entry)
          (step_intact invariant intact (Ne.symm noKill.1)) noKill.2⟩

/-! ### Runs with few writes -/

/-- How many writes a run starts at most. -/
def writesBegun (actions : List (Action C ρ)) : Nat :=
  actions.countP fun action =>
    match action with
    | .begin _ => true
    | _ => false

/-- Completed writes, counting one in progress. -/
def writesSoFar (s : System V C R ρ) : Nat :=
  s.committed.length +
    match s.writer with
    | .idle => 0
    | _ => 1

/-- A step begins no more writes than the schedule says. -/
theorem step_writesSoFar
    (s : System V C R ρ)
    (action : Action C ρ)
    (rest : List (Action C ρ)) :
    writesSoFar (s.step protocol action).1 + writesBegun rest ≤
      writesSoFar s + writesBegun (action :: rest) := by
  cases action with
  | begin call =>
      simp only [System.step]
      split
      next idle =>
        simp [writesSoFar, writesBegun, idle]
        omega
      · simp [writesSoFar, writesBegun]
  | write =>
      simp only [System.step, System.writeStep]
      split <;> simp_all [writesSoFar, writesBegun]
  | kill =>
      simp [System.step, writesSoFar, writesBegun]
  | read reader =>
      obtain ⟨state, frame⟩ :=
        @readStep_frame _ _ _ _ _ protocol _ s reader
      simp [System.step, frame, System.setReader, writesSoFar, writesBegun]

/-- No more calls are committed than begun. -/
theorem run_committed_le (actions : List (Action C ρ)) :
    (s.run protocol actions).1.committed.length ≤
      writesSoFar s + writesBegun actions := by
  induction actions generalizing s with
  | nil =>
      simp [System.run, writesSoFar]
      omega
  | cons action rest inductionHypothesis =>
      have first := @step_writesSoFar _ _ _ _ _ _ protocol _ s action rest
      have later := @inductionHypothesis (s.step protocol action).1
      rw [System.run]
      simp only
      omega

/-- A run with fewer than `2 ^ 31` writes never wraps the counter. -/
theorem allSteps_loadsClose
    {actions : List (Action C ρ)}
    (few : writesSoFar s + writesBegun actions < 2 ^ 31) :
    AllSteps protocol LoadsClose s actions := by
  induction actions generalizing s with
  | nil =>
      trivial
  | cons action rest inductionHypothesis =>
      refine ⟨?_, inductionHypothesis ?_⟩
      · unfold writesSoFar at few
        unfold LoadsClose
        split
        · split
          · trivial
          · omega
          · trivial
        · trivial
      · have := @step_writesSoFar _ _ _ _ _ _ protocol _ s action rest
        omega

/-! ### Undisturbed reads -/

omit [DecidableEq ρ] in
/-- After a finished write an idle reader that forgets is ready to read. -/
theorem Invariant.ready
    (invariant : Invariant protocol initial s)
    {call : C}
    (finished : s.finished = some call)
    (few : s.committed.length < 2 ^ 31)
    (forgets : protocol.remembers = false)
    (reader : ρ) :
    s.seq ≠ (s.readers reader).last ∧ ¬ s.seq % 2 = 1 := by
  obtain ⟨-, even, -, last⟩ := invariant.finished call finished
  refine ⟨?_, even.not_odd⟩
  rw [(invariant.readers reader).forgetful forgets]
  intro zero
  have nonempty : s.committed ≠ [] := by
    rintro empty
    rw [empty] at last
    cases last
  have positive := List.length_pos_iff.mpr nonempty
  rw [IsEven, zero, UInt32.toNat_zero] at even
  omega

/-- The rest of a call whose steps are not interleaved with others. -/
theorem run_alone
    {reader : ρ}
    {program : ReadProgram V R}
    (inCall : (s.readers reader).call = some (s.seq, program)) :
    (s.run protocol
        (List.replicate (program.loads s.memory + 1) (.read reader))).2 =
      [(reader, some (program.run s.memory))] := by
  induction program generalizing s with
  | done result =>
      simp only [ReadProgram.loads, List.replicate_succ, List.replicate_zero,
        System.run, System.step, System.readStep, inCall, ne_eq,
        not_true_eq_false, ↓reduceIte, ReadProgram.run, List.append_nil]
      split <;> rfl
  | load cell next inductionHypothesis =>
      have loaded :
          s.readStep protocol reader =
            (s.setReader reader
              { s.readers reader with
                call := some (s.seq, next (s.memory cell)) }, []) := by
        simp [System.readStep, inCall]
      have later :=
        @inductionHypothesis (s.memory cell)
          (s.setReader reader
            { s.readers reader with
              call := some (s.seq, next (s.memory cell)) })
          (by simp [System.setReader])
      rw [ReadProgram.loads, List.replicate_succ, System.run]
      simp only [System.step, loaded, List.nil_append]
      exact later

/-- A call that is not interleaved with others returns what it finds. -/
theorem run_undisturbed
    {reader : ρ}
    (noCall : (s.readers reader).call = none)
    (notLast : s.seq ≠ (s.readers reader).last)
    (notOdd : ¬ s.seq % 2 = 1) :
    (s.run protocol
        (List.replicate (protocol.program.loads s.memory + 2)
          (.read reader))).2 =
      [(reader, some (protocol.program.run s.memory))] := by
  have started :
      s.readStep protocol reader =
        (s.setReader reader
          { s.readers reader with
            loadedAt := some s.committed.length
            call := some (s.seq, protocol.program) }, []) := by
    simp [System.readStep, noCall, notLast, notOdd]
  have later :=
    @run_alone _ _ _ _ _ _ protocol
      (s.setReader reader
        { s.readers reader with
          loadedAt := some s.committed.length
          call := some (s.seq, protocol.program) })
      _ reader protocol.program (by simp [System.setReader])
  rw [List.replicate_succ, System.run]
  simp only [System.step, started, List.nil_append]
  exact later

/-! ### Catching up -/

omit [DecidableEq ι] [DecidableEq ρ] in
/-- After how many loads a reader that remembers has returned the last write,
if nothing is written in the meantime. -/
def lag (protocol : Protocol V C R) (s : System V C R ρ) (reader : ρ) : Nat :=
  let whole := protocol.program.loads s.memory + 2
  match (s.readers reader).call with
  | none =>
      if s.seq = (s.readers reader).last then 0 else whole
  | some (first, program) =>
      program.loads s.memory + 1 + if first = s.seq then 0 else whole

omit [DecidableEq ι] in
/-- While no write is under way each load brings a reader closer to its end. -/
theorem lag_readStep
    (remembers : protocol.remembers = true)
    (notOdd : ¬ s.seq % 2 = 1)
    (reader : ρ) :
    lag protocol (s.readStep protocol reader).1 reader ≤
      lag protocol s reader - 1 := by
  simp only [System.readStep]
  split
  next noCall =>
    by_cases caught : s.seq = (s.readers reader).last
    · simp [lag, System.setReader, noCall, caught]
    · simp [lag, System.setReader, noCall, caught, notOdd]
  next first cell next inCall =>
    by_cases same : first = s.seq
    · simp [lag, System.setReader, inCall, same, ReadProgram.loads]
    · simp only [lag, System.setReader, inCall, same, if_false,
        Function.update_self, ReadProgram.loads]
      omega
  next first result inCall =>
    by_cases same : first = s.seq
    · simp [lag, System.setReader, inCall, same, remembers, ReadProgram.loads]
    · simp only [lag, System.setReader, inCall, same, ne_eq, not_false_eq_true,
        if_true, if_false, Function.update_self, ReadProgram.loads]
      split <;> omega

omit [DecidableEq ρ] in
/-- A reader that has caught up has returned the last write. -/
theorem Invariant.lastCount_of_lag
    (invariant : Invariant protocol initial s)
    (notOdd : ¬ s.seq % 2 = 1)
    (few : s.committed.length < 2 ^ 31)
    {reader : ρ}
    (caught : lag protocol s reader = 0) :
    (s.readers reader).lastCount = s.committed.length := by
  have known := invariant.readers reader
  have even := (invariant.phase.clean_of_not_odd notOdd).1
  have isLast : s.seq = (s.readers reader).last := by
    unfold lag at caught
    dsimp only at caught
    split at caught
    · split at caught
      next isLast =>
        exact isLast
      · omega
    · omega
  exact (isLast ▸ known.last).count_eq even known.lastCount (by omega)

/-- Whatever is found, the program ends after `bound` loads at most. -/
def ReadProgram.Within : ReadProgram V R → Nat → Prop
  | .done _, _ => True
  | .load _ _, 0 => False
  | .load cell next, bound + 1 => ∀ value : V cell, (next value).Within bound

omit [DecidableEq ι] in
theorem ReadProgram.Within.mono
    {program : ReadProgram V R}
    {bound more : Nat}
    (ends : program.Within bound)
    (le : bound ≤ more) :
    program.Within more := by
  induction program generalizing bound more with
  | done result =>
      trivial
  | load cell next inductionHypothesis =>
      cases bound with
      | zero =>
          exact ends.elim
      | succ bound =>
          obtain ⟨more, rfl⟩ := Nat.exists_eq_add_of_lt le
          exact fun value =>
            inductionHypothesis value (ends value) (Nat.le_add_right bound more)

omit [DecidableEq ι] in
/-- A bounded program ends within its bound on every image. -/
theorem ReadProgram.Within.loads_le
    {program : ReadProgram V R}
    {bound : Nat}
    (ends : program.Within bound)
    (memory : Memory V) :
    program.loads memory ≤ bound := by
  induction program generalizing bound with
  | done result =>
      exact Nat.zero_le _
  | load cell next inductionHypothesis =>
      cases bound with
      | zero =>
          exact ends.elim
      | succ bound =>
          exact Nat.succ_le_succ
            (inductionHypothesis (memory cell) (ends (memory cell)))

omit [DecidableEq ι] [DecidableEq ρ] in
/-- No reader has more than `bound` loads left. -/
def CallsWithin (bound : Nat) (s : System V C R ρ) : Prop :=
  ∀ reader first program,
    (s.readers reader).call = some (first, program) → program.Within bound

/-- A step keeps the reads within their bound. -/
theorem step_callsWithin
    {bound : Nat}
    (ends : protocol.program.Within bound)
    (within : CallsWithin bound s)
    (action : Action C ρ) :
    CallsWithin bound (s.step protocol action).1 := by
  -- a load moves its own reader on, and only that one
  have moved
      {reader : ρ}
      {state : Reader V R}
      (left : ∀ first program,
        state.call = some (first, program) → program.Within bound) :
      CallsWithin bound (s.setReader reader state) := by
    intro other first program inCall
    simp only [System.setReader, Function.update_apply] at inCall
    split at inCall
    · exact left first program inCall
    · exact within other first program inCall
  cases action with
  | begin call =>
      simp only [System.step]
      split <;> exact within
  | write =>
      simp only [System.step, System.writeStep]
      split <;> exact within
  | kill =>
      exact within
  | read reader =>
      simp only [System.step, System.readStep]
      split
      next noCall =>
        split
        · exact moved fun first program inCall => by
            rw [noCall] at inCall
            cases inCall
        · exact moved fun first program inCall => by
            cases inCall
            exact ends
      next first cell next inCall =>
        have left := within reader first _ inCall
        refine moved fun other program isCall => ?_
        cases isCall
        cases bound with
        | zero =>
            exact left.elim
        | succ bound =>
            exact (left (s.memory cell)).mono (Nat.le_succ bound)
      next first result inCall =>
        split
        · exact moved fun other program isCall => by cases isCall
        · split
          · exact moved fun other program isCall => by cases isCall
          · exact moved fun other program isCall => by cases isCall

omit [DecidableEq ι] [DecidableEq ρ] in
/-- A read within its bound is never further than twice the bound from its end.
-/
theorem CallsWithin.lag_le
    {bound : Nat}
    (ends : protocol.program.Within bound)
    (within : CallsWithin bound s)
    (reader : ρ) :
    lag protocol s reader ≤ 2 * bound + 3 := by
  have whole := ends.loads_le s.memory
  unfold lag
  dsimp only
  split
  · split <;> omega
  next first program inCall =>
    have left := (within reader first program inCall).loads_le s.memory
    split <;> omega

end Invariant

end DnsServices.Seqlock
