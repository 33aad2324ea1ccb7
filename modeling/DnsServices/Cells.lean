import Mathlib.Logic.Function.Basic

namespace DnsServices.Cells

/-!
# Cells in memory

A memory hands out fresh references and lets any cell be overwritten.  A
computation that writes only to cells it allocated itself extends the memory it
started from: every cell that existed before keeps its value.
-/

/-- The place of a value in the memory. -/
abbrev Ref := Nat

/-- Values by reference, and the next reference to hand out. -/
structure Memory (α : Type) where
  value : Ref → α
  next : Ref

namespace Memory

variable
  {α : Type}
  {first second third : Memory α}
  {ref : Ref}
  {refs : List Ref}

/-- Store a value in a fresh cell. -/
def alloc (memory : Memory α) (stored : α) : Memory α × Ref :=
  ({ value := Function.update memory.value memory.next stored
     next := memory.next + 1 },
    memory.next)

/-- Change a cell in place. -/
def modify (memory : Memory α) (ref : Ref) (change : α → α) : Memory α :=
  { memory with
    value := Function.update memory.value ref (change (memory.value ref)) }

/-- Whatever one memory has allocated has the same value in another. -/
structure Extends (first second : Memory α) : Prop where
  next_le : first.next ≤ second.next
  same : ∀ ref < first.next, second.value ref = first.value ref

theorem Extends.refl (memory : Memory α) : Extends memory memory :=
  ⟨Nat.le_refl _, fun _ _ => rfl⟩

theorem Extends.trans
    (earlier : Extends first second)
    (later : Extends second third) :
    Extends first third := by
  refine ⟨Nat.le_trans earlier.next_le later.next_le, ?_⟩
  intro ref allocated
  rw [later.same ref (Nat.lt_of_lt_of_le allocated earlier.next_le),
    earlier.same ref allocated]

/-- A fresh cell leaves the old ones as they were. -/
theorem extends_alloc (memory : Memory α) (stored : α) :
    Extends memory (memory.alloc stored).1 := by
  refine ⟨Nat.le_succ _, ?_⟩
  intro ref allocated
  exact Function.update_of_ne (Nat.ne_of_lt allocated) _ _

@[simp] theorem value_alloc (memory : Memory α) (stored : α) :
    (memory.alloc stored).1.value (memory.alloc stored).2 = stored :=
  Function.update_self ..

@[simp] theorem value_modify (memory : Memory α) (change : α → α) :
    (memory.modify ref change).value ref = change (memory.value ref) :=
  Function.update_self ..

/-- Writing to a cell that is new to the first memory. -/
theorem Extends.modify
    (grown : Extends first second)
    (fresh : first.next ≤ ref)
    (change : α → α) :
    Extends first (second.modify ref change) := by
  refine ⟨grown.next_le, ?_⟩
  intro old allocated
  have other : old ≠ ref :=
    Nat.ne_of_lt (Nat.lt_of_lt_of_le allocated fresh)
  calc
    (second.modify ref change).value old = second.value old :=
      Function.update_of_ne other _ _
    _ = first.value old := grown.same old allocated

/-- What references denote does not change while the memory is extended. -/
theorem Extends.map_value
    (grown : Extends first second)
    (allocated : ∀ ref ∈ refs, ref < first.next) :
    refs.map second.value = refs.map first.value := by
  refine List.map_congr_left ?_
  intro ref member
  exact grown.same ref (allocated ref member)

/-- Change cells in place, one after the other. -/
def modifyAll
    (memory : Memory α)
    (refs : List Ref)
    (change : α → α) : Memory α :=
  refs.foldl (fun memory ref => memory.modify ref change) memory

/-- Changing cells that the first memory did not have still extends it. -/
theorem Extends.modifyAll
    (grown : Extends first second)
    (fresh : ∀ ref ∈ refs, first.next ≤ ref)
    (change : α → α) :
    Extends first (second.modifyAll refs change) := by
  induction refs generalizing second with
  | nil =>
      exact grown
  | cons ref rest inductionHypothesis =>
      rw [List.forall_mem_cons] at fresh
      exact inductionHypothesis (grown.modify fresh.1 change) fresh.2

@[simp] theorem next_modifyAll (memory : Memory α) (change : α → α) :
    (memory.modifyAll refs change).next = memory.next := by
  induction refs generalizing memory with
  | nil =>
      rfl
  | cons ref rest inductionHypothesis =>
      exact inductionHypothesis (memory.modify ref change)

/-- A change that is made only once, however often a cell occurs. -/
theorem value_modifyAll
    {change : α → α}
    (idempotent : ∀ stored, change (change stored) = change stored)
    (memory : Memory α)
    (ref : Ref) :
    (memory.modifyAll refs change).value ref =
      if ref ∈ refs then change (memory.value ref) else memory.value ref := by
  induction refs generalizing memory with
  | nil =>
      rfl
  | cons changed rest inductionHypothesis =>
      rw [modifyAll, List.foldl_cons, ← modifyAll, inductionHypothesis]
      by_cases same : ref = changed
      · simp [same, idempotent]
      · have kept :
            (memory.modify changed change).value ref = memory.value ref :=
          Function.update_of_ne same _ _
        simp [same, kept]

/-- An idempotent change through a list of references, repeated or not, changes
each value once. -/
theorem map_value_modifyAll
    {change : α → α}
    (idempotent : ∀ stored, change (change stored) = change stored)
    (memory : Memory α)
    (refs : List Ref) :
    refs.map (memory.modifyAll refs change).value =
      (refs.map memory.value).map change := by
  rw [List.map_map]
  refine List.map_congr_left ?_
  intro ref member
  rw [value_modifyAll idempotent, if_pos member]
  rfl

end Memory

end DnsServices.Cells
