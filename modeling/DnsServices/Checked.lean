import Mathlib.Algebra.Ring.Nat

namespace DnsServices.Checked

/-!
# Operations that can fault

Machine arithmetic and slices with their preconditions checked.  `none` is a
fault: the operation would panic, wrap or lose bits.  A computation written
with these operations that comes out as `some` never faulted on its way.
-/

/-- Addition of unsigned words. -/
def add (width a b : Nat) : Option Nat :=
  if a + b < 2 ^ width then some (a + b) else none

/-- Subtraction of unsigned words. -/
def sub (a b : Nat) : Option Nat :=
  if b ≤ a then some (a - b) else none

/-- Left shift that must keep every bit. -/
def shiftLeft (width a amount : Nat) : Option Nat :=
  if amount < width ∧ a <<< amount < 2 ^ width then
    some (a <<< amount)
  else
    none

/-- `a >> amount`, which faults from the width on. -/
def shiftRight (width a amount : Nat) : Option Nat :=
  if amount < width then some (a >>> amount) else none

/-- The word with the lowest `count` bits set: `(1 << count) - 1`. -/
def lowMask (width count : Nat) : Option Nat :=
  (shiftLeft width 1 count).bind fun limit => sub limit 1

/-- `xs[i]` -/
def index (xs : List α) (i : Nat) : Option α :=
  xs[i]?

/-- `xs[start..stop]` -/
def slice (xs : List α) (start stop : Nat) : Option (List α) :=
  if start ≤ stop ∧ stop ≤ xs.length then
    some ((xs.drop start).take (stop - start))
  else
    none

/-- `xs[i] = x` -/
def set (xs : List α) (i : Nat) (x : α) : Option (List α) :=
  if i < xs.length then some (xs.set i x) else none

theorem add_eq
    {width a b : Nat}
    (fits : a + b < 2 ^ width) :
    add width a b = some (a + b) :=
  if_pos fits

/-- A sum that does not fit is an overflow. -/
theorem add_eq_none
    {width a b : Nat}
    (tooLarge : 2 ^ width ≤ a + b) :
    add width a b = none :=
  if_neg (Nat.not_lt.mpr tooLarge)

theorem sub_eq
    {a b : Nat}
    (fits : b ≤ a) :
    sub a b = some (a - b) :=
  if_pos fits

theorem shiftLeft_eq
    {width a amount : Nat}
    (small : amount < width)
    (fits : a <<< amount < 2 ^ width) :
    shiftLeft width a amount = some (a <<< amount) :=
  if_pos ⟨small, fits⟩

theorem shiftRight_eq
    {width amount : Nat}
    (small : amount < width)
    (a : Nat) :
    shiftRight width a amount = some (a >>> amount) :=
  if_pos small

/-- A mask narrower than the width does not overflow. -/
theorem lowMask_eq
    {width count : Nat}
    (small : count < width) :
    lowMask width count = some (1 <<< count - 1) := by
  have fits : 1 <<< count < 2 ^ width := by
    rw [Nat.one_shiftLeft]
    exact Nat.pow_lt_pow_right (by omega) small
  have positive : 1 ≤ 1 <<< count := by
    rw [Nat.one_shiftLeft]
    exact Nat.one_le_two_pow
  rw [lowMask, shiftLeft_eq small fits, Option.bind_some, sub_eq positive]

theorem index_eq
    {xs : List α}
    {i : Nat}
    (inside : i < xs.length)
    (fallback : α) :
    index xs i = some (xs.getD i fallback) := by
  rw [index, List.getD_eq_getElem?_getD, List.getElem?_eq_getElem inside,
    Option.getD_some]

theorem set_eq
    {xs : List α}
    {i : Nat}
    (inside : i < xs.length)
    (x : α) :
    set xs i x = some (xs.set i x) :=
  if_pos inside

/-- A range inside the list is the elements it names. -/
theorem slice_eq
    {xs : List α}
    {start count : Nat}
    (inside : start + count ≤ xs.length) :
    slice xs start (start + count) = some ((xs.drop start).take count) := by
  rw [slice, if_pos ⟨Nat.le_add_right start count, inside⟩,
    Nat.add_sub_cancel_left]

end DnsServices.Checked
