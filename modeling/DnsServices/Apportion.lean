import Mathlib.Algebra.Order.Ring.Int
import Mathlib.Data.Finset.Card
import Mathlib.Order.Interval.Finset.Nat
import Mathlib.Tactic.Linarith
import Mathlib.Tactic.Ring

namespace DnsServices.Apportion

/-!
# Apportionment by midpoints

`workers` seats are laid out at the midpoints `(2 * idx + 1) / (2 * workers)`
of equal slices of a total amount, and an interval of amounts gets the seats
whose midpoints lie in it.  The number of seats below an amount has a closed
form, so every interval gets its fair share up to less than one seat.
-/

section Cuts

variable {total workers amount idx : Nat}

/-- The number of seats whose midpoint lies below `amount` out of `total`. -/
def cut (total workers amount : Nat) : Nat :=
  (2 * workers * amount + total - 1) / (2 * total)

/-- Seat `idx` is below the cut exactly if its midpoint is. -/
theorem lt_cut_iff (pos : 0 < total) :
    idx < cut total workers amount ↔
      (2 * idx + 1) * total < 2 * workers * amount := by
  have regroup : (idx + 1) * (2 * total) = (2 * idx + 1) * total + total := by
    ring
  rw [cut, ← Nat.succ_le_iff, Nat.le_div_iff_mul_le (by omega),
    Nat.succ_eq_add_one, regroup]
  omega

/-- A larger cumulative sum never cuts fewer midpoints. -/
theorem cut_mono
    (total workers : Nat)
    {less more : Nat}
    (ordered : less ≤ more) :
    cut total workers less ≤ cut total workers more := by
  refine Nat.div_le_div_right ?_
  have := Nat.mul_le_mul_left (2 * workers) ordered
  omega

/-- All seats lie below the total. -/
theorem cut_total (pos : 0 < total) :
    cut total workers total = workers := by
  have regroup :
      2 * workers * total + total - 1 =
        total - 1 + workers * (2 * total) := by
    have : 2 * workers * total = workers * (2 * total) := by
      ring
    omega
  rw [cut, regroup, Nat.add_mul_div_right _ _ (by omega),
    Nat.div_eq_of_lt (by omega), Nat.zero_add]

/-- A cut misses its amount by at most half a seat, upwards by less. -/
theorem cut_bounds (pos : 0 < total) :
    2 * workers * amount ≤
        2 * total * cut total workers amount + total ∧
      2 * total * cut total workers amount <
        2 * workers * amount + total := by
  have divided :=
    Nat.div_add_mod (2 * workers * amount + total - 1) (2 * total)
  have remainder :=
    Nat.mod_lt (2 * workers * amount + total - 1) (by omega : 2 * total > 0)
  rw [← cut] at divided
  omega

/-- The seats between two amounts miss their share by less than one seat. -/
theorem abs_cut_sub_lt
    (pos : 0 < total)
    {less more : Nat}
    (ordered : less ≤ more) :
    |(((cut total workers more - cut total workers less : Nat) : Int) *
          total -
        workers * ((more - less : Nat) : Int))| <
      total := by
  obtain ⟨lessLower, lessUpper⟩ :=
    @cut_bounds total workers less pos
  obtain ⟨moreLower, moreUpper⟩ :=
    @cut_bounds total workers more pos
  have seats := cut_mono total workers ordered
  rw [Nat.cast_sub seats, Nat.cast_sub ordered, abs_lt]
  zify at lessLower lessUpper moreLower moreUpper
  refine ⟨?_, ?_⟩
  · linarith
  · linarith

/-- A share that is a whole number of seats is met exactly. -/
theorem eq_of_abs_sub_lt
    {seats amount total : Int}
    (close : |seats * total - amount| < total)
    (whole : total ∣ amount) :
    seats * total = amount := by
  have divides : total ∣ seats * total - amount :=
    Int.dvd_sub (Int.dvd_mul_left seats total) whole
  have zero := Int.eq_zero_of_abs_lt_dvd divides close
  omega

/-- The seats of an interval, counted. -/
theorem card_between
    {low high : Nat}
    (bound : high ≤ workers) :
    ((Finset.range workers).filter
        fun idx => low ≤ idx ∧ idx < high).card =
      high - low := by
  have shape :
      ((Finset.range workers).filter fun idx => low ≤ idx ∧ idx < high) =
        Finset.Ico low high := by
    ext idx
    simp only [Finset.mem_filter, Finset.mem_range, Finset.mem_Ico]
    omega
  rw [shape, Nat.card_Ico]

end Cuts

end DnsServices.Apportion
