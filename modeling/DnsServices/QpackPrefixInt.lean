import DnsServices.QpackSafety

namespace DnsServices.Qpack

/-!
# The range of prefix integers

The writer emits seven bits at a time until the value is spent, the reader
stops after nine continuation bytes.  Nine bytes carry 63 bits, so a value
reads back exactly when what is left of it behind the prefix is below
`2 ^ 63`; every other value ends in an error.
-/

/-- The part of a value that nine continuation bytes cannot carry is an error. -/
theorem readContinuation_overlong
    {buf rest : Bytes}
    {rounds fuel pos value shift v : Nat}
    (remaining : Remaining buf pos (writeContinuation fuel v ++ rest))
    (enough : v ≤ fuel)
    (rhythm : shift + 7 * (rounds + 1) = 63)
    (tooLarge : 2 ^ (7 * (rounds + 1)) ≤ v) :
    (readContinuation buf (rounds + 1) pos value shift).1 =
      .error .truncated := by
  induction rounds generalizing pos value shift v fuel with
  | zero =>
      have large : 128 ≤ v := by simpa using tooLarge
      obtain ⟨smaller, -, written⟩ := writeContinuation_large enough large
      rw [written, List.cons_append] at remaining
      rw [readContinuation_flagged remaining, if_pos (.inr (by omega))]
  | succ rounds inductionHypothesis =>
      have power :
          2 ^ (7 * (rounds + 1 + 1)) = 2 ^ (7 * (rounds + 1)) * 128 := by
        rw [Nat.mul_succ, Nat.pow_add]
      have positive := Nat.two_pow_pos (7 * (rounds + 1))
      have stillLarge : 2 ^ (7 * (rounds + 1)) ≤ v >>> 7 := by
        rw [Nat.shiftRight_eq_div_pow, Nat.le_div_iff_mul_le (by omega),
          ← power]
        exact tooLarge
      obtain ⟨smaller, stillEnough, written⟩ :=
        writeContinuation_large enough (by omega)
      rw [written, List.cons_append] at remaining
      rw [readContinuation_flagged remaining]
      split
      · rfl
      · exact inductionHypothesis remaining.tail stillEnough (by omega)
          stillLarge

/-- A value beyond the range of the reader is an error, not another value. -/
theorem readPrefixInt_overlong
    {buf rest : Bytes}
    {pos prefixBits value : Nat}
    {firstByte : UInt8}
    (remaining :
      Remaining buf pos (writePrefixInt prefixBits firstByte value ++ rest))
    (prefixBound : prefixBits ≤ 8)
    (clear : firstByte.toNat % 2 ^ prefixBits = 0)
    (tooLarge : 2 ^ 63 ≤ value - (2 ^ prefixBits - 1)) :
    (readPrefixInt buf pos prefixBits).1 = .error .truncated := by
  have positive := Nat.two_pow_pos prefixBits
  rw [writePrefixInt_continued (by omega), List.cons_append] at remaining
  have low := toNat_or_and_low prefixBound clear
    (by omega : 2 ^ prefixBits - 1 < 2 ^ prefixBits)
  rw [readPrefixInt, remaining.head]
  simp only [low]
  rw [Nat.one_shiftLeft, if_neg (by omega)]
  exact readContinuation_overlong remaining.tail (Nat.le_refl _) (by omega)
    tooLarge

/-- Every round of the loop consumes one byte. -/
theorem readContinuation_consumes
    {buf : Bytes}
    {rounds pos value shift result next : Nat}
    (read :
      readContinuation buf rounds pos value shift = (.ok result, next)) :
    next ≤ pos + rounds := by
  induction rounds generalizing pos value shift with
  | zero =>
      simp [readContinuation] at read
  | succ rounds inductionHypothesis =>
      simp only [readContinuation] at read
      split at read
      · simp at read
      · split at read
        · simp at read
        · split at read
          · simp only [Prod.mk.injEq] at read
            omega
          · split at read
            · simp at read
            · have later := inductionHypothesis read
              omega

/-- A returned prefix integer takes ten bytes at most. -/
theorem readPrefixInt_consumes
    {buf : Bytes}
    {pos prefixBits result next : Nat}
    (read : readPrefixInt buf pos prefixBits = (.ok result, next)) :
    next ≤ pos + 10 := by
  simp only [readPrefixInt] at read
  split at read
  · simp at read
  · split at read
    · simp only [Prod.mk.injEq] at read
      omega
    · have later := readContinuation_consumes read
      omega

/--
Prefix integers read back over their whole range and fail beyond it, wherever
they stand in a buffer.  No reading that returns a value takes more than ten
bytes, and on machine words no reading faults: not in a shift, whose amount
must be below 64, and not because the nine rounds of its loop are spent.
-/
theorem prefixInt_range :
    (∀ prefixBits, 1 ≤ prefixBits → prefixBits ≤ 8 →
      ∀ firstByte : UInt8, firstByte.toNat % 2 ^ prefixBits = 0 →
      ∀ value < 2 ^ 64, ∀ front suffix : Bytes,
        let written := writePrefixInt prefixBits firstByte value
        let reading :=
          readPrefixInt (front ++ written ++ suffix) front.length prefixBits
        (value - (2 ^ prefixBits - 1) < 2 ^ 63 →
          reading = (.ok value, front.length + written.length)) ∧
        (¬ value - (2 ^ prefixBits - 1) < 2 ^ 63 →
          ∃ failure, reading.1 = .error failure)) ∧
    ∀ (buf : Bytes) (pos prefixBits : Nat),
      1 ≤ prefixBits → prefixBits ≤ 8 →
        (∀ value next,
          readPrefixInt buf pos prefixBits = (.ok value, next) →
            next ≤ pos + 10) ∧
        (buf.length < 2 ^ 64 →
          Machine.readPrefixInt buf pos prefixBits =
            some (readPrefixInt buf pos prefixBits)) := by
  constructor
  · intro prefixBits _ prefixBound firstByte clear value _ front suffix
    have remaining :
        Remaining
          (front ++ writePrefixInt prefixBits firstByte value ++ suffix)
          front.length
          (writePrefixInt prefixBits firstByte value ++ suffix) := by
      constructor
      · simp only [List.append_assoc, List.length_append]
        omega
      · rw [List.append_assoc, List.drop_left]
    constructor
    · intro bound
      exact readPrefixInt_writePrefixInt remaining prefixBound clear bound
    · intro tooLarge
      exact ⟨_, readPrefixInt_overlong remaining prefixBound clear (by omega)⟩
  · intro buf pos prefixBits _ prefixBound
    constructor
    · intro value next read
      exact readPrefixInt_consumes read
    · intro size
      exact Machine.readPrefixInt_eq size (by omega)

/-- The last value of a three-bit prefix that reads back, and the next one. -/
theorem prefixInt_range_three :
    readPrefixInt (writePrefixInt 3 0x20 (2 ^ 63 + 6) ++ [0xAA]) 0 3 =
        (.ok (2 ^ 63 + 6), 10) ∧
      ∃ failure,
        (readPrefixInt (writePrefixInt 3 0x20 (2 ^ 63 + 7) ++ [0xAA]) 0 3).1 =
          .error failure := by
  have length : (writePrefixInt 3 0x20 (2 ^ 63 + 6)).length = 10 := by
    decide +kernel
  have last :=
    (prefixInt_range.1 3 (by decide) (by decide) 0x20 (by decide)
      (2 ^ 63 + 6) (by decide) [] [0xAA]).1 (by decide)
  have next :=
    (prefixInt_range.1 3 (by decide) (by decide) 0x20 (by decide)
      (2 ^ 63 + 7) (by decide) [] [0xAA]).2 (by decide)
  rw [List.nil_append, List.length_nil, Nat.zero_add, length] at last
  rw [List.nil_append, List.length_nil] at next
  exact ⟨last, next⟩

end DnsServices.Qpack
