import DnsServices.Bytes

namespace DnsServices.Http3

/-!
# QUIC variable-length integers

`varintEncode` and `varintDecode` follow `h3.rs`.  A `u64` is a natural number
below `2 ^ 64`; the `as u16` and `as u32` casts of the encoder keep the low
bytes, which `toBeBytes` does by itself.

`IsVarint` states which byte strings denote a value: any of the four widths
that can hold it, not only the shortest one.
-/

/-- Append a QUIC variable-length integer. -/
def varintEncode (value : Nat) : Bytes :=
  if value < 1 <<< 6 then
    toBeBytes 1 value
  else if value < 1 <<< 14 then
    toBeBytes 2 (value ||| 0x4000)
  else if value < 1 <<< 30 then
    toBeBytes 4 (value ||| 0x80000000)
  else
    toBeBytes 8 (value ||| 0xC000000000000000)

/-- The encoded length announced by the top two bits of the first byte. -/
def varintLen (first : UInt8) : Nat :=
  1 <<< (first.toNat >>> 6)

/-- Decode a varint to its value and length, or `none` if incomplete. -/
def varintDecode : Bytes → Option (Nat × Nat)
  | [] =>
      none
  | first :: tail =>
      let len := varintLen first
      if (first :: tail).length < len then
        none
      else
        some (((first :: tail).take len).drop 1 |>.foldl pushByte
          (first.toNat &&& 0x3F), len)

/--
`encoded` is a legal encoding of `value`: the exponent in the top two bits
selects 1, 2, 4 or 8 bytes and the value fits into the remaining bits.
-/
def IsVarint (value : Nat) (encoded : Bytes) : Prop :=
  ∃ exponent ≤ 3,
    value < 64 * 256 ^ (2 ^ exponent - 1) ∧
      encoded =
        toBeBytes (2 ^ exponent)
          (exponent * (64 * 256 ^ (2 ^ exponent - 1)) + value)

/-- The two top bits give the length as a power of two. -/
theorem varintLen_eq (first : UInt8) :
    varintLen first = 2 ^ (first.toNat / 64) := by
  rw [varintLen, toNat_shiftRight_six, Nat.one_shiftLeft]

theorem varintLen_pos (first : UInt8) :
    0 < varintLen first := by
  rw [varintLen_eq]
  exact Nat.two_pow_pos _

/-- A decoded varint lies inside the buffer and is not empty. -/
theorem varintDecode_length
    {buffer : Bytes}
    {value length : Nat}
    (decoded : varintDecode buffer = some (value, length)) :
    0 < length ∧ length ≤ buffer.length := by
  cases buffer with
  | nil =>
      simp [varintDecode] at decoded
  | cons first tail =>
      simp only [varintDecode] at decoded
      split at decoded
      · simp at decoded
      · simp only [Option.some.injEq, Prod.mk.injEq] at decoded
        obtain ⟨-, rfl⟩ := decoded
        exact ⟨varintLen_pos first, by omega⟩

/-- Bytes behind a complete varint do not change how it decodes. -/
theorem varintDecode_append
    {buffer : Bytes}
    {value length : Nat}
    (more : Bytes)
    (decoded : varintDecode buffer = some (value, length)) :
    varintDecode (buffer ++ more) = some (value, length) := by
  cases buffer with
  | nil =>
      simp [varintDecode] at decoded
  | cons first tail =>
      simp only [varintDecode] at decoded
      split at decoded
      · simp at decoded
      next covered =>
        have stillCovered :
            ¬ (first :: (tail ++ more)).length < varintLen first := by
          simp only [List.length_cons, List.length_append] at covered ⊢
          omega
        have sameFront :
            (first :: (tail ++ more)).take (varintLen first) =
              (first :: tail).take (varintLen first) := by
          rw [← List.cons_append]
          exact List.take_append_of_le_length (by omega)
        simp only [List.cons_append, varintDecode]
        rw [if_neg stillCovered, sameFront]
        exact decoded

/-- A varint is incomplete exactly when its announced length is not there. -/
theorem varintDecode_eq_none_iff
    (first : UInt8)
    (tail : Bytes) :
    varintDecode (first :: tail) = none ↔
      (first :: tail).length < varintLen first := by
  simp only [varintDecode]
  split <;> simp_all

/-- The decoded length only depends on the first byte. -/
theorem varintDecode_cons_length
    {first : UInt8}
    {tail : Bytes}
    {value length : Nat}
    (decoded : varintDecode (first :: tail) = some (value, length)) :
    length = varintLen first := by
  simp only [varintDecode] at decoded
  split at decoded
  · simp at decoded
  · simp only [Option.some.injEq, Prod.mk.injEq] at decoded
    exact decoded.2.symm

/-- The first byte of a tagged word carries the exponent and the top digit. -/
theorem toNat_firstByte
    {exponent width value : Nat}
    (exponentBound : exponent ≤ 3)
    (valueBound : value < 64 * 256 ^ width) :
    (UInt8.ofNat
        ((exponent * (64 * 256 ^ width) + value) >>> (8 * width))).toNat =
      exponent * 64 + value / 256 ^ width := by
  have scalePos : 0 < 256 ^ width := Nat.pow_pos (by omega)
  have valueTop : value / 256 ^ width < 64 :=
    (Nat.div_lt_iff_lt_mul scalePos).mpr valueBound
  have regroup :
      exponent * (64 * 256 ^ width) + value =
        value + exponent * 64 * 256 ^ width := by
    ring
  rw [UInt8.toNat_ofNat', Nat.shiftRight_eq_div_pow, Nat.pow_mul,
    show (2 : Nat) ^ 8 = 256 from rfl, regroup,
    Nat.add_mul_div_right _ _ scalePos,
    Nat.mod_eq_of_lt (by generalize value / 256 ^ width = top at *; omega),
    Nat.add_comm]

/-- The digits behind the first byte are those of the value. -/
theorem taggedWord_mod (exponent width value : Nat) :
    (exponent * (64 * 256 ^ width) + value) % 256 ^ width =
      value % 256 ^ width := by
  have regroup :
      exponent * (64 * 256 ^ width) + value =
        value + exponent * 64 * 256 ^ width := by
    ring
  rw [regroup, Nat.add_mul_mod_self_right]

/-- Every legal encoding decodes to its value, whatever follows it. -/
theorem IsVarint.decode
    {value : Nat}
    {encoded : Bytes}
    (legal : IsVarint value encoded)
    (rest : Bytes) :
    varintDecode (encoded ++ rest) = some (value, encoded.length) := by
  obtain ⟨exponent, exponentBound, valueBound, rfl⟩ := legal
  obtain ⟨width, widthShape⟩ :
      ∃ width, 2 ^ exponent = width + 1 :=
    ⟨2 ^ exponent - 1, by have := Nat.two_pow_pos exponent; omega⟩
  rw [show 2 ^ exponent - 1 = width by omega] at valueBound ⊢
  have valueTop : value / 256 ^ width < 64 :=
    (Nat.div_lt_iff_lt_mul (Nat.pow_pos (by omega))).mpr valueBound
  have firstByte := toNat_firstByte exponentBound valueBound
  have lowDigits := taggedWord_mod exponent width value
  generalize exponent * (64 * 256 ^ width) + value = word at *
  have firstLen :
      varintLen (UInt8.ofNat (word >>> (8 * width))) = width + 1 := by
    rw [varintLen_eq, firstByte, ← widthShape]
    generalize value / 256 ^ width = top at *
    congr 1
    omega
  have topDigit :
      (UInt8.ofNat (word >>> (8 * width))).toNat &&& 0x3F =
        value / 256 ^ width := by
    rw [toNat_and_sixBits, firstByte]
    generalize value / 256 ^ width = top at *
    omega
  rw [widthShape]
  simp only [toBeBytes, List.cons_append, varintDecode, firstLen]
  rw [if_neg (by simp), ← List.cons_append,
    List.take_append_of_le_length (by simp),
    List.take_of_length_le (by simp), List.drop_succ_cons, List.drop_zero,
    foldl_pushByte_toBeBytes, topDigit, lowDigits]
  simp [Nat.div_add_mod']

/-- The encoder writes a legal encoding of every 62-bit value. -/
theorem varintEncode_isVarint
    {value : Nat}
    (bound : value < 2 ^ 62) :
    IsVarint value (varintEncode value) := by
  unfold varintEncode
  split
  next small =>
    refine ⟨0, by omega, by simpa using small, by simp⟩
  next notSmall =>
    split
    next medium =>
      have tagged := Nat.two_pow_add_eq_or_of_lt
        (show value < 2 ^ 14 from medium) 1
      refine ⟨1, by omega, by simpa using medium, ?_⟩
      rw [Nat.or_comm]
      exact congrArg (toBeBytes 2) tagged.symm
    next notMedium =>
      split
      next large =>
        have tagged := Nat.two_pow_add_eq_or_of_lt
          (show value < 2 ^ 31 by
            have : value < 2 ^ 30 := large
            omega) 1
        refine ⟨2, by omega, by simpa using large, ?_⟩
        rw [Nat.or_comm]
        exact congrArg (toBeBytes 4) tagged.symm
      next notLarge =>
        have tagged := Nat.two_pow_add_eq_or_of_lt bound 3
        refine ⟨3, by omega, by simpa using bound, ?_⟩
        rw [Nat.or_comm]
        exact congrArg (toBeBytes 8) tagged.symm

/-- What decodes is a legal encoding of the value it decodes to. -/
theorem isVarint_of_varintDecode
    {buffer : Bytes}
    {value length : Nat}
    (decoded : varintDecode buffer = some (value, length)) :
    IsVarint value (buffer.take length) := by
  cases buffer with
  | nil =>
      cases decoded
  | cons first tail =>
      have bounds := varintDecode_length decoded
      have lengthShape := varintDecode_cons_length decoded
      have firstBound := first.toNat_lt
      rw [varintLen_eq] at lengthShape
      simp only [varintDecode, varintLen_eq, ← lengthShape] at decoded
      rw [if_neg (by omega)] at decoded
      simp only [Option.some.injEq, Prod.mk.injEq, and_true] at decoded
      obtain ⟨width, rfl⟩ : ∃ width, length = width + 1 :=
        ⟨length - 1, by omega⟩
      rw [List.take_succ_cons, List.drop_succ_cons, List.drop_zero,
        toNat_and_sixBits, foldl_pushByte_eq] at decoded
      have restLength : (tail.take width).length = width := by
        simp only [List.length_cons] at bounds
        rw [List.length_take]
        omega
      have low := foldl_pushByte_lt (tail.take width)
      rw [restLength] at decoded low
      refine ⟨first.toNat / 64, by omega, ?_, ?_⟩
      · rw [← lengthShape, Nat.add_sub_cancel, ← decoded]
        exact digit_add_lt (Nat.mod_lt _ (by omega)) low
      · have whole :
            first.toNat / 64 * (64 * 256 ^ width) + value =
              (first :: tail.take width).foldl pushByte 0 := by
          rw [List.foldl_cons, foldl_pushByte_eq, restLength, pushByte_eq,
            ← decoded, ← Nat.add_assoc, ← Nat.mul_assoc, ← Nat.add_mul,
            Nat.zero_mul, Nat.zero_add]
          congr 2
          omega
        have written :=
          toBeBytes_foldl_pushByte 0 (first :: tail.take width)
        rw [List.length_cons, restLength] at written
        rw [← lengthShape, Nat.add_sub_cancel, whole, written,
          List.take_succ_cons]

/-! ## Self-delimiting encodings -/

/-- The widths a varint can have, in bytes. -/
def varintWidths : List Nat := [1, 2, 4, 8]

/-- A width holds a value that fits into it beside the two tag bits. -/
def WidthHolds (width value : Nat) : Prop :=
  value < 2 ^ (8 * width - 2)

/-- No legal encoding carries more than 62 bits. -/
theorem IsVarint.lt_two_pow
    {value : Nat}
    {encoded : Bytes}
    (legal : IsVarint value encoded) :
    value < 2 ^ 62 := by
  obtain ⟨exponent, exponentBound, valueBound, -⟩ := legal
  have narrow : 2 ^ exponent ≤ 2 ^ 3 :=
    Nat.pow_le_pow_right (by omega) exponentBound
  calc
    value < 64 * 256 ^ (2 ^ exponent - 1) := valueBound
    _ ≤ 64 * 256 ^ 7 :=
      Nat.mul_le_mul_left 64 (Nat.pow_le_pow_right (by omega) (by omega))

/-- The encoder picks the first width that holds the value. -/
theorem length_varintEncode (value : Nat) :
    (varintEncode value).length =
      if value < 2 ^ 6 then 1
      else if value < 2 ^ 14 then 2
      else if value < 2 ^ 30 then 4
      else 8 := by
  simp only [varintEncode, Nat.one_shiftLeft]
  split
  · exact length_toBeBytes 1 _
  · split
    · exact length_toBeBytes 2 _
    · split
      · exact length_toBeBytes 4 _
      · exact length_toBeBytes 8 _

/-- No width that holds the value is shorter than the encoded one. -/
theorem length_varintEncode_shortest
    {value : Nat}
    (bound : value < 2 ^ 62) :
    (varintEncode value).length ∈ varintWidths ∧
      WidthHolds (varintEncode value).length value ∧
      ∀ width ∈ varintWidths,
        WidthHolds width value → (varintEncode value).length ≤ width := by
  rw [length_varintEncode]
  simp only [varintWidths, WidthHolds, List.forall_mem_cons,
    List.not_mem_nil, false_implies, implies_true, and_true]
  split
  next small =>
    exact ⟨by simp, small, by omega⟩
  next notSmall =>
    split
    next medium =>
      exact ⟨by simp, medium, by omega⟩
    next notMedium =>
      split
      next large =>
        exact ⟨by simp, large, by omega⟩
      next notLarge =>
        exact ⟨by simp, bound, by omega⟩

/-- The front of a legal encoding announces more bytes than it has. -/
theorem IsVarint.decode_properPrefix
    {value : Nat}
    {encoded front : Bytes}
    (legal : IsVarint value encoded)
    (cut : front <+: encoded)
    (proper : front ≠ encoded) :
    varintDecode front = none := by
  obtain ⟨missing, rfl⟩ := cut
  cases front with
  | nil =>
      rfl
  | cons first tail =>
      have whole := legal.decode []
      rw [List.append_nil, List.cons_append] at whole
      have announced := varintDecode_cons_length whole
      have more : missing ≠ [] := by
        intro nothing
        exact proper (by rw [nothing, List.append_nil])
      have moreLength := List.length_pos_iff.mpr more
      rw [varintDecode_eq_none_iff, ← announced]
      simp only [List.length_cons, List.length_append]
      omega

/--
Varints are self-delimiting: an encoding decodes whatever follows it, is the
shortest there is and has no decodable proper prefix; what decodes is a 62-bit
value inside the buffer.
-/
theorem varint_self_delimiting :
    (∀ value < 2 ^ 62,
      (∀ suffix : Bytes,
        varintDecode (varintEncode value ++ suffix) =
          some (value, (varintEncode value).length)) ∧
      ((varintEncode value).length ∈ varintWidths ∧
        WidthHolds (varintEncode value).length value ∧
        ∀ width ∈ varintWidths,
          WidthHolds width value → (varintEncode value).length ≤ width) ∧
      ∀ front : Bytes,
        front <+: varintEncode value →
          front ≠ varintEncode value → varintDecode front = none) ∧
    ∀ (buffer : Bytes) (value length : Nat),
      varintDecode buffer = some (value, length) →
        value < 2 ^ 62 ∧ length ≤ buffer.length := by
  constructor
  · intro value bound
    have legal := varintEncode_isVarint bound
    refine ⟨legal.decode, length_varintEncode_shortest bound, ?_⟩
    intro front cut proper
    exact legal.decode_properPrefix cut proper
  · intro buffer value length decoded
    have legal := isVarint_of_varintDecode decoded
    exact ⟨legal.lt_two_pow, (varintDecode_length decoded).2⟩

/-- Both sides of the boundary between one and two bytes. -/
theorem varint_self_delimiting_sixty_four :
    varintDecode (varintEncode 63 ++ [0xFF]) = some (63, 1) ∧
      varintDecode (varintEncode 64 ++ [0xFF]) = some (64, 2) ∧
      varintDecode [0x40] = none := by
  refine ⟨?_, ?_, ?_⟩
  · exact (varint_self_delimiting.1 63 (by decide)).1 [0xFF]
  · exact (varint_self_delimiting.1 64 (by decide)).1 [0xFF]
  · exact (varint_self_delimiting.1 64 (by decide)).2.2 [0x40]
      (by decide) (by decide)

end DnsServices.Http3
