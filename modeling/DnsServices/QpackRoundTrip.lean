import DnsServices.Qpack

namespace DnsServices.Qpack

/-!
# The decoder reads back what the encoder writes

Positions are handled through `Remaining`: the bytes that still stand behind a
position.  Every reader then has one lemma of the same shape: if the encoding
of a value stands at the position, reading returns the value and leaves what
follows the encoding.
-/

/-- `rest` stands behind a position inside the buffer. -/
structure Remaining (buf : Bytes) (pos : Nat) (rest : Bytes) : Prop where
  inside : pos ≤ buf.length
  dropped : buf.drop pos = rest

namespace Remaining

theorem start (buf : Bytes) : Remaining buf 0 buf where
  inside := Nat.zero_le _
  dropped := rfl

theorem advance
    {buf front rest : Bytes}
    {pos : Nat}
    (remaining : Remaining buf pos (front ++ rest)) :
    Remaining buf (pos + front.length) rest where
  inside := by
    have lengths := congrArg List.length remaining.dropped
    have inside := remaining.inside
    simp only [List.length_drop, List.length_append] at lengths
    omega
  dropped := by
    rw [← List.drop_drop, remaining.dropped, List.drop_left]

theorem head
    {buf rest : Bytes}
    {pos : Nat}
    {byte : UInt8}
    (remaining : Remaining buf pos (byte :: rest)) :
    buf[pos]? = some byte := by
  have found := congrArg List.head? remaining.dropped
  simpa [List.head?_drop] using found

theorem tail
    {buf rest : Bytes}
    {pos : Nat}
    {byte : UInt8}
    (remaining : Remaining buf pos (byte :: rest)) :
    Remaining buf (pos + 1) rest :=
  advance (by simpa using remaining : Remaining buf pos ([byte] ++ rest))

theorem atEnd
    {buf : Bytes}
    {pos : Nat}
    (remaining : Remaining buf pos []) :
    buf[pos]? = none := by
  have found := congrArg List.head? remaining.dropped
  simpa [List.head?_drop] using found

end Remaining

/-! ## Prefix integers -/

/-- The low seven bits of a byte. -/
theorem toNat_and_sevenBits (byte : UInt8) :
    byte.toNat &&& 0x7F = byte.toNat % 128 :=
  Nat.and_two_pow_sub_one_eq_mod byte.toNat 7

/-- A continuation byte carries seven bits and the continuation flag. -/
theorem continuationByte_spec (v : Nat) :
    ((UInt8.ofNat v &&& 0x7F) ||| 0x80).toNat &&& 0x7F = v % 128 ∧
      ((UInt8.ofNat v &&& 0x7F) ||| 0x80) &&& 0x80 ≠ 0 := by
  have low :
      ((UInt8.ofNat v &&& 0x7F) ||| 0x80).toNat % 128 =
          (UInt8.ofNat v).toNat % 128 ∧
        ((UInt8.ofNat v &&& 0x7F) ||| 0x80) &&& 0x80 ≠ 0 := by
    generalize UInt8.ofNat v = byte
    revert byte
    exact forall_byte (by decide +kernel)
  refine ⟨?_, low.2⟩
  rw [toNat_and_sevenBits, low.1, UInt8.toNat_ofNat']
  omega

/-- A final byte carries seven bits and no flag. -/
theorem finalByte_spec
    {v : Nat}
    (small : v < 128) :
    (UInt8.ofNat v).toNat &&& 0x7F = v ∧ UInt8.ofNat v &&& 0x80 = 0 := by
  have value : (UInt8.ofNat v).toNat = v := by
    rw [UInt8.toNat_ofNat']
    omega
  have noFlag :
      (UInt8.ofNat v).toNat < 128 → UInt8.ofNat v &&& 0x80 = 0 := by
    generalize UInt8.ofNat v = byte
    revert byte
    exact forall_byte (by decide +kernel)
  refine ⟨?_, noFlag (by omega)⟩
  rw [toNat_and_sevenBits, value]
  omega

theorem writeContinuation_small
    {fuel v : Nat}
    (small : v < 128) :
    writeContinuation fuel v = [UInt8.ofNat v] := by
  cases fuel with
  | zero =>
      rfl
  | succ fuel =>
      rw [writeContinuation, if_neg (by omega)]

/-- A larger value gives off its low seven bits first. -/
theorem writeContinuation_large
    {fuel v : Nat}
    (enough : v ≤ fuel)
    (large : 128 ≤ v) :
    ∃ smaller, v >>> 7 ≤ smaller ∧
      writeContinuation fuel v =
        ((UInt8.ofNat v &&& 0x7F) ||| 0x80) ::
          writeContinuation smaller (v >>> 7) := by
  obtain ⟨smaller, rfl⟩ : ∃ smaller, fuel = smaller + 1 :=
    ⟨fuel - 1, by omega⟩
  have high : v >>> 7 = v / 128 := Nat.shiftRight_eq_div_pow v 7
  exact ⟨smaller, by omega, by rw [writeContinuation, if_pos large]⟩

/-- A flagged byte adds its seven bits and goes on while the shift allows it. -/
theorem readContinuation_flagged
    {buf rest : Bytes}
    {rounds pos value shift v : Nat}
    (remaining :
      Remaining buf pos (((UInt8.ofNat v &&& 0x7F) ||| 0x80) :: rest)) :
    readContinuation buf (rounds + 1) pos value shift =
      if value + v % 128 * 2 ^ shift ≥ 2 ^ 64 ∨ shift + 7 > 56 then
        (.error .truncated, pos + 1)
      else
        readContinuation buf rounds (pos + 1) (value + v % 128 * 2 ^ shift)
          (shift + 7) := by
  have byte := continuationByte_spec v
  rw [readContinuation, remaining.head]
  simp only [byte.1, byte.2, Nat.shiftLeft_eq, ↓reduceIte]
  by_cases overflow : value + v % 128 * 2 ^ shift ≥ 2 ^ 64
  · rw [if_pos overflow, if_pos (.inl overflow)]
  · rw [if_neg overflow]
    simp only [overflow, false_or]

/-- The last byte of a continuation ends the loop with its seven bits. -/
theorem readContinuation_final
    {buf rest : Bytes}
    {rounds pos value shift v : Nat}
    (remaining : Remaining buf pos (UInt8.ofNat v :: rest))
    (small : v < 128)
    (room : value + v * 2 ^ shift < 2 ^ 64) :
    readContinuation buf (rounds + 1) pos value shift =
      (.ok (value + v * 2 ^ shift), pos + 1) := by
  have byte := finalByte_spec small
  rw [readContinuation, remaining.head]
  simp only [byte.1, byte.2, Nat.shiftLeft_eq, ↓reduceIte]
  rw [if_neg (by omega)]

/-- Splitting off seven low bits at a shift loses nothing. -/
theorem add_low_high (value v shift : Nat) :
    value + v % 128 * 2 ^ shift + v / 128 * 2 ^ (shift + 7) =
      value + v * 2 ^ shift := by
  have split := Nat.div_add_mod v 128
  calc
    value + v % 128 * 2 ^ shift + v / 128 * 2 ^ (shift + 7) =
        value + (128 * (v / 128) + v % 128) * 2 ^ shift := by
      rw [Nat.pow_add]
      ring
    _ = value + v * 2 ^ shift := by rw [split]

/--
The continuation loop adds the written value at its shift.  `shift` and the
rounds that are left always add up to the 63 bits the loop can read.
-/
theorem readContinuation_writeContinuation
    {buf rest : Bytes}
    {rounds fuel pos value shift v : Nat}
    (remaining : Remaining buf pos (writeContinuation fuel v ++ rest))
    (enough : v ≤ fuel)
    (rhythm : shift + 7 * (rounds + 1) = 63)
    (bound : v < 2 ^ (7 * (rounds + 1)))
    (room : value + v * 2 ^ shift < 2 ^ 64) :
    readContinuation buf (rounds + 1) pos value shift =
      (.ok (value + v * 2 ^ shift),
        pos + (writeContinuation fuel v).length) := by
  induction rounds generalizing pos value shift v fuel with
  | zero =>
      have small : v < 128 := by simpa using bound
      rw [writeContinuation_small small] at remaining ⊢
      exact readContinuation_final remaining small room
  | succ rounds inductionHypothesis =>
      by_cases small : v < 128
      · rw [writeContinuation_small small] at remaining ⊢
        exact readContinuation_final remaining small room
      · obtain ⟨smaller, stillEnough, written⟩ :=
          writeContinuation_large enough (by omega)
        have high : v >>> 7 = v / 128 := Nat.shiftRight_eq_div_pow v 7
        have regroup := add_low_high value v shift
        have highBound : v >>> 7 < 2 ^ (7 * (rounds + 1)) := by
          rw [high, Nat.div_lt_iff_lt_mul (by omega)]
          calc
            v < 2 ^ (7 * (rounds + 1 + 1)) := bound
            _ = 2 ^ (7 * (rounds + 1)) * 128 := by
              rw [Nat.mul_succ, Nat.pow_add]
        rw [written] at remaining ⊢
        have later :=
          @inductionHypothesis smaller (pos + 1)
            (value + v % 128 * 2 ^ shift) (shift + 7) (v >>> 7)
            remaining.tail stillEnough (by omega) highBound
            (by rw [high, regroup]; exact room)
        rw [readContinuation_flagged remaining, if_neg (by omega), later, high,
          regroup]
        simp only [List.length_cons, Prod.mk.injEq, true_and]
        omega

/-- The low bits of a byte with clear low flag bits are the stored value. -/
theorem toNat_or_and_low
    {prefixBits value : Nat}
    {firstByte : UInt8}
    (prefixBound : prefixBits ≤ 8)
    (clear : firstByte.toNat % 2 ^ prefixBits = 0)
    (valueBound : value < 2 ^ prefixBits) :
    (firstByte ||| UInt8.ofNat value).toNat &&& (1 <<< prefixBits - 1) =
      value := by
  have fits : value < 2 ^ 8 :=
    Nat.lt_of_lt_of_le valueBound
      (Nat.pow_le_pow_right (by omega) prefixBound)
  rw [Nat.one_shiftLeft, Nat.and_two_pow_sub_one_eq_mod, UInt8.toNat_or,
    UInt8.toNat_ofNat', Nat.mod_eq_of_lt fits, Nat.or_mod_two_pow, clear,
    Nat.mod_eq_of_lt valueBound, Nat.zero_or]

/-- A value that does not fit into the prefix goes into continuation bytes. -/
theorem writePrefixInt_continued
    {prefixBits value : Nat}
    {firstByte : UInt8}
    (large : ¬ value < 2 ^ prefixBits - 1) :
    writePrefixInt prefixBits firstByte value =
      (firstByte ||| UInt8.ofNat (2 ^ prefixBits - 1)) ::
        writeContinuation (value - (2 ^ prefixBits - 1))
          (value - (2 ^ prefixBits - 1)) := by
  simp only [writePrefixInt, Nat.one_shiftLeft]
  rw [if_neg large]

/-- Reading a written prefix integer returns it and stops right behind it. -/
theorem readPrefixInt_writePrefixInt
    {buf rest : Bytes}
    {pos prefixBits value : Nat}
    {firstByte : UInt8}
    (remaining :
      Remaining buf pos (writePrefixInt prefixBits firstByte value ++ rest))
    (prefixBound : prefixBits ≤ 8)
    (clear : firstByte.toNat % 2 ^ prefixBits = 0)
    (bound : value - (2 ^ prefixBits - 1) < 2 ^ 63) :
    readPrefixInt buf pos prefixBits =
      (.ok value,
        pos + (writePrefixInt prefixBits firstByte value).length) := by
  have positive := Nat.two_pow_pos prefixBits
  have small : 2 ^ prefixBits ≤ 2 ^ 8 :=
    Nat.pow_le_pow_right (by omega) prefixBound
  by_cases inline : value < 2 ^ prefixBits - 1
  · have written :
        writePrefixInt prefixBits firstByte value =
          [firstByte ||| UInt8.ofNat value] := by
      simp only [writePrefixInt, Nat.one_shiftLeft]
      rw [if_pos inline]
    rw [written] at remaining ⊢
    have low := toNat_or_and_low prefixBound clear
      (by omega : value < 2 ^ prefixBits)
    rw [readPrefixInt, remaining.head]
    simp only [low]
    rw [Nat.one_shiftLeft, if_pos inline]
    rfl
  · rw [writePrefixInt_continued inline] at remaining ⊢
    have low := toNat_or_and_low prefixBound clear
      (by omega : 2 ^ prefixBits - 1 < 2 ^ prefixBits)
    have continued :=
      @readContinuation_writeContinuation buf rest 8 _ (pos + 1)
        (2 ^ prefixBits - 1) 0 _ remaining.tail (Nat.le_refl _)
        (by omega) bound (by omega)
    rw [readPrefixInt, remaining.head]
    simp only [low]
    rw [Nat.one_shiftLeft, if_neg (by omega), continued]
    simp only [List.length_cons, Prod.mk.injEq, Except.ok.injEq]
    omega

/-! ## Field lines as a peer may send them -/

/-- A string literal, plain or Huffman-coded. -/
structure WireString where
  text : Bytes
  huffman : Bool
  deriving Repr, DecidableEq

namespace WireString

/-- The bytes behind the length. -/
def raw (string : WireString) : Bytes :=
  if string.huffman then huffmanEncode string.text else string.text

/-- Flag bits with the H bit, the length in the given prefix, the bytes. -/
def bytes
    (string : WireString)
    (prefixBits : Nat)
    (flags huffmanBit : UInt8) :
    Bytes :=
  writePrefixInt prefixBits
    (if string.huffman then flags ||| huffmanBit else flags)
    string.raw.length ++ string.raw

/-- A value: `H ValueLen(7+)`. -/
def valueBytes (string : WireString) : Bytes :=
  string.bytes 7 0x00 0x80

end WireString

/-- A field line in one of the forms that need no dynamic table. -/
inductive WireLine where
  /-- Indexed Field Line: `1 T=1 Index(6+)`. -/
  | indexed (index : Fin staticTable.length)
  /-- Literal Field Line With Name Reference: `01 N T=1 Index(4+)`. -/
  | nameReference
      (never : Bool) (index : Fin staticTable.length) (value : WireString)
  /-- Literal Field Line With Literal Name: `001 N H NameLen(3+)`. -/
  | literalName (never : Bool) (name value : WireString)
  deriving Repr, DecidableEq

namespace WireLine

/-- A line as it is sent. -/
def bytes : WireLine → Bytes
  | indexed index =>
      writePrefixInt 6 0xC0 index.1
  | nameReference never index value =>
      writePrefixInt 4 (if never then 0x70 else 0x50) index.1 ++
        value.valueBytes
  | literalName never name value =>
      name.bytes 3 (if never then 0x30 else 0x20) 0x08 ++ value.valueBytes

/-- The line as the decoder yields it. -/
def decoded : WireLine → FieldLine
  | indexed index =>
      { name := .static (staticTable.get index).1
        value := .static (staticTable.get index).2 }
  | nameReference _ index value =>
      { name := .static (staticTable.get index).1
        value := .wire value.raw value.huffman }
  | literalName _ name value =>
      { name := .wire name.text
        value := .wire value.raw value.huffman }

/-- The lengths of the strings fit into a slice. -/
def Fits : WireLine → Prop
  | indexed _ => True
  | nameReference _ _ value => value.raw.length < 2 ^ 63
  | literalName _ name value =>
      name.raw.length < 2 ^ 63 ∧ value.raw.length < 2 ^ 63

end WireLine

/-- The static table has the indices 0 to 98. -/
theorem staticIndex_lt (index : Fin staticTable.length) : index.1 < 99 :=
  index.2

/-- Reading as many bytes as a string has reads the string. -/
theorem readRaw_remaining
    {buf raw rest : Bytes}
    {pos : Nat}
    (remaining : Remaining buf pos (raw ++ rest)) :
    readRaw buf pos raw.length = (.ok raw, pos + raw.length) := by
  have behind := remaining.advance.inside
  rw [readRaw, if_neg (by omega), remaining.dropped, List.take_left]

/-- The first byte of a written prefix integer keeps its flag bits. -/
theorem writePrefixInt_head
    (prefixBits : Nat)
    (firstByte : UInt8)
    (value : Nat) :
    ∃ stored < 2 ^ prefixBits,
      (writePrefixInt prefixBits firstByte value).head? =
        some (firstByte ||| UInt8.ofNat stored) := by
  have positive := Nat.two_pow_pos prefixBits
  simp only [writePrefixInt, Nat.one_shiftLeft]
  split
  next inline =>
    exact ⟨value, by omega, rfl⟩
  next =>
    exact ⟨2 ^ prefixBits - 1, by omega, rfl⟩

/-- The byte at a position where a prefix integer stands. -/
theorem Remaining.writtenHead
    {buf rest : Bytes}
    {pos prefixBits value : Nat}
    {firstByte : UInt8}
    (remaining :
      Remaining buf pos (writePrefixInt prefixBits firstByte value ++ rest)) :
    ∃ stored < 2 ^ prefixBits,
      buf[pos]? = some (firstByte ||| UInt8.ofNat stored) := by
  obtain ⟨stored, storedBound, headShape⟩ :=
    writePrefixInt_head prefixBits firstByte value
  refine ⟨stored, storedBound, ?_⟩
  obtain ⟨tail, shape⟩ := List.head?_eq_some_iff.mp headShape
  rw [shape] at remaining
  exact Remaining.head (by simpa using remaining)

/-- The H bit of a value. -/
theorem valueFlag
    (huffman : Bool)
    {stored : Nat}
    (bound : stored < 2 ^ 7) :
    (((if huffman then (0x00 ||| 0x80 : UInt8) else 0x00) |||
        UInt8.ofNat stored) &&& 0x80 != 0) =
      huffman := by
  have checked :
      ∀ huffman : Bool, ∀ low : Fin 128,
        (((if huffman then (0x00 ||| 0x80 : UInt8) else 0x00) |||
            UInt8.ofNat low.1) &&& 0x80 != 0) = huffman := by
    decide +kernel
  exact checked huffman ⟨stored, bound⟩

/-- A value is read as its raw bytes and its H bit. -/
theorem readValue_wire
    {buf rest : Bytes}
    {pos : Nat}
    {value : WireString}
    (remaining : Remaining buf pos (value.valueBytes ++ rest))
    (bound : value.raw.length < 2 ^ 63) :
    readValue buf pos =
      (.ok (.wire value.raw value.huffman),
        pos + value.valueBytes.length) := by
  have split :
      Remaining buf pos
        (writePrefixInt 7
            (if value.huffman then 0x00 ||| 0x80 else 0x00)
            value.raw.length ++
          (value.raw ++ rest)) := by
    simpa [WireString.valueBytes, WireString.bytes] using remaining
  obtain ⟨stored, storedBound, found⟩ := split.writtenHead
  have flag := valueFlag value.huffman storedBound
  have clear :
      (if value.huffman then (0x00 ||| 0x80 : UInt8) else 0x00).toNat %
        2 ^ 7 = 0 := by
    cases value.huffman <;> decide
  have lengthRead :=
    readPrefixInt_writePrefixInt split (by omega) clear (by omega)
  have rawRead := readRaw_remaining split.advance
  rw [readValue, found]
  simp only [lengthRead, Reading.andThen_ok, rawRead, flag]
  simp [WireString.valueBytes, WireString.bytes, Nat.add_assoc]

/-- The flag bits of the three kinds of lines select their branch. -/
theorem indexedFlags
    {stored : Nat}
    (bound : stored < 2 ^ 6) :
    (0xC0 ||| UInt8.ofNat stored) &&& 0x80 ≠ 0 ∧
      (0xC0 ||| UInt8.ofNat stored) &&& 0x40 ≠ 0 := by
  have checked :
      ∀ low : Fin 64,
        (0xC0 ||| UInt8.ofNat low.1) &&& 0x80 ≠ 0 ∧
          (0xC0 ||| UInt8.ofNat low.1) &&& 0x40 ≠ 0 := by
    decide +kernel
  exact checked ⟨stored, bound⟩

/-- The first byte of a name reference is told apart from the other forms. -/
theorem nameReferenceFlags
    (never : Bool)
    {stored : Nat}
    (bound : stored < 2 ^ 4) :
    ((if never then (0x70 : UInt8) else 0x50) ||| UInt8.ofNat stored) &&&
          0x80 = 0 ∧
      ((if never then (0x70 : UInt8) else 0x50) ||| UInt8.ofNat stored) &&&
          0xC0 = 0x40 ∧
      ((if never then (0x70 : UInt8) else 0x50) ||| UInt8.ofNat stored) &&&
          0x10 ≠ 0 := by
  have checked :
      ∀ never : Bool, ∀ low : Fin 16,
        ((if never then (0x70 : UInt8) else 0x50) ||| UInt8.ofNat low.1) &&&
              0x80 = 0 ∧
          ((if never then (0x70 : UInt8) else 0x50) ||| UInt8.ofNat low.1) &&&
              0xC0 = 0x40 ∧
          ((if never then (0x70 : UInt8) else 0x50) ||| UInt8.ofNat low.1) &&&
              0x10 ≠ 0 := by
    decide +kernel
  exact checked never ⟨stored, bound⟩

/-- The first byte of a literal name without its length. -/
def literalNameFlags (never huffman : Bool) : UInt8 :=
  if huffman then
    (if never then 0x30 else 0x20) ||| 0x08
  else
    if never then 0x30 else 0x20

/-- The first byte of a literal name is told apart from the other forms. -/
theorem literalNameFlags_spec
    (never huffman : Bool)
    {stored : Nat}
    (bound : stored < 2 ^ 3) :
    (literalNameFlags never huffman ||| UInt8.ofNat stored) &&& 0x80 = 0 ∧
      (literalNameFlags never huffman ||| UInt8.ofNat stored) &&& 0xC0 ≠
        0x40 ∧
      (literalNameFlags never huffman ||| UInt8.ofNat stored) &&& 0xE0 =
        0x20 ∧
      ((literalNameFlags never huffman ||| UInt8.ofNat stored) &&& 0x08 != 0) =
        huffman := by
  have checked :
      ∀ never huffman : Bool, ∀ low : Fin 8,
        (literalNameFlags never huffman ||| UInt8.ofNat low.1) &&& 0x80 = 0 ∧
          (literalNameFlags never huffman ||| UInt8.ofNat low.1) &&& 0xC0 ≠
            0x40 ∧
          (literalNameFlags never huffman ||| UInt8.ofNat low.1) &&& 0xE0 =
            0x20 ∧
          ((literalNameFlags never huffman ||| UInt8.ofNat low.1) &&& 0x08 !=
              0) =
            huffman := by
    decide +kernel
  exact checked never huffman ⟨stored, bound⟩

/-- A line that stands at a position is read back, and reading stops right
behind it. -/
def ReadsBack (buf : Bytes) (pos : Nat) (line : WireLine) : Prop :=
  ∃ first,
    buf[pos]? = some first ∧
      readLine buf pos first =
        (.ok line.decoded, pos + line.bytes.length)

theorem readLine_indexed
    {buf rest : Bytes}
    {pos : Nat}
    {index : Fin staticTable.length}
    (remaining :
      Remaining buf pos ((WireLine.indexed index).bytes ++ rest)) :
    ReadsBack buf pos (.indexed index) := by
  rw [WireLine.bytes] at remaining
  obtain ⟨stored, storedBound, found⟩ := remaining.writtenHead
  have flags := indexedFlags storedBound
  have indexRead :=
    readPrefixInt_writePrefixInt remaining (by omega) (by decide)
      (by have := staticIndex_lt index; omega)
  refine ⟨_, found, ?_⟩
  rw [readLine, if_pos flags.1, if_neg flags.2]
  simp only [indexRead, Reading.andThen_ok, List.getElem?_eq_getElem index.2]
  rfl

theorem readLine_nameReference
    {buf rest : Bytes}
    {pos : Nat}
    {never : Bool}
    {index : Fin staticTable.length}
    {value : WireString}
    (remaining :
      Remaining buf pos
        ((WireLine.nameReference never index value).bytes ++ rest))
    (bound : value.raw.length < 2 ^ 63) :
    ReadsBack buf pos (.nameReference never index value) := by
  rw [WireLine.bytes, List.append_assoc] at remaining
  obtain ⟨stored, storedBound, found⟩ := remaining.writtenHead
  have flags := nameReferenceFlags never storedBound
  have clear : (if never then (0x70 : UInt8) else 0x50).toNat % 2 ^ 4 = 0 := by
    cases never <;> decide
  have indexRead :=
    readPrefixInt_writePrefixInt remaining (by omega) clear
      (by have := staticIndex_lt index; omega)
  have valueRead := readValue_wire remaining.advance bound
  refine ⟨_, found, ?_⟩
  rw [readLine, if_neg (by simp [flags.1]), if_pos flags.2.1,
    if_neg flags.2.2]
  simp only [indexRead, Reading.andThen_ok, List.getElem?_eq_getElem index.2,
    valueRead]
  simp [WireLine.bytes, WireLine.decoded, Nat.add_assoc]

/-- The raw bytes of a name are decoded as its H bit says. -/
theorem decode_rawName (name : WireString) (pos : Nat) :
    (if name.huffman then
        ((huffmanDecode name.raw).mapError QpackError.huffman, pos)
      else
        (.ok name.raw, pos) : Reading Bytes) =
      (.ok name.text, pos) := by
  cases coded : name.huffman with
  | true =>
      simp only [WireString.raw, coded, if_true, huffmanDecode_huffmanEncode]
      rfl
  | false =>
      simp [WireString.raw, coded]

theorem readLine_literalName
    {buf rest : Bytes}
    {pos : Nat}
    {never : Bool}
    {name value : WireString}
    (remaining :
      Remaining buf pos
        ((WireLine.literalName never name value).bytes ++ rest))
    (nameBound : name.raw.length < 2 ^ 63)
    (valueBound : value.raw.length < 2 ^ 63) :
    ReadsBack buf pos (.literalName never name value) := by
  have split :
      Remaining buf pos
        (writePrefixInt 3 (literalNameFlags never name.huffman)
            name.raw.length ++
          (name.raw ++ (value.valueBytes ++ rest))) := by
    simpa [WireLine.bytes, WireString.bytes, literalNameFlags]
      using remaining
  obtain ⟨stored, storedBound, found⟩ := split.writtenHead
  have flags := literalNameFlags_spec never name.huffman storedBound
  have clear : (literalNameFlags never name.huffman).toNat % 2 ^ 3 = 0 := by
    cases never <;> cases name.huffman <;> decide
  have lengthRead :=
    readPrefixInt_writePrefixInt split (by omega) clear (by omega)
  have nameRead := readRaw_remaining split.advance
  have valueRead := readValue_wire split.advance.advance valueBound
  refine ⟨_, found, ?_⟩
  rw [readLine, if_neg (by simp [flags.1]), if_neg flags.2.1,
    if_pos flags.2.2.1]
  simp only [lengthRead, Reading.andThen_ok, nameRead, flags.2.2.2,
    decode_rawName, valueRead]
  simp [WireLine.bytes, WireLine.decoded, WireString.bytes, literalNameFlags,
    Nat.add_assoc]

/-- Every form of a line is read back. -/
theorem readLine_wire
    {buf rest : Bytes}
    {pos : Nat}
    {line : WireLine}
    (remaining : Remaining buf pos (line.bytes ++ rest))
    (fits : line.Fits) :
    ReadsBack buf pos line := by
  cases line with
  | indexed index =>
      exact readLine_indexed remaining
  | nameReference never index value =>
      exact readLine_nameReference remaining fits
  | literalName never name value =>
      exact readLine_literalName remaining fits.1 fits.2

theorem writePrefixInt_length_pos
    (prefixBits : Nat)
    (firstByte : UInt8)
    (value : Nat) :
    0 < (writePrefixInt prefixBits firstByte value).length := by
  obtain ⟨stored, -, headShape⟩ :=
    writePrefixInt_head prefixBits firstByte value
  obtain ⟨tail, shape⟩ := List.head?_eq_some_iff.mp headShape
  simp [shape]

theorem WireLine.bytes_length_pos (line : WireLine) :
    0 < line.bytes.length := by
  cases line with
  | indexed index =>
      exact writePrefixInt_length_pos 6 0xC0 index.1
  | nameReference never index value =>
      have := writePrefixInt_length_pos 4 (if never then 0x70 else 0x50)
        index.1
      simp only [WireLine.bytes, List.length_append]
      omega
  | literalName never name value =>
      simp only [WireLine.bytes, WireString.bytes, List.length_append]
      have := writePrefixInt_length_pos 3
        (if name.huffman then
          (if never then 0x30 else 0x20) ||| 0x08
        else
          if never then 0x30 else 0x20)
        name.raw.length
      omega

/-! ## Field sections -/

/-- Iterating over field lines yields exactly these lines, and then whatever
stands behind them. -/
theorem lines_wire
    {buf rest : Bytes}
    {pos fuel : Nat}
    {lines : List WireLine}
    (remaining : Remaining buf pos (lines.flatMap WireLine.bytes ++ rest))
    (fits : ∀ line ∈ lines, line.Fits)
    (enough : (lines.flatMap WireLine.bytes).length ≤ fuel) :
    ∃ left,
      fuel ≤ left + (lines.flatMap WireLine.bytes).length ∧
        Decoder.lines fuel { buf := buf, pos := pos } =
          lines.map (fun line => .ok line.decoded) ++
            Decoder.lines left
              { buf := buf
                pos := pos + (lines.flatMap WireLine.bytes).length } := by
  induction lines generalizing pos fuel with
  | nil =>
      exact ⟨fuel, by simp, by simp⟩
  | cons line lines inductionHypothesis =>
      have lengthPos := line.bytes_length_pos
      rw [List.flatMap_cons, List.append_assoc] at remaining
      rw [List.flatMap_cons, List.length_append] at enough
      obtain ⟨first, found, read⟩ :=
        readLine_wire remaining (fits line List.mem_cons_self)
      obtain ⟨fuel, rfl⟩ : ∃ smaller, fuel = smaller + 1 :=
        ⟨fuel - 1, by omega⟩
      obtain ⟨left, covered, later⟩ :=
        @inductionHypothesis _ fuel remaining.advance
          (fun other member => fits other (List.mem_cons_of_mem _ member))
          (by omega)
      refine ⟨left, ?_, ?_⟩
      · rw [List.flatMap_cons, List.length_append]
        omega
      · simp only [Decoder.lines, Decoder.next, found, read, later,
          List.map_cons, List.cons_append, List.flatMap_cons,
          List.length_append, Nat.add_assoc]

/-- Where nothing is left the iteration is over. -/
theorem lines_atEnd
    {buf : Bytes}
    {pos : Nat}
    (remaining : Remaining buf pos [])
    (fuel : Nat) :
    Decoder.lines fuel { buf := buf, pos := pos } = [] := by
  cases fuel with
  | zero =>
      rfl
  | succ fuel =>
      simp [Decoder.lines, Decoder.next, remaining.atEnd]

/-- A field line with plain literal name and value. -/
def plainLine (field : Bytes × Bytes) : FieldLine where
  name := .wire field.1
  value := .wire field.2 false

/-- The form the encoder writes a field in. -/
def plainForm (field : Bytes × Bytes) : WireLine :=
  .literalName false ⟨field.1, false⟩ ⟨field.2, false⟩

/-- The plain form of a field is what encode_field_line writes. -/
theorem bytes_plainForm (field : Bytes × Bytes) :
    (plainForm field).bytes = encodeFieldLine field := by
  simp [plainForm, WireLine.bytes, WireString.bytes, WireString.valueBytes,
    WireString.raw, encodeFieldLine]

/-- An encoded field section is accepted and yields exactly its fields. -/
theorem collect_encodeFieldSection
    {fields : List (Bytes × Bytes)}
    (bounds :
      ∀ field ∈ fields, field.1.length < 2 ^ 63 ∧ field.2.length < 2 ^ 63) :
    ∃ decoder,
      Decoder.new (encodeFieldSection fields) = .ok decoder ∧
        decoder.collect =
          fields.map fun field => .ok (plainLine field) := by
  refine ⟨{ buf := encodeFieldSection fields, pos := 2 }, rfl, ?_⟩
  have sameBytes :
      (fields.map plainForm).flatMap WireLine.bytes =
        fields.flatMap encodeFieldLine := by
    simp only [List.flatMap_map, bytes_plainForm]
  have behindPrefix :
      Remaining (encodeFieldSection fields) 2
        ((fields.map plainForm).flatMap WireLine.bytes ++ []) := by
    rw [sameBytes, List.append_nil]
    exact (Remaining.start (encodeFieldSection fields)).tail.tail
  have fits : ∀ line ∈ fields.map plainForm, line.Fits := by
    intro line member
    obtain ⟨field, fieldMember, rfl⟩ := List.mem_map.mp member
    exact bounds field fieldMember
  obtain ⟨left, _, iterated⟩ :=
    lines_wire behindPrefix fits (by
      rw [sameBytes]
      simp only [encodeFieldSection, List.length_cons]
      omega : _ ≤ (encodeFieldSection fields).length)
  rw [Decoder.collect, iterated, lines_atEnd behindPrefix.advance,
    List.append_nil, List.map_map]
  rfl

end DnsServices.Qpack
