import Mathlib.Data.List.Induction
import DnsServices.Bytes
import DnsServices.HuffmanTable

namespace DnsServices.Qpack

/-!
# Huffman decoding

`huffmanDecode` follows `qpack.rs`: bytes are shifted into a 64-bit
accumulator and table codes are matched greedily at its front, shortest length
first.  `huffmanEncode` is the abstract coding of RFC 7541: the concatenated
codes of a string, padded with one-bits to whole bytes.

The loop invariant reads the accumulator as a bit string: the codes of the
output so far followed by the accumulator are exactly the bits consumed.
-/

open PrefixCode

/-- Why a Huffman string does not decode. -/
inductive HuffmanError where
  | badPadding
  | eosInString
  | noMatch
  deriving Repr, DecidableEq

/-- The decoder's variables between two input bytes. -/
structure HuffmanState where
  out : Bytes
  acc : Nat
  nbits : Nat
  deriving Repr, DecidableEq

/--
The shortest table code at the front of the accumulator, as (symbol, length):
the `while len <= 30 && len <= nbits` search.
-/
def findCode (acc nbits : Nat) : Option (Nat × Nat) :=
  (List.range' 5 26).findSome? fun len =>
    if len ≤ nbits then
      let code := (acc >>> (nbits - len)) &&& (1 <<< len - 1)
      (huffman.findIdx? fun entry => entry.2 == len && entry.1 == code).map
        fun sym => (sym, len)
    else
      none

/-- Push a matched symbol and drop its code from the accumulator. -/
def HuffmanState.emit
    (state : HuffmanState)
    (sym len : Nat) :
    HuffmanState where
  out := state.out ++ [UInt8.ofNat sym]
  acc := state.acc &&& (1 <<< (state.nbits - len) - 1)
  nbits := state.nbits - len

/--
The inner `loop`: emit symbols while a code matches.  A match consumes at
least five bits, so the number of bits bounds the number of rounds.
-/
def drainCodes : Nat → HuffmanState → Except HuffmanError HuffmanState
  | 0, state =>
      .ok state
  | fuel + 1, state =>
      if state.nbits < 5 then
        .ok state
      else
        match findCode state.acc state.nbits with
        | none =>
            .ok state
        | some (sym, len) =>
            if sym = 256 then
              .error .eosInString
            else
              drainCodes fuel (state.emit sym len)

/-- One round of the outer loop; `acc` is a `u64`. -/
def huffmanByte
    (state : HuffmanState)
    (byte : UInt8) :
    Except HuffmanError HuffmanState :=
  let acc := (state.acc <<< 8) % 2 ^ 64 ||| byte.toNat
  let nbits := state.nbits + 8
  if nbits > 56 then
    .error .noMatch
  else
    drainCodes nbits { out := state.out, acc := acc, nbits := nbits }

/-- The outer loop over the input bytes. -/
def huffmanBytes : HuffmanState → Bytes → Except HuffmanError HuffmanState
  | state, [] =>
      .ok state
  | state, byte :: rest =>
      match huffmanByte state byte with
      | .error failure =>
          .error failure
      | .ok next =>
          huffmanBytes next rest

/-- Decode a Huffman-coded string. Validates EOS-prefix padding. -/
def huffmanDecode (data : Bytes) : Except HuffmanError Bytes :=
  match huffmanBytes { out := [], acc := 0, nbits := 0 } data with
  | .error failure =>
      .error failure
  | .ok state =>
      if state.nbits ≥ 8 then
        .error .noMatch
      else if state.nbits > 0 ∧ state.acc ≠ 1 <<< state.nbits - 1 then
        .error .badPadding
      else
        .ok state.out

/-! ## The coding the table describes -/

/-- A byte as a symbol of the code. -/
def byteSymbol (byte : UInt8) : Fin codeWords.length :=
  ⟨byte.toNat, by
    have := byte.toNat_lt
    rw [length_codeWords]
    omega⟩

/-- The end-of-string symbol. -/
def eosSymbol : Fin codeWords.length :=
  ⟨256, by rw [length_codeWords]; omega⟩

/-- The concatenated code words of a string. -/
def codeBits (text : Bytes) : List Bool :=
  encode codeWord (text.map byteSymbol)

/-- The number of one-bits that fill the last byte. -/
def padLength (length : Nat) : Nat :=
  (8 - length % 8) % 8

/-- The bits of a byte string, most significant bit of each byte first. -/
def byteBits (data : Bytes) : List Bool :=
  data.flatMap fun byte => natBits 8 byte.toNat

/-- The number a bit string denotes, most significant bit first. -/
def bitsValue (bits : List Bool) : Nat :=
  bits.foldl (fun value bit => 2 * value + bit.toNat) 0

/-- Cut a bit string into the given number of bytes. -/
def packBytes : Nat → List Bool → Bytes
  | 0, _ =>
      []
  | count + 1, bits =>
      UInt8.ofNat (bitsValue (bits.take 8)) :: packBytes count (bits.drop 8)

/-- The code bits of a string, padded with one-bits to whole bytes. -/
def paddedBits (text : Bytes) : List Bool :=
  codeBits text ++
    List.replicate (padLength (codeBits text).length) true

/-- The Huffman coding of a string under the table. -/
def huffmanEncode (text : Bytes) : Bytes :=
  packBytes ((paddedBits text).length / 8) (paddedBits text)

/-! ## Matching one code -/

/-- The accumulator as a bit string. -/
def HuffmanState.bits (state : HuffmanState) : List Bool :=
  natBits state.nbits state.acc

/-- The code word of a symbol is the table entry's code in its own width. -/
theorem codeWord_eq (symbol : Fin codeWords.length) :
    ∃ inTable : symbol.1 < huffman.length,
      codeWord symbol =
        natBits (huffman.get ⟨symbol.1, inTable⟩).2
          (huffman.get ⟨symbol.1, inTable⟩).1 := by
  have inTable : symbol.1 < huffman.length := by
    have := symbol.2
    simpa [codeWords] using this
  refine ⟨inTable, ?_⟩
  exact List.getElem_map _

/-- Every code word has between 5 and 30 bits. -/
theorem length_codeWord (symbol : Fin codeWords.length) :
    5 ≤ (codeWord symbol).length ∧ (codeWord symbol).length ≤ 30 := by
  obtain ⟨inTable, shape⟩ := codeWord_eq symbol
  have range := huffman_range _ (List.get_mem huffman ⟨symbol.1, inTable⟩)
  rw [shape, length_natBits]
  exact ⟨range.1, range.2.1⟩

/-- Comparing the top bits with a code is matching its code word. -/
theorem codeWord_isPrefix_iff
    (symbol : Fin codeWords.length)
    (inTable : symbol.1 < huffman.length)
    (acc nbits : Nat) :
    codeWord symbol <+: natBits nbits acc ↔
      (huffman.get ⟨symbol.1, inTable⟩).2 ≤ nbits ∧
        (acc >>> (nbits - (huffman.get ⟨symbol.1, inTable⟩).2)) &&&
            (1 <<< (huffman.get ⟨symbol.1, inTable⟩).2 - 1) =
          (huffman.get ⟨symbol.1, inTable⟩).1 := by
  obtain ⟨_, shape⟩ := codeWord_eq symbol
  have range := huffman_range _ (List.get_mem huffman ⟨symbol.1, inTable⟩)
  rw [shape, natBits_isPrefix_iff range.2.2, Nat.one_shiftLeft,
    Nat.and_two_pow_sub_one_eq_mod]

/-- A found code is the code word at the front of the accumulator. -/
theorem findCode_some
    {acc nbits sym len : Nat}
    (found : findCode acc nbits = some (sym, len)) :
    ∃ inTable : sym < codeWords.length,
      codeWord ⟨sym, inTable⟩ <+: natBits nbits acc ∧
        (codeWord ⟨sym, inTable⟩).length = len := by
  obtain ⟨size, -, tried⟩ := List.exists_of_findSome?_eq_some found
  split at tried
  next fits =>
    simp only [Option.map_eq_some_iff, Prod.mk.injEq] at tried
    obtain ⟨index, indexFound, rfl, rfl⟩ := tried
    obtain ⟨inTable, entryMatches, -⟩ :=
      List.findIdx?_eq_some_iff_getElem.mp indexFound
    rw [Bool.and_eq_true, beq_iff_eq, beq_iff_eq] at entryMatches
    have inWords : index < codeWords.length := by
      simpa [codeWords] using inTable
    obtain ⟨_, shape⟩ := codeWord_eq ⟨index, inWords⟩
    refine ⟨inWords, ?_, ?_⟩
    · rw [codeWord_isPrefix_iff ⟨index, inWords⟩ inTable]
      simp only [List.get_eq_getElem, entryMatches.1, entryMatches.2]
      exact ⟨fits, trivial⟩
    · rw [shape, length_natBits]
      exact entryMatches.1
  next => simp at tried

/-- If no code is found, no code word is at the front of the accumulator. -/
theorem findCode_none
    {acc nbits : Nat}
    (missing : findCode acc nbits = none)
    (symbol : Fin codeWords.length) :
    ¬ codeWord symbol <+: natBits nbits acc := by
  intro matched
  obtain ⟨inTable, -⟩ := codeWord_eq symbol
  obtain ⟨fits, sameCode⟩ :=
    (codeWord_isPrefix_iff symbol inTable acc nbits).mp matched
  have member := List.get_mem huffman ⟨symbol.1, inTable⟩
  have range := huffman_range _ member
  generalize huffman.get ⟨symbol.1, inTable⟩ = entry at *
  have tried := List.findSome?_eq_none_iff.mp missing entry.2
    (by simp only [List.mem_range'_1]; omega)
  rw [if_pos fits, Option.map_eq_none_iff, List.findIdx?_eq_none_iff] at tried
  have unequal := tried entry member
  simp [sameCode] at unequal

/-! ## The decoding loop -/

@[simp] theorem codeBits_append (first second : Bytes) :
    codeBits (first ++ second) = codeBits first ++ codeBits second := by
  simp [codeBits, encode]

/-- The code of a text is the code of its first byte, then the rest. -/
theorem codeBits_cons (byte : UInt8) (rest : Bytes) :
    codeBits (byte :: rest) = codeWord (byteSymbol byte) ++ codeBits rest := by
  simp [codeBits, encode]

/-- A symbol other than EOS is the byte that the decoder emits for it. -/
theorem byteSymbol_ofNat
    {sym : Nat}
    (inTable : sym < codeWords.length)
    (notEos : sym ≠ 256) :
    byteSymbol (UInt8.ofNat sym) = ⟨sym, inTable⟩ := by
  have bound : sym < 256 := by
    rw [length_codeWords] at inTable
    omega
  apply Fin.ext
  simp [byteSymbol, Nat.mod_eq_of_lt bound]

/-- Masking out a matched code leaves the bits behind it. -/
theorem bits_eq_codeWord_append
    {acc nbits : Nat}
    {symbol : Fin codeWords.length}
    (matched : codeWord symbol <+: natBits nbits acc) :
    natBits nbits acc =
      codeWord symbol ++
        natBits (nbits - (codeWord symbol).length)
          (acc &&& (1 <<< (nbits - (codeWord symbol).length) - 1)) := by
  obtain ⟨rest, restShape⟩ := matched
  have fits : (codeWord symbol).length ≤ nbits := by
    have := congrArg List.length restShape
    simp only [List.length_append, length_natBits] at this
    omega
  have split := natBits_add (codeWord symbol).length
    (nbits - (codeWord symbol).length) acc
  rw [Nat.add_sub_cancel' fits] at split
  have sameFront := restShape.trans split
  rw [Nat.one_shiftLeft, Nat.and_two_pow_sub_one_eq_mod,
    natBits_mod _ (Nat.le_refl _)]
  rw [split]
  exact congrArg (· ++ natBits (nbits - (codeWord symbol).length) acc)
    (List.append_inj sameFront (by simp)).1.symm

/-- Emitting a matched symbol moves its code from the bits to the output. -/
theorem emit_bits
    {state : HuffmanState}
    {sym len : Nat}
    (found : findCode state.acc state.nbits = some (sym, len))
    (notEos : sym ≠ 256) :
    state.bits =
      codeWord (byteSymbol (UInt8.ofNat sym)) ++ (state.emit sym len).bits := by
  obtain ⟨inTable, matched, rfl⟩ := findCode_some found
  rw [byteSymbol_ofNat inTable notEos]
  exact bits_eq_codeWord_append matched

/-- The inner loop only regroups bits into symbols. -/
theorem drainCodes_bits
    {fuel : Nat}
    {state reached : HuffmanState}
    (drained : drainCodes fuel state = .ok reached) :
    codeBits reached.out ++ reached.bits =
      codeBits state.out ++ state.bits := by
  induction fuel generalizing state with
  | zero =>
      simp only [drainCodes, Except.ok.injEq] at drained
      rw [drained]
  | succ fuel inductionHypothesis =>
      simp only [drainCodes] at drained
      split at drained
      · simp only [Except.ok.injEq] at drained
        rw [drained]
      · split at drained
        · simp only [Except.ok.injEq] at drained
          rw [drained]
        next sym len found =>
          split at drained
          · simp at drained
          next notEos =>
            have outShape :
                codeBits (state.emit sym len).out =
                  codeBits state.out ++
                    codeWord (byteSymbol (UInt8.ofNat sym)) := by
              simp [HuffmanState.emit, codeBits, encode]
            rw [inductionHypothesis drained, emit_bits found notEos,
              outShape, List.append_assoc]

/-- A byte is appended to the accumulator as its eight bits. -/
theorem natBits_pushByte
    {acc nbits : Nat}
    (byte : UInt8)
    (fits : nbits + 8 ≤ 64) :
    natBits (nbits + 8) ((acc <<< 8) % 2 ^ 64 ||| byte.toNat) =
      natBits nbits acc ++ natBits 8 byte.toNat := by
  have wrap : (acc <<< 8) % 2 ^ 64 = (acc % 2 ^ 56) <<< 8 := by
    rw [Nat.shiftLeft_eq, Nat.shiftLeft_eq]
    omega
  rw [wrap, natBits_shiftLeft_or 8 byte.toNat_lt,
    natBits_mod _ (by omega)]

/-- One outer round appends the byte's bits. -/
theorem huffmanByte_bits
    {state reached : HuffmanState}
    {byte : UInt8}
    (decoded : huffmanByte state byte = .ok reached) :
    codeBits reached.out ++ reached.bits =
      codeBits state.out ++ state.bits ++ natBits 8 byte.toNat := by
  simp only [huffmanByte] at decoded
  split at decoded
  · simp at decoded
  · rw [drainCodes_bits decoded]
    simp only [HuffmanState.bits]
    rw [natBits_pushByte byte (by omega), List.append_assoc]

/-- Output codes and accumulator together are exactly the consumed bits. -/
theorem huffmanBytes_bits
    {state reached : HuffmanState}
    {data : Bytes}
    (decoded : huffmanBytes state data = .ok reached) :
    codeBits reached.out ++ reached.bits =
      codeBits state.out ++ state.bits ++ byteBits data := by
  induction data generalizing state with
  | nil =>
      simp only [huffmanBytes, Except.ok.injEq] at decoded
      simp [decoded, byteBits]
  | cons byte rest inductionHypothesis =>
      simp only [huffmanBytes] at decoded
      split at decoded
      · simp at decoded
      next next stepped =>
        rw [inductionHypothesis decoded, huffmanByte_bits stepped]
        simp [byteBits]

/-! ## Bytes and bits -/

theorem length_byteBits (data : Bytes) :
    (byteBits data).length = 8 * data.length := by
  induction data with
  | nil =>
      rfl
  | cons byte rest inductionHypothesis =>
      simp only [byteBits, List.flatMap_cons, List.length_append,
        length_natBits, List.length_cons] at inductionHypothesis ⊢
      omega

/-- A byte string is determined by its bits. -/
theorem byteBits_injective
    {first second : Bytes}
    (sameBits : byteBits first = byteBits second) :
    first = second := by
  induction first generalizing second with
  | nil =>
      have sameLength := congrArg List.length sameBits
      rw [length_byteBits, length_byteBits] at sameLength
      exact (List.length_eq_zero_iff.mp
        (by simpa using sameLength.symm)).symm
  | cons head tail inductionHypothesis =>
      cases second with
      | nil =>
          have sameLength := congrArg List.length sameBits
          rw [length_byteBits, length_byteBits] at sameLength
          simp at sameLength
      | cons otherHead otherTail =>
          simp only [byteBits, List.flatMap_cons] at sameBits
          obtain ⟨sameHead, sameTail⟩ :=
            List.append_inj sameBits (by simp)
          have headEq : head = otherHead :=
            UInt8.toNat_inj.mp
              (natBits_injective head.toNat_lt otherHead.toNat_lt sameHead)
          rw [headEq, inductionHypothesis sameTail]

/-- Eight bits denote a byte with exactly these bits. -/
theorem natBits_bitsValue (bits : List Bool) :
    natBits bits.length (bitsValue bits) = bits ∧
      bitsValue bits < 2 ^ bits.length := by
  induction bits using List.reverseRecOn with
  | nil =>
      simp [natBits, bitsValue]
  | append_singleton front bit inductionHypothesis =>
      have folded :
          bitsValue (front ++ [bit]) =
            bitsValue front <<< 1 ||| bit.toNat := by
        rw [← Nat.shiftLeft_add_eq_or_of_lt
          (by cases bit <;> decide : bit.toNat < 2 ^ 1), Nat.shiftLeft_eq]
        simp [bitsValue, Nat.mul_comm]
      have bitBound : bit.toNat < 2 ^ 1 := by
        cases bit <;> decide
      constructor
      · rw [folded, List.length_append, List.length_singleton,
          natBits_shiftLeft_or 1 bitBound, inductionHypothesis.1]
        cases bit <;> rfl
      · rw [folded, ← Nat.shiftLeft_add_eq_or_of_lt bitBound,
          Nat.shiftLeft_eq, List.length_append, List.length_singleton,
          Nat.pow_succ]
        omega

/-- Packing whole bytes loses no bits. -/
theorem byteBits_packBytes
    {count : Nat}
    {bits : List Bool}
    (whole : bits.length = 8 * count) :
    byteBits (packBytes count bits) = bits := by
  induction count generalizing bits with
  | zero =>
      simp [packBytes, byteBits, List.length_eq_zero_iff.mp
        (by simpa using whole)]
  | succ count inductionHypothesis =>
      have frontLength : (bits.take 8).length = 8 := by
        simp only [List.length_take]
        omega
      have front := natBits_bitsValue (bits.take 8)
      rw [frontLength] at front
      have tailBits :=
        inductionHypothesis (by simp only [List.length_drop]; omega :
          (bits.drop 8).length = 8 * count)
      simp only [packBytes, byteBits, List.flatMap_cons] at tailBits ⊢
      rw [tailBits, UInt8.toNat_ofNat', Nat.mod_eq_of_lt front.2, front.1,
        List.take_append_drop]

/-- Padding fills the last byte. -/
theorem length_paddedBits (text : Bytes) :
    (paddedBits text).length = 8 * ((paddedBits text).length / 8) := by
  simp only [paddedBits, List.length_append, List.length_replicate, padLength]
  omega

/-- The coding of a string has exactly its padded code bits. -/
theorem byteBits_huffmanEncode (text : Bytes) :
    byteBits (huffmanEncode text) = paddedBits text :=
  byteBits_packBytes (length_paddedBits text)

/-- A byte string whose bits are code bits and short padding is the coding. -/
theorem eq_huffmanEncode
    {data text : Bytes}
    {padding : Nat}
    (bits : byteBits data = codeBits text ++ List.replicate padding true)
    (short : padding < 8) :
    data = huffmanEncode text := by
  apply byteBits_injective
  have lengths := congrArg List.length bits
  rw [length_byteBits, List.length_append, List.length_replicate] at lengths
  have samePadding : padding = padLength (codeBits text).length := by
    simp only [padLength]
    omega
  rw [byteBits_huffmanEncode, bits, paddedBits, samePadding]

/-- An accepted string is the coding of the decoder's output. -/
theorem huffmanDecode_sound
    {data text : Bytes}
    (decoded : huffmanDecode data = .ok text) :
    data = huffmanEncode text := by
  simp only [huffmanDecode] at decoded
  split at decoded
  · simp at decoded
  next state consumed =>
    split at decoded
    · simp at decoded
    next short =>
      split at decoded
      · simp at decoded
      next allOnes =>
        simp only [Except.ok.injEq] at decoded
        subst text
        have bits := huffmanBytes_bits consumed
        have padding :
            state.bits = List.replicate state.nbits true := by
          by_cases empty : state.nbits = 0
          · simp [HuffmanState.bits, empty, natBits]
          · have ones : state.acc = 2 ^ state.nbits - 1 := by
              rw [Nat.one_shiftLeft] at allOnes
              by_contra different
              exact allOnes ⟨by omega, different⟩
            rw [HuffmanState.bits, ones, natBits_allOnes]
        have whole :
            byteBits data =
              codeBits state.out ++ List.replicate state.nbits true := by
          rw [padding] at bits
          simpa [codeBits, encode, HuffmanState.bits, natBits] using
            bits.symm
        exact eq_huffmanEncode whole (by omega)

/-! ## Decoding a coded string -/

/-- The EOS code is a run of 30 one-bits, so padding is a front part of it. -/
theorem codeWord_eosSymbol :
    codeWord eosSymbol = List.replicate 30 true := by
  decide +kernel

/-- No code fits into the padding. -/
theorem codeWord_not_isPrefix_padding
    (symbol : Fin codeWords.length)
    {padding : Nat}
    (short : padding < 8) :
    ¬ codeWord symbol <+: List.replicate padding true := by
  intro matched
  have paddingInEos :
      List.replicate padding true <+: codeWord eosSymbol := by
    rw [codeWord_eosSymbol]
    exact ⟨List.replicate (30 - padding) true, by
      rw [List.replicate_append_replicate]
      congr 1
      omega⟩
  have isEos := codeWord_prefixFree (matched.trans paddingInEos)
  have fits := matched.length_le
  rw [isEos, codeWord_eosSymbol] at fits
  simp at fits
  omega

/--
The accumulator holds a front part of the codes still to come.  `rest` are the
bytes not emitted yet and `padding` is the number of one-bits behind them.
-/
structure Upcoming
    (rest : Bytes)
    (padding : Nat)
    (state : HuffmanState) : Prop where
  front :
    state.bits <+: codeBits rest ++ List.replicate padding true
  bounded :
    state.acc < 2 ^ state.nbits

/-- The accumulator holds no complete code: the inner loop has stopped. -/
def Unmatched (state : HuffmanState) : Prop :=
  ∀ symbol, ¬ codeWord symbol <+: state.bits

/-- A matched code belongs to the next byte of the string. -/
theorem Upcoming.match_next
    {rest : Bytes}
    {padding : Nat}
    {state : HuffmanState}
    (upcoming : Upcoming rest padding state)
    (short : padding < 8)
    {symbol : Fin codeWords.length}
    (matched : codeWord symbol <+: state.bits) :
    ∃ byte tail, rest = byte :: tail ∧ symbol = byteSymbol byte := by
  cases rest with
  | nil =>
      have inPadding := matched.trans upcoming.front
      exact (codeWord_not_isPrefix_padding symbol short
        (by simpa [codeBits, encode] using inPadding)).elim
  | cons byte tail =>
      have inCodes := matched.trans upcoming.front
      exact ⟨byte, tail, rfl,
        codeWord_prefixFree.match_eq_head
          (by simpa [codeBits] using inCodes)⟩

/-- Emitting the next byte leaves a front part of the codes behind it. -/
theorem Upcoming.emit
    {byte : UInt8}
    {rest : Bytes}
    {padding len : Nat}
    {state : HuffmanState}
    (upcoming : Upcoming (byte :: rest) padding state)
    (found : findCode state.acc state.nbits = some (byte.toNat, len)) :
    Upcoming rest padding (state.emit byte.toNat len) where
  front := by
    have moved := emit_bits found
      (by have := byte.toNat_lt; omega)
    have front := upcoming.front
    rw [moved, UInt8.ofNat_toNat, codeBits_cons, List.append_assoc] at front
    exact (List.prefix_append_right_inj _).mp front
  bounded := by
    simp only [HuffmanState.emit]
    rw [Nat.one_shiftLeft, Nat.and_two_pow_sub_one_eq_mod]
    exact Nat.mod_lt _ (Nat.two_pow_pos _)

/-- The inner loop emits upcoming bytes until no code is complete. -/
theorem drainCodes_complete
    {fuel padding : Nat}
    {rest : Bytes}
    {state : HuffmanState}
    (upcoming : Upcoming rest padding state)
    (short : padding < 8)
    (covers : state.nbits ≤ fuel) :
    ∃ reached emitted later,
      drainCodes fuel state = .ok reached ∧
        rest = emitted ++ later ∧
        reached.out = state.out ++ emitted ∧
        Upcoming later padding reached ∧
        Unmatched reached := by
  induction fuel generalizing rest state with
  | zero =>
      refine ⟨state, [], rest, rfl, rfl, by simp, upcoming, ?_⟩
      intro symbol matched
      have size := length_codeWord symbol
      have fits := matched.length_le
      simp only [HuffmanState.bits, length_natBits] at fits
      omega
  | succ fuel inductionHypothesis =>
      by_cases few : state.nbits < 5
      · refine ⟨state, [], rest, by simp [drainCodes, few], rfl, by simp,
          upcoming, ?_⟩
        intro symbol matched
        have size := length_codeWord symbol
        have fits := matched.length_le
        simp only [HuffmanState.bits, length_natBits] at fits
        omega
      · cases found : findCode state.acc state.nbits with
        | none =>
            exact ⟨state, [], rest, by simp [drainCodes, few, found], rfl,
              by simp, upcoming, findCode_none found⟩
        | some code =>
            obtain ⟨sym, len⟩ := code
            obtain ⟨inTable, matched, lengthShape⟩ := findCode_some found
            obtain ⟨byte, tail, rfl, sameSymbol⟩ :=
              upcoming.match_next short matched
            have symShape : sym = byte.toNat := by
              simpa only [byteSymbol, Fin.mk.injEq] using sameSymbol
            subst sym
            have size := length_codeWord ⟨byte.toNat, inTable⟩
            obtain ⟨reached, emitted, later, drained, rfl, outShape,
                laterUpcoming, unmatched⟩ :=
              inductionHypothesis (upcoming.emit found)
                (by simp only [HuffmanState.emit]; omega)
            refine ⟨reached, byte :: emitted, later, ?_, rfl, ?_,
              laterUpcoming, unmatched⟩
            · have notEos : byte.toNat ≠ 256 := by
                have := byte.toNat_lt
                omega
              rw [drainCodes, if_neg few, found]
              exact (if_neg notEos).trans drained
            · simp [outShape, HuffmanState.emit]

/-- Without a complete code the accumulator is shorter than the longest code. -/
theorem Upcoming.nbits_lt
    {rest : Bytes}
    {padding : Nat}
    {state : HuffmanState}
    (upcoming : Upcoming rest padding state)
    (short : padding < 8)
    (unmatched : Unmatched state) :
    state.nbits < 30 := by
  have front := upcoming.front
  cases rest with
  | nil =>
      have fits := front.length_le
      simp [HuffmanState.bits, codeBits, encode] at fits
      omega
  | cons byte tail =>
      have shorter := length_lt_of_no_match
        (by simpa [codeBits] using front) (unmatched (byteSymbol byte))
      have size := length_codeWord (byteSymbol byte)
      simp only [HuffmanState.bits, length_natBits] at shorter
      omega

/-- Decoding a front part of a coded string never fails. -/
theorem huffmanBytes_complete
    {data rest : Bytes}
    {padding : Nat}
    {state : HuffmanState}
    (front :
      state.bits ++ byteBits data <+:
        codeBits rest ++ List.replicate padding true)
    (bounded : state.acc < 2 ^ state.nbits)
    (unmatched : Unmatched state)
    (short : padding < 8) :
    ∃ reached emitted later,
      huffmanBytes state data = .ok reached ∧
        rest = emitted ++ later ∧
        reached.out = state.out ++ emitted ∧
        Upcoming later padding reached ∧
        Unmatched reached := by
  induction data generalizing rest state with
  | nil =>
      exact ⟨state, [], rest, rfl, rfl, by simp,
        ⟨by simpa [byteBits] using front, bounded⟩, unmatched⟩
  | cons byte data inductionHypothesis =>
      have fewBits : state.nbits < 30 :=
        Upcoming.nbits_lt
          ⟨(List.prefix_append _ _).trans front, bounded⟩ short unmatched
      let pushed : HuffmanState := {
        out := state.out
        acc := (state.acc <<< 8) % 2 ^ 64 ||| byte.toNat
        nbits := state.nbits + 8
      }
      have pushedBits :
          pushed.bits = state.bits ++ natBits 8 byte.toNat :=
        natBits_pushByte byte (by omega)
      have wholeFront :
          pushed.bits ++ byteBits data <+:
            codeBits rest ++ List.replicate padding true := by
        rw [pushedBits]
        simpa [byteBits] using front
      have pushedBounded : pushed.acc < 2 ^ pushed.nbits := by
        apply Nat.or_lt_two_pow
        · apply Nat.lt_of_le_of_lt (Nat.mod_le _ _)
          rw [Nat.shiftLeft_eq, Nat.pow_add]
          omega
        · apply Nat.lt_of_lt_of_le byte.toNat_lt
          exact Nat.pow_le_pow_right (by omega)
            (Nat.le_add_left 8 state.nbits)
      obtain ⟨middle, emitted, later, drained, rfl, outShape,
          middleUpcoming, middleUnmatched⟩ :=
        drainCodes_complete
          ⟨(List.prefix_append _ _).trans wholeFront, pushedBounded⟩
          short (Nat.le_refl pushed.nbits)
      have stepped : huffmanByte state byte = .ok middle := by
        simp only [huffmanByte]
        rw [if_neg (by omega)]
        exact drained
      have middleFront :
          middle.bits ++ byteBits data <+:
            codeBits later ++ List.replicate padding true := by
        have moved := huffmanByte_bits stepped
        rw [outShape, codeBits_append, List.append_assoc, List.append_assoc,
          List.append_cancel_left_eq, ← pushedBits] at moved
        rw [← moved, codeBits_append, List.append_assoc,
          List.append_assoc] at wholeFront
        exact (List.prefix_append_right_inj _).mp wholeFront
      obtain ⟨reached, emittedLater, last, decoded, rfl, reachedOut,
          reachedUpcoming, reachedUnmatched⟩ :=
        inductionHypothesis middleFront middleUpcoming.bounded middleUnmatched
      refine ⟨reached, emitted ++ emittedLater, last, ?_, by simp, ?_,
        reachedUpcoming, reachedUnmatched⟩
      · simp only [huffmanBytes, stepped]
        exact decoded
      · simp [reachedOut, outShape, pushed]

/-- The coding of every string decodes to that string. -/
theorem huffmanDecode_huffmanEncode (text : Bytes) :
    huffmanDecode (huffmanEncode text) = .ok text := by
  let padding := padLength (codeBits text).length
  have short : padding < 8 := Nat.mod_lt _ (by omega)
  let start : HuffmanState := { out := [], acc := 0, nbits := 0 }
  have startUnmatched : Unmatched start := by
    intro symbol matched
    have size := length_codeWord symbol
    have fits := matched.length_le
    simp [start, HuffmanState.bits] at fits
    simp [fits] at size
  have wholeBits :
      start.bits ++ byteBits (huffmanEncode text) =
        codeBits text ++ List.replicate padding true := by
    rw [byteBits_huffmanEncode]
    rfl
  obtain ⟨reached, emitted, later, decoded, textShape, outShape,
      upcoming, unmatched⟩ :=
    huffmanBytes_complete ⟨[], by rw [List.append_nil, wholeBits]⟩
      (by simp [start]) startUnmatched short
  simp only [start, List.nil_append] at outShape
  subst emitted
  have remaining :
      reached.bits = codeBits later ++ List.replicate padding true := by
    have consumed := huffmanBytes_bits decoded
    simp only [start, codeBits, List.map_nil, encode, List.flatMap_nil,
      List.nil_append] at consumed
    have sameBits := consumed.trans wholeBits
    rw [textShape] at sameBits
    simpa [codeBits, encode] using sameBits
  have nothingLater : later = [] := by
    cases later with
    | nil =>
        rfl
    | cons byte tail =>
        refine (unmatched (byteSymbol byte) ?_).elim
        rw [remaining, codeBits_cons, List.append_assoc]
        exact List.prefix_append _ _
  subst later
  simp only [codeBits, List.map_nil, encode, List.flatMap_nil,
    List.nil_append] at remaining
  have nbitsShape : reached.nbits = padding := by
    simpa [HuffmanState.bits] using congrArg List.length remaining
  have accShape : reached.acc = 1 <<< reached.nbits - 1 := by
    rw [Nat.one_shiftLeft]
    apply natBits_injective upcoming.bounded
      (by have := Nat.two_pow_pos reached.nbits; omega)
    rw [natBits_allOnes, nbitsShape, ← remaining, HuffmanState.bits,
      nbitsShape]
  simp only [huffmanDecode]
  rw [decoded]
  simp only
  rw [if_neg (by omega), if_neg (by simp [accShape]), textShape]
  simp

/--
`huffmanDecode` is exactly the inverse of the Huffman coding of the table: a
byte string is accepted with an output if and only if it is that output's
coding.  Misplaced EOS, padding of a byte or more and padding with zero-bits
are therefore rejected, and the accumulator guard never rejects a coding.
-/
theorem huffmanDecode_eq_ok_iff (data text : Bytes) :
    huffmanDecode data = .ok text ↔ data = huffmanEncode text := by
  constructor
  · exact huffmanDecode_sound
  · rintro rfl
    exact huffmanDecode_huffmanEncode text

end DnsServices.Qpack
