import DnsServices.H3Request

namespace DnsServices.Qpack

/-!
# Field sections of other encoders

The decoder accepts every field section that needs no dynamic table: lines in
any of the three static forms, strings plain or Huffman-coded, behind a prefix
with Required Insert Count 0.  A line that refers to the dynamic table is an
error at its place.
-/

open Http3

/-! ## Sections without a dynamic table -/

/-- The name and the value a line stands for. -/
def WireLine.denoted : WireLine → Bytes × Bytes
  | indexed index =>
      (asBytes (staticTable.get index).1, asBytes (staticTable.get index).2)
  | nameReference _ index value =>
      (asBytes (staticTable.get index).1, value.text)
  | literalName _ name value =>
      (name.text, value.text)

/-- Required Insert Count 0, then `S DeltaBase(7+)`. -/
def sectionPrefix (sign : Bool) (deltaBase : Nat) : Bytes :=
  writePrefixInt 8 0x00 0 ++
    writePrefixInt 7 (if sign then 0x80 else 0x00) deltaBase

/-- A field section: the prefix and the lines. -/
def fieldSection
    (sign : Bool)
    (deltaBase : Nat)
    (lines : List WireLine) :
    Bytes :=
  sectionPrefix sign deltaBase ++ lines.flatMap WireLine.bytes

theorem decode_raw (value : WireString) :
    (ValueRef.wire value.raw value.huffman).decode = .ok value.text := by
  cases coded : value.huffman with
  | true =>
      simp only [ValueRef.decode, WireString.raw, coded, if_true,
        huffmanDecode_huffmanEncode]
      rfl
  | false =>
      simp [ValueRef.decode, WireString.raw, coded]

/-- A line that was read back is the pair it stands for. -/
theorem decodedField_decoded (line : WireLine) :
    decodedField (.ok line.decoded) = .ok line.denoted := by
  cases line with
  | indexed index =>
      rfl
  | nameReference never index value =>
      simp only [decodedField, WireLine.decoded, decode_raw]
      rfl
  | literalName never name value =>
      simp only [decodedField, WireLine.decoded, decode_raw]
      rfl

/-- The strings of a line are no longer than the line. -/
theorem WireLine.fits_of_length
    {line : WireLine}
    (bound : line.bytes.length < 2 ^ 63) :
    line.Fits := by
  cases line with
  | indexed index =>
      trivial
  | nameReference never index value =>
      simp only [WireLine.bytes, WireString.valueBytes, WireString.bytes,
        List.length_append] at bound
      simp only [WireLine.Fits]
      omega
  | literalName never name value =>
      simp only [WireLine.bytes, WireString.valueBytes, WireString.bytes,
        List.length_append] at bound
      simp only [WireLine.Fits]
      omega

theorem length_bytes_le
    {lines : List WireLine}
    {line : WireLine}
    (member : line ∈ lines) :
    line.bytes.length ≤ (lines.flatMap WireLine.bytes).length := by
  obtain ⟨before, after, rfl⟩ := List.append_of_mem member
  simp only [List.flatMap_append, List.flatMap_cons, List.length_append]
  omega

/-- A prefix with Required Insert Count 0 is accepted whatever its base. -/
theorem new_sectionPrefix
    (sign : Bool)
    {deltaBase : Nat}
    (small : deltaBase < 2 ^ 62)
    (rest : Bytes) :
    Decoder.new (sectionPrefix sign deltaBase ++ rest) =
      .ok
        { buf := sectionPrefix sign deltaBase ++ rest
          pos := (sectionPrefix sign deltaBase).length } := by
  have atStart :
      Remaining (sectionPrefix sign deltaBase ++ rest) 0
        (writePrefixInt 8 0x00 0 ++
          (writePrefixInt 7 (if sign then 0x80 else 0x00) deltaBase ++
            rest)) := by
    simpa [sectionPrefix] using
      Remaining.start (sectionPrefix sign deltaBase ++ rest)
  have clear : (if sign then (0x80 : UInt8) else 0x00).toNat % 2 ^ 7 = 0 := by
    cases sign <;> decide
  have countRead :=
    readPrefixInt_writePrefixInt atStart (by omega) (by decide) (by omega)
  have baseRead :=
    readPrefixInt_writePrefixInt atStart.advance (by omega) clear (by omega)
  simp only [Decoder.new, countRead, baseRead]
  simp [sectionPrefix]

/-- What stands behind the prefix of a section. -/
theorem behindPrefix
    (sign : Bool)
    (deltaBase : Nat)
    (rest : Bytes) :
    Remaining (sectionPrefix sign deltaBase ++ rest)
      (sectionPrefix sign deltaBase).length rest := by
  simpa using
    (Remaining.start (sectionPrefix sign deltaBase ++ rest)).advance

/-- The decoder after a number of calls of `next`. -/
def Decoder.after : Nat → Decoder → Decoder
  | 0, decoder =>
      decoder
  | count + 1, decoder =>
      match decoder.next with
      | none =>
          decoder
      | some (_, later) =>
          Decoder.after count later

/-- Behind well-formed lines the decoder stands at what follows them. -/
theorem after_wire
    {buf rest : Bytes}
    {pos : Nat}
    {lines : List WireLine}
    (remaining : Remaining buf pos (lines.flatMap WireLine.bytes ++ rest))
    (fits : ∀ line ∈ lines, line.Fits) :
    Decoder.after lines.length { buf := buf, pos := pos } =
      { buf := buf
        pos := pos + (lines.flatMap WireLine.bytes).length } := by
  induction lines generalizing pos with
  | nil =>
      rfl
  | cons line lines inductionHypothesis =>
      rw [List.flatMap_cons, List.append_assoc] at remaining
      obtain ⟨first, found, read⟩ :=
        readLine_wire remaining (fits line List.mem_cons_self)
      have later := inductionHypothesis remaining.advance
        fun other member => fits other (List.mem_cons_of_mem _ member)
      simp only [List.length_cons, Decoder.after, Decoder.next, found, read,
        later, List.flatMap_cons, List.length_append, Nat.add_assoc]

/-! ## Lines that refer to the dynamic table -/

/-- The lines that refer to the dynamic table. -/
inductive DynamicLine where
  /-- Indexed Field Line: `1 T=0 Index(6+)`. -/
  | indexed (index : Nat)
  /-- Literal Field Line With Name Reference: `01 N T=0 Index(4+)`. -/
  | nameReference (never : Bool) (index : Nat) (value : WireString)
  /-- Indexed Field Line With Post-Base Index: `0001 Index(4+)`. -/
  | postBaseIndexed (index : Nat)
  /-- Literal Field Line With Post-Base Name Reference: `0000 N Index(3+)`. -/
  | postBaseNameReference (never : Bool) (index : Nat) (value : WireString)
  deriving Repr, DecidableEq

/-- A line as it is sent. -/
def DynamicLine.bytes : DynamicLine → Bytes
  | indexed index =>
      writePrefixInt 6 0x80 index
  | nameReference never index value =>
      writePrefixInt 4 (if never then 0x60 else 0x40) index ++
        value.valueBytes
  | postBaseIndexed index =>
      writePrefixInt 4 0x10 index
  | postBaseNameReference never index value =>
      writePrefixInt 3 (if never then 0x08 else 0x00) index ++
        value.valueBytes

/-- The first byte of a line that refers to the dynamic table. -/
def IsDynamicByte (b : UInt8) : Prop :=
  (b &&& 0x80 ≠ 0 ∧ b &&& 0x40 = 0) ∨
    (b &&& 0x80 = 0 ∧ b &&& 0xC0 = 0x40 ∧ b &&& 0x10 = 0) ∨
    (b &&& 0x80 = 0 ∧ b &&& 0xC0 ≠ 0x40 ∧ b &&& 0xE0 ≠ 0x20)

instance (b : UInt8) : Decidable (IsDynamicByte b) :=
  inferInstanceAs (Decidable (_ ∨ _))

/-- A line whose first byte refers to the dynamic table fails after that byte.
-/
theorem readLine_dynamicByte
    {b : UInt8}
    (dynamic : IsDynamicByte b)
    (buf : Bytes)
    (pos : Nat) :
    readLine buf pos b = (.error .dynamicTable, pos + 1) := by
  rcases dynamic with ⟨one, clear⟩ | ⟨zero, one, clear⟩ | ⟨zero, other, last⟩
  · rw [readLine, if_pos one, if_pos clear]
  · rw [readLine, if_neg (not_not_intro zero), if_pos one, if_pos clear]
  · rw [readLine, if_neg (not_not_intro zero), if_neg other, if_neg last]

theorem isDynamicByte_of_stored :
    (∀ low : Fin 64, IsDynamicByte (0x80 ||| UInt8.ofNat low.1)) ∧
      (∀ never : Bool, ∀ low : Fin 16,
        IsDynamicByte ((if never then 0x60 else 0x40) |||
          UInt8.ofNat low.1)) ∧
      (∀ low : Fin 16, IsDynamicByte (0x10 ||| UInt8.ofNat low.1)) ∧
      (∀ never : Bool, ∀ low : Fin 8,
        IsDynamicByte ((if never then 0x08 else 0x00) |||
          UInt8.ofNat low.1)) := by
  decide +kernel

/-- A dynamic line is recognised by its first byte. -/
theorem head_dynamicLine
    {buf rest : Bytes}
    {pos : Nat}
    {dynamic : DynamicLine}
    (remaining : Remaining buf pos (dynamic.bytes ++ rest)) :
    ∃ b, buf[pos]? = some b ∧ IsDynamicByte b := by
  obtain ⟨indexed, nameReference, postBase, postBaseName⟩ :=
    isDynamicByte_of_stored
  cases dynamic with
  | indexed index =>
      obtain ⟨stored, bound, found⟩ := remaining.writtenHead
      exact ⟨_, found, indexed ⟨stored, bound⟩⟩
  | nameReference never index value =>
      rw [DynamicLine.bytes, List.append_assoc] at remaining
      obtain ⟨stored, bound, found⟩ := remaining.writtenHead
      exact ⟨_, found, nameReference never ⟨stored, bound⟩⟩
  | postBaseIndexed index =>
      obtain ⟨stored, bound, found⟩ := remaining.writtenHead
      exact ⟨_, found, postBase ⟨stored, bound⟩⟩
  | postBaseNameReference never index value =>
      rw [DynamicLine.bytes, List.append_assoc] at remaining
      obtain ⟨stored, bound, found⟩ := remaining.writtenHead
      exact ⟨_, found, postBaseName never ⟨stored, bound⟩⟩

/-- A line that refers to the dynamic table ends the field lines with an error.
-/
theorem lines_dynamic
    {buf rest : Bytes}
    {pos fuel : Nat}
    {dynamic : DynamicLine}
    (remaining : Remaining buf pos (dynamic.bytes ++ rest))
    (positive : 0 < fuel) :
    ∃ later,
      Decoder.lines fuel { buf := buf, pos := pos } =
        .error .dynamicTable :: later := by
  obtain ⟨b, found, isDynamic⟩ := head_dynamicLine remaining
  obtain ⟨fuel, rfl⟩ : ∃ smaller, fuel = smaller + 1 :=
    ⟨fuel - 1, by omega⟩
  simp only [Decoder.lines, Decoder.next, found,
    readLine_dynamicByte isDynamic]
  exact ⟨_, rfl⟩

/-! ## Whole sections -/

/-- The decoder of a section reads it whole and stops at its end. -/
structure ReadsWhole
    (block : Bytes)
    (fields : List (Bytes × Bytes))
    (decoder : Decoder) :
    Prop where
  accepted : Decoder.new block = .ok decoder
  yielded : decoder.collect.map decodedField = fields.map .ok
  atEnd : (decoder.after fields.length).pos = block.length
  ended : (decoder.after fields.length).next = none

/-- The decoder of a section reads some fields and then an error. -/
structure FailsBehind
    (block : Bytes)
    (fields : List (Bytes × Bytes))
    (failure : QpackError)
    (decoder : Decoder) :
    Prop where
  accepted : Decoder.new block = .ok decoder
  yielded :
    fields.map .ok ++ [.error failure] <+: decoder.collect.map decodedField

/-- Where the lines of a section begin. -/
def linesDecoder (sign : Bool) (deltaBase : Nat) (lines : Bytes) : Decoder :=
  { buf := sectionPrefix sign deltaBase ++ lines
    pos := (sectionPrefix sign deltaBase).length }

theorem map_decodedField_decoded (lines : List WireLine) :
    (lines.map fun line => (.ok line.decoded : Except QpackError _)).map
        decodedField =
      (lines.map WireLine.denoted).map .ok := by
  rw [List.map_map, List.map_map]
  exact List.map_congr_left fun line _ => decodedField_decoded line

/-- A section of static lines is read to its end. -/
theorem readsWhole_fieldSection
    (sign : Bool)
    {deltaBase : Nat}
    (small : deltaBase < 2 ^ 62)
    {lines : List WireLine}
    (fits : ∀ line ∈ lines, line.Fits) :
    ReadsWhole (fieldSection sign deltaBase lines)
      (lines.map WireLine.denoted)
      (linesDecoder sign deltaBase (lines.flatMap WireLine.bytes)) := by
  have remaining :
      Remaining (fieldSection sign deltaBase lines)
        (sectionPrefix sign deltaBase).length
        (lines.flatMap WireLine.bytes ++ []) := by
    rw [List.append_nil]
    exact behindPrefix sign deltaBase _
  have enough :
      (lines.flatMap WireLine.bytes).length ≤
        (fieldSection sign deltaBase lines).length := by
    simp only [fieldSection, List.length_append]
    omega
  have reached :
      (linesDecoder sign deltaBase (lines.flatMap WireLine.bytes)).after
          (lines.map WireLine.denoted).length =
        { buf := fieldSection sign deltaBase lines
          pos := (sectionPrefix sign deltaBase).length +
            (lines.flatMap WireLine.bytes).length } := by
    rw [List.length_map]
    exact after_wire remaining fits
  obtain ⟨left, _, iterated⟩ := lines_wire remaining fits enough
  constructor
  case accepted =>
    exact new_sectionPrefix sign small _
  case yielded =>
    rw [← map_decodedField_decoded]
    refine congrArg (List.map decodedField) (iterated.trans ?_)
    rw [lines_atEnd remaining.advance, List.append_nil]
  case atEnd =>
    rw [reached, fieldSection, List.length_append]
  case ended =>
    rw [reached, Decoder.next]
    simp only [remaining.advance.atEnd]

theorem DynamicLine.bytes_length_pos (dynamic : DynamicLine) :
    0 < dynamic.bytes.length := by
  cases dynamic with
  | indexed index =>
      exact writePrefixInt_length_pos _ _ _
  | nameReference never index value =>
      rw [DynamicLine.bytes, List.length_append]
      exact Nat.add_pos_left (writePrefixInt_length_pos _ _ _) _
  | postBaseIndexed index =>
      exact writePrefixInt_length_pos _ _ _
  | postBaseNameReference never index value =>
      rw [DynamicLine.bytes, List.length_append]
      exact Nat.add_pos_left (writePrefixInt_length_pos _ _ _) _

/-- The fields in front of a dynamic line are read, and the line is an error. -/
theorem failsBehind_dynamicLine
    (sign : Bool)
    {deltaBase : Nat}
    (small : deltaBase < 2 ^ 62)
    {lines : List WireLine}
    (fits : ∀ line ∈ lines, line.Fits)
    (dynamic : DynamicLine)
    (rest : Bytes) :
    FailsBehind
      (fieldSection sign deltaBase lines ++ (dynamic.bytes ++ rest))
      (lines.map WireLine.denoted)
      .dynamicTable
      (linesDecoder sign deltaBase
        (lines.flatMap WireLine.bytes ++ (dynamic.bytes ++ rest))) := by
  have remaining := behindPrefix sign deltaBase
    (lines.flatMap WireLine.bytes ++ (dynamic.bytes ++ rest))
  have enough :
      (lines.flatMap WireLine.bytes).length ≤
        (sectionPrefix sign deltaBase ++
          (lines.flatMap WireLine.bytes ++ (dynamic.bytes ++ rest))).length := by
    simp only [List.length_append]
    omega
  obtain ⟨left, covered, iterated⟩ := lines_wire remaining fits enough
  -- One byte of the dynamic line is left, so `collect` calls `next` again.
  have positive : 0 < left := by
    have nonempty := dynamic.bytes_length_pos
    simp only [List.length_append] at covered
    omega
  obtain ⟨later, failed⟩ := lines_dynamic remaining.advance positive
  constructor
  case accepted =>
    rw [fieldSection, List.append_assoc]
    exact new_sectionPrefix sign small _
  case yielded =>
    refine ⟨later.map decodedField, ?_⟩
    rw [← map_decodedField_decoded]
    refine Eq.symm
      ((congrArg (List.map decodedField) iterated).trans ?_)
    rw [failed]
    simp [decodedField]

/--
Every section of static forms is read as the pairs its lines stand for, in
order and to its end; with a dynamic reference behind them, the pairs are
followed by an error.
-/
theorem fieldSection_decodes
    (sign : Bool)
    (deltaBase : Nat)
    (small : deltaBase < 2 ^ 62)
    (lines : List WireLine)
    (size : (fieldSection sign deltaBase lines).length < 2 ^ 63) :
    (∃ decoder,
        ReadsWhole (fieldSection sign deltaBase lines)
          (lines.map WireLine.denoted) decoder) ∧
      ∀ (dynamic : DynamicLine) (rest : Bytes),
        ∃ decoder,
          FailsBehind
            (fieldSection sign deltaBase lines ++ (dynamic.bytes ++ rest))
            (lines.map WireLine.denoted) .dynamicTable decoder := by
  have fits : ∀ line ∈ lines, line.Fits := by
    intro line member
    have covered := length_bytes_le member
    rw [fieldSection, List.length_append] at size
    exact WireLine.fits_of_length (by omega)
  constructor
  · exact ⟨_, readsWhole_fieldSection sign small fits⟩
  · intro dynamic rest
    exact ⟨_, failsBehind_dynamicLine sign small fits dynamic rest⟩

/-- `:status: 200`, `content-type: ab` never indexed, and the literal field
`x: a` with a Huffman-coded value. -/
def serverLines : List WireLine :=
  [.indexed ⟨25, by decide⟩,
    .nameReference true ⟨44, by decide⟩
      { huffman := false, text := asBytes "ab" },
    .literalName false { huffman := false, text := asBytes "x" }
      { huffman := true, text := asBytes "a" }]

/-- A section as a server sends it, under a nonzero base. -/
theorem fieldSection_decodes_serverLines :
    5 < 2 ^ 62 ∧
      (fieldSection true 5 serverLines).length < 2 ^ 63 ∧
      (∃ decoder,
        ReadsWhole (fieldSection true 5 serverLines)
          (serverLines.map WireLine.denoted) decoder) ∧
      ∀ (dynamic : DynamicLine) (rest : Bytes),
        ∃ decoder,
          FailsBehind
            (fieldSection true 5 serverLines ++ (dynamic.bytes ++ rest))
            (serverLines.map WireLine.denoted) .dynamicTable decoder := by
  have size : (fieldSection true 5 serverLines).length < 2 ^ 63 := by
    decide +kernel
  exact
    ⟨by omega, size,
      fieldSection_decodes true 5 (by omega) serverLines size⟩

end DnsServices.Qpack
