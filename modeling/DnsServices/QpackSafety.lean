import DnsServices.Checked
import DnsServices.QpackForms

namespace DnsServices.Qpack

/-!
# Hostile field sections

The decoder once more, with every index, slice, shift, addition and subtraction
checked and every loop stopped when its rounds are spent.  On every buffer that
fits the address space no operation faults and no loop runs out of rounds, and
the result is that of the unchecked decoder.
-/

namespace Machine

/-! ## The decoder on machine words -/

/-- Continue behind a reading; a fault stays a fault. -/
def andThen
    (reading : Option (Reading α))
    (continuation : α → Nat → Option (Reading β)) :
    Option (Reading β) :=
  match reading with
  | none =>
      none
  | some (.ok value, pos) =>
      continuation value pos
  | some (.error failure, pos) =>
      some (.error failure, pos)

/-- The `loop` of `read_prefix_int`. -/
def readContinuation
    (buf : Bytes) :
    Nat → Nat → Nat → Nat → Option (Reading Nat)
  | 0, _, _, _ =>
      none
  | rounds + 1, pos, value, shift =>
      match buf[pos]? with
      | none =>
          some (.error .truncated, pos)
      | some b => do
          let pos ← Checked.add 64 pos 1
          let part ← Checked.shiftLeft 64 (b.toNat &&& 0x7F) shift
          -- `checked_add`
          if value + part ≥ 2 ^ 64 then
            some (.error .truncated, pos)
          else
            let shift ← Checked.add 32 shift 7
            if b &&& 0x80 = 0 then
              some (.ok (value + part), pos)
            else if shift > 56 then
              some (.error .truncated, pos)
            else
              readContinuation buf rounds pos (value + part) shift

/-- `read_prefix_int`, with every step checked. -/
def readPrefixInt (buf : Bytes) (pos prefixBits : Nat) : Option (Reading Nat) :=
  match buf[pos]? with
  | none =>
      some (.error .truncated, pos)
  | some first => do
      let pos ← Checked.add 64 pos 1
      let maxInline ← Checked.lowMask 64 prefixBits
      let value := first.toNat &&& maxInline
      if value < maxInline then
        some (.ok value, pos)
      else
        readContinuation buf 9 pos value 0

/-- The `while` loop that looks for a code of length `len` or more. -/
def findCode (acc nbits : Nat) : Nat → Nat → Option (Option (Nat × Nat))
  | 0, _ =>
      none
  | rounds + 1, len =>
      if len ≤ 30 ∧ len ≤ nbits then do
        let offset ← Checked.sub nbits len
        let shifted ← Checked.shiftRight 64 acc offset
        let mask ← Checked.lowMask 64 len
        let code := shifted &&& mask
        match huffman.findIdx? fun entry =>
            entry.2 == len && entry.1 == code with
        | some sym =>
            some (some (sym, len))
        | none => do
            let longer ← Checked.add 32 len 1
            findCode acc nbits rounds longer
      else
        some none

/-- The inner `loop` of `huffman_decode`. -/
def drainCodes : Nat → HuffmanState → Option (Except HuffmanError HuffmanState)
  | 0, _ =>
      none
  | rounds + 1, state =>
      if state.nbits < 5 then
        some (.ok state)
      else do
        match ← findCode state.acc state.nbits 27 5 with
        | none =>
            some (.ok state)
        | some (sym, len) =>
            if sym = 256 then
              some (.error .eosInString)
            else
              let nbits ← Checked.sub state.nbits len
              let mask ← Checked.lowMask 64 nbits
              drainCodes rounds
                { out := state.out ++ [UInt8.ofNat sym]
                  acc := state.acc &&& mask
                  nbits := nbits }

/-- One byte of a Huffman string, with every step checked. -/
def huffmanByte
    (state : HuffmanState)
    (byte : UInt8) :
    Option (Except HuffmanError HuffmanState) := do
  let shifted ← Checked.shiftLeft 64 state.acc 8
  let nbits ← Checked.add 32 state.nbits 8
  if nbits > 56 then
    some (.error .noMatch)
  else
    drainCodes (nbits + 1)
      { out := state.out, acc := shifted ||| byte.toNat, nbits := nbits }

/-- The bytes of a Huffman string, with every step checked. -/
def huffmanBytes :
    HuffmanState → Bytes → Option (Except HuffmanError HuffmanState)
  | state, [] =>
      some (.ok state)
  | state, byte :: rest => do
      match ← huffmanByte state byte with
      | .error failure =>
          some (.error failure)
      | .ok next =>
          huffmanBytes next rest

/-- `huffman_decode`, with every step checked. -/
def huffmanDecode (data : Bytes) : Option (Except HuffmanError Bytes) := do
  match ← huffmanBytes { out := [], acc := 0, nbits := 0 } data with
  | .error failure =>
      some (.error failure)
  | .ok state =>
      if state.nbits ≥ 8 then
        some (.error .noMatch)
      else if state.nbits > 0 then
        let ones ← Checked.lowMask 64 state.nbits
        if state.acc ≠ ones then
          some (.error .badPadding)
        else
          some (.ok state.out)
      else
        some (.ok state.out)

/-- A value's bytes, with every step checked. -/
def decodeValue : ValueRef → Option (Except QpackError Bytes)
  | .static text =>
      some (.ok (asBytes text))
  | .wire bytes false =>
      some (.ok bytes)
  | .wire bytes true =>
      (huffmanDecode bytes).map fun result => result.mapError .huffman

/-- `buf[pos..end]` behind the two checks of its end. -/
def readRaw (buf : Bytes) (pos len : Nat) : Option (Reading Bytes) :=
  -- `checked_add`
  if pos + len ≥ 2 ^ 64 then
    some (.error .truncated, pos)
  else if pos + len > buf.length then
    some (.error .truncated, pos)
  else do
    let raw ← Checked.slice buf pos (pos + len)
    some (.ok raw, pos + len)

/-- The reading of a value, with every step checked. -/
def readValue (buf : Bytes) (pos : Nat) : Option (Reading ValueRef) :=
  match buf[pos]? with
  | none =>
      some (.error .truncated, pos)
  | some first => do
      let behind ← Checked.add 64 pos 1
      let huffman := first &&& 0x80 != 0
      let pos ← Checked.sub behind 1
      andThen (readPrefixInt buf pos 7) fun len pos =>
        andThen (readRaw buf pos len) fun raw pos =>
          some (.ok (.wire raw huffman), pos)

/-- The closure in `next`, which starts behind the byte `b`. -/
def readLine (buf : Bytes) (pos : Nat) (b : UInt8) : Option (Reading FieldLine) :=
  if b &&& 0x80 ≠ 0 then
    if b &&& 0x40 = 0 then
      some (.error .dynamicTable, pos)
    else do
      let pos ← Checked.sub pos 1
      andThen (readPrefixInt buf pos 6) fun idx pos =>
        match staticTable[idx]? with
        | none =>
            some (.error (.badIndex idx), pos)
        | some (name, value) =>
            some (.ok { name := .static name, value := .static value }, pos)
  else if b &&& 0xC0 = 0x40 then
    if b &&& 0x10 = 0 then
      some (.error .dynamicTable, pos)
    else do
      let pos ← Checked.sub pos 1
      andThen (readPrefixInt buf pos 4) fun idx pos =>
        match staticTable[idx]? with
        | none =>
            some (.error (.badIndex idx), pos)
        | some (name, _) =>
            andThen (readValue buf pos) fun value pos =>
              some (.ok { name := .static name, value := value }, pos)
  else if b &&& 0xE0 = 0x20 then do
    let huffmanName := b &&& 0x08 != 0
    let pos ← Checked.sub pos 1
    andThen (readPrefixInt buf pos 3) fun nameLen pos =>
      andThen (readRaw buf pos nameLen) fun rawName pos =>
        andThen
          (if huffmanName then
            (huffmanDecode rawName).map fun result =>
              (result.mapError .huffman, pos)
          else
            some (.ok rawName, pos))
          fun name pos =>
            andThen (readValue buf pos) fun value pos =>
              some (.ok { name := .wire name, value := value }, pos)
  else
    some (.error .dynamicTable, pos)

/-- `Decoder::new` -/
def new (buf : Bytes) : Option (Except QpackError Decoder) := do
  match ← readPrefixInt buf 0 8 with
  | (.error failure, _) =>
      some (.error failure)
  | (.ok requiredInsertCount, pos) =>
      match ← readPrefixInt buf pos 7 with
      | (.error failure, _) =>
          some (.error failure)
      | (.ok _, pos) =>
          if requiredInsertCount ≠ 0 then
            some (.error .dynamicTable)
          else
            some (.ok { buf := buf, pos := pos })

/-- `Decoder::next` -/
def next
    (decoder : Decoder) :
    Option (Option (Except QpackError FieldLine × Decoder)) :=
  if decoder.pos ≥ decoder.buf.length then
    some none
  else do
    let b ← Checked.index decoder.buf decoder.pos
    let pos ← Checked.add 64 decoder.pos 1
    let reading ← readLine decoder.buf pos b
    some (some (reading.1, { decoder with pos := reading.2 }))

/-- An item with its value decoded. -/
def decodeItem
    (item : Except QpackError FieldLine) :
    Option (Except QpackError (Bytes × Bytes)) :=
  match item with
  | .error failure =>
      some (.error failure)
  | .ok line =>
      (decodeValue line.value).map fun result =>
        result.map fun value => (line.name.asBytes, value)

/-- Call `next` until it ends, also past errors, and decode every value. -/
def drain : Nat → Decoder → Option (List (Except QpackError (Bytes × Bytes)))
  | 0, _ =>
      none
  | rounds + 1, decoder => do
      match ← next decoder with
      | none =>
          some []
      | some (item, later) =>
          let field ← decodeItem item
          let fields ← drain rounds later
          some (field :: fields)

/-- A whole field section: one call of `next` per byte and one for the end. -/
def decodeSection
    (buf : Bytes) :
    Option (Except QpackError (List (Except QpackError (Bytes × Bytes)))) := do
  match ← new buf with
  | .error failure =>
      some (.error failure)
  | .ok decoder =>
      (drain (buf.length + 1) decoder).map .ok

/-! ## The integer reader -/

/-- A reading that begins at a position ends inside the buffer, behind it. -/
structure Ends (buf : Bytes) (start : Nat) (reading : Reading α) : Prop where
  forward : start ≤ reading.2
  inside : reading.2 ≤ buf.length

namespace Ends

theorem of_eq
    {buf : Bytes}
    {start pos : Nat}
    {result : Except QpackError α}
    (forward : start ≤ pos)
    (inside : pos ≤ buf.length) :
    Ends buf start (result, pos) where
  forward := forward
  inside := inside

theorem andThen
    {buf : Bytes}
    {start : Nat}
    {reading : Reading α}
    {continuation : α → Nat → Reading β}
    (ends : Ends buf start reading)
    (continues : ∀ value pos,
      pos ≤ buf.length → Ends buf pos (continuation value pos)) :
    Ends buf start (reading.andThen continuation) := by
  obtain ⟨result, pos⟩ := reading
  cases result with
  | error failure =>
      exact ⟨ends.forward, ends.inside⟩
  | ok value =>
      have later := continues value pos ends.inside
      exact ⟨Nat.le_trans ends.forward later.forward, later.inside⟩

end Ends

theorem inside_of_getElem?
    {buf : Bytes}
    {pos : Nat}
    {b : UInt8}
    (found : buf[pos]? = some b) :
    pos + 1 ≤ buf.length :=
  (List.getElem?_eq_some_iff.mp found).1

/-- The continuation bytes of an integer end inside the buffer. -/
theorem readContinuation_ends
    {buf : Bytes}
    {rounds pos value shift : Nat}
    (inside : pos ≤ buf.length) :
    Ends buf pos (Qpack.readContinuation buf rounds pos value shift) := by
  induction rounds generalizing pos value shift with
  | zero =>
      exact .of_eq (Nat.le_refl pos) inside
  | succ rounds inductionHypothesis =>
      cases found : buf[pos]? with
      | none =>
          simp only [Qpack.readContinuation, found]
          exact .of_eq (Nat.le_refl pos) inside
      | some b =>
          have moved : Ends buf pos
              ((.error .truncated, pos + 1) : Reading Nat) :=
            .of_eq (by omega) (inside_of_getElem? found)
          have later :
              Ends buf (pos + 1)
                (Qpack.readContinuation buf rounds (pos + 1)
                  (value + (b.toNat &&& 0x7F) <<< shift) (shift + 7)) :=
            inductionHypothesis (inside_of_getElem? found)
          simp only [Qpack.readContinuation, found]
          split
          · exact moved
          · split
            · exact ⟨moved.forward, moved.inside⟩
            · split
              · exact moved
              · exact ⟨Nat.le_trans moved.forward later.forward, later.inside⟩

/-- An integer ends inside the buffer. -/
theorem readPrefixInt_ends
    {buf : Bytes}
    {pos : Nat}
    {b : UInt8}
    (found : buf[pos]? = some b)
    (prefixBits : Nat) :
    Ends buf (pos + 1) (Qpack.readPrefixInt buf pos prefixBits) := by
  simp only [Qpack.readPrefixInt, found]
  split
  · exact .of_eq (Nat.le_refl _) (inside_of_getElem? found)
  · exact readContinuation_ends (inside_of_getElem? found)

/-- Seven bits shifted by at most 56 stay inside a word. -/
theorem shifted_part_lt
    (b : UInt8)
    {shift : Nat}
    (small : shift ≤ 56) :
    (b.toNat &&& 0x7F) <<< shift < 2 ^ 64 := by
  have part : b.toNat &&& 0x7F < 2 ^ 7 := Nat.and_lt_two_pow _ (by omega)
  rw [Nat.shiftLeft_eq]
  calc
    (b.toNat &&& 0x7F) * 2 ^ shift < 2 ^ 7 * 2 ^ shift :=
      Nat.mul_lt_mul_of_pos_right part (Nat.two_pow_pos shift)
    _ = 2 ^ (7 + shift) := (Nat.pow_add 2 7 shift).symm
    _ ≤ 2 ^ 64 := Nat.pow_le_pow_right (by omega) (by omega)

/-- The loop ends before its rounds are spent: the shift passes 56 first. -/
theorem readContinuation_eq
    {buf : Bytes}
    {rounds pos value shift : Nat}
    (size : buf.length < 2 ^ 64)
    (small : shift ≤ 56)
    (enough : 57 ≤ shift + 7 * rounds) :
    readContinuation buf rounds pos value shift =
      some (Qpack.readContinuation buf rounds pos value shift) := by
  induction rounds generalizing pos value shift with
  | zero =>
      omega
  | succ rounds inductionHypothesis =>
      cases found : buf[pos]? with
      | none =>
          simp only [readContinuation, Qpack.readContinuation, found]
      | some b =>
          have inside := inside_of_getElem? found
          have step := Checked.add_eq (by omega : pos + 1 < 2 ^ 64)
          have part := Checked.shiftLeft_eq (by omega : shift < 64)
            (shifted_part_lt b small)
          have longer := Checked.add_eq (by omega : shift + 7 < 2 ^ 32)
          simp only [readContinuation, Qpack.readContinuation, found, step, part,
            longer, Option.bind_eq_bind, Option.bind_some]
          split
          · rfl
          · split
            · rfl
            · split
              · rfl
              · exact inductionHypothesis (by omega) (by omega)

/-- On a buffer below 2^64 bytes no integer read overflows. -/
theorem readPrefixInt_eq
    {buf : Bytes}
    {pos prefixBits : Nat}
    (size : buf.length < 2 ^ 64)
    (narrow : prefixBits < 64) :
    readPrefixInt buf pos prefixBits =
      some (Qpack.readPrefixInt buf pos prefixBits) := by
  cases found : buf[pos]? with
  | none =>
      simp only [readPrefixInt, Qpack.readPrefixInt, found]
  | some first =>
      have inside := inside_of_getElem? found
      have step := Checked.add_eq (by omega : pos + 1 < 2 ^ 64)
      simp only [readPrefixInt, Qpack.readPrefixInt, found, step,
        Checked.lowMask_eq narrow, Option.bind_eq_bind, Option.bind_some]
      split
      · rfl
      · exact readContinuation_eq size (by omega) (by omega)

/-! ## The Huffman decoder -/

/-- One round of the search for a code. -/
def codeOfLength (acc nbits len : Nat) : Option (Nat × Nat) :=
  if len ≤ nbits then
    let code := (acc >>> (nbits - len)) &&& (1 <<< len - 1)
    (huffman.findIdx? fun entry => entry.2 == len && entry.1 == code).map
      fun sym => (sym, len)
  else
    none

/-- No code is longer than the bits at hand. -/
theorem findSome?_codeOfLength_eq_none
    {acc nbits len : Nat}
    (short : nbits < len)
    (count : Nat) :
    (List.range' len count).findSome? (codeOfLength acc nbits) = none := by
  rw [List.findSome?_eq_none_iff]
  intro longer member
  rw [List.mem_range'_1] at member
  exact if_neg (by omega)

/-- The checked search for a code is the plain one. -/
theorem findCode_from
    {acc nbits rounds len : Nat}
    (bounded : nbits ≤ 56)
    (started : len ≤ 31)
    (enough : 31 < rounds + len) :
    findCode acc nbits rounds len =
      some ((List.range' len (31 - len)).findSome?
        (codeOfLength acc nbits)) := by
  induction rounds generalizing len with
  | zero =>
      omega
  | succ rounds inductionHypothesis =>
      by_cases searching : len ≤ 30 ∧ len ≤ nbits
      · have offset := Checked.sub_eq searching.2
        have shifted := Checked.shiftRight_eq (by omega : nbits - len < 64) acc
        have mask := Checked.lowMask_eq (by omega : len < 64)
        have longer := Checked.add_eq (by omega : len + 1 < 2 ^ 32)
        have range :
            List.range' len (31 - len) =
              len :: List.range' (len + 1) (31 - (len + 1)) := by
          rw [← List.range'_succ]
          congr 1
          omega
        simp only [findCode, searching, and_self, if_true, offset, shifted,
          mask, longer, Option.bind_eq_bind, Option.bind_some, range,
          List.findSome?_cons, codeOfLength]
        cases huffman.findIdx? _ with
        | some sym =>
            rfl
        | none =>
            exact inductionHypothesis (by omega) (by omega)
      · rw [findCode, if_neg searching]
        by_cases long : len ≤ 30
        · rw [findSome?_codeOfLength_eq_none (by omega)]
        · rw [show 31 - len = 0 by omega]
          rfl

/-- The search is over after the longest code. -/
theorem findCode_eq
    {acc nbits : Nat}
    (bounded : nbits ≤ 56) :
    findCode acc nbits 27 5 = some (Qpack.findCode acc nbits) :=
  findCode_from bounded (by omega) (by omega)

/-- The accumulator holds `nbits` bits, few enough to take another byte. -/
structure Holds (state : HuffmanState) : Prop where
  bounded : state.nbits ≤ 56
  inside : state.acc < 2 ^ state.nbits

/-- A code that is found has at least five bits and no more than are at hand. -/
theorem length_findCode
    {acc nbits sym len : Nat}
    (found : Qpack.findCode acc nbits = some (sym, len)) :
    5 ≤ len ∧ len ≤ nbits := by
  obtain ⟨inTable, matched, rfl⟩ := findCode_some found
  have covered := matched.length_le
  rw [PrefixCode.length_natBits] at covered
  exact ⟨(length_codeWord _).1, covered⟩

theorem Holds.emit
    {state : HuffmanState}
    (holds : Holds state)
    (sym len : Nat) :
    Holds (state.emit sym len) where
  bounded := Nat.le_trans (Nat.sub_le _ _) holds.bounded
  inside := by
    simp only [HuffmanState.emit]
    rw [Nat.one_shiftLeft, Nat.and_two_pow_sub_one_eq_mod]
    exact Nat.mod_lt _ (Nat.two_pow_pos _)

theorem Holds.drainCodes
    {rounds : Nat}
    {state reached : HuffmanState}
    (holds : Holds state)
    (drained : Qpack.drainCodes rounds state = .ok reached) :
    Holds reached := by
  induction rounds generalizing state with
  | zero =>
      simp only [Qpack.drainCodes, Except.ok.injEq] at drained
      exact drained ▸ holds
  | succ rounds inductionHypothesis =>
      simp only [Qpack.drainCodes] at drained
      split at drained
      · simp only [Except.ok.injEq] at drained
        exact drained ▸ holds
      · split at drained
        · simp only [Except.ok.injEq] at drained
          exact drained ▸ holds
        next sym len found =>
          split at drained
          · simp at drained
          · exact inductionHypothesis (holds.emit sym len) drained

/-- Every match takes bits away, so the rounds are not spent. -/
theorem drainCodes_eq
    {rounds : Nat}
    {state : HuffmanState}
    (holds : Holds state)
    (enough : state.nbits ≤ rounds) :
    drainCodes (rounds + 1) state = some (Qpack.drainCodes rounds state) := by
  induction rounds generalizing state with
  | zero =>
      have short : state.nbits < 5 := by omega
      simp only [drainCodes, Qpack.drainCodes, short, if_true]
  | succ rounds inductionHypothesis =>
      rw [drainCodes, Qpack.drainCodes]
      split
      · rfl
      · rw [findCode_eq holds.bounded]
        cases found : Qpack.findCode state.acc state.nbits with
        | none =>
            rfl
        | some code =>
            obtain ⟨sym, len⟩ := code
            have range := length_findCode found
            have bounded := holds.bounded
            have less := Checked.sub_eq range.2
            have mask := Checked.lowMask_eq
              (by omega : state.nbits - len < 64)
            have left : (state.emit sym len).nbits ≤ rounds := by
              simp only [HuffmanState.emit]
              omega
            simp only [less, mask, Option.bind_eq_bind, Option.bind_some]
            split
            · rfl
            · exact inductionHypothesis (holds.emit sym len) left

/-- A byte is shifted in without losing a bit of the accumulator. -/
theorem Holds.push
    {state : HuffmanState}
    (holds : Holds state)
    (byte : UInt8) :
    state.acc <<< 8 < 2 ^ 64 ∧
      state.acc <<< 8 ||| byte.toNat < 2 ^ (state.nbits + 8) := by
  have byteBound : byte.toNat < 2 ^ 8 := byte.toNat_lt
  have digits := digit_add_lt holds.inside byteBound
  rw [← Nat.pow_add] at digits
  have limit : 2 ^ (state.nbits + 8) ≤ 2 ^ 64 :=
    Nat.pow_le_pow_right (by omega) (Nat.add_le_add_right holds.bounded 8)
  rw [← Nat.shiftLeft_add_eq_or_of_lt byteBound, Nat.shiftLeft_eq]
  exact
    ⟨Nat.lt_of_lt_of_le (Nat.lt_of_le_of_lt (Nat.le_add_right _ _) digits)
        limit,
      digits⟩

/-- A byte fed to the decoder never overflows its bit count. -/
theorem huffmanByte_eq
    {state : HuffmanState}
    (holds : Holds state)
    (byte : UInt8) :
    huffmanByte state byte = some (Qpack.huffmanByte state byte) := by
  obtain ⟨kept, pushed⟩ := holds.push byte
  have bounded := holds.bounded
  have shifted := Checked.shiftLeft_eq (by omega : 8 < 64) kept
  have more := Checked.add_eq (by omega : state.nbits + 8 < 2 ^ 32)
  simp only [huffmanByte, Qpack.huffmanByte, shifted, more,
    Option.bind_eq_bind, Option.bind_some, Nat.mod_eq_of_lt kept]
  split
  · rfl
  next within =>
    exact drainCodes_eq ⟨Nat.le_of_not_lt within, pushed⟩ (Nat.le_refl _)

theorem Holds.huffmanByte
    {state reached : HuffmanState}
    {byte : UInt8}
    (holds : Holds state)
    (decoded : Qpack.huffmanByte state byte = .ok reached) :
    Holds reached := by
  obtain ⟨kept, pushed⟩ := holds.push byte
  simp only [Qpack.huffmanByte, Nat.mod_eq_of_lt kept] at decoded
  split at decoded
  · simp at decoded
  next within =>
    exact Holds.drainCodes ⟨Nat.le_of_not_lt within, pushed⟩ decoded

theorem huffmanBytes_eq
    {state : HuffmanState}
    (holds : Holds state)
    (data : Bytes) :
    huffmanBytes state data = some (Qpack.huffmanBytes state data) := by
  induction data generalizing state with
  | nil =>
      rfl
  | cons byte rest inductionHypothesis =>
      simp only [huffmanBytes, Qpack.huffmanBytes, huffmanByte_eq holds byte,
        Option.bind_eq_bind, Option.bind_some]
      cases decoded : Qpack.huffmanByte state byte with
      | error failure =>
          rfl
      | ok next =>
          exact inductionHypothesis (holds.huffmanByte decoded)

theorem Holds.huffmanBytes
    {state reached : HuffmanState}
    {data : Bytes}
    (holds : Holds state)
    (decoded : Qpack.huffmanBytes state data = .ok reached) :
    Holds reached := by
  induction data generalizing state with
  | nil =>
      simp only [Qpack.huffmanBytes, Except.ok.injEq] at decoded
      exact decoded ▸ holds
  | cons byte rest inductionHypothesis =>
      simp only [Qpack.huffmanBytes] at decoded
      split at decoded
      · simp at decoded
      next next stepped =>
        exact inductionHypothesis (holds.huffmanByte stepped) decoded

/-- Huffman decoding faults on no input. -/
theorem huffmanDecode_eq (data : Bytes) :
    huffmanDecode data = some (Qpack.huffmanDecode data) := by
  have start : Holds { out := [], acc := 0, nbits := 0 } :=
    ⟨by decide, by decide⟩
  rw [huffmanDecode, Qpack.huffmanDecode, huffmanBytes_eq start]
  cases decoded : Qpack.huffmanBytes { out := [], acc := 0, nbits := 0 } data with
  | error failure =>
      rfl
  | ok state =>
      have bounded := (start.huffmanBytes decoded).bounded
      have ones := Checked.lowMask_eq (by omega : state.nbits < 64)
      simp only [ones, Option.bind_eq_bind, Option.bind_some]
      by_cases many : state.nbits ≥ 8
      · simp only [many, if_true]
      · by_cases some : state.nbits > 0
        · simp only [many, some, if_true, if_false, true_and]
          split <;> rfl
        · simp only [many, some, if_false, false_and]

theorem decodeValue_eq (value : ValueRef) :
    decodeValue value = some value.decode := by
  cases value with
  | static text =>
      rfl
  | wire bytes huffman =>
      cases huffman with
      | false =>
          rfl
      | true =>
          simp only [decodeValue, ValueRef.decode, huffmanDecode_eq,
            Option.map_some]

theorem decodeItem_eq (item : Except QpackError FieldLine) :
    decodeItem item = some (Http3.decodedField item) := by
  cases item with
  | error failure =>
      rfl
  | ok line =>
      simp only [decodeItem, decodeValue_eq, Option.map_some,
        Http3.decodedField]

/-! ## Field lines -/

theorem andThen_eq
    {checked : Option (Reading α)}
    {reading : Reading α}
    {continuation : α → Nat → Option (Reading β)}
    {model : α → Nat → Reading β}
    (first : checked = some reading)
    (continues : ∀ value pos,
      continuation value pos = some (model value pos)) :
    andThen checked continuation = some (reading.andThen model) := by
  subst first
  obtain ⟨result, pos⟩ := reading
  cases result with
  | error failure =>
      rfl
  | ok value =>
      exact continues value pos

theorem readRaw_eq
    {buf : Bytes}
    (size : buf.length < 2 ^ 63)
    (pos len : Nat) :
    readRaw buf pos len = some (Qpack.readRaw buf pos len) := by
  rw [readRaw, Qpack.readRaw]
  by_cases outside : pos + len > buf.length
  · simp only [outside, if_true, ite_self]
  · have small : ¬ pos + len ≥ 2 ^ 64 := by omega
    rw [if_neg small, if_neg outside, if_neg outside,
      Checked.slice_eq (Nat.le_of_not_lt outside)]
    rfl

theorem readRaw_ends
    {buf : Bytes}
    {pos : Nat}
    (inside : pos ≤ buf.length)
    (len : Nat) :
    Ends buf pos (Qpack.readRaw buf pos len) := by
  rw [Qpack.readRaw]
  split
  · exact .of_eq (Nat.le_refl pos) inside
  next within =>
    exact .of_eq (Nat.le_add_right pos len) (Nat.le_of_not_lt within)

theorem readValue_eq
    {buf : Bytes}
    (size : buf.length < 2 ^ 63)
    (pos : Nat) :
    readValue buf pos = some (Qpack.readValue buf pos) := by
  cases found : buf[pos]? with
  | none =>
      simp only [readValue, Qpack.readValue, found]
  | some first =>
      have inside := inside_of_getElem? found
      have step := Checked.add_eq (by omega : pos + 1 < 2 ^ 64)
      have back := Checked.sub_eq (by omega : 1 ≤ pos + 1)
      simp only [readValue, Qpack.readValue, found, step, back,
        Option.bind_eq_bind, Option.bind_some, Nat.add_sub_cancel]
      refine andThen_eq (readPrefixInt_eq (by omega) (by omega)) ?_
      intro len pos
      exact andThen_eq (readRaw_eq size pos len) fun raw pos => rfl

theorem readValue_ends
    {buf : Bytes}
    {pos : Nat}
    (inside : pos ≤ buf.length) :
    Ends buf pos (Qpack.readValue buf pos) := by
  cases found : buf[pos]? with
  | none =>
      simp only [Qpack.readValue, found]
      exact .of_eq (Nat.le_refl pos) inside
  | some first =>
      simp only [Qpack.readValue, found]
      have integer := readPrefixInt_ends found 7
      refine Ends.andThen ⟨Nat.le_of_succ_le integer.forward, integer.inside⟩ ?_
      intro len behind reached
      refine Ends.andThen (readRaw_ends reached len) ?_
      intro raw last ended
      exact .of_eq (Nat.le_refl last) ended

/-- The closure steps back over the byte `b` before it reads. -/
theorem readLine_eq
    {buf : Bytes}
    (size : buf.length < 2 ^ 63)
    (pos : Nat)
    (b : UInt8) :
    readLine buf (pos + 1) b = some (Qpack.readLine buf pos b) := by
  have back := Checked.sub_eq (by omega : 1 ≤ pos + 1)
  simp only [readLine, Qpack.readLine, back, Option.bind_eq_bind,
    Option.bind_some, Nat.add_sub_cancel]
  split
  · split
    · rfl
    · refine andThen_eq (readPrefixInt_eq (by omega) (by omega)) ?_
      intro idx pos
      cases staticTable[idx]? with
      | none =>
          rfl
      | some entry =>
          rfl
  · split
    · split
      · rfl
      · refine andThen_eq (readPrefixInt_eq (by omega) (by omega)) ?_
        intro idx pos
        cases staticTable[idx]? with
        | none =>
            rfl
        | some entry =>
            exact andThen_eq (readValue_eq size pos) fun value pos => rfl
    · split
      · refine andThen_eq (readPrefixInt_eq (by omega) (by omega)) ?_
        intro nameLen pos
        refine andThen_eq (readRaw_eq size pos nameLen) ?_
        intro rawName pos
        refine andThen_eq ?_ ?_
        · rw [huffmanDecode_eq, Option.map_some]
          split <;> rfl
        · intro name pos
          exact andThen_eq (readValue_eq size pos) fun value pos => rfl
      · rfl

theorem readLine_ends
    {buf : Bytes}
    {pos : Nat}
    {b : UInt8}
    (found : buf[pos]? = some b) :
    Ends buf (pos + 1) (Qpack.readLine buf pos b) := by
  have skipped (failure : QpackError) :
      Ends buf (pos + 1) ((.error failure, pos + 1) : Reading FieldLine) :=
    .of_eq (Nat.le_refl _) (inside_of_getElem? found)
  rw [Qpack.readLine]
  split
  · split
    · exact skipped _
    · refine Ends.andThen (readPrefixInt_ends found 6) ?_
      intro idx behind reached
      split <;> exact .of_eq (Nat.le_refl behind) reached
  · split
    · split
      · exact skipped _
      · refine Ends.andThen (readPrefixInt_ends found 4) ?_
        intro idx behind reached
        split
        · exact .of_eq (Nat.le_refl behind) reached
        · refine Ends.andThen (readValue_ends reached) ?_
          intro value last ended
          exact .of_eq (Nat.le_refl last) ended
    · split
      · refine Ends.andThen (readPrefixInt_ends found 3) ?_
        intro nameLen behind reached
        refine Ends.andThen (readRaw_ends reached nameLen) ?_
        intro rawName nameEnd inside
        refine Ends.andThen ?_ ?_
        · split <;> exact .of_eq (Nat.le_refl nameEnd) inside
        · intro name valueStart inside
          refine Ends.andThen (readValue_ends inside) ?_
          intro value last ended
          exact .of_eq (Nat.le_refl last) ended
      · exact skipped _

/-! ## Whole sections -/

theorem new_eq
    {buf : Bytes}
    (size : buf.length < 2 ^ 63) :
    new buf = some (Decoder.new buf) := by
  rw [new, Decoder.new, readPrefixInt_eq (by omega) (by omega)]
  obtain ⟨result, pos⟩ := Qpack.readPrefixInt buf 0 8
  cases result with
  | error failure =>
      rfl
  | ok requiredInsertCount =>
      simp only [
        readPrefixInt_eq (by omega : buf.length < 2 ^ 64) (by omega : 7 < 64),
        Option.bind_eq_bind, Option.bind_some]
      obtain ⟨result, behind⟩ := Qpack.readPrefixInt buf pos 7
      cases result with
      | error failure =>
          rfl
      | ok deltaBase =>
          simp only
          split <;> rfl

theorem readPrefixInt_inside
    {buf : Bytes}
    {pos : Nat}
    (inside : pos ≤ buf.length)
    (prefixBits : Nat) :
    (Qpack.readPrefixInt buf pos prefixBits).2 ≤ buf.length := by
  cases found : buf[pos]? with
  | none =>
      simpa only [Qpack.readPrefixInt, found] using inside
  | some first =>
      exact (readPrefixInt_ends found prefixBits).inside

theorem new_inside
    {buf : Bytes}
    {decoder : Decoder}
    (accepted : Decoder.new buf = .ok decoder) :
    decoder.buf = buf ∧ decoder.pos ≤ buf.length := by
  have first := readPrefixInt_inside (Nat.zero_le buf.length) 8
  rw [Decoder.new] at accepted
  split at accepted
  · simp at accepted
  next count pos countRead =>
    rw [countRead] at first
    have second := readPrefixInt_inside first 7
    split at accepted
    · simp at accepted
    next base behind baseRead =>
      rw [baseRead] at second
      split at accepted
      · simp at accepted
      · simp only [Except.ok.injEq] at accepted
        subst accepted
        exact ⟨rfl, second⟩

theorem next_eq
    {decoder : Decoder}
    (size : decoder.buf.length < 2 ^ 63) :
    next decoder = some decoder.next := by
  rw [next, Decoder.next]
  split
  next ended =>
    rw [List.getElem?_eq_none ended]
  next inside =>
    have found := List.getElem?_eq_getElem (Nat.lt_of_not_ge inside)
    have step := Checked.add_eq (by omega : decoder.pos + 1 < 2 ^ 64)
    simp only [Checked.index, found, step, readLine_eq size,
      Option.bind_eq_bind, Option.bind_some]

/-- A call of `next` that yields an item moves on, inside the buffer. -/
theorem next_moves
    {decoder later : Decoder}
    {item : Except QpackError FieldLine}
    (called : decoder.next = some (item, later)) :
    later.buf = decoder.buf ∧
      decoder.pos < later.pos ∧
      later.pos ≤ decoder.buf.length := by
  rw [Decoder.next] at called
  split at called
  · simp at called
  next b found =>
    have ends := readLine_ends found
    simp only [Option.some.injEq, Prod.mk.injEq] at called
    obtain ⟨-, rfl⟩ := called
    exact ⟨rfl, ends.forward, ends.inside⟩

/-- With as many rounds as bytes the checked decoder reads all lines. -/
theorem drain_eq
    {rounds : Nat}
    {decoder : Decoder}
    (size : decoder.buf.length < 2 ^ 63)
    (enough : decoder.buf.length ≤ rounds + decoder.pos) :
    drain (rounds + 1) decoder =
      some ((Decoder.lines rounds decoder).map Http3.decodedField) := by
  induction rounds generalizing decoder with
  | zero =>
      have ended : decoder.next = none := by
        rw [Decoder.next, List.getElem?_eq_none (by omega)]
      simp only [drain, next_eq size, ended, Option.bind_eq_bind,
        Option.bind_some, Decoder.lines, List.map_nil]
  | succ rounds inductionHypothesis =>
      rw [drain, next_eq size, Decoder.lines]
      cases called : decoder.next with
      | none =>
          rfl
      | some answer =>
          obtain ⟨item, later⟩ := answer
          obtain ⟨sameBuffer, moved, -⟩ := next_moves called
          have rest := inductionHypothesis
            (sameBuffer.symm ▸ size) (by rw [sameBuffer]; omega)
          simp only [decodeItem_eq, rest, Option.bind_eq_bind,
            Option.bind_some, List.map_cons]

/-- The decoders that occur while a section is iterated over. -/
inductive Iterated (buf : Bytes) : Decoder → Prop where
  | start
      {decoder : Decoder}
      (accepted : new buf = some (.ok decoder)) :
      Iterated buf decoder
  | step
      {decoder later : Decoder}
      {item : Except QpackError FieldLine}
      (before : Iterated buf decoder)
      (called : next decoder = some (some (item, later))) :
      Iterated buf later

/-- After any number of lines the decoder stands inside its buffer. -/
theorem Iterated.inside
    {buf : Bytes}
    {decoder : Decoder}
    (size : buf.length < 2 ^ 63)
    (iterated : Iterated buf decoder) :
    decoder.buf = buf ∧ decoder.pos ≤ buf.length := by
  induction iterated with
  | start accepted =>
      rw [new_eq size, Option.some.injEq] at accepted
      exact new_inside accepted
  | step before called inductionHypothesis =>
      obtain ⟨sameBuffer, -⟩ := inductionHypothesis
      rw [next_eq (sameBuffer ▸ size), Option.some.injEq] at called
      obtain ⟨kept, -, inside⟩ := next_moves called
      exact ⟨kept.trans sameBuffer, sameBuffer ▸ inside⟩

/-- One call of `next` at a decoder does not fault; if it yields an item, the
position grows inside the buffer and the item's value can be decoded. -/
structure NextSafe (decoder : Decoder) : Prop where
  called : ∃ answer, next decoder = some answer
  moves : ∀ item later, next decoder = some (some (item, later)) →
    decoder.pos < later.pos ∧ later.pos ≤ decoder.buf.length
  decodes : ∀ item later, next decoder = some (some (item, later)) →
    ∃ field, decodeItem item = some field

/--
Decoding a field section and all its values ends without a fault, and every
call of `next` on the way moves forward inside the buffer.
-/
theorem decodeSection_safe
    (buf : Bytes)
    (size : buf.length < 2 ^ 63) :
    decodeSection buf =
        some ((Decoder.new buf).map fun decoder =>
          decoder.collect.map Http3.decodedField) ∧
      ∀ decoder, Iterated buf decoder →
        decoder.pos ≤ buf.length ∧ NextSafe decoder := by
  constructor
  · rw [decodeSection, new_eq size]
    cases accepted : Decoder.new buf with
    | error failure =>
        rfl
    | ok decoder =>
        obtain ⟨sameBuffer, -⟩ := new_inside accepted
        have drained := drain_eq (sameBuffer.symm ▸ size)
          (Nat.le_add_right decoder.buf.length decoder.pos)
        rw [sameBuffer] at drained
        simp only [drained, Option.bind_eq_bind, Option.bind_some,
          Option.map_some, Except.map, Decoder.collect, sameBuffer]
  · intro decoder iterated
    obtain ⟨sameBuffer, inside⟩ := iterated.inside size
    have answered := next_eq (sameBuffer.symm ▸ size : decoder.buf.length < 2 ^ 63)
    refine ⟨inside, ⟨⟨_, answered⟩, ?_, ?_⟩⟩
    · intro item later called
      rw [answered, Option.some.injEq] at called
      exact (next_moves called).2
    · intro item later _
      exact ⟨_, decodeItem_eq item⟩

/-- An index far outside the table, then a name longer than the section. -/
def hostileSection : Bytes :=
  [0x00, 0x00, 0xFF, 0xFF, 0xFF, 0xFF, 0x7F, 0x2F, 0xFF, 0x7F, 0xAA]

/-- A section whose lengths point behind its end. -/
theorem decodeSection_safe_hostileSection :
    hostileSection.length < 2 ^ 63 ∧
      decodeSection hostileSection =
        some ((Decoder.new hostileSection).map fun decoder =>
          decoder.collect.map Http3.decodedField) ∧
      ∀ decoder, Iterated hostileSection decoder →
        decoder.pos ≤ hostileSection.length ∧ NextSafe decoder := by
  have size : hostileSection.length < 2 ^ 63 := by
    decide
  exact ⟨size, decodeSection_safe hostileSection size⟩

end Machine

end DnsServices.Qpack
