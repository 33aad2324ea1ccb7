import DnsServices.Huffman
import DnsServices.QpackStatic

namespace DnsServices.Qpack

/-!
# QPACK field sections

Prefix integers, the literal-only encoder and the static-table decoder of
`qpack.rs`.  Every reader of the decoder moves a position forward and keeps it
where it stopped when it fails, so a reading is a result together with the
position behind it.
-/

/-- Why a field section does not decode. -/
inductive QpackError where
  | truncated
  | dynamicTable
  | badIndex (index : Nat)
  | huffman (failure : HuffmanError)
  deriving Repr, DecidableEq

/-- A result and the position behind what was read, also after a failure. -/
abbrev Reading (α : Type) := Except QpackError α × Nat

/-- Continue behind a successful reading; a failure stops at its position. -/
def Reading.andThen
    (reading : Reading α)
    (continuation : α → Nat → Reading β) :
    Reading β :=
  match reading with
  | (.ok value, pos) =>
      continuation value pos
  | (.error failure, pos) =>
      (.error failure, pos)

@[simp] theorem Reading.andThen_ok
    (value : α)
    (pos : Nat)
    (continuation : α → Nat → Reading β) :
    Reading.andThen (.ok value, pos) continuation = continuation value pos :=
  rfl

/-! ## Prefix integers -/

/--
The continuation bytes of a prefix integer: seven bits at a time, low bits
first.  The value itself is enough fuel, since every round divides it by 128.
-/
def writeContinuation : Nat → Nat → Bytes
  | 0, v =>
      [UInt8.ofNat v]
  | fuel + 1, v =>
      if v ≥ 128 then
        ((UInt8.ofNat v &&& 0x7F) ||| 0x80) :: writeContinuation fuel (v >>> 7)
      else
        [UInt8.ofNat v]

/-- Write a value behind the flag bits of `firstByte`. -/
def writePrefixInt (prefixBits : Nat) (firstByte : UInt8) (value : Nat) : Bytes :=
  let maxInline := 1 <<< prefixBits - 1
  if value < maxInline then
    [firstByte ||| UInt8.ofNat value]
  else
    (firstByte ||| UInt8.ofNat maxInline) ::
      writeContinuation (value - maxInline) (value - maxInline)

/--
The continuation loop of the reader.  The shift grows by seven and must not
pass 56, so nine rounds are the most the loop can make.
-/
def readContinuation (buf : Bytes) : Nat → Nat → Nat → Nat → Reading Nat
  | 0, pos, _, _ =>
      (.error .truncated, pos)
  | rounds + 1, pos, value, shift =>
      match buf[pos]? with
      | none =>
          (.error .truncated, pos)
      | some b =>
          let sum := value + (b.toNat &&& 0x7F) <<< shift
          -- `checked_add` on a `u64`
          if sum ≥ 2 ^ 64 then
            (.error .truncated, pos + 1)
          else if b &&& 0x80 = 0 then
            (.ok sum, pos + 1)
          else if shift + 7 > 56 then
            (.error .truncated, pos + 1)
          else
            readContinuation buf rounds (pos + 1) sum (shift + 7)

/-- Read a prefix integer at a position. -/
def readPrefixInt (buf : Bytes) (pos prefixBits : Nat) : Reading Nat :=
  match buf[pos]? with
  | none =>
      (.error .truncated, pos)
  | some first =>
      let maxInline := 1 <<< prefixBits - 1
      let value := first.toNat &&& maxInline
      if value < maxInline then
        (.ok value, pos + 1)
      else
        readContinuation buf 9 (pos + 1) value 0

/-! ## Encoder (literal-with-literal-name only) -/

/-- Encode one field line: `001 N=0 H=0 NameLen(3+)`, then `H=0 ValueLen(7+)`. -/
def encodeFieldLine (field : Bytes × Bytes) : Bytes :=
  writePrefixInt 3 0x20 field.1.length ++ field.1 ++
    (writePrefixInt 7 0x00 field.2.length ++ field.2)

/-- Encode a complete QPACK field section (empty dynamic table). -/
def encodeFieldSection (fields : List (Bytes × Bytes)) : Bytes :=
  0x00 :: 0x00 :: fields.flatMap encodeFieldLine

/-! ## Decoder -/

/-- A decoded field name: static-table string or literal bytes. -/
inductive NameRef where
  | static (text : String)
  | wire (bytes : Bytes)
  deriving Repr, DecidableEq

/-- The bytes of a name. -/
def NameRef.asBytes : NameRef → Bytes
  | .static text =>
      DnsServices.asBytes text
  | .wire bytes =>
      bytes

/-- A decoded field value: static-table string or raw bytes with huffman flag. -/
inductive ValueRef where
  | static (text : String)
  | wire (bytes : Bytes) (huffman : Bool)
  deriving Repr, DecidableEq

/-- Decode to bytes (huffman-decoding if flagged). -/
def ValueRef.decode : ValueRef → Except QpackError Bytes
  | .static text =>
      .ok (DnsServices.asBytes text)
  | .wire bytes false =>
      .ok bytes
  | .wire bytes true =>
      (huffmanDecode bytes).mapError .huffman

/-- One decoded field line. -/
structure FieldLine where
  name : NameRef
  value : ValueRef
  deriving Repr, DecidableEq

/-- `len` raw bytes at a position. -/
def readRaw (buf : Bytes) (pos len : Nat) : Reading Bytes :=
  -- the source's `checked_add` can only overflow when the end is behind the
  -- buffer, which is the same error
  if pos + len > buf.length then
    (.error .truncated, pos)
  else
    (.ok ((buf.drop pos).take len), pos + len)

/-- A value string: H bit, 7-bit length prefix, raw bytes. -/
def readValue (buf : Bytes) (pos : Nat) : Reading ValueRef :=
  match buf[pos]? with
  | none =>
      (.error .truncated, pos)
  | some first =>
      let huffman := first &&& 0x80 != 0
      (readPrefixInt buf pos 7).andThen fun len pos =>
        (readRaw buf pos len).andThen fun raw pos =>
          (.ok (.wire raw huffman), pos)

/-- The field line that starts with byte `b` at a position. -/
def readLine (buf : Bytes) (pos : Nat) (b : UInt8) : Reading FieldLine :=
  if b &&& 0x80 ≠ 0 then
    -- Indexed Field Line: 1 T Index(6+)
    if b &&& 0x40 = 0 then
      (.error .dynamicTable, pos + 1)
    else
      (readPrefixInt buf pos 6).andThen fun idx pos =>
        match staticTable[idx]? with
        | none =>
            (.error (.badIndex idx), pos)
        | some (name, value) =>
            (.ok { name := .static name, value := .static value }, pos)
  else if b &&& 0xC0 = 0x40 then
    -- Literal Field Line With Name Reference: 01 N T Index(4+)
    if b &&& 0x10 = 0 then
      (.error .dynamicTable, pos + 1)
    else
      (readPrefixInt buf pos 4).andThen fun idx pos =>
        match staticTable[idx]? with
        | none =>
            (.error (.badIndex idx), pos)
        | some (name, _) =>
            (readValue buf pos).andThen fun value pos =>
              (.ok { name := .static name, value := value }, pos)
  else if b &&& 0xE0 = 0x20 then
    -- Literal Field Line With Literal Name: 001 N H NameLen(3+)
    let huffmanName := b &&& 0x08 != 0
    (readPrefixInt buf pos 3).andThen fun nameLen pos =>
      (readRaw buf pos nameLen).andThen fun rawName pos =>
        Reading.andThen
          (if huffmanName then
            ((huffmanDecode rawName).mapError .huffman, pos)
          else
            (.ok rawName, pos))
          fun name pos =>
            (readValue buf pos).andThen fun value pos =>
              (.ok { name := .wire name, value := value }, pos)
  else
    -- 000xxxxx: post-base / dynamic-table forms
    (.error .dynamicTable, pos + 1)

/-- Iterator over the field lines of an encoded field section. -/
structure Decoder where
  buf : Bytes
  pos : Nat
  deriving Repr, DecidableEq

namespace Decoder

/-- Parse the field-section prefix. Rejects non-empty dynamic tables. -/
def new (buf : Bytes) : Except QpackError Decoder :=
  match readPrefixInt buf 0 8 with
  | (.error failure, _) =>
      .error failure
  | (.ok requiredInsertCount, pos) =>
      match readPrefixInt buf pos 7 with
      | (.error failure, _) =>
          .error failure
      | (.ok _, pos) =>
          if requiredInsertCount ≠ 0 then
            .error .dynamicTable
          else
            .ok { buf := buf, pos := pos }

/-- The next line and the decoder behind it; `none` at the end. -/
def next (decoder : Decoder) : Option (Except QpackError FieldLine × Decoder) :=
  match decoder.buf[decoder.pos]? with
  | none =>
      none
  | some b =>
      let reading := readLine decoder.buf decoder.pos b
      some (reading.1, { decoder with pos := reading.2 })

/-- All items a `for` loop over the decoder sees, errors included. -/
def lines : Nat → Decoder → List (Except QpackError FieldLine)
  | 0, _ =>
      []
  | fuel + 1, decoder =>
      match decoder.next with
      | none =>
          []
      | some (item, rest) =>
          item :: lines fuel rest

/-- Iterate to exhaustion; every item consumes at least one byte. -/
def collect (decoder : Decoder) : List (Except QpackError FieldLine) :=
  lines decoder.buf.length decoder

end Decoder

end DnsServices.Qpack
