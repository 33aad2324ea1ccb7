import DnsServices.Dns

namespace DnsServices.Dns

/-!
# DNS messages

What the bytes of a message stand for: a header, one question, and records in
three sections.  `dns.rs` edits the bytes without reading them as a message;
this module says which bytes are one.  Labels, options and records carry their
own bounds, and a message carries what makes its counts and pointers agree
with its contents.
-/

/-- A number of sixteen bits on the wire. -/
def u16Wire (value : UInt16) : Bytes :=
  toBeBytes 2 value.toNat

/-! ## Names and questions -/

/-- One label of a name. -/
structure Label where
  bytes : Bytes
  nonempty : 1 ≤ bytes.length
  short : bytes.length ≤ 63

/-- A label with its length in front. -/
def Label.wire (label : Label) : Bytes :=
  UInt8.ofNat label.bytes.length :: label.bytes

/-- Labels one after the other. -/
def labelsWire (labels : List Label) : Bytes :=
  labels.flatMap Label.wire

/-- An uncompressed name with its type and class. -/
structure Question where
  labels : List Label
  qtype : UInt16
  qclass : UInt16

/-- A question as it is sent. -/
def Question.wire (question : Question) : Bytes :=
  labelsWire question.labels ++ [0x00] ++ u16Wire question.qtype ++
    u16Wire question.qclass

/-- How a name in a record ends. -/
inductive NameEnd where
  | root
  | pointer (offset : Fin (2 ^ 14))

/-- The root, or two bytes with the offset. -/
def NameEnd.wire : NameEnd → Bytes
  | .root =>
      [0x00]
  | .pointer offset =>
      toBeBytes 2 (0xC000 + offset.val)

/-- A name: labels, then the root or a pointer to the rest. -/
structure Name where
  labels : List Label
  ending : NameEnd

/-- A name as it is sent. -/
def Name.wire (name : Name) : Bytes :=
  labelsWire name.labels ++ name.ending.wire

/-- A pointer leads behind the header to something before its own name. -/
def Name.PointsBack (start : Nat) (name : Name) : Prop :=
  match name.ending with
  | .root =>
      True
  | .pointer offset =>
      minDnsLen ≤ offset.val ∧ offset.val < start

/-! ## Records -/

/-- The type number of an OPT pseudo-record. -/
def typeOpt : UInt16 := 41

/-- A record of any type but OPT. -/
structure PlainRecord where
  name : Name
  rtype : UInt16
  rclass : UInt16
  ttl : UInt32
  rdata : Bytes
  notOpt : rtype ≠ typeOpt
  short : rdata.length < 2 ^ 16

/-- A record as it is sent. -/
def PlainRecord.wire (record : PlainRecord) : Bytes :=
  record.name.wire ++ u16Wire record.rtype ++ u16Wire record.rclass ++
    toBeBytes 4 record.ttl.toNat ++ toBeBytes 2 record.rdata.length ++
    record.rdata

/-- One EDNS0 option. -/
structure EdnsOption where
  code : UInt16
  data : Bytes
  short : data.length < 2 ^ 16

/-- An option with its code and its length in front. -/
def EdnsOption.wire (option : EdnsOption) : Bytes :=
  u16Wire option.code ++ toBeBytes 2 option.data.length ++ option.data

/-- Options one after the other. -/
def optionsWire (options : List EdnsOption) : Bytes :=
  options.flatMap EdnsOption.wire

/-- An OPT pseudo-record; class and TTL have a meaning of their own. -/
structure OptRecord where
  payload : UInt16
  flags : UInt32
  options : List EdnsOption
  short : (optionsWire options).length < 2 ^ 16

/-- What stands before the RDLENGTH of an OPT record. -/
def OptRecord.frontWire (opt : OptRecord) : Bytes :=
  [0x00] ++ u16Wire typeOpt ++ u16Wire opt.payload ++
    toBeBytes 4 opt.flags.toNat

/-- An OPT record as it is sent. -/
def OptRecord.wire (opt : OptRecord) : Bytes :=
  opt.frontWire ++ toBeBytes 2 (optionsWire opt.options).length ++
    optionsWire opt.options

/-- A record of the additional section. -/
inductive Record where
  | plain (record : PlainRecord)
  | opt (record : OptRecord)

namespace Record

/-- A record as it is sent. -/
def wire : Record → Bytes
  | .plain record =>
      record.wire
  | .opt record =>
      record.wire

/-- The record if it is no OPT record. -/
def plain? : Record → Option PlainRecord
  | .plain record =>
      some record
  | .opt _ =>
      none

/-- The record if it is an OPT record. -/
def opt? : Record → Option OptRecord
  | .plain _ =>
      none
  | .opt record =>
      some record

/-- The record's name points to what stands before the record. -/
def PointsBack (start : Nat) : Record → Prop
  | .plain record =>
      record.name.PointsBack start
  | .opt _ =>
      True

end Record

/-- Records one after the other. -/
def recordsWire (records : List Record) : Bytes :=
  records.flatMap Record.wire

/-- Every name of the records that begin at an offset points back. -/
def PointersBack : Nat → List Record → Prop
  | _, [] =>
      True
  | start, record :: rest =>
      record.PointsBack start ∧ PointersBack (start + record.wire.length) rest

/-! ## Messages -/

/-- A well-formed message with one question. -/
structure Message where
  id : UInt16
  flags : UInt16
  question : Question
  answers : List PlainRecord
  authority : List PlainRecord
  additional : List Record
  answersFit : answers.length < 2 ^ 16
  authorityFits : authority.length < 2 ^ 16
  additionalFits : additional.length < 2 ^ 16
  oneOpt : (additional.filterMap Record.opt?).length ≤ 1
  pointersBack :
    PointersBack (minDnsLen + question.wire.length)
      (answers.map .plain ++ authority.map .plain ++ additional)

namespace Message

/-- The OPT records, of which there is at most one. -/
def opts (m : Message) : List OptRecord :=
  m.additional.filterMap Record.opt?

/-- The other records of the additional section. -/
def plainAdditional (m : Message) : List PlainRecord :=
  m.additional.filterMap Record.plain?

/-- The options of all OPT records. -/
def options (m : Message) : List EdnsOption :=
  m.opts.flatMap OptRecord.options

/-- The header up to ARCOUNT. -/
def headerFront (m : Message) : Bytes :=
  u16Wire m.id ++ u16Wire m.flags ++ toBeBytes 2 1 ++
    toBeBytes 2 m.answers.length ++ toBeBytes 2 m.authority.length

/-- Everything between the header and the additional section. -/
def middle (m : Message) : Bytes :=
  m.question.wire ++ recordsWire (m.answers.map .plain) ++
    recordsWire (m.authority.map .plain)

/-- A message as it is sent. -/
def wire (m : Message) : Bytes :=
  m.headerFront ++ toBeBytes 2 m.additional.length ++ m.middle ++
    recordsWire m.additional

end Message

/-! ## Numbers on the wire -/

@[simp] theorem length_u16Wire (value : UInt16) :
    (u16Wire value).length = 2 := by
  simp [u16Wire]

/-- A big-endian field of two bytes reads as its number. -/
theorem u16At_append
    (front rest : Bytes)
    {value : Nat}
    (fits : value < 2 ^ 16) :
    u16At (front ++ (toBeBytes 2 value ++ rest)) front.length = value := by
  have high : (UInt8.ofNat (value >>> 8)).toNat = value / 256 := by
    rw [UInt8.toNat_ofNat', Nat.shiftRight_eq_div_pow]
    omega
  have low : (UInt8.ofNat (value >>> 0)).toNat = value % 256 := by
    rw [UInt8.toNat_ofNat', Nat.shiftRight_zero]
  simp only [u16At, toBeBytes, List.getD_append_right, Nat.le_refl,
    Nat.sub_self, Nat.le_add_right, Nat.add_sub_cancel_left,
    List.cons_append, List.nil_append, List.getD_cons_zero,
    List.getD_cons_succ, Nat.mul_one, Nat.mul_zero, high, low]
  omega

/-- Two numbers with the same field are the same. -/
theorem toBeBytes_two_inj
    {first second : Nat}
    (firstFits : first < 2 ^ 16)
    (secondFits : second < 2 ^ 16)
    (same : toBeBytes 2 first = toBeBytes 2 second) :
    first = second := by
  have read := u16At_append [] [] firstFits
  rw [same, u16At_append [] [] secondFits] at read
  exact read.symm

/-- Any two bytes are a number of sixteen bits. -/
theorem exists_u16Wire (high low : UInt8) :
    ∃ value, u16Wire value = [high, low] := by
  have fits : [high, low].foldl pushByte 0 < UInt16.size :=
    Nat.lt_of_lt_of_eq (foldl_pushByte_lt [high, low]) (by simp [UInt16.size])
  have written := toBeBytes_foldl_pushByte 0 [high, low]
  refine ⟨UInt16.ofNat ([high, low].foldl pushByte 0), ?_⟩
  rw [u16Wire, UInt16.toNat_ofNat_of_lt' fits]
  exact written

/-! ## Records on the wire -/

@[simp] theorem recordsWire_cons (record : Record) (rest : List Record) :
    recordsWire (record :: rest) = record.wire ++ recordsWire rest :=
  rfl

@[simp] theorem recordsWire_append (first second : List Record) :
    recordsWire (first ++ second) =
      recordsWire first ++ recordsWire second :=
  List.flatMap_append

/-- A name begins with a zero byte only if it is the root. -/
theorem Name.wire_cases (name : Name) :
    name.wire = [0x00] ∨
      ∃ first rest, first ≠ 0x00 ∧ name.wire = first :: rest := by
  obtain ⟨labels, ending⟩ := name
  cases labels with
  | nil =>
      cases ending with
      | root =>
          exact Or.inl rfl
      | pointer offset =>
          have bound := offset.isLt
          refine Or.inr ⟨_, _, ?_, rfl⟩
          intro zero
          have := congrArg UInt8.toNat zero
          rw [UInt8.toNat_ofNat', Nat.mul_one, Nat.shiftRight_eq_div_pow,
            UInt8.toNat_zero] at this
          omega
  | cons label labels =>
      refine Or.inr ⟨UInt8.ofNat label.bytes.length, _, ?_, rfl⟩
      intro zero
      have positive := label.nonempty
      have short := label.short
      have := congrArg UInt8.toNat zero
      rw [UInt8.toNat_ofNat', UInt8.toNat_zero] at this
      omega

/-- A name has at least its root byte. -/
theorem Name.one_le_length_wire (name : Name) :
    1 ≤ name.wire.length := by
  rcases name.wire_cases with root | ⟨first, rest, -, wire⟩
  · rw [root]
    exact Nat.le_refl 1
  · rw [wire, List.length_cons]
    omega

@[simp] theorem OptRecord.length_frontWire (opt : OptRecord) :
    opt.frontWire.length = 9 := by
  simp [frontWire]

/-- A record has at least a root name and its fixed fields. -/
theorem Record.eleven_le_length_wire (record : Record) :
    11 ≤ record.wire.length := by
  cases record with
  | plain record =>
      have := record.name.one_le_length_wire
      simp only [wire, PlainRecord.wire, List.length_append, length_u16Wire,
        length_toBeBytes]
      omega
  | opt record =>
      simp only [wire, OptRecord.wire, List.length_append, length_toBeBytes,
        OptRecord.length_frontWire]
      omega

/-- A section of n records takes at least 11 n bytes. -/
theorem length_le_recordsWire (records : List Record) :
    11 * records.length ≤ (recordsWire records).length := by
  induction records with
  | nil =>
      exact Nat.le_refl 0
  | cons record rest inductionHypothesis =>
      have := record.eleven_le_length_wire
      rw [recordsWire_cons, List.length_append, List.length_cons]
      omega

/-- Only an OPT record begins with the root name and the type of OPT. -/
theorem PlainRecord.take_three_wire (record : PlainRecord) :
    record.wire.take 3 ≠ [0x00, 0x00, 0x29] := by
  intro same
  rcases record.name.wire_cases with root | ⟨first, rest, notZero, wire⟩
  · rw [PlainRecord.wire, root] at same
    have type : u16Wire record.rtype = u16Wire typeOpt :=
      List.cons.inj same |>.2
    have := toBeBytes_two_inj record.rtype.toNat_lt typeOpt.toNat_lt type
    exact record.notOpt (UInt16.toNat_inj.mp this)
  · rw [PlainRecord.wire, wire] at same
    exact notZero (List.cons.inj same).1

/-- Every record is an OPT record or another one. -/
theorem length_filterMap_plain_add_opt (records : List Record) :
    (records.filterMap Record.plain?).length +
        (records.filterMap Record.opt?).length =
      records.length := by
  induction records with
  | nil =>
      rfl
  | cons record rest inductionHypothesis =>
      cases record with
      | plain record =>
          simp only [List.filterMap_cons, Record.plain?, Record.opt?,
            List.length_cons]
          omega
      | opt record =>
          simp only [List.filterMap_cons, Record.plain?, Record.opt?,
            List.length_cons]
          omega

/-- An OPT record at the end has no pointer. -/
theorem pointersBack_append_opt
    (start : Nat)
    (records : List Record)
    (opt : OptRecord) :
    PointersBack start (records ++ [.opt opt]) ↔
      PointersBack start records := by
  induction records generalizing start with
  | nil =>
      exact ⟨fun _ => trivial, fun _ => ⟨trivial, trivial⟩⟩
  | cons record rest inductionHypothesis =>
      exact and_congr Iff.rfl (inductionHypothesis _)

namespace Message

@[simp] theorem length_headerFront (m : Message) :
    m.headerFront.length = 10 := by
  simp [headerFront]

/-- The question alone takes five bytes. -/
theorem five_le_length_middle (m : Message) :
    5 ≤ m.middle.length := by
  simp only [middle, Question.wire, List.length_append, length_u16Wire,
    List.length_cons, List.length_nil]
  omega

/-- A message is its header, the sections before the additional one, and that
section. -/
theorem length_wire (m : Message) :
    m.wire.length =
      minDnsLen + m.middle.length + (recordsWire m.additional).length := by
  simp only [wire, List.length_append, length_headerFront, length_toBeBytes,
    minDnsLen]

end Message

end DnsServices.Dns
