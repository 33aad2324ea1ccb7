import DnsServices.DnsPadding

namespace DnsServices.Dns

/-!
# What padding does to a message

A padded query should say what the query said, with one padding option more.
`pad_query` finds the OPT record by a guess at the last eleven bytes.  The
guess is right if the OPT record is the last one and has no options, and if
there is no OPT record and the end does not look like one; in every other case
the bytes that come out are no such message.
-/

/-- A message with the meaning of another and one padding option more. -/
structure PaddedAs (m padded : Message) : Prop where
  id : padded.id = m.id
  flags : padded.flags = m.flags
  question : padded.question = m.question
  answers : padded.answers = m.answers
  authority : padded.authority = m.authority
  plainAdditional : padded.plainAdditional = m.plainAdditional
  oneOpt : padded.opts.length = 1
  options :
    ∃ padding : EdnsOption,
      padding.code.toNat = edns0OptPad ∧
        padded.options = m.options ++ [padding]

/-- Padding to 128 bytes gives such a message, or does nothing. -/
def PreservesMeaning (m : Message) : Prop :=
  if (padQuery m.wire 128).2 then
    ∃ padded : Message,
      padded.wire = (padQuery m.wire 128).1 ∧ PaddedAs m padded
  else
    (padQuery m.wire 128).1 = m.wire

/-- The OPT record is the last one and has no options. -/
def EndsInEmptyOpt (m : Message) : Prop :=
  ∃ front opt,
    m.additional = front ++ [Record.opt opt] ∧ opt.options = []

/-! ## The guess on well-formed messages -/

section Wire

variable (m : Message)

theorem take_ten_wire :
    m.wire.take 10 = m.headerFront := by
  rw [Message.wire, List.append_assoc, List.append_assoc,
    ← m.length_headerFront, List.take_left]

/-- Behind the header stand the other sections, then the additional records. -/
theorem drop_twelve_wire :
    m.wire.drop 12 = m.middle ++ recordsWire m.additional := by
  have header :
      (m.headerFront ++ toBeBytes 2 m.additional.length).length = 12 := by
    simp
  rw [Message.wire, List.append_assoc, ← header, List.drop_left]

/-- The count at offset ten is the number of additional records. -/
theorem u16At_ten_wire :
    u16At m.wire 10 = m.additional.length := by
  have read :=
    u16At_append m.headerFront (m.middle ++ recordsWire m.additional)
      m.additionalFits
  rwa [m.length_headerFront, ← List.append_assoc, ← List.append_assoc] at read

end Wire

/-- The end of the message is the OPT record up to its RDLENGTH. -/
theorem wire_of_last
    {m : Message}
    {front : List Record}
    {opt : OptRecord}
    (last : m.additional = front ++ [Record.opt opt])
    (empty : opt.options = []) :
    m.wire =
      m.headerFront ++ toBeBytes 2 m.additional.length ++ m.middle ++
        recordsWire front ++ opt.frontWire ++ toBeBytes 2 0 := by
  have wire :
      recordsWire m.additional =
        recordsWire front ++ (opt.frontWire ++ toBeBytes 2 0) := by
    rw [last, recordsWire_append]
    simp [recordsWire, Record.wire, OptRecord.wire, empty, optionsWire]
  rw [Message.wire, wire]
  simp only [List.append_assoc]

/-- An OPT record without options at the end is found. -/
theorem EndsInEmptyOpt.looksLikeOpt
    {m : Message}
    (ends : EndsInEmptyOpt m) :
    LooksLikeOpt m.wire := by
  obtain ⟨front, opt, last, empty⟩ := ends
  have wire := wire_of_last last empty
  have behind :
      12 ≤ (m.headerFront ++ toBeBytes 2 m.additional.length ++ m.middle ++
        recordsWire front).length := by
    simp only [List.length_append, Message.length_headerFront,
      length_toBeBytes]
    omega
  generalize m.headerFront ++ toBeBytes 2 m.additional.length ++ m.middle ++
    recordsWire front = before at wire behind
  have split :
      m.wire =
        before ++ [0x00] ++ (toBeBytes 2 41 ++ (u16Wire opt.payload ++
          toBeBytes 4 opt.flags.toNat ++ toBeBytes 2 0)) := by
    rw [wire, OptRecord.frontWire]
    simp only [List.append_assoc]
    rfl
  have start : m.wire.length - edns0HeaderLen = before.length := by
    rw [wire, edns0HeaderLen]
    simp
  refine ⟨?_, ?_, ?_⟩
  · rw [edns0HeaderLen]
    rw [edns0HeaderLen] at start
    omega
  · rw [start, split]
    simp
  · have read :=
      u16At_append (before ++ [0x00])
        (u16Wire opt.payload ++ toBeBytes 4 opt.flags.toNat ++ toBeBytes 2 0)
        (show 41 < 2 ^ 16 by decide)
    rw [List.length_append, ← split] at read
    rw [start]
    exact read

/-! ## Messages that end in a padding option -/

/-- The padding option: so many zero bytes. -/
def paddingOption (padLen : Nat) (small : padLen < 2 ^ 15) : EdnsOption where
  code := 12
  data := List.replicate padLen 0x00
  short := by
    rw [List.length_replicate]
    omega

/-- The padding option is the bytes the padding writes. -/
theorem paddingOption_wire (padLen : Nat) (small : padLen < 2 ^ 15) :
    (paddingOption padLen small).wire = paddingWire padLen := by
  rw [EdnsOption.wire, paddingOption, List.length_replicate]
  rfl

theorem length_paddingWire (padLen : Nat) :
    (paddingWire padLen).length = 4 + padLen := by
  simp only [paddingWire, List.length_append, length_toBeBytes,
    List.length_replicate]

/-- An OPT record whose only option is padding. -/
def paddedOpt
    (payload : UInt16)
    (flags : UInt32)
    (padLen : Nat)
    (small : padLen < 2 ^ 15) :
    OptRecord where
  payload := payload
  flags := flags
  options := [paddingOption padLen small]
  short := by
    rw [optionsWire, List.flatMap_singleton, paddingOption_wire,
      length_paddingWire]
    omega

/-- A padded OPT record is its fixed front, its length and the padding option.
-/
theorem paddedOpt_wire
    (payload : UInt16)
    (flags : UInt32)
    (padLen : Nat)
    (small : padLen < 2 ^ 15) :
    (paddedOpt payload flags padLen small).wire =
      (paddedOpt payload flags padLen small).frontWire ++
        (toBeBytes 2 (4 + padLen) ++ paddingWire padLen) := by
  have options :
      optionsWire (paddedOpt payload flags padLen small).options =
        paddingWire padLen := by
    rw [optionsWire, paddedOpt, List.flatMap_singleton, paddingOption_wire]
  rw [OptRecord.wire, options, length_paddingWire, List.append_assoc]

/-- The front of a new OPT record is the constant that the padding appends. -/
theorem frontWire_newOpt (padLen : Nat) (small : padLen < 2 ^ 15) :
    (paddedOpt 4096 0 padLen small).frontWire = newOptFront := by
  simp only [OptRecord.frontWire, paddedOpt]
  decide

namespace Message

/-- The message with other additional records, the last one an OPT. -/
def endingIn
    (m : Message)
    (front : List Record)
    (opt : OptRecord)
    (fits : front.length + 1 < 2 ^ 16)
    (noOpt : front.filterMap Record.opt? = [])
    (back :
      PointersBack (minDnsLen + m.question.wire.length)
        (m.answers.map .plain ++ m.authority.map .plain ++ front)) :
    Message where
  id := m.id
  flags := m.flags
  question := m.question
  answers := m.answers
  authority := m.authority
  additional := front ++ [.opt opt]
  answersFit := m.answersFit
  authorityFits := m.authorityFits
  additionalFits := by
    rw [List.length_append]
    exact fits
  oneOpt := by
    rw [List.filterMap_append, noOpt]
    exact Nat.le_refl 1
  pointersBack := by
    rw [← List.append_assoc]
    exact (pointersBack_append_opt _ _ opt).mpr back

section EndingIn

variable
  {m : Message}
  {front : List Record}
  {opt : OptRecord}
  (fits : front.length + 1 < 2 ^ 16)
  (noOpt : front.filterMap Record.opt? = [])
  (back :
    PointersBack (minDnsLen + m.question.wire.length)
      (m.answers.map .plain ++ m.authority.map .plain ++ front))

/-- A message whose additional section ends in an OPT record, byte by byte. -/
theorem wire_endingIn :
    (m.endingIn front opt fits noOpt back).wire =
      m.headerFront ++ (toBeBytes 2 (front.length + 1) ++ (m.middle ++
        (recordsWire front ++ opt.wire))) := by
  have records :
      recordsWire (front ++ [.opt opt]) = recordsWire front ++ opt.wire := by
    rw [recordsWire_append]
    simp [recordsWire, Record.wire]
  have count : (front ++ [Record.opt opt]).length = front.length + 1 := by
    simp
  rw [← records, ← count]
  simp only [wire, List.append_assoc]
  rfl

/-- Only a padding option has come to it. -/
theorem paddedAs_endingIn
    {payload : UInt16}
    {flags : UInt32}
    {padLen : Nat}
    (small : padLen < 2 ^ 15)
    (plains : front.filterMap Record.plain? = m.plainAdditional)
    (noOptions : m.options = []) :
    PaddedAs m
      (m.endingIn front (paddedOpt payload flags padLen small) fits noOpt
        back) := by
  have opts :
      (m.endingIn front (paddedOpt payload flags padLen small) fits noOpt
        back).opts = [paddedOpt payload flags padLen small] := by
    rw [Message.opts, endingIn, List.filterMap_append, noOpt]
    rfl
  exact
    { id := rfl
      flags := rfl
      question := rfl
      answers := rfl
      authority := rfl
      plainAdditional := by
        rw [Message.plainAdditional, endingIn, List.filterMap_append, plains]
        exact List.append_nil _
      oneOpt := by
        rw [opts]
        rfl
      options := by
        refine ⟨paddingOption padLen small, rfl, ?_⟩
        rw [noOptions, Message.options, opts]
        rfl }

end EndingIn

end Message

/-! ## An OPT record is appended -/

section Padded

variable {m padded : Message}

/-- A message padded in the right way has the same front. -/
theorem PaddedAs.wire_eq (same : PaddedAs m padded) :
    padded.wire =
      m.headerFront ++ (toBeBytes 2 padded.additional.length ++ (m.middle ++
        recordsWire padded.additional)) := by
  simp only [Message.wire, Message.headerFront, Message.middle, same.id,
    same.flags, same.question, same.answers, same.authority,
    List.append_assoc]

/-- Padding leaves one OPT record beside the plain records. -/
theorem PaddedAs.length_additional (same : PaddedAs m padded) :
    padded.additional.length = m.plainAdditional.length + 1 := by
  rw [← length_filterMap_plain_add_opt padded.additional,
    ← Message.plainAdditional, ← Message.opts, same.plainAdditional,
    same.oneOpt]

theorem Message.length_additional (m : Message) :
    m.additional.length = m.plainAdditional.length + m.opts.length :=
  (length_filterMap_plain_add_opt m.additional).symm

/-- A short message has few records. -/
theorem Message.additional_lt
    (m : Message)
    (short : m.wire.length < 128) :
    m.additional.length + 1 < 2 ^ 16 := by
  have records := length_le_recordsWire m.additional
  rw [m.length_wire] at short
  omega

end Padded

/-- A message without a recognised OPT record gets one appended. -/
theorem padQuery_wire_append
    {m : Message}
    (plain : ¬ LooksLikeOpt m.wire)
    (room : m.wire.length + (11 + 4) < 128) :
    padQuery m.wire 128 =
      (m.headerFront ++ (toBeBytes 2 (m.additional.length + 1) ++ (m.middle ++
          (recordsWire m.additional ++
            (paddedOpt 4096 0 (128 - (m.wire.length + (11 + 4)))
              (by omega)).wire))),
        true) := by
  have few := m.additional_lt (by omega)
  rw [padQuery_append plain room, take_ten_wire, drop_twelve_wire,
    u16At_ten_wire, Nat.mod_eq_of_lt few, Nat.mod_eq_of_lt (by omega),
    paddedOpt_wire, frontWire_newOpt]
  simp only [List.append_assoc]

/-- An appended OPT record is right if there was none. -/
theorem preservesMeaning_append_iff
    {m : Message}
    (plain : ¬ LooksLikeOpt m.wire)
    (room : m.wire.length + (11 + 4) < 128) :
    PreservesMeaning m ↔ m.opts = [] := by
  have few := m.additional_lt (by omega)
  have out := padQuery_wire_append plain room
  rw [PreservesMeaning, out, if_pos rfl]
  constructor
  · rintro ⟨padded, wire, same⟩
    rw [same.wire_eq] at wire
    have counts :=
      List.append_inj_left (List.append_cancel_left wire) (by simp)
    have count := toBeBytes_two_inj padded.additionalFits few counts
    rw [same.length_additional, m.length_additional] at count
    exact List.eq_nil_of_length_eq_zero (by omega)
  · intro none
    have noOptions : m.options = [] := by
      rw [Message.options, none]
      rfl
    exact
      ⟨m.endingIn m.additional _ few none m.pointersBack,
        Message.wire_endingIn few none m.pointersBack,
        Message.paddedAs_endingIn few none m.pointersBack _ rfl noOptions⟩

/-! ## The option is put behind the end -/

/-- An empty OPT record at the end gets the padding as its option. -/
theorem padQuery_wire_opt
    {m : Message}
    {front : List Record}
    {opt : OptRecord}
    (last : m.additional = front ++ [Record.opt opt])
    (empty : opt.options = [])
    (room : m.wire.length + 4 < 128) :
    padQuery m.wire 128 =
      (m.headerFront ++ (toBeBytes 2 (front.length + 1) ++ (m.middle ++
          (recordsWire front ++
            (paddedOpt opt.payload opt.flags (128 - (m.wire.length + 4))
              (by omega)).wire))),
        true) := by
  have wire := wire_of_last last empty
  have rdlength :
      m.wire.length - 2 =
        (m.headerFront ++ toBeBytes 2 m.additional.length ++ m.middle ++
          recordsWire front ++ opt.frontWire).length := by
    rw [wire, List.length_append, length_toBeBytes, Nat.add_sub_cancel]
  have count : m.additional.length = front.length + 1 := by
    rw [last, List.length_append]
    rfl
  have old : u16At m.wire (m.wire.length - 2) = 0 := by
    have read :=
      u16At_append
        (m.headerFront ++ toBeBytes 2 m.additional.length ++ m.middle ++
          recordsWire front ++ opt.frontWire) [] (show 0 < 2 ^ 16 by decide)
    rwa [List.append_nil, ← wire, ← rdlength] at read
  have kept :
      m.wire.take (m.wire.length - 2) =
        m.headerFront ++ toBeBytes 2 m.additional.length ++ m.middle ++
          recordsWire front ++ opt.frontWire := by
    rw [rdlength, wire, List.take_left]
  have looks := EndsInEmptyOpt.looksLikeOpt ⟨front, opt, last, empty⟩
  rw [padQuery_opt looks room, old, kept, Nat.zero_add,
    Nat.mod_eq_of_lt (by omega), paddedOpt_wire, count]
  simp only [List.append_assoc]
  rfl

/-- A padding option is right behind an OPT record without options. -/
theorem preservesMeaning_of_endsInEmptyOpt
    {m : Message}
    (ends : EndsInEmptyOpt m)
    (room : m.wire.length + 4 < 128) :
    PreservesMeaning m := by
  obtain ⟨front, opt, last, empty⟩ := ends
  have noOpt : front.filterMap Record.opt? = [] := by
    have one := m.oneOpt
    rw [last, List.filterMap_append, List.length_append] at one
    exact List.eq_nil_of_length_eq_zero (Nat.le_zero.mp (Nat.le_of_succ_le_succ one))
  have fits : front.length + 1 < 2 ^ 16 := by
    have := m.additionalFits
    rwa [last, List.length_append] at this
  have back :
      PointersBack (minDnsLen + m.question.wire.length)
        (m.answers.map .plain ++ m.authority.map .plain ++ front) := by
    have := m.pointersBack
    rw [last, ← List.append_assoc] at this
    exact (pointersBack_append_opt _ _ opt).mp this
  have plains : front.filterMap Record.plain? = m.plainAdditional := by
    rw [Message.plainAdditional, last, List.filterMap_append]
    exact (List.append_nil _).symm
  have noOptions : m.options = [] := by
    rw [Message.options, Message.opts, last, List.filterMap_append, noOpt]
    exact (List.append_nil _).trans empty
  rw [PreservesMeaning, padQuery_wire_opt last empty room, if_pos rfl]
  exact
    ⟨m.endingIn front _ fits noOpt back,
      Message.wire_endingIn fits noOpt back,
      Message.paddedAs_endingIn fits noOpt back _ plains noOptions⟩

/-! ## The guess is wrong -/

theorem EdnsOption.four_le_length_wire (option : EdnsOption) :
    4 ≤ option.wire.length := by
  simp only [wire, List.length_append, length_u16Wire, length_toBeBytes]
  omega

theorem eq_nil_of_optionsWire
    {options : List EdnsOption}
    (short : (optionsWire options).length < 4) :
    options = [] := by
  cases options with
  | nil =>
      rfl
  | cons option rest =>
      have := option.four_le_length_wire
      rw [optionsWire, List.flatMap_cons, List.length_append] at short
      omega

theorem eq_nil_of_recordsWire
    {records : List Record}
    (short : (recordsWire records).length < 11) :
    records = [] := by
  have := length_le_recordsWire records
  exact List.eq_nil_of_length_eq_zero (by omega)

/-- Bytes with a common front have every shorter front in common. -/
theorem take_of_take_eq
    {first second : Bytes}
    {count shorter : Nat}
    (same : first.take count = second.take count)
    (le : shorter ≤ count) :
    first.take shorter = second.take shorter := by
  have front := congrArg (List.take shorter) same
  rwa [List.take_take, List.take_take, Nat.min_eq_left le] at front

/--
Two OPT records that agree up to the RDLENGTH have options of the same size.
-/
theorem length_optionsWire_of_agree
    {first second : OptRecord}
    {firstRest secondRest : Bytes}
    (same :
      (first.wire ++ firstRest).take 11 = (second.wire ++ secondRest).take 11) :
    (optionsWire first.options).length =
      (optionsWire second.options).length := by
  have front (opt : OptRecord) (rest : Bytes) :
      (opt.wire ++ rest).take 11 =
        opt.frontWire ++ toBeBytes 2 (optionsWire opt.options).length := by
    rw [OptRecord.wire, List.append_assoc]
    exact List.take_left' (by simp)
  rw [front, front] at same
  exact toBeBytes_two_inj first.short second.short
    (List.append_inj_right same (by simp))

/--
OPT records that agree but for two bytes at the end, one with an option more
than the other, leave no room for options or for records behind them.
-/
theorem short_of_agree
    {opt longer : OptRecord}
    {padding : EdnsOption}
    {rest otherRest : Bytes}
    (more : longer.options = opt.options ++ [padding])
    (agree :
      (longer.wire ++ otherRest).take ((opt.wire ++ rest).length - 2) =
        (opt.wire ++ rest).take ((opt.wire ++ rest).length - 2)) :
    (optionsWire opt.options).length + rest.length < 2 := by
  by_contra behind
  have eleven :
      (longer.wire ++ otherRest).take 11 = (opt.wire ++ rest).take 11 := by
    refine take_of_take_eq agree ?_
    simp only [OptRecord.wire, List.length_append, length_toBeBytes,
      OptRecord.length_frontWire]
    omega
  have size := length_optionsWire_of_agree eleven
  have option := padding.four_le_length_wire
  rw [more, optionsWire, List.flatMap_append, List.length_append,
    List.flatMap_singleton, ← optionsWire] at size
  omega

/--
If the records of two messages agree but for two bytes at the end, and the OPT
record of the second has an option more, then the first one ends in an OPT
record without options.
-/
theorem endsInEmptyOpt_of_agree
    {first second : List Record}
    {opt longer : OptRecord}
    {padding : EdnsOption}
    (firstOpts : first.filterMap Record.opt? = [opt])
    (secondOpts : second.filterMap Record.opt? = [longer])
    (more : longer.options = opt.options ++ [padding])
    (plains :
      second.filterMap Record.plain? = first.filterMap Record.plain?)
    (agree :
      (recordsWire second).take ((recordsWire first).length - 2) =
        (recordsWire first).take ((recordsWire first).length - 2)) :
    ∃ front, first = front ++ [.opt opt] ∧ opt.options = [] := by
  -- both lists are walked until the first OPT record of either
  induction first generalizing second with
  | nil =>
      cases firstOpts
  | cons record rest inductionHypothesis =>
      obtain _ | ⟨other, otherRest⟩ := second
      · cases secondOpts
      have long := record.eleven_le_length_wire
      have three :
          (other.wire ++ recordsWire otherRest).take 3 =
            (record.wire ++ recordsWire rest).take 3 := by
        refine take_of_take_eq agree ?_
        rw [recordsWire_cons, List.length_append]
        omega
      have otherLong := other.eleven_le_length_wire
      rw [List.take_append_of_le_length (by omega),
        List.take_append_of_le_length (by omega)] at three
      cases record with
      | plain record =>
          cases other with
          | opt other =>
              exact absurd three.symm record.take_three_wire
          | plain other =>
              simp only [List.filterMap_cons, Record.opt?, Record.plain?,
                List.cons.injEq] at firstOpts secondOpts plains
              obtain ⟨rfl, plains⟩ := plains
              have restLong : 2 ≤ (recordsWire rest).length := by
                have one := List.length_filterMap_le Record.opt? rest
                have records := length_le_recordsWire rest
                rw [firstOpts, List.length_singleton] at one
                omega
              rw [recordsWire_cons, recordsWire_cons, List.length_append,
                Nat.add_sub_assoc restLong, List.take_length_add_append,
                List.take_length_add_append] at agree
              obtain ⟨front, last, empty⟩ :=
                inductionHypothesis firstOpts secondOpts plains
                  (List.append_cancel_left agree)
              exact ⟨.plain other :: front, by rw [last]; rfl, empty⟩
      | opt record =>
          cases other with
          | plain other =>
              exact absurd three other.take_three_wire
          | opt other =>
              simp only [List.filterMap_cons, Record.opt?,
                List.cons.injEq] at firstOpts secondOpts
              obtain ⟨rfl, -⟩ := firstOpts
              obtain ⟨rfl, -⟩ := secondOpts
              have short :
                  (optionsWire record.options).length +
                    (recordsWire rest).length < 2 :=
                short_of_agree more agree
              have noRest : rest = [] := eq_nil_of_recordsWire (by omega)
              exact
                ⟨[], by rw [noRest]; rfl, eq_nil_of_optionsWire (by omega)⟩

section Kept

variable {m padded : Message} {count : Nat}

/-- The wire form of a message, as one front behind another. -/
theorem Message.wire_eq (m : Message) :
    m.wire =
      m.headerFront ++ (toBeBytes 2 m.additional.length ++ (m.middle ++
        recordsWire m.additional)) := by
  simp only [Message.wire, List.append_assoc]

/-- A kept header has a kept count. -/
theorem PaddedAs.length_of_take
    (same : PaddedAs m padded)
    (kept : padded.wire.take count = m.wire.take count)
    (header : 10 + 2 ≤ count) :
    padded.additional.length = m.additional.length := by
  have counts := take_of_take_eq kept header
  rw [same.wire_eq, m.wire_eq, ← m.length_headerFront,
    List.take_length_add_append, List.take_length_add_append] at counts
  have fields := List.append_cancel_left counts
  rw [List.take_left' (by simp), List.take_left' (by simp)] at fields
  exact toBeBytes_two_inj padded.additionalFits m.additionalFits fields

/-- Behind a kept front the records agree as far as the bytes do. -/
theorem PaddedAs.records_of_take
    (same : PaddedAs m padded)
    (sameLength : padded.additional.length = m.additional.length)
    (kept :
      padded.wire.take (minDnsLen + m.middle.length + count) =
        m.wire.take (minDnsLen + m.middle.length + count)) :
    (recordsWire padded.additional).take count =
      (recordsWire m.additional).take count := by
  have boundary :
      minDnsLen + m.middle.length =
        (m.headerFront ++ (toBeBytes 2 m.additional.length ++
          m.middle)).length := by
    simp only [List.length_append, m.length_headerFront, length_toBeBytes,
      minDnsLen]
    omega
  have split (records : List Record) :
      m.headerFront ++ (toBeBytes 2 m.additional.length ++ (m.middle ++
          recordsWire records)) =
        m.headerFront ++ (toBeBytes 2 m.additional.length ++ m.middle) ++
          recordsWire records := by
    simp only [List.append_assoc]
  rw [boundary, same.wire_eq, sameLength, m.wire_eq, split, split,
    List.take_length_add_append, List.take_length_add_append] at kept
  exact List.append_cancel_left kept

end Kept

/-- The guess is right only about an OPT record that ends the message. -/
theorem endsInEmptyOpt_of_preservesMeaning
    {m : Message}
    (looks : LooksLikeOpt m.wire)
    (room : m.wire.length + 4 < 128)
    (preserved : PreservesMeaning m) :
    EndsInEmptyOpt m := by
  have size := m.length_wire
  have middle := m.five_le_length_middle
  rw [PreservesMeaning, padQuery_opt looks room, if_pos rfl] at preserved
  obtain ⟨padded, wire, same⟩ := preserved
  -- everything but the last two bytes of the query is still there
  have kept :
      padded.wire.take (m.wire.length - 2) =
        m.wire.take (m.wire.length - 2) := by
    rw [wire, List.append_assoc]
    exact List.take_left' (by rw [List.length_take]; omega)
  have sameLength : padded.additional.length = m.additional.length := by
    refine same.length_of_take kept ?_
    rw [minDnsLen] at size
    omega
  have one : m.opts.length = 1 := by
    have counted := same.length_additional
    rw [sameLength, m.length_additional] at counted
    omega
  obtain ⟨opt, isOpt⟩ := List.length_eq_one_iff.mp one
  obtain ⟨longer, isLonger⟩ := List.length_eq_one_iff.mp same.oneOpt
  obtain ⟨padding, -, options⟩ := same.options
  have more : longer.options = opt.options ++ [padding] := by
    rw [Message.options, Message.options, isOpt, isLonger] at options
    simpa using options
  have records : 2 ≤ (recordsWire m.additional).length := by
    have := length_le_recordsWire m.additional
    rw [m.length_additional, one] at this
    omega
  rw [size, Nat.add_sub_assoc records] at kept
  obtain ⟨front, last, empty⟩ :=
    endsInEmptyOpt_of_agree isOpt isLonger more same.plainAdditional
      (same.records_of_take sameLength kept)
  exact ⟨front, opt, last, empty⟩

/--
Padding preserves what a message says exactly if it has no room for padding,
if it has no OPT record and its last bytes do not look like one, or if it ends
in an OPT record without options.
-/
theorem preservesMeaning_iff (m : Message) :
    PreservesMeaning m ↔
      128 ≤ m.wire.length + padOverhead m.wire ∨
        (m.opts = [] ∧ ¬ LooksLikeOpt m.wire) ∨
        EndsInEmptyOpt m := by
  by_cases full : 128 ≤ m.wire.length + padOverhead m.wire
  · simp only [full, true_or, iff_true]
    rw [PreservesMeaning, padQuery_full full]
    simp only [Bool.false_eq_true, if_false]
  · simp only [full, false_or]
    have room := Nat.not_le.mp full
    by_cases looks : LooksLikeOpt m.wire
    · rw [padOverhead, if_pos looks] at room
      simp only [looks, not_true, and_false, false_or]
      exact
        ⟨endsInEmptyOpt_of_preservesMeaning looks room,
          fun ends => preservesMeaning_of_endsInEmptyOpt ends room⟩
    · rw [padOverhead, if_neg looks] at room
      have notLast : ¬ EndsInEmptyOpt m := fun ends =>
        looks ends.looksLikeOpt
      simp only [looks, not_false_eq_true, and_true, notLast, or_false]
      exact preservesMeaning_append_iff looks room

/-- A DNS cookie, an option that clients send. -/
def cookieOption : EdnsOption where
  code := 10
  data := [1, 2, 3, 4, 5, 6, 7, 8]
  short := by decide

/-- A query for the addresses of the name `a` with a cookie. -/
def cookieQuery : Message where
  id := 0x1234
  flags := 0x0100
  question := ⟨[⟨[0x61], by decide, by decide⟩], 1, 1⟩
  answers := []
  authority := []
  additional := [.opt ⟨1232, 0, [cookieOption], by decide⟩]
  answersFit := by decide
  authorityFits := by decide
  additionalFits := by decide
  oneOpt := by decide
  pointersBack := ⟨trivial, trivial⟩

/-- A query whose OPT record carries a cookie gets a second OPT record. -/
theorem not_preservesMeaning_cookieQuery :
    ¬ ∀ m, PreservesMeaning m := by
  intro always
  have plain : ¬ LooksLikeOpt cookieQuery.wire := by
    decide
  have none :=
    (preservesMeaning_append_iff plain (by decide)).mp (always cookieQuery)
  cases none

end DnsServices.Dns
