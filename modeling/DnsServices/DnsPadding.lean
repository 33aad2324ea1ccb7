import DnsServices.Checked
import DnsServices.DnsMessage

namespace DnsServices.Dns

/-!
# EDNS0 padding

`pad_query` does not parse the query.  If the last eleven bytes look like an
OPT record without options it puts the padding option behind them, else it
appends an OPT record of its own.  This module says what comes out in each
case, and when that is what padding is for: full blocks, exact counts and a
message that means the same.
-/

/-- What `pad_query` takes for an OPT record at the end. -/
def LooksLikeOpt (buf : Bytes) : Prop :=
  buf.length ≥ edns0HeaderLen + 4 ∧
    buf.getD (buf.length - edns0HeaderLen) 0 = 0x00 ∧
    u16At buf (buf.length - edns0HeaderLen + 1) = 41

instance (buf : Bytes) : Decidable (LooksLikeOpt buf) :=
  inferInstanceAs (Decidable (_ ∧ _ ∧ _))

/-- The bytes that padding adds besides the padding itself. -/
def padOverhead (buf : Bytes) : Nat :=
  if LooksLikeOpt buf then 4 else 11 + 4

/-- The option that fills a block. -/
def paddingWire (padLen : Nat) : Bytes :=
  toBeBytes 2 edns0OptPad ++ toBeBytes 2 padLen ++ List.replicate padLen 0x00

/-- The front of the OPT record that `pad_query` appends. -/
def newOptFront : Bytes :=
  [0x00] ++ toBeBytes 2 41 ++ toBeBytes 2 4096 ++ [0x00, 0x00, 0x00, 0x00]

section Cases

variable {buf : Bytes} {blockSize : Nat}

/-- A query that does not fit a block with the overhead stays as it is. -/
theorem padQuery_full
    (full : blockSize ≤ buf.length + padOverhead buf) :
    padQuery buf blockSize = (buf, false) := by
  rw [padQuery]
  split
  · rfl
  · exact if_pos full

/-- Behind an apparent OPT record the option is added to it. -/
theorem padQuery_opt
    (looks : LooksLikeOpt buf)
    (room : buf.length + 4 < blockSize) :
    padQuery buf blockSize =
      (buf.take (buf.length - 2) ++
          toBeBytes 2
            ((u16At buf (buf.length - 2) + 4 +
              (blockSize - (buf.length + 4))) % 2 ^ 16) ++
          paddingWire (blockSize - (buf.length + 4)),
        true) := by
  have early : ¬ (blockSize = 0 ∨ buf.length ≥ blockSize) := by
    omega
  have hasEdns0 :
      buf.length ≥ edns0HeaderLen + 4 ∧
        buf.getD (buf.length - edns0HeaderLen) 0 = 0x00 ∧
        u16At buf (buf.length - edns0HeaderLen + 1) = 41 :=
    looks
  rw [padQuery, if_neg early]
  simp only [if_pos hasEdns0, if_neg (Nat.not_le.mpr room)]
  rfl

/-- Otherwise an OPT record with the option is appended. -/
theorem padQuery_append
    (plain : ¬ LooksLikeOpt buf)
    (room : buf.length + (11 + 4) < blockSize) :
    padQuery buf blockSize =
      (buf.take 10 ++ toBeBytes 2 ((u16At buf 10 + 1) % 2 ^ 16) ++
          buf.drop 12 ++ newOptFront ++
          toBeBytes 2 ((4 + (blockSize - (buf.length + (11 + 4)))) % 2 ^ 16) ++
          paddingWire (blockSize - (buf.length + (11 + 4))),
        true) := by
  have early : ¬ (blockSize = 0 ∨ buf.length ≥ blockSize) := by
    omega
  have noEdns0 :
      ¬ (buf.length ≥ edns0HeaderLen + 4 ∧
        buf.getD (buf.length - edns0HeaderLen) 0 = 0x00 ∧
        u16At buf (buf.length - edns0HeaderLen + 1) = 41) :=
    plain
  rw [padQuery, if_neg early]
  simp only [if_neg noEdns0, if_neg (Nat.not_le.mpr room), newOptFront,
    paddingWire, List.append_assoc]

end Cases

/-! ## Full blocks -/

/-- A padded query fills its block. -/
theorem length_padQuery
    {buf : Bytes}
    {blockSize : Nat}
    (long : minDnsLen ≤ buf.length)
    (room : buf.length + padOverhead buf < blockSize) :
    (padQuery buf blockSize).1.length = blockSize := by
  rw [minDnsLen] at long
  by_cases looks : LooksLikeOpt buf
  · rw [padOverhead, if_pos looks] at room
    rw [padQuery_opt looks room]
    simp only [paddingWire, List.length_append, List.length_take,
      List.length_replicate, length_toBeBytes]
    omega
  · rw [padOverhead, if_neg looks] at room
    rw [padQuery_append looks room]
    simp only [paddingWire, newOptFront, List.length_append, List.length_take,
      List.length_drop, List.length_replicate, length_toBeBytes,
      List.length_cons, List.length_nil]
    omega

/-- The length after padding is a full number of blocks, and no byte is lost. -/
def FillsBlocks (buf : Bytes) (blockSize : Nat) : Prop :=
  blockSize ∣ (padQuery buf blockSize).1.length ∧
    buf.length ≤ (padQuery buf blockSize).1.length

/--
Padding makes full blocks exactly of a query that has full blocks already or
that fits one block with the overhead.
-/
theorem fillsBlocks_iff
    (buf : Bytes)
    (blockSize : Nat)
    (valid : validateQuery buf = .ok ()) :
    FillsBlocks buf blockSize ↔
      blockSize ∣ buf.length ∨ buf.length + padOverhead buf < blockSize := by
  by_cases room : buf.length + padOverhead buf < blockSize
  · rw [FillsBlocks, length_padQuery (length_of_validateQuery valid) room]
    simp only [room, or_true, iff_true]
    exact ⟨Nat.dvd_refl blockSize, by omega⟩
  · rw [FillsBlocks, padQuery_full (Nat.not_lt.mp room)]
    simp only [room, or_false, Nat.le_refl, and_true]

/-- A query for a name of 102 bytes. -/
def longNameQuery : Bytes :=
  [0x12, 0x34, 1, 0, 0, 1, 0, 0, 0, 0, 0, 0] ++
    50 :: List.replicate 50 0x61 ++ 50 :: List.replicate 50 0x61 ++
    [0, 0, 1, 0, 1]

/-- For a query with a long name the condition comes down to its length. -/
theorem fillsBlocks_longNameQuery :
    FillsBlocks longNameQuery 256 ↔
      256 ∣ longNameQuery.length ∨
        longNameQuery.length + padOverhead longNameQuery < 256 :=
  fillsBlocks_iff longNameQuery 256 (by decide +kernel)

/-- The long-name query is one that block padding leaves unpadded. -/
theorem not_fillsBlocks_longNameQuery :
    ¬ ∀ buf blockSize,
      validateQuery buf = .ok () →
      16 ≤ blockSize →
      FillsBlocks buf blockSize := by
  intro always
  have divides :=
    (always longNameQuery 128 (by decide +kernel) (by decide)).1
  rw [padQuery_full (by decide +kernel)] at divides
  exact absurd divides (by decide +kernel)

/-! ## Exact sums -/

namespace Machine

/-- `u16::from_be_bytes([buf[offset], buf[offset + 1]])` -/
def u16At (buf : Bytes) (offset : Nat) : Option Nat := do
  let high ← Checked.index buf offset
  let low ← Checked.index buf (offset + 1)
  some (high.toNat * 256 + low.toNat)

/-- Write the two bytes of a number. -/
def setU16 (buf : Bytes) (offset value : Nat) : Option Bytes := do
  let buf ← Checked.set buf offset (UInt8.ofNat (value >>> 8))
  Checked.set buf (offset + 1) (UInt8.ofNat (value &&& 0xFF))

/-- The check for an OPT record at the end of the message. -/
def hasEdns0 (buf : Bytes) : Option Bool :=
  if buf.length ≥ edns0HeaderLen + 4 then do
    let start ← Checked.sub buf.length edns0HeaderLen
    let name ← Checked.index buf start
    if name = 0x00 then do
      let type ← u16At buf (start + 1)
      some (type = 41)
    else
      some false
  else
    some false

/-- `pad_query` with every sum, difference and index checked. -/
def padQuery (buf : Bytes) (blockSize : Nat) : Option (Bytes × Bool) :=
  if blockSize = 0 ∨ buf.length ≥ blockSize then
    some (buf, false)
  else do
    let edns0 ← hasEdns0 buf
    let current ← Checked.add 64 buf.length (if edns0 then 4 else 11 + 4)
    if current ≥ blockSize then
      some (buf, false)
    else do
      let padLen ← Checked.sub blockSize current
      -- `pad_len as u16` drops the high bits and does not fault
      let padWord := padLen % 2 ^ 16
      if edns0 then do
        let rdlenOffset ← Checked.sub buf.length 2
        let oldRdlen ← u16At buf rdlenOffset
        let sum ← Checked.add 16 oldRdlen 4
        let newRdlen ← Checked.add 16 sum padWord
        let buf ← setU16 buf rdlenOffset newRdlen
        some
          (buf ++ toBeBytes 2 edns0OptPad ++ toBeBytes 2 padWord ++
              List.replicate padLen 0x00,
            true)
      else do
        let arcount ← u16At buf 10
        let newArcount ← Checked.add 16 arcount 1
        let buf ← setU16 buf 10 newArcount
        let rdlen ← Checked.add 16 4 padWord
        some
          (buf ++ newOptFront ++ toBeBytes 2 rdlen ++
              toBeBytes 2 edns0OptPad ++ toBeBytes 2 padWord ++
              List.replicate padLen 0x00,
            true)

/-- The checked 16-bit read inside the buffer is the plain read. -/
theorem u16At_eq
    {buf : Bytes}
    {offset : Nat}
    (inside : offset + 1 < buf.length) :
    u16At buf offset = some (Dns.u16At buf offset) := by
  rw [u16At, Checked.index_eq (Nat.lt_of_succ_lt inside) 0,
    Checked.index_eq inside 0]
  rfl

/-- Two adjacent byte writes replace the two bytes and nothing around them. -/
theorem set_set_eq
    {buf : Bytes}
    {offset : Nat}
    (inside : offset + 1 < buf.length)
    (high low : UInt8) :
    (buf.set offset high).set (offset + 1) low =
      buf.take offset ++ [high, low] ++ buf.drop (offset + 2) := by
  induction offset generalizing buf with
  | zero =>
      obtain _ | ⟨a, _ | ⟨b, rest⟩⟩ := buf
      · cases inside
      · simp at inside
      · rfl
  | succ offset inductionHypothesis =>
      obtain _ | ⟨first, rest⟩ := buf
      · cases inside
      · have tail := inductionHypothesis (Nat.lt_of_succ_lt_succ inside)
        simp only [List.set_cons_succ, tail, List.take_succ_cons,
          List.drop_succ_cons, List.cons_append]

/-- Two bytes are replaced and the others stay. -/
theorem setU16_eq
    {buf : Bytes}
    {offset : Nat}
    (inside : offset + 1 < buf.length)
    (value : Nat) :
    setU16 buf offset value =
      some (buf.take offset ++ toBeBytes 2 value ++ buf.drop (offset + 2)) := by
  have low : UInt8.ofNat (value &&& 0xFF) = UInt8.ofNat value := by
    apply UInt8.toNat_inj.mp
    rw [UInt8.toNat_ofNat', UInt8.toNat_ofNat',
      Nat.and_two_pow_sub_one_eq_mod value 8, Nat.mod_mod]
  rw [setU16, Checked.set_eq (Nat.lt_of_succ_lt inside)]
  simp only [Option.bind_eq_bind, Option.bind_some]
  rw [Checked.set_eq (by simpa using inside), low, set_set_eq inside]
  rfl

/-- The checked test for an OPT record never reads outside the buffer. -/
theorem hasEdns0_eq (buf : Bytes) :
    hasEdns0 buf = some (decide (LooksLikeOpt buf)) := by
  rw [hasEdns0]
  split
  next long =>
    rw [edns0HeaderLen] at long
    rw [Checked.sub_eq (by rw [edns0HeaderLen]; omega)]
    simp only [Option.bind_eq_bind, Option.bind_some]
    rw [Checked.index_eq (by rw [edns0HeaderLen]; omega) 0]
    simp only [Option.bind_some]
    split
    next root =>
      rw [u16At_eq (by rw [edns0HeaderLen]; omega)]
      simp only [Option.bind_some, Option.some.injEq, decide_eq_decide]
      exact ⟨fun type => ⟨long, root, type⟩, fun looks => looks.2.2⟩
    next notRoot =>
      rw [decide_eq_false fun looks => notRoot looks.2.1]
  next short =>
    rw [decide_eq_false fun looks => short looks.1]

/-- Without room nothing is computed that could fault. -/
theorem padQuery_full
    {buf : Bytes}
    (full : 128 ≤ buf.length + padOverhead buf) :
    padQuery buf 128 = some (buf, false) := by
  rw [padQuery]
  split
  · rfl
  next early =>
    have fits : buf.length + padOverhead buf < 2 ^ 64 := by
      rw [padOverhead]
      split <;> omega
    rw [padOverhead] at full fits
    rw [hasEdns0_eq]
    simp only [Option.bind_eq_bind, Option.bind_some, decide_eq_true_eq]
    rw [Checked.add_eq fits]
    simp only [Option.bind_some]
    exact if_pos full

/-- The option is put behind an OPT record if the new RDLENGTH fits. -/
theorem padQuery_opt
    {buf : Bytes}
    (looks : LooksLikeOpt buf)
    (room : buf.length + 4 < 128) :
    padQuery buf 128 =
      if Dns.u16At buf (buf.length - 2) + 4 + (128 - (buf.length + 4)) <
          2 ^ 16 then
        some (Dns.padQuery buf 128)
      else
        none := by
  have long := looks.1
  rw [edns0HeaderLen] at long
  have early : ¬ (128 = 0 ∨ buf.length ≥ 128) := by
    omega
  have word :
      (128 - (buf.length + 4)) % 2 ^ 16 = 128 - (buf.length + 4) := by
    omega
  rw [padQuery, if_neg early, hasEdns0_eq, decide_eq_true looks]
  simp only [Option.bind_eq_bind, Option.bind_some, if_true]
  rw [Checked.add_eq (by omega)]
  simp only [Option.bind_some, if_neg (Nat.not_le.mpr room)]
  rw [Checked.sub_eq (Nat.le_of_lt room)]
  simp only [Option.bind_some]
  rw [Checked.sub_eq (by omega)]
  simp only [Option.bind_some]
  rw [u16At_eq (by omega), word]
  simp only [Option.bind_some]
  split
  next fits =>
    rw [Checked.add_eq (by omega)]
    simp only [Option.bind_some]
    rw [Checked.add_eq fits]
    simp only [Option.bind_some]
    rw [setU16_eq (by omega), Dns.padQuery_opt looks room,
      Nat.mod_eq_of_lt fits, Nat.sub_add_cancel (by omega), List.drop_length]
    simp only [Option.bind_some, paddingWire, List.append_nil,
      List.append_assoc]
  next tooLarge =>
    by_cases half : Dns.u16At buf (buf.length - 2) + 4 < 2 ^ 16
    · rw [Checked.add_eq half]
      simp only [Option.bind_some]
      rw [Checked.add_eq_none (Nat.not_lt.mp tooLarge)]
      rfl
    · rw [Checked.add_eq_none (Nat.not_lt.mp half)]
      rfl

/-- An OPT record is appended if the new ARCOUNT fits. -/
theorem padQuery_append
    {buf : Bytes}
    (long : minDnsLen ≤ buf.length)
    (plain : ¬ LooksLikeOpt buf)
    (room : buf.length + (11 + 4) < 128) :
    padQuery buf 128 =
      if Dns.u16At buf 10 + 1 < 2 ^ 16 then
        some (Dns.padQuery buf 128)
      else
        none := by
  rw [minDnsLen] at long
  have early : ¬ (128 = 0 ∨ buf.length ≥ 128) := by
    omega
  have word :
      (128 - (buf.length + (11 + 4))) % 2 ^ 16 =
        128 - (buf.length + (11 + 4)) := by
    omega
  rw [padQuery, if_neg early, hasEdns0_eq, decide_eq_false plain]
  simp only [Option.bind_eq_bind, Option.bind_some, Bool.false_eq_true,
    if_false]
  rw [Checked.add_eq (by omega)]
  simp only [Option.bind_some, if_neg (Nat.not_le.mpr room)]
  rw [Checked.sub_eq (Nat.le_of_lt room)]
  simp only [Option.bind_some]
  rw [u16At_eq (by omega), word]
  simp only [Option.bind_some]
  split
  next fits =>
    rw [Checked.add_eq fits]
    simp only [Option.bind_some]
    rw [setU16_eq (by omega)]
    simp only [Option.bind_some]
    rw [Checked.add_eq (by omega), Dns.padQuery_append plain room,
      Nat.mod_eq_of_lt fits, Nat.mod_eq_of_lt (by omega)]
    simp only [Option.bind_some, paddingWire, List.append_assoc]
  next tooLarge =>
    rw [Checked.add_eq_none (Nat.not_lt.mp tooLarge)]
    rfl

end Machine

/-- Padding to 128 bytes runs without a fault and writes exact sums. -/
structure PadsExactly (buf : Bytes) : Prop where
  runs : Machine.padQuery buf 128 = some (padQuery buf 128)
  rdlength :
    LooksLikeOpt buf →
      buf.length + 4 < 128 →
        u16At (padQuery buf 128).1 (buf.length - 2) =
          u16At buf (buf.length - 2) + 4 + (128 - (buf.length + 4))
  arcount :
    ¬ LooksLikeOpt buf →
      buf.length + (11 + 4) < 128 →
        u16At (padQuery buf 128).1 10 = u16At buf 10 + 1
  newRdlength :
    ¬ LooksLikeOpt buf →
      buf.length + (11 + 4) < 128 →
        u16At (padQuery buf 128).1 (buf.length + 9) =
          4 + (128 - (buf.length + (11 + 4)))

/-- The number that grows fits its field. -/
def SumsFit (buf : Bytes) : Prop :=
  if LooksLikeOpt buf then
    u16At buf (buf.length - 2) + (128 - buf.length) < 2 ^ 16
  else
    u16At buf 10 + 1 < 2 ^ 16

instance (buf : Bytes) : Decidable (SumsFit buf) :=
  inferInstanceAs (Decidable (ite _ _ _))

/-- Exact sums with an OPT record at the end. -/
theorem padsExactly_opt_iff
    {buf : Bytes}
    (looks : LooksLikeOpt buf)
    (room : buf.length + 4 < 128) :
    PadsExactly buf ↔ SumsFit buf := by
  have sum :
      u16At buf (buf.length - 2) + (128 - buf.length) =
        u16At buf (buf.length - 2) + 4 + (128 - (buf.length + 4)) := by
    omega
  rw [SumsFit, if_pos looks, sum]
  have ran := Machine.padQuery_opt looks room
  constructor
  · intro pads
    by_contra tooLarge
    rw [pads.runs, if_neg tooLarge] at ran
    cases ran
  · intro fits
    refine ⟨?_, ?_, ?_, ?_⟩
    · rw [ran, if_pos fits]
    · intro _ _
      have size : (buf.take (buf.length - 2)).length = buf.length - 2 := by
        rw [List.length_take]
        omega
      have read :=
        u16At_append (buf.take (buf.length - 2))
          (paddingWire (128 - (buf.length + 4))) fits
      rw [size] at read
      rw [padQuery_opt looks room, Nat.mod_eq_of_lt fits, List.append_assoc]
      exact read
    · intro plain
      exact absurd looks plain
    · intro plain
      exact absurd looks plain

/-- Exact sums with an OPT record appended. -/
theorem padsExactly_append_iff
    {buf : Bytes}
    (long : minDnsLen ≤ buf.length)
    (plain : ¬ LooksLikeOpt buf)
    (room : buf.length + (11 + 4) < 128) :
    PadsExactly buf ↔ SumsFit buf := by
  rw [SumsFit, if_neg plain]
  have ran := Machine.padQuery_append long plain room
  rw [minDnsLen] at long
  constructor
  · intro pads
    by_contra tooLarge
    rw [pads.runs, if_neg tooLarge] at ran
    cases ran
  · intro fits
    have front : (buf.take 10).length = 10 := by
      rw [List.length_take]
      omega
    refine ⟨?_, ?_, ?_, ?_⟩
    · rw [ran, if_pos fits]
    · intro looks
      exact absurd looks plain
    · intro _ _
      have read := u16At_append (buf.take 10)
        (buf.drop 12 ++ (newOptFront ++
          (toBeBytes 2 ((4 + (128 - (buf.length + (11 + 4)))) % 2 ^ 16) ++
            paddingWire (128 - (buf.length + (11 + 4)))))) fits
      rw [front] at read
      rw [padQuery_append plain room, Nat.mod_eq_of_lt fits]
      simp only [List.append_assoc]
      exact read
    · intro _ _
      have small : 4 + (128 - (buf.length + (11 + 4))) < 2 ^ 16 := by
        omega
      have read := u16At_append
        (buf.take 10 ++ (toBeBytes 2 ((u16At buf 10 + 1) % 2 ^ 16) ++
          (buf.drop 12 ++ newOptFront)))
        (paddingWire (128 - (buf.length + (11 + 4)))) small
      have size :
          (buf.take 10 ++ (toBeBytes 2 ((u16At buf 10 + 1) % 2 ^ 16) ++
            (buf.drop 12 ++ newOptFront))).length = buf.length + 9 := by
        simp only [List.length_append, front, length_toBeBytes,
          List.length_drop, newOptFront, List.length_cons, List.length_nil]
        omega
      rw [size] at read
      rw [padQuery_append plain room, Nat.mod_eq_of_lt small]
      simp only [List.append_assoc] at read ⊢
      exact read

/--
Padding a validated query computes exact sums exactly if there is no room for
padding or the number that grows stays below 65536.
-/
theorem padsExactly_iff
    (buf : Bytes)
    (valid : validateQuery buf = .ok ()) :
    PadsExactly buf ↔
      128 ≤ buf.length + padOverhead buf ∨ SumsFit buf := by
  by_cases full : 128 ≤ buf.length + padOverhead buf
  · simp only [full, true_or, iff_true]
    refine ⟨?_, ?_, ?_, ?_⟩
    · rw [Machine.padQuery_full full, padQuery_full full]
    · intro looks room
      rw [padOverhead, if_pos looks] at full
      omega
    · intro plain room
      rw [padOverhead, if_neg plain] at full
      omega
    · intro plain room
      rw [padOverhead, if_neg plain] at full
      omega
  · simp only [full, false_or]
    have room := Nat.not_le.mp full
    by_cases looks : LooksLikeOpt buf
    · rw [padOverhead, if_pos looks] at room
      exact padsExactly_opt_iff looks room
    · rw [padOverhead, if_neg looks] at room
      exact padsExactly_append_iff (length_of_validateQuery valid) looks room

/-- For a query with a long name the condition comes down to its length. -/
theorem padsExactly_longNameQuery :
    PadsExactly longNameQuery ↔
      128 ≤ longNameQuery.length + padOverhead longNameQuery ∨
        SumsFit longNameQuery :=
  padsExactly_iff longNameQuery (by decide +kernel)

/-- A header that counts 65535 additional records. -/
def crowdedHeader : Bytes :=
  [0x12, 0x34, 1, 0, 0, 1, 0, 0, 0, 0, 0xFF, 0xFF]

/-- An additional count of 65535 overflows when the OPT record is added. -/
theorem not_padsExactly_crowdedHeader :
    ¬ ∀ buf, validateQuery buf = .ok () → PadsExactly buf := by
  intro always
  have runs := (always crowdedHeader (by decide)).runs
  rw [Machine.padQuery_append (by decide) (by decide) (by decide),
    if_neg (by decide)] at runs
  exact Option.some_ne_none _ runs.symm

end DnsServices.Dns
