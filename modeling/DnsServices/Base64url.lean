import Mathlib.Data.List.Basic
import DnsServices.Dns

namespace DnsServices.Dns

/-!
# Base64url reads back

The decoding of RFC 4648 section 5 without padding, stated by itself: each
character is six bits, four characters are three bytes, and the bits that a
shorter last group has too many are zero.
-/

/-- The characters `A-Z`, `a-z`, `0-9`, `-` and `_`. -/
def IsBase64urlChar (c : UInt8) : Prop :=
  (0x41 ≤ c ∧ c ≤ 0x5A) ∨ (0x61 ≤ c ∧ c ≤ 0x7A) ∨ (0x30 ≤ c ∧ c ≤ 0x39) ∨
    c = 0x2D ∨ c = 0x5F

instance (c : UInt8) : Decidable (IsBase64urlChar c) :=
  inferInstanceAs (Decidable (_ ∨ _))

/-- The six bits of a character. -/
def base64urlValue (c : UInt8) : Option Nat :=
  if 0x41 ≤ c ∧ c ≤ 0x5A then
    some (c.toNat - 0x41)
  else if 0x61 ≤ c ∧ c ≤ 0x7A then
    some (c.toNat - 0x61 + 26)
  else if 0x30 ≤ c ∧ c ≤ 0x39 then
    some (c.toNat - 0x30 + 52)
  else if c = 0x2D then
    some 62
  else if c = 0x5F then
    some 63
  else
    none

/-- The bytes of a sequence of six-bit values. -/
def joinSextets : List Nat → Option Bytes
  | a :: b :: c :: d :: rest =>
      (joinSextets rest).map fun bytes =>
        UInt8.ofNat (a * 4 + b / 16) :: UInt8.ofNat (b % 16 * 16 + c / 4) ::
          UInt8.ofNat (c % 4 * 64 + d) :: bytes
  | [a, b, c] =>
      if c % 4 = 0 then
        some [UInt8.ofNat (a * 4 + b / 16), UInt8.ofNat (b % 16 * 16 + c / 4)]
      else
        none
  | [a, b] =>
      if b % 16 = 0 then
        some [UInt8.ofNat (a * 4 + b / 16)]
      else
        none
  | [_] =>
      none
  | [] =>
      some []

/-- Decode a text without padding. -/
def base64urlDecode (text : Bytes) : Option Bytes :=
  (text.mapM base64urlValue).bind joinSextets

/-- The six bits that the encoder takes from a group. -/
def sextet (group shift : Nat) : Nat :=
  group / 2 ^ shift % 64

theorem alphabet_spec :
    ∀ index : Fin 64,
      base64urlValue (base64urlAlphabet.getD index.1 0) = some index.1 ∧
        IsBase64urlChar (base64urlAlphabet.getD index.1 0) := by
  decide +kernel

/-- The digit at a shift reads back as the six bits there. -/
theorem base64urlDigit_spec (group shift : Nat) :
    base64urlValue (base64urlDigit group shift) = some (sextet group shift) ∧
      IsBase64urlChar (base64urlDigit group shift) := by
  have index : (group >>> shift) &&& 63 = sextet group shift := by
    rw [Nat.shiftRight_eq_div_pow]
    exact Nat.and_two_pow_sub_one_eq_mod _ 6
  rw [base64urlDigit, index]
  exact alphabet_spec ⟨sextet group shift, Nat.mod_lt _ (by omega)⟩

/-- A group of three bytes as a number. -/
theorem group_eq (a b c : UInt8) :
    a.toNat <<< 16 ||| b.toNat <<< 8 ||| c.toNat =
      a.toNat * 65536 + b.toNat * 256 + c.toNat := by
  have pushed : pushByte (pushByte a.toNat b) c =
      a.toNat <<< 16 ||| b.toNat <<< 8 ||| c.toNat := by
    rw [pushByte, pushByte, Nat.shiftLeft_or_distrib, ← Nat.shiftLeft_add]
  rw [← pushed, pushByte_eq, pushByte_eq]
  ring

/-- The text of a byte string consists of characters of the alphabet. -/
theorem isBase64urlChar_of_mem
    {bytes : Bytes}
    {c : UInt8}
    (member : c ∈ base64urlEncode bytes) :
    IsBase64urlChar c := by
  induction bytes using base64urlEncode.induct with
  | case1 a b d rest inductionHypothesis =>
      simp only [base64urlEncode, List.mem_cons] at member
      rcases member with rfl | rfl | rfl | rfl | member
      · exact (base64urlDigit_spec _ _).2
      · exact (base64urlDigit_spec _ _).2
      · exact (base64urlDigit_spec _ _).2
      · exact (base64urlDigit_spec _ _).2
      · exact inductionHypothesis member
  | case2 a b =>
      simp only [base64urlEncode, List.mem_cons, List.not_mem_nil, or_false]
        at member
      rcases member with rfl | rfl | rfl
      · exact (base64urlDigit_spec _ _).2
      · exact (base64urlDigit_spec _ _).2
      · exact (base64urlDigit_spec _ _).2
  | case3 a =>
      simp only [base64urlEncode, List.mem_cons, List.not_mem_nil, or_false]
        at member
      rcases member with rfl | rfl
      · exact (base64urlDigit_spec _ _).2
      · exact (base64urlDigit_spec _ _).2
  | case4 =>
      cases member

/-- The six-bit values of an encoded text. -/
def sextets : Bytes → List Nat
  | a :: b :: c :: rest =>
      let group := a.toNat * 65536 + b.toNat * 256 + c.toNat
      sextet group 18 :: sextet group 12 :: sextet group 6 ::
        sextet group 0 :: sextets rest
  | [a, b] =>
      let group := a.toNat * 65536 + b.toNat * 256
      [sextet group 18, sextet group 12, sextet group 6]
  | [a] =>
      let group := a.toNat * 65536
      [sextet group 18, sextet group 12]
  | [] =>
      []

/-- The encoded text reads back as the sextets of the bytes. -/
theorem mapM_base64urlValue (bytes : Bytes) :
    (base64urlEncode bytes).mapM base64urlValue = some (sextets bytes) := by
  induction bytes using base64urlEncode.induct with
  | case1 a b c rest inductionHypothesis =>
      simp only [base64urlEncode, List.mapM_cons, inductionHypothesis,
        (base64urlDigit_spec _ _).1, group_eq]
      rfl
  | case2 a b =>
      have joined := group_eq a b 0
      rw [show (0 : UInt8).toNat = 0 from rfl, Nat.or_zero, Nat.add_zero]
        at joined
      simp only [base64urlEncode, List.mapM_cons, List.mapM_nil,
        (base64urlDigit_spec _ _).1, joined]
      rfl
  | case3 a =>
      simp only [base64urlEncode, List.mapM_cons, List.mapM_nil,
        (base64urlDigit_spec _ _).1, Nat.shiftLeft_eq]
      rfl
  | case4 =>
      rfl

/-- A byte is its value, however it is put together. -/
theorem ofNat_eq_of_toNat
    {value : Nat}
    {byte : UInt8}
    (same : value = byte.toNat) :
    UInt8.ofNat value = byte := by
  rw [same, UInt8.ofNat_toNat]

theorem joinSextets_sextets (bytes : Bytes) :
    joinSextets (sextets bytes) = some bytes := by
  induction bytes using base64urlEncode.induct with
  | case1 a b c rest inductionHypothesis =>
      have aBound := a.toNat_lt
      have bBound := b.toNat_lt
      have cBound := c.toNat_lt
      simp only [sextets, joinSextets, inductionHypothesis, Option.map_some,
        sextet, Option.some.injEq, List.cons.injEq, and_true]
      refine ⟨?_, ?_, ?_⟩
      · exact ofNat_eq_of_toNat (by omega)
      · exact ofNat_eq_of_toNat (by omega)
      · exact ofNat_eq_of_toNat (by omega)
  | case2 a b =>
      have aBound := a.toNat_lt
      have bBound := b.toNat_lt
      simp only [sextets, joinSextets, sextet]
      rw [if_pos (by omega)]
      simp only [Option.some.injEq, List.cons.injEq, and_true]
      refine ⟨?_, ?_⟩
      · exact ofNat_eq_of_toNat (by omega)
      · exact ofNat_eq_of_toNat (by omega)
  | case3 a =>
      have aBound := a.toNat_lt
      simp only [sextets, joinSextets, sextet]
      rw [if_pos (by omega)]
      simp only [Option.some.injEq, List.cons.injEq, and_true]
      exact ofNat_eq_of_toNat (by omega)
  | case4 =>
      rfl

/-- Decoding an encoded text gives the bytes back. -/
theorem base64urlDecode_encode (bytes : Bytes) :
    base64urlDecode (base64urlEncode bytes) = some bytes := by
  rw [base64urlDecode, mapM_base64urlValue, Option.bind_some,
    joinSextets_sextets]

/-- Two byte strings with one encoding are the same byte string. -/
theorem base64urlEncode_injective :
    Function.Injective base64urlEncode := by
  intro first second same
  have decoded := base64urlDecode_encode second
  rw [← same, base64urlDecode_encode] at decoded
  exact Option.some.inj decoded

end DnsServices.Dns
