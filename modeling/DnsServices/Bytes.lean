import Mathlib.Data.Nat.Bitwise
import Mathlib.Tactic.Ring

namespace DnsServices

/-!
# Byte strings and big-endian integers

Wire data is a list of bytes.  Machine words are natural numbers; the width is
stated where it matters.  The shift-and-or folds of the sources are related
here to positional arithmetic once, so later proofs never look at single bits.
-/

/-- Wire data, oldest byte first. -/
abbrev Bytes := List UInt8

/-- The bytes of a string constant (UTF-8, as a Rust `str` holds them). -/
def asBytes (text : String) : Bytes :=
  text.toList.flatMap String.utf8EncodeChar

/-- The `width` low bytes of a number, most significant first. -/
def toBeBytes : Nat → Nat → Bytes
  | 0, _ =>
      []
  | width + 1, value =>
      UInt8.ofNat (value >>> (8 * width)) :: toBeBytes width value

/-- Shift one more byte into a big-endian accumulator. -/
def pushByte (value : Nat) (byte : UInt8) : Nat :=
  value <<< 8 ||| byte.toNat

/-- Shifting and or-ing a byte in is base-256 arithmetic. -/
theorem pushByte_eq (value : Nat) (byte : UInt8) :
    pushByte value byte = value * 256 + byte.toNat := by
  have byteBound : byte.toNat < 2 ^ 8 := byte.toNat_lt
  rw [pushByte, ← Nat.shiftLeft_add_eq_or_of_lt byteBound, Nat.shiftLeft_eq]

@[simp] theorem length_toBeBytes (width value : Nat) :
    (toBeBytes width value).length = width := by
  induction width with
  | zero =>
      rfl
  | succ width inductionHypothesis =>
      simp [toBeBytes, inductionHypothesis]

/-- Reading big-endian bytes back appends them as base-256 digits. -/
theorem foldl_pushByte_toBeBytes (start width value : Nat) :
    (toBeBytes width value).foldl pushByte start =
      start * 256 ^ width + value % 256 ^ width := by
  induction width generalizing start with
  | zero =>
      simp [toBeBytes, Nat.mod_one]
  | succ width inductionHypothesis =>
      have digit :
          (UInt8.ofNat (value >>> (8 * width))).toNat =
            value / 256 ^ width % 256 := by
        rw [UInt8.toNat_ofNat', Nat.shiftRight_eq_div_pow, Nat.pow_mul]
      simp only [toBeBytes, List.foldl_cons]
      rw [inductionHypothesis, pushByte_eq, digit, Nat.mod_pow_succ]
      ring

/-- A big-endian reading shifts its start value by its own length. -/
theorem foldl_pushByte_eq (start : Nat) (bytes : Bytes) :
    bytes.foldl pushByte start =
      start * 256 ^ bytes.length + bytes.foldl pushByte 0 := by
  induction bytes generalizing start with
  | nil =>
      simp
  | cons byte rest inductionHypothesis =>
      rw [List.foldl_cons, inductionHypothesis, List.foldl_cons,
        inductionHypothesis (pushByte 0 byte), pushByte_eq, pushByte_eq,
        List.length_cons, Nat.pow_succ]
      ring

/-- A digit in front of a number that fits below its place. -/
theorem digit_add_lt
    {top bound low scale : Nat}
    (topBound : top < bound)
    (lowBound : low < scale) :
    top * scale + low < bound * scale :=
  calc
    top * scale + low < top * scale + scale := Nat.add_lt_add_left lowBound _
    _ = (top + 1) * scale := by ring
    _ ≤ bound * scale := Nat.mul_le_mul_right scale topBound

/-- A big-endian read of n bytes stays below 256^n. -/
theorem foldl_pushByte_lt (bytes : Bytes) :
    bytes.foldl pushByte 0 < 256 ^ bytes.length := by
  induction bytes with
  | nil =>
      simp
  | cons byte rest inductionHypothesis =>
      have byteBound := byte.toNat_lt
      rw [List.foldl_cons, foldl_pushByte_eq, pushByte_eq, List.length_cons,
        Nat.pow_succ, Nat.mul_comm (256 ^ rest.length)]
      exact digit_add_lt (by omega) inductionHypothesis

/-- Writing a big-endian reading gives the bytes back. -/
theorem toBeBytes_foldl_pushByte (start : Nat) (bytes : Bytes) :
    toBeBytes bytes.length (bytes.foldl pushByte start) = bytes := by
  induction bytes generalizing start with
  | nil =>
      rfl
  | cons byte rest inductionHypothesis =>
      have low := foldl_pushByte_lt rest
      have top :
          (rest.foldl pushByte (pushByte start byte)) >>> (8 * rest.length) =
            pushByte start byte := by
        rw [foldl_pushByte_eq, Nat.shiftRight_eq_div_pow, Nat.pow_mul,
          show (2 : Nat) ^ 8 = 256 from rfl, Nat.mul_comm,
          Nat.mul_add_div (Nat.pow_pos (by omega)), Nat.div_eq_of_lt low,
          Nat.add_zero]
      rw [List.length_cons, List.foldl_cons, toBeBytes, top,
        inductionHypothesis, pushByte_eq]
      congr 1
      apply UInt8.toNat_inj.mp
      have byteBound := byte.toNat_lt
      rw [UInt8.toNat_ofNat']
      omega

/-- A property of bytes holds if it holds of the 256 byte values. -/
theorem forall_byte
    {property : UInt8 → Prop}
    (check : ∀ value : Fin 256, property (UInt8.ofNat value.1))
    (byte : UInt8) :
    property byte := by
  have checked := check ⟨byte.toNat, byte.toNat_lt⟩
  rwa [UInt8.ofNat_toNat] at checked

/-- A byte is its top two bits and its low six bits. -/
theorem toNat_shiftRight_six (byte : UInt8) :
    byte.toNat >>> 6 = byte.toNat / 64 := by
  rw [Nat.shiftRight_eq_div_pow]

theorem toNat_and_sixBits (byte : UInt8) :
    byte.toNat &&& 0x3F = byte.toNat % 64 :=
  Nat.and_two_pow_sub_one_eq_mod byte.toNat 6

end DnsServices
