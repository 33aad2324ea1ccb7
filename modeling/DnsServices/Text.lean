import Mathlib.Data.List.DropRight
import Mathlib.Tactic.Common

namespace DnsServices.Text

/-!
# Strings

A string is the list of its characters.  The functions are those of the Rust
standard library that the parsers use: white space is the Unicode property,
and a number may carry a sign and leading zeros.
-/

/-- The characters of a `str`. -/
abbrev Str := List Char

/-- `char::is_whitespace`: the characters with the property `White_Space`. -/
def isWhitespace (c : Char) : Bool :=
  let code := c.toNat
  0x09 ≤ code && code ≤ 0x0D || code == 0x20 || code == 0x85 || code == 0xA0 ||
    code == 0x1680 || 0x2000 ≤ code && code ≤ 0x200A || code == 0x2028 ||
    code == 0x2029 || code == 0x202F || code == 0x205F || code == 0x3000

/-- `str::trim` -/
def trim (s : Str) : Str :=
  (s.rdropWhile isWhitespace).dropWhile isWhitespace

/-- `str::split_whitespace` -/
def splitWhitespace (s : Str) : List Str :=
  (s.splitOnP isWhitespace).filter fun piece => !piece.isEmpty

/-- `str::strip_suffix` with one character. -/
def stripSuffix (c : Char) (s : Str) : Option Str :=
  if s.getLast? = some c then some s.dropLast else none

/--
`str::lines`: a line ends with `\n` or `\r\n`.  What stands behind the last
`\n` is a line of its own unless it is empty.
-/
def lines (s : Str) : List Str :=
  let pieces := s.splitOn '\n'
  let last := pieces.getLastD []
  pieces.dropLast.map (fun line => (stripSuffix '\r' line).getD line) ++
    if last.isEmpty then [] else [last]

/-- `str::strip_prefix` -/
def stripPrefix (front s : Str) : Option Str :=
  if front.isPrefixOf s then some (s.drop front.length) else none

/-- The slices before and from the index that `str::find` returns. -/
def cutAt (c : Char) (s : Str) : Option (Str × Str) :=
  if c ∈ s then
    some (s.takeWhile (· != c), s.dropWhile (· != c))
  else
    none

/-- `str::rsplit_once`: the slices around the last occurrence. -/
def rsplitOnce (c : Char) (s : Str) : Option (Str × Str) :=
  if c ∈ s then
    some ((s.rdropWhile (· != c)).dropLast, s.rtakeWhile (· != c))
  else
    none

/-- `char::to_digit` -/
def toDigit (radix : Nat) (c : Char) : Option Nat :=
  let code := c.toNat
  let digit :=
    if '0'.toNat ≤ code ∧ code ≤ '9'.toNat then
      some (code - '0'.toNat)
    else if 'a'.toNat ≤ code ∧ code ≤ 'z'.toNat then
      some (code - 'a'.toNat + 10)
    else if 'A'.toNat ≤ code ∧ code ≤ 'Z'.toNat then
      some (code - 'A'.toNat + 10)
    else
      none
  digit.filter (· < radix)

/-- The digit loop of `from_str_radix`, `checked_mul` and `checked_add`. -/
def pushDigits (radix limit : Nat) : Nat → Str → Option Nat
  | value, [] =>
      some value
  | value, c :: rest => do
      let digit ← toDigit radix c
      if value * radix + digit < limit then
        pushDigits radix limit (value * radix + digit) rest
      else
        none

/-- `from_str_radix` of an unsigned type whose values are below `limit`. -/
def fromStrRadix (radix limit : Nat) : Str → Option Nat
  | [] =>
      none
  | c :: rest =>
      if c = '+' then
        if rest.isEmpty then none else pushDigits radix limit 0 rest
      else
        pushDigits radix limit 0 (c :: rest)

/-- A number with zeros in front of it. -/
def numeral (radix zeros value : Nat) : Str :=
  List.replicate zeros '0' ++ Nat.toDigits radix value

/-! ## Cutting -/

theorem stripPrefix_append (front s : Str) :
    stripPrefix front (front ++ s) = some s := by
  rw [stripPrefix, if_pos (by simp), List.drop_left]

theorem stripPrefix_eq_none
    {c : Char}
    {s : Str}
    (other : s.head? ≠ some c) :
    stripPrefix [c] s = none := by
  cases s with
  | nil =>
      rfl
  | cons first rest =>
      have different : ¬ c = first := by
        rintro rfl
        exact other rfl
      simp [stripPrefix, different]

/-- What stands in front of the first occurrence is cut off. -/
theorem cutAt_append
    {c : Char}
    {front : Str}
    (absent : c ∉ front)
    (back : Str) :
    cutAt c (front ++ c :: back) = some (front, c :: back) := by
  have passed : ∀ x ∈ front, (x != c) = true := by
    intro x member
    simp only [bne_iff_ne, ne_eq]
    rintro rfl
    exact absent member
  rw [cutAt, if_pos (by simp), List.takeWhile_append_of_pos passed,
    List.dropWhile_append_of_pos passed, List.takeWhile_cons_of_neg (by simp),
    List.dropWhile_cons_of_neg (by simp), List.append_nil]

theorem cutAt_eq_none
    {c : Char}
    {s : Str}
    (absent : c ∉ s) :
    cutAt c s = none :=
  if_neg absent

/-- The last occurrence divides the string. -/
theorem rsplitOnce_append
    {c : Char}
    {back : Str}
    (front : Str)
    (absent : c ∉ back) :
    rsplitOnce c (front ++ c :: back) = some (front, back) := by
  have passed : ∀ x ∈ back.reverse, (x != c) = true := by
    intro x member
    simp only [bne_iff_ne, ne_eq]
    rintro rfl
    exact absent (List.mem_reverse.mp member)
  have turned :
      (front ++ c :: back).reverse = back.reverse ++ c :: front.reverse := by
    simp
  rw [rsplitOnce, if_pos (by simp), List.rdropWhile, List.rtakeWhile, turned,
    List.dropWhile_append_of_pos passed, List.takeWhile_append_of_pos passed,
    List.dropWhile_cons_of_neg (by simp), List.takeWhile_cons_of_neg (by simp)]
  simp

theorem rsplitOnce_eq_none
    {c : Char}
    {s : Str}
    (absent : c ∉ s) :
    rsplitOnce c s = none :=
  if_neg absent

/-! ## Numbers -/

/-- A printed digit reads back. -/
theorem toDigit_digitChar
    {radix digit : Nat}
    (valid : digit < radix)
    (printable : radix ≤ 16) :
    toDigit radix digit.digitChar = some digit := by
  have value : toDigit 16 digit.digitChar = some digit := by
    have all : ∀ d : Fin 16, toDigit 16 d.val.digitChar = some d.val := by
      decide
    exact all ⟨digit, by omega⟩
  simp only [toDigit, Option.filter_eq_some_iff, decide_eq_true_eq] at value ⊢
  exact ⟨value.1, valid⟩

/-- Digits are read from left to right. -/
theorem pushDigits_append
    (radix limit value : Nat)
    (front back : Str) :
    pushDigits radix limit value (front ++ back) =
      (pushDigits radix limit value front).bind fun read =>
        pushDigits radix limit read back := by
  induction front generalizing value with
  | nil =>
      rfl
  | cons c front inductionHypothesis =>
      simp only [List.cons_append, pushDigits]
      cases toDigit radix c with
      | none =>
          rfl
      | some digit =>
          simp only [Option.bind_eq_bind, Option.bind_some]
          split
          · exact inductionHypothesis _
          · rfl

/-- Leading zeros read as zero. -/
theorem pushDigits_zeros
    {radix limit : Nat}
    (digits : 0 < radix)
    (room : 0 < limit)
    (zeros : Nat) :
    pushDigits radix limit 0 (List.replicate zeros '0') = some 0 := by
  have zero : toDigit radix '0' = some 0 := by
    simp [toDigit, digits]
  induction zeros with
  | zero =>
      rfl
  | succ zeros inductionHypothesis =>
      simp [List.replicate_succ, pushDigits, zero, room, inductionHypothesis]

/-- Digits read back as the number they were printed from. -/
theorem pushDigits_toDigits
    {radix limit value : Nat}
    (base : 1 < radix)
    (printable : radix ≤ 16)
    (room : value < limit) :
    pushDigits radix limit 0 (Nat.toDigits radix value) = some value := by
  induction value using Nat.strongRecOn with
  | ind value inductionHypothesis =>
      rw [Nat.toDigits_eq_if base]
      split
      next small =>
        simp [pushDigits, toDigit_digitChar small printable, room]
      next large =>
        have smaller : value / radix < value :=
          Nat.div_lt_self (by omega) base
        have last := toDigit_digitChar
          (Nat.mod_lt value (by omega : 0 < radix)) printable
        have whole : value / radix * radix + value % radix = value :=
          Nat.div_add_mod' value radix
        rw [pushDigits_append,
          inductionHypothesis _ smaller (by omega), Option.bind_some]
        simp [pushDigits, last, whole, room]

/-- What is read as a number has digits only. -/
theorem toDigit_of_mem
    {radix limit value result : Nat}
    {s : Str}
    {c : Char}
    (read : pushDigits radix limit value s = some result)
    (member : c ∈ s) :
    (toDigit radix c).isSome := by
  induction s generalizing value with
  | nil =>
      simp at member
  | cons first rest inductionHypothesis =>
      simp only [pushDigits, Option.bind_eq_bind, Option.bind_eq_some_iff] at read
      obtain ⟨digit, firstDigit, later⟩ := read
      split at later
      · rcases List.mem_cons.mp member with rfl | inRest
        · exact Option.isSome_of_mem firstDigit
        · exact inductionHypothesis later inRest
      · simp at later

/-- A numeral below the limit reads back, leading zeros or not. -/
theorem pushDigits_numeral
    {radix limit value : Nat}
    (base : 1 < radix)
    (printable : radix ≤ 16)
    (room : value < limit)
    (zeros : Nat) :
    pushDigits radix limit 0 (numeral radix zeros value) = some value := by
  rw [numeral, pushDigits_append, pushDigits_zeros (by omega) (by omega),
    Option.bind_some, pushDigits_toDigits base printable room]

theorem numeral_ne_nil (radix zeros value : Nat) :
    numeral radix zeros value ≠ [] := by
  simp [numeral]

section Numeral

variable {radix : Nat} (base : 1 < radix) (printable : radix ≤ 16)
include base printable

/-- Every character of a number is a digit. -/
theorem toDigit_of_mem_numeral
    {zeros value : Nat}
    {c : Char}
    (member : c ∈ numeral radix zeros value) :
    (toDigit radix c).isSome :=
  toDigit_of_mem
    (pushDigits_numeral base printable (Nat.lt_succ_self value) zeros) member

/-- A character that is no digit does not stand in a number. -/
theorem not_mem_numeral
    {c : Char}
    (foreign : toDigit radix c = none)
    (zeros value : Nat) :
    c ∉ numeral radix zeros value := by
  intro member
  have digit := toDigit_of_mem_numeral base printable member
  rw [foreign] at digit
  simp at digit

/-- A printed number is parsed back, whatever zeros stand in front of it. -/
theorem fromStrRadix_numeral
    {limit value : Nat}
    (room : value < limit)
    (zeros : Nat) :
    fromStrRadix radix limit (numeral radix zeros value) = some value := by
  have read := pushDigits_numeral base printable room zeros
  have noSign :=
    not_mem_numeral base printable (c := '+') (by simp [toDigit]) zeros value
  cases shape : numeral radix zeros value with
  | nil =>
      exact absurd shape (numeral_ne_nil radix zeros value)
  | cons first rest =>
      rw [shape] at read noSign
      have unsigned : first ≠ '+' := by
        rintro rfl
        exact noSign List.mem_cons_self
      rw [fromStrRadix, if_neg unsigned, read]

end Numeral

/-! ## White space -/

theorem toDigit_of_isWhitespace
    {c : Char}
    (blank : isWhitespace c = true)
    (radix : Nat) :
    toDigit radix c = none := by
  simp only [isWhitespace, Bool.or_eq_true, Bool.and_eq_true, decide_eq_true_eq,
    beq_iff_eq] at blank
  have zero : '0'.toNat = 48 := rfl
  have nine : '9'.toNat = 57 := rfl
  have lowerA : 'a'.toNat = 97 := rfl
  have lowerZ : 'z'.toNat = 122 := rfl
  have upperA : 'A'.toNat = 65 := rfl
  have upperZ : 'Z'.toNat = 90 := rfl
  simp only [toDigit]
  rw [if_neg (by omega), if_neg (by omega), if_neg (by omega)]
  rfl

/-- The right end of a longer string is trimmed as before. -/
theorem rdropWhile_cons
    {α : Type}
    (blank : α → Bool)
    (x : α)
    (xs : List α) :
    (x :: xs).rdropWhile blank =
      if xs.rdropWhile blank = [] then [x].rdropWhile blank
      else x :: xs.rdropWhile blank := by
  simp only [List.rdropWhile, List.reverse_cons, List.dropWhile_append,
    List.reverse_eq_nil_iff, List.isEmpty_iff]
  split
  · simp
  · simp

theorem rdropWhile_cons_rdropWhile
    {α : Type}
    (blank : α → Bool)
    (x : α)
    (xs : List α) :
    (x :: xs.rdropWhile blank).rdropWhile blank =
      (x :: xs).rdropWhile blank := by
  rw [rdropWhile_cons _ _ (xs.rdropWhile blank), rdropWhile_cons _ _ xs,
    List.rdropWhile_idempotent]

/-- White space around a word is trimmed away. -/
theorem trim_padded
    {before word after : Str}
    (blankBefore : ∀ c ∈ before, isWhitespace c = true)
    (blankAfter : ∀ c ∈ after, isWhitespace c = true)
    (solid : ∀ c ∈ word, isWhitespace c = false)
    (some_word : word ≠ []) :
    trim (before ++ word ++ after) = word := by
  have right :
      (before ++ word ++ after).rdropWhile isWhitespace = before ++ word := by
    have passed : ∀ c ∈ after.reverse, isWhitespace c = true := by
      intro c member
      exact blankAfter c (List.mem_reverse.mp member)
    rw [List.rdropWhile, List.reverse_append,
      List.dropWhile_append_of_pos passed]
    rw [← List.rdropWhile, List.rdropWhile_eq_self_iff]
    intro nonempty
    rw [List.getLast_append_of_ne_nil _ some_word,
      solid _ (List.getLast_mem some_word)]
    simp
  rw [trim, right, List.dropWhile_append_of_pos blankBefore]
  cases word with
  | nil =>
      rfl
  | cons first rest =>
      exact List.dropWhile_cons_of_neg (by simp [solid first])

/-- A leading blank does not survive trimming. -/
theorem trim_cons_of_isWhitespace
    {c : Char}
    (blank : isWhitespace c = true)
    (s : Str) :
    trim (c :: s) = trim s := by
  rw [trim, trim, rdropWhile_cons]
  split
  next nothing =>
    rw [nothing, List.rdropWhile_singleton, if_pos blank]
  · exact List.dropWhile_cons_of_pos blank

section Pieces

variable {c : Char} (visible : isWhitespace c = false)
include visible

theorem beq_separator_of_isWhitespace
    {x : Char}
    (blank : isWhitespace x = true) :
    (x == c) = false := by
  rw [beq_eq_false_iff_ne]
  rintro rfl
  rw [blank] at visible
  simp at visible

theorem separator_not_mem
    {s : Str}
    (blank : ∀ x ∈ s, isWhitespace x = true) :
    c ∉ s := by
  intro member
  rw [blank c member] at visible
  simp at visible

/-- White space in front of a string only reaches its first piece. -/
theorem map_trim_splitOn_dropWhile (s : Str) :
    ((s.dropWhile isWhitespace).splitOn c).map trim =
      (s.splitOn c).map trim := by
  induction s with
  | nil =>
      rfl
  | cons x s inductionHypothesis =>
      by_cases blank : isWhitespace x = true
      · have other := beq_separator_of_isWhitespace visible blank
        rw [List.dropWhile_cons_of_pos blank, inductionHypothesis,
          List.splitOn_cons_eq_if_modifyHead, if_neg (by simp [other])]
        cases s.splitOn c with
        | nil =>
            rfl
        | cons piece pieces =>
            simp only [List.modifyHead_cons, List.map_cons,
              trim_cons_of_isWhitespace blank]
      · rw [List.dropWhile_cons_of_neg blank]

/-- A blank behind a string only reaches its last piece. -/
theorem map_rdropWhile_splitOn_concat
    {x : Char}
    (blank : isWhitespace x = true)
    (s : Str) :
    ((s ++ [x]).splitOn c).map (List.rdropWhile isWhitespace) =
      (s.splitOn c).map (List.rdropWhile isWhitespace) := by
  have other := beq_separator_of_isWhitespace visible blank
  induction s with
  | nil =>
      simp [List.splitOn_cons_eq_if_modifyHead, other, blank,
        List.rdropWhile_singleton]
  | cons y s inductionHypothesis =>
      -- only the trimmed head matters to a piece that grows at its front
      have grown (pieces : List Str) :
          (pieces.modifyHead (List.cons y)).map (List.rdropWhile isWhitespace) =
            ((pieces.map (List.rdropWhile isWhitespace)).modifyHead
              (List.cons y)).map (List.rdropWhile isWhitespace) := by
        cases pieces with
        | nil =>
            rfl
        | cons piece pieces =>
            simp [rdropWhile_cons_rdropWhile, List.rdropWhile_idempotent]
      rw [List.cons_append, List.splitOn_cons_eq_if_modifyHead,
        List.splitOn_cons_eq_if_modifyHead]
      split
      · simp [inductionHypothesis]
      · rw [grown, inductionHypothesis, ← grown]

/-- Trailing blanks of a text are trailing blanks of its last part. -/
theorem map_rdropWhile_splitOn_rdropWhile (s : Str) :
    ((s.rdropWhile isWhitespace).splitOn c).map (List.rdropWhile isWhitespace) =
      (s.splitOn c).map (List.rdropWhile isWhitespace) := by
  induction s using List.reverseRecOn with
  | nil =>
      rfl
  | append_singleton s x inductionHypothesis =>
      by_cases blank : isWhitespace x = true
      · rw [List.rdropWhile_concat_pos _ _ _ blank, inductionHypothesis,
          map_rdropWhile_splitOn_concat visible blank]
      · rw [List.rdropWhile_concat_neg _ _ _ blank]

/-- Where every piece is trimmed, trimming the whole string changes nothing. -/
theorem map_trim_splitOn_trim (s : Str) :
    ((trim s).splitOn c).map trim = (s.splitOn c).map trim := by
  have apart (pieces : List Str) :
      pieces.map trim =
        (pieces.map (List.rdropWhile isWhitespace)).map
          (List.dropWhile isWhitespace) := by
    rw [List.map_map]
    rfl
  calc
    ((trim s).splitOn c).map trim =
        ((s.rdropWhile isWhitespace).splitOn c).map trim :=
      map_trim_splitOn_dropWhile visible _
    _ = (s.splitOn c).map trim := by
      rw [apart, map_rdropWhile_splitOn_rdropWhile visible, ← apart]

end Pieces

end DnsServices.Text
