import Mathlib.Data.List.Basic
import Mathlib.Data.Nat.Bitwise

namespace DnsServices.PrefixCode

/-!
# Prefix codes over bit strings

A code assigns a bit string to every symbol.  This module collects what a
greedy decoder needs: numbers as bit strings of a fixed width, a check for
prefix-freeness that walks the code tree instead of comparing all pairs, and
the fact that a prefix-free code never lets a wrong symbol match the front of
an encoded message.
-/

section Bits

/-- The `width` low bits of a number, most significant first. -/
def natBits : Nat → Nat → List Bool
  | 0, _ =>
      []
  | width + 1, value =>
      value.testBit width :: natBits width value

@[simp] theorem length_natBits (width value : Nat) :
    (natBits width value).length = width := by
  induction width with
  | zero =>
      rfl
  | succ width inductionHypothesis =>
      simp [natBits, inductionHypothesis]

/-- The high bits of a number come first, the low bits follow. -/
theorem natBits_add (high low value : Nat) :
    natBits (high + low) value =
      natBits high (value >>> low) ++ natBits low value := by
  induction high with
  | zero =>
      simp [natBits]
  | succ high inductionHypothesis =>
      rw [Nat.add_right_comm]
      simp only [natBits, inductionHypothesis, Nat.testBit_shiftRight,
        List.cons_append, Nat.add_comm low high]

/-- Bits above the width do not matter. -/
theorem natBits_mod {width bound : Nat} (value : Nat) (covers : width ≤ bound) :
    natBits width (value % 2 ^ bound) = natBits width value := by
  induction width with
  | zero =>
      rfl
  | succ width inductionHypothesis =>
      simp only [natBits]
      rw [inductionHypothesis (by omega), Nat.testBit_mod_two_pow]
      simp [show width < bound by omega]

/-- A number below `2 ^ width` is determined by its bits. -/
theorem natBits_injective
    {width first second : Nat}
    (firstBound : first < 2 ^ width)
    (secondBound : second < 2 ^ width)
    (sameBits : natBits width first = natBits width second) :
    first = second := by
  induction width generalizing first second with
  | zero =>
      simp at firstBound secondBound
      omega
  | succ width inductionHypothesis =>
      simp only [natBits, List.cons.injEq] at sameBits
      have sameLow : first % 2 ^ width = second % 2 ^ width := by
        apply inductionHypothesis
          (Nat.mod_lt _ (Nat.two_pow_pos width))
          (Nat.mod_lt _ (Nat.two_pow_pos width))
        rw [natBits_mod _ (Nat.le_refl _), natBits_mod _ (Nat.le_refl _)]
        exact sameBits.2
      apply Nat.eq_of_testBit_eq
      intro index
      rcases Nat.lt_trichotomy index width with below | same | above
      · have lowBits := congrArg (Nat.testBit · index) sameLow
        simpa [Nat.testBit_mod_two_pow, below] using lowBits
      · subst index
        exact sameBits.1
      · have covered : 2 ^ (width + 1) ≤ 2 ^ index :=
          Nat.pow_le_pow_right (by omega) above
        rw [Nat.testBit_lt_two_pow (by omega),
          Nat.testBit_lt_two_pow (by omega)]

/-- A short number is the front of a longer one exactly by its top bits. -/
theorem natBits_isPrefix_iff
    {size width front value : Nat}
    (frontBound : front < 2 ^ size) :
    natBits size front <+: natBits width value ↔
      size ≤ width ∧ value >>> (width - size) % 2 ^ size = front := by
  have split
      (fits : size ≤ width) :
      natBits width value =
        natBits size (value >>> (width - size)) ++
          natBits (width - size) value := by
    rw [← natBits_add]
    congr 1
    omega
  constructor
  · intro isFront
    have fits : size ≤ width := by
      simpa using isFront.length_le
    refine ⟨fits, ?_⟩
    rw [split fits] at isFront
    have sameBits :
        natBits size front = natBits size (value >>> (width - size)) :=
      (List.prefix_of_prefix_length_le isFront
        (List.prefix_append _ _) (by simp)).eq_of_length (by simp)
    apply natBits_injective (Nat.mod_lt _ (Nat.two_pow_pos size)) frontBound
    rw [natBits_mod _ (Nat.le_refl _), sameBits]
  · rintro ⟨fits, rfl⟩
    rw [split fits, natBits_mod _ (Nat.le_refl _)]
    exact List.prefix_append _ _

/-- The largest number of a width is a run of one-bits. -/
theorem natBits_allOnes (width : Nat) :
    natBits width (2 ^ width - 1) = List.replicate width true := by
  have ones :
      ∀ size ≤ width, natBits size (2 ^ width - 1) =
        List.replicate size true := by
    intro size
    induction size with
    | zero =>
        simp [natBits]
    | succ size inductionHypothesis =>
        intro fits
        simp [natBits, inductionHypothesis (by omega), List.replicate_succ,
          Nat.testBit_two_pow_sub_one, show size < width by omega]
  exact ones width (Nat.le_refl _)

/-- Shifting a byte into an accumulator appends its eight bits. -/
theorem natBits_shiftLeft_or
    {width value low : Nat}
    (size : Nat)
    (lowBound : low < 2 ^ size) :
    natBits (width + size) (value <<< size ||| low) =
      natBits width value ++ natBits size low := by
  rw [natBits_add, ← Nat.shiftLeft_add_eq_or_of_lt lowBound]
  have high : (value <<< size + low) >>> size = value := by
    rw [Nat.shiftLeft_eq, Nat.shiftRight_eq_div_pow, Nat.add_comm,
      Nat.add_mul_div_right _ _ (Nat.two_pow_pos size),
      Nat.div_eq_of_lt lowBound, Nat.zero_add]
  have rest :
      natBits size (value <<< size + low) = natBits size low := by
    rw [← natBits_mod _ (Nat.le_refl size), Nat.shiftLeft_eq, Nat.add_comm,
      Nat.add_mul_mod_self_right, natBits_mod _ (Nat.le_refl size)]
  rw [high, rest]

end Bits

section PrefixFree

variable {ι : Type}

/-- No code word is a front part of another symbol's code word. -/
def PrefixFree (word : ι → List Bool) : Prop :=
  ∀ {first second}, word first <+: word second → first = second

/-- Neither of two bit strings is a front part of the other. -/
def Incomparable (first second : List Bool) : Prop :=
  ¬ first <+: second ∧ ¬ second <+: first

/-- The rest of a word that starts with the given bit. -/
def descend (bit : Bool) : List Bool → Option (List Bool)
  | [] =>
      none
  | head :: tail =>
      if head = bit then some tail else none

/--
Split words by their first bit in one pass, dropping that bit; `none` if one
of them is empty.
-/
def branches :
    List (List Bool) → Option (List (List Bool) × List (List Bool))
  | [] =>
      some ([], [])
  | [] :: _ =>
      none
  | (false :: tail) :: rest =>
      (branches rest).map fun split => (tail :: split.1, split.2)
  | (true :: tail) :: rest =>
      (branches rest).map fun split => (split.1, tail :: split.2)

/-- The two branches hold exactly the rests of the words below each bit. -/
theorem branches_spec
    {words zeros ones : List (List Bool)}
    (split : branches words = some (zeros, ones)) :
    (∀ word ∈ words, word ≠ []) ∧
      zeros = words.filterMap (descend false) ∧
      ones = words.filterMap (descend true) := by
  induction words generalizing zeros ones with
  | nil =>
      simp_all [branches]
  | cons word rest inductionHypothesis =>
      match word, split with
      | false :: tail, split =>
          simp only [branches, Option.map_eq_some_iff,
            Prod.mk.injEq] at split
          obtain ⟨⟨restZeros, restOnes⟩, restSplit, rfl, rfl⟩ := split
          have restSpec := inductionHypothesis restSplit
          simpa [descend] using restSpec
      | true :: tail, split =>
          simp only [branches, Option.map_eq_some_iff,
            Prod.mk.injEq] at split
          obtain ⟨⟨restZeros, restOnes⟩, restSplit, rfl, rfl⟩ := split
          have restSpec := inductionHypothesis restSplit
          simpa [descend] using restSpec

/--
Check that all words are pairwise incomparable by descending the code tree;
`depth` bounds the longest word.
-/
def incomparable? : Nat → List (List Bool) → Bool
  | _, [] =>
      true
  | _, [_] =>
      true
  | 0, _ =>
      false
  | depth + 1, words =>
      match branches words with
      | none =>
          false
      | some (zeros, ones) =>
          incomparable? depth zeros && incomparable? depth ones

/-- Words are incomparable if their rests below each first bit are. -/
theorem pairwise_of_branches
    {words : List (List Bool)}
    (nonempty : ∀ word ∈ words, word ≠ [])
    (below :
      ∀ bit, (words.filterMap (descend bit)).Pairwise Incomparable) :
    words.Pairwise Incomparable := by
  rw [List.pairwise_iff_forall_sublist]
  intro left right ordered
  have leftNonempty := nonempty left (ordered.subset (by simp))
  have rightNonempty := nonempty right (ordered.subset (by simp))
  obtain ⟨leftBit, leftTail, rfl⟩ :=
    List.exists_cons_of_ne_nil leftNonempty
  obtain ⟨rightBit, rightTail, rfl⟩ :=
    List.exists_cons_of_ne_nil rightNonempty
  by_cases sameBit : leftBit = rightBit
  · subst rightBit
    have tails :
        [leftTail, rightTail].Sublist
          (words.filterMap (descend leftBit)) := by
      simpa [descend] using ordered.filterMap (descend leftBit)
    have incomparable :=
      List.pairwise_iff_forall_sublist.mp (below leftBit) tails
    simpa [Incomparable] using incomparable
  · simp [Incomparable, sameBit, Ne.symm sameBit]

/-- An accepted word list is pairwise incomparable. -/
theorem incomparable?_sound
    {depth : Nat}
    {words : List (List Bool)}
    (accepted : incomparable? depth words = true) :
    words.Pairwise Incomparable := by
  induction depth generalizing words with
  | zero =>
      match words, accepted with
      | [], _ => exact .nil
      | [_], _ => exact List.pairwise_singleton _ _
  | succ depth inductionHypothesis =>
      match words, accepted with
      | [], _ => exact .nil
      | [_], _ => exact List.pairwise_singleton _ _
      | first :: second :: rest, accepted =>
          simp only [incomparable?] at accepted
          split at accepted
          · simp at accepted
          next zeros ones split =>
            obtain ⟨nonempty, rfl, rfl⟩ := branches_spec split
            rw [Bool.and_eq_true] at accepted
            apply pairwise_of_branches nonempty
            intro bit
            cases bit with
            | false => exact inductionHypothesis accepted.1
            | true => exact inductionHypothesis accepted.2

/-- A pairwise incomparable table of words is a prefix-free code. -/
theorem prefixFree_of_pairwise
    {words : List (List Bool)}
    (incomparable : words.Pairwise Incomparable) :
    PrefixFree fun index : Fin words.length => words.get index := by
  intro first second isFront
  rw [List.pairwise_iff_getElem] at incomparable
  rcases Nat.lt_trichotomy first.1 second.1 with before | same | after
  · exact absurd isFront
      (incomparable first.1 second.1 first.2 second.2 before).1
  · exact Fin.ext same
  · exact absurd isFront
      (incomparable second.1 first.1 second.2 first.2 after).2

/-- The concatenated code words of a message. -/
def encode (word : ι → List Bool) (message : List ι) : List Bool :=
  message.flatMap word

/--
At the front of an encoded message only the first symbol's own code word can
match, whatever follows the message.
-/
theorem PrefixFree.match_eq_head
    {word : ι → List Bool}
    (prefixFree : PrefixFree word)
    {found head : ι}
    {tail : List ι}
    {padding : List Bool}
    (matched : word found <+: encode word (head :: tail) ++ padding) :
    found = head := by
  have headMatched :
      word head <+: encode word (head :: tail) ++ padding := by
    simp [encode, List.append_assoc]
  rcases List.prefix_or_prefix_of_prefix matched headMatched with
      shorter | longer
  · exact prefixFree shorter
  · exact (prefixFree longer).symm

/--
A front part of an encoded message that contains no complete code word is
shorter than the code word it starts with.
-/
theorem length_lt_of_no_match
    {word : ι → List Bool}
    {head : ι}
    {tail : List ι}
    {front padding : List Bool}
    (isFront : front <+: encode word (head :: tail) ++ padding)
    (unmatched : ¬ word head <+: front) :
    front.length < (word head).length := by
  have headMatched :
      word head <+: encode word (head :: tail) ++ padding := by
    simp [encode, List.append_assoc]
  by_contra longEnough
  exact unmatched
    (List.prefix_of_prefix_length_le headMatched isFront (by omega))

end PrefixFree

end DnsServices.PrefixCode
