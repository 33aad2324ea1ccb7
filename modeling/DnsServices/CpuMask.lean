import Mathlib.Data.Finset.Basic
import Mathlib.Data.List.Sort
import Mathlib.Data.Nat.Bitwise
import DnsServices.Text

namespace DnsServices.Microdoh3

open Text

/-!
# CPU masks

`parse_cpumask` of `main.rs` reads the `xps_cpus` file of a transmit queue.
The kernel prints a mask as 32-bit hexadecimal groups, the most significant
group first, so the groups are numbered from the end of the text.
-/

/-- The CPUs of one group, in the order its bits are tested. -/
def groupCpus (group bits : Nat) : List UInt32 :=
  ((List.range 32).filter fun bit => bits &&& (1 <<< bit) != 0).map
    fun bit => UInt32.ofNat group * 32 + UInt32.ofNat bit

/-- The CPUs of one part; a part that is no number is skipped. -/
def partCpus (part : Str) (group : Nat) : List UInt32 :=
  match fromStrRadix 16 (2 ^ 32) part with
  | none =>
      []
  | some bits =>
      groupCpus group bits

/-- Parse one `xps_cpus` value. -/
def parseCpumask (s : Str) : List UInt32 :=
  -- a skipped part still counts in the numbering of the groups
  let out := ((trim s).splitOn ',').reverse.zipIdx.flatMap
    fun (part, group) => partCpus (trim part) group
  out.insertionSort (· ≤ ·)

/-! ## Masks as the kernel prints them -/

/-- The word of one group: bit `i` stands for CPU `32 * group + i`. -/
def maskWord (cpus : Finset UInt32) (group : Nat) : Nat :=
  Nat.ofBits fun bit : Fin 32 =>
    decide (∃ cpu ∈ cpus, cpu.toNat = 32 * group + bit)

/-- What the format leaves open, by the number of the group. -/
structure MaskLayout where
  groups : Nat
  zeros : Nat → Nat
  before : Nat → Str
  after : Nat → Str

namespace MaskLayout

/-- The digits of one group. -/
def digits (layout : MaskLayout) (cpus : Finset UInt32) (group : Nat) : Str :=
  numeral 16 (layout.zeros group) (maskWord cpus group)

/-- One group with the white space around it. -/
def printGroup
    (layout : MaskLayout)
    (cpus : Finset UInt32)
    (group : Nat) :
    Str :=
  layout.before group ++ layout.digits cpus group ++ layout.after group

/-- The groups with commas between them, most significant first. -/
def print (layout : MaskLayout) (cpus : Finset UInt32) : Str :=
  [','].intercalate
    ((List.range layout.groups).reverse.map (layout.printGroup cpus))

/--
A layout for a set: there are groups for all of its CPUs, no group has more
than eight digits, and only white space is put around the groups.
-/
structure Fits (layout : MaskLayout) (cpus : Finset UInt32) : Prop where
  some_group : 0 < layout.groups
  covers : ∀ cpu ∈ cpus, cpu.toNat / 32 < layout.groups
  width : ∀ group < layout.groups, (layout.digits cpus group).length ≤ 8
  blankBefore :
    ∀ group < layout.groups, ∀ c ∈ layout.before group, isWhitespace c = true
  blankAfter :
    ∀ group < layout.groups, ∀ c ∈ layout.after group, isWhitespace c = true

end MaskLayout

/-- A group of the mask is a 32-bit word. -/
theorem maskWord_lt (cpus : Finset UInt32) (group : Nat) :
    maskWord cpus group < 2 ^ 32 :=
  Nat.ofBits_lt_two_pow _

/-- A bit of a group is set exactly for the CPU it stands for. -/
theorem testBit_maskWord
    (cpus : Finset UInt32)
    (group : Nat)
    {bit : Nat}
    (small : bit < 32) :
    (maskWord cpus group).testBit bit = true ↔
      ∃ cpu ∈ cpus, cpu.toNat = 32 * group + bit := by
  rw [maskWord, Nat.testBit_ofBits_lt _ _ small, decide_eq_true_eq]

/-- The mask test of the loop is the test of one bit. -/
theorem groupCpus_eq (group bits : Nat) :
    groupCpus group bits =
      ((List.range 32).filter bits.testBit).map
        fun bit => UInt32.ofNat group * 32 + UInt32.ofNat bit := by
  have test (bit : Nat) : (bits &&& (1 <<< bit) != 0) = bits.testBit bit := by
    rw [Nat.one_shiftLeft, Nat.and_two_pow]
    cases bits.testBit bit <;> simp
  simp only [groupCpus, test]

theorem mem_groupCpus
    {group bits : Nat}
    {cpu : UInt32} :
    cpu ∈ groupCpus group bits ↔
      ∃ bit < 32, bits.testBit bit = true ∧
        UInt32.ofNat group * 32 + UInt32.ofNat bit = cpu := by
  simp only [groupCpus_eq, List.mem_map, List.mem_filter, List.mem_range,
    and_assoc]

/-- A number that fits is computed without overflow. -/
theorem toNat_cpuNumber
    {group bit : Nat}
    (fits : 32 * group + bit < 2 ^ 32) :
    (UInt32.ofNat group * 32 + UInt32.ofNat bit).toNat = 32 * group + bit := by
  simp only [UInt32.toNat_add, UInt32.toNat_mul, UInt32.toNat_ofNat']
  have factor : (32 : UInt32).toNat = 32 := rfl
  rw [factor]
  omega

/-- A set bit of a word is the number of a CPU, so it fits. -/
theorem cpuNumber_lt
    {cpus : Finset UInt32}
    {group bit : Nat}
    (small : bit < 32)
    (isSet : (maskWord cpus group).testBit bit = true) :
    32 * group + bit < 2 ^ 32 := by
  obtain ⟨cpu, -, number⟩ := (testBit_maskWord cpus group small).mp isSet
  rw [← number]
  exact cpu.toNat_lt

/-- The word of a group names exactly the CPUs of the set that belong to it. -/
theorem mem_groupCpus_maskWord
    {cpus : Finset UInt32}
    {group : Nat}
    {cpu : UInt32} :
    cpu ∈ groupCpus group (maskWord cpus group) ↔
      cpu ∈ cpus ∧ cpu.toNat / 32 = group := by
  rw [mem_groupCpus]
  constructor
  · rintro ⟨bit, small, isSet, rfl⟩
    have fits := cpuNumber_lt small isSet
    obtain ⟨cpu, member, number⟩ := (testBit_maskWord cpus group small).mp isSet
    have same : UInt32.ofNat group * 32 + UInt32.ofNat bit = cpu := by
      apply UInt32.toNat_inj.mp
      rw [toNat_cpuNumber fits, number]
    rw [same]
    exact ⟨member, by omega⟩
  · rintro ⟨member, rfl⟩
    have bound := cpu.toNat_lt
    have parts := Nat.div_add_mod cpu.toNat 32
    have small := Nat.mod_lt cpu.toNat (by omega : 32 > 0)
    refine ⟨cpu.toNat % 32, small, ?_, ?_⟩
    · exact (testBit_maskWord cpus _ small).mpr ⟨cpu, member, parts.symm⟩
    · apply UInt32.toNat_inj.mp
      rw [toNat_cpuNumber (by omega), parts]

/-- The CPUs of a group come out in increasing order. -/
theorem pairwise_groupCpus_maskWord (cpus : Finset UInt32) (group : Nat) :
    (groupCpus group (maskWord cpus group)).Pairwise (· < ·) := by
  rw [groupCpus_eq, List.pairwise_map]
  refine (List.pairwise_lt_range.filter _).imp_of_mem ?_
  intro first second firstMember secondMember order
  rw [List.mem_filter, List.mem_range] at firstMember secondMember
  have firstFits := cpuNumber_lt firstMember.1 firstMember.2
  have secondFits := cpuNumber_lt secondMember.1 secondMember.2
  rw [UInt32.lt_iff_toNat_lt, toNat_cpuNumber firstFits,
    toNat_cpuNumber secondFits]
  omega

/-- The CPUs of all groups in a row, before they are sorted. -/
theorem pairwise_flatMap_groupCpus (cpus : Finset UInt32) (groups : Nat) :
    ((List.range groups).flatMap fun group =>
      groupCpus group (maskWord cpus group)).Pairwise (· < ·) := by
  rw [List.pairwise_flatMap]
  refine ⟨fun group _ => pairwise_groupCpus_maskWord cpus group, ?_⟩
  refine List.pairwise_lt_range.imp ?_
  intro first second order x xMember y yMember
  have xGroup := (mem_groupCpus_maskWord.mp xMember).2
  have yGroup := (mem_groupCpus_maskWord.mp yMember).2
  rw [UInt32.lt_iff_toNat_lt]
  omega

namespace MaskLayout

/-- Trimming one printed group leaves its digits. -/
theorem trim_printGroup
    {layout : MaskLayout}
    {cpus : Finset UInt32}
    (fits : layout.Fits cpus)
    {group : Nat}
    (inside : group < layout.groups) :
    trim (layout.printGroup cpus group) = layout.digits cpus group := by
  apply trim_padded
  · exact fits.blankBefore group inside
  · exact fits.blankAfter group inside
  · intro c member
    have digit := toDigit_of_mem_numeral (by omega) (by omega) member
    by_contra blank
    rw [Bool.not_eq_false] at blank
    rw [toDigit_of_isWhitespace blank] at digit
    simp at digit
  · exact numeral_ne_nil _ _ _

/-- No comma stands inside a printed group. -/
theorem comma_not_mem_printGroup
    {layout : MaskLayout}
    {cpus : Finset UInt32}
    (fits : layout.Fits cpus)
    {group : Nat}
    (inside : group < layout.groups) :
    ',' ∉ layout.printGroup cpus group := by
  have visible : isWhitespace ',' = false := by decide
  rw [printGroup, List.mem_append, List.mem_append]
  rintro ((before | digits) | after)
  · exact separator_not_mem visible (fits.blankBefore group inside) before
  · exact not_mem_numeral (by omega) (by omega) (by decide) _ _ digits
  · exact separator_not_mem visible (fits.blankAfter group inside) after

/-- The parts of a printed mask, trimmed and counted from its end. -/
theorem parts_print
    {layout : MaskLayout}
    {cpus : Finset UInt32}
    (fits : layout.Fits cpus) :
    (((trim (layout.print cpus)).splitOn ',').map trim).reverse =
      (List.range layout.groups).map (layout.digits cpus) := by
  have visible : isWhitespace ',' = false := by decide
  have someGroup := fits.some_group
  rw [map_trim_splitOn_trim visible, print, List.splitOn_intercalate]
  · rw [List.map_map, ← List.map_reverse, List.reverse_reverse]
    apply List.map_congr_left
    intro group member
    exact trim_printGroup fits (List.mem_range.mp member)
  · intro part member
    simp only [List.mem_map, List.mem_reverse, List.mem_range] at member
    obtain ⟨group, inside, rfl⟩ := member
    exact comma_not_mem_printGroup fits inside
  · simp only [ne_eq, List.map_eq_nil_iff, List.reverse_eq_nil_iff,
      List.range_eq_nil]
    omega

end MaskLayout

/-- Numbering the members of a family numbers them by their index. -/
theorem zipIdx_map_range {α : Type} (family : Nat → α) (count : Nat) :
    ((List.range count).map family).zipIdx =
      (List.range count).map fun i => (family i, i) := by
  apply List.ext_getElem
  · simp
  · simp

theorem partCpus_digits
    (layout : MaskLayout)
    (cpus : Finset UInt32)
    (group : Nat) :
    partCpus (layout.digits cpus group) group =
      groupCpus group (maskWord cpus group) := by
  have read :
      fromStrRadix 16 (2 ^ 32) (layout.digits cpus group) =
        some (maskWord cpus group) :=
    fromStrRadix_numeral (by omega) (by omega) (maskWord_lt cpus group) _
  rw [partCpus, read]

/-- The CPUs of a printed mask stand group by group, which sorts them. -/
theorem parseCpumask_print
    {layout : MaskLayout}
    {cpus : Finset UInt32}
    (fits : layout.Fits cpus) :
    parseCpumask (layout.print cpus) =
      (List.range layout.groups).flatMap fun group =>
        groupCpus group (maskWord cpus group) := by
  have numbered :
      (((trim (layout.print cpus)).splitOn ',').reverse.zipIdx.map
          fun (part, group) => (trim part, group)) =
        (List.range layout.groups).map fun group =>
          (layout.digits cpus group, group) := by
    have parts := layout.parts_print fits
    rw [← List.map_reverse] at parts
    rw [← zipIdx_map_range, ← parts, List.zipIdx_map]
    rfl
  have unsorted :
      (((trim (layout.print cpus)).splitOn ',').reverse.zipIdx.flatMap
          fun (part, group) => partCpus (trim part) group) =
        (List.range layout.groups).flatMap fun group =>
          groupCpus group (maskWord cpus group) :=
    calc
      _ = ((((trim (layout.print cpus)).splitOn ',').reverse.zipIdx.map
            fun (part, group) => (trim part, group)).flatMap
              fun (part, group) => partCpus part group) := by
        rw [List.flatMap_map]
      _ = (List.range layout.groups).flatMap fun group =>
            partCpus (layout.digits cpus group) group := by
        rw [numbered, List.flatMap_map]
      _ = _ := by
        simp only [partCpus_digits]
  have sorted :=
    (pairwise_flatMap_groupCpus cpus layout.groups).imp UInt32.le_of_lt
  rw [parseCpumask, unsorted]
  exact sorted.insertionSort_eq

/--
A printed mask is read back exactly, however many groups, leading zeros and
blanks it is printed with.
-/
theorem cpumask_read_back
    (cpus : Finset UInt32)
    (layout : MaskLayout)
    (fits : layout.Fits cpus) :
    (parseCpumask (layout.print cpus)).Pairwise (· < ·) ∧
      ∀ cpu, cpu ∈ parseCpumask (layout.print cpus) ↔ cpu ∈ cpus := by
  rw [parseCpumask_print fits]
  refine ⟨pairwise_flatMap_groupCpus cpus layout.groups, ?_⟩
  intro cpu
  simp only [List.mem_flatMap, List.mem_range, mem_groupCpus_maskWord]
  constructor
  · rintro ⟨group, -, member, -⟩
    exact member
  · intro member
    exact ⟨cpu.toNat / 32, fits.covers cpu member, member, rfl⟩

/-- Three groups of different widths and a line break at the end. -/
theorem cpumask_read_back_three_groups :
    let layout : MaskLayout :=
      { groups := 3
        zeros := fun group => if group = 1 then 7 else 0
        before := fun _ => []
        after := fun group => if group = 0 then ['\n'] else [] }
    layout.print {70, 3, 1} = "40,00000000,a\n".toList ∧
      (parseCpumask (layout.print {70, 3, 1})).Pairwise (· < ·) ∧
      ∀ cpu,
        cpu ∈ parseCpumask (layout.print {70, 3, 1}) ↔
          cpu ∈ ({70, 3, 1} : Finset UInt32) := by
  intro layout
  have fits : layout.Fits {70, 3, 1} := by
    constructor
    · decide
    · intro cpu member
      simp only [Finset.mem_insert, Finset.mem_singleton] at member
      rcases member with rfl | rfl | rfl
      · decide
      · decide
      · decide
    · decide +kernel
    · intro group _ c member
      simp [layout] at member
    · intro group _ c member
      simp only [layout] at member
      split at member
      · rw [List.mem_singleton.mp member]
        decide
      · simp at member
  exact ⟨by decide +kernel, cpumask_read_back {70, 3, 1} layout fits⟩

-- the high group is printed first
example : parseCpumask "00000001,40000000".toList = [30, 32] := by
  decide +kernel

end DnsServices.Microdoh3
