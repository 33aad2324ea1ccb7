import DnsServices.MdnsPacket

namespace DnsServices.MdnsPublisher

/-!
# Known answers

A record is left out of a response if the querier lists it with at least half
of its TTL.  The code halves the TTL of the record instead of doubling that of
the known answer, so an odd TTL is rounded down.
-/

section Rdata

/-- One address, in the form of either family. -/
def SameAddress (first second : IP) : Prop :=
  first = second ∨ (first.to16 = second.to16 ∧ first.to16 ≠ [])

/-- An address in sixteen bytes holds one of four. -/
theorem IP.inV6_iff {short long : IP} :
    (long.take 12 = v4InV6Head ∧ short = long.drop 12) ↔
      v4InV6Head ++ short = long := by
  constructor
  · rintro ⟨head, rfl⟩
    rw [← head, List.take_append_drop]
  · rintro rfl
    exact ⟨rfl, rfl⟩

/-- An address with a 16-byte form has 4 or 16 bytes. -/
theorem IP.length_of_to16_ne_nil {ip : IP} (some : ip.to16 ≠ []) :
    ip.length = 4 ∨ ip.length = 16 := by
  unfold to16 at some
  split at some
  · exact .inl ‹_›
  · split at some
    · exact .inr ‹_›
    · exact (some rfl).elim

/-- IP.Equal compares addresses across their two forms. -/
theorem IP.equal_iff (first second : IP) :
    first.equal second = true ↔ SameAddress first second := by
  unfold equal SameAddress
  split
  next sameLength =>
    have forms : first.to16 = second.to16 → first.to16 ≠ [] →
        first = second := by
      unfold to16
      rw [← sameLength]
      split
      · exact fun same _ => List.append_cancel_left same
      · split
        · exact fun same _ => same
        · exact fun _ none => (none rfl).elim
    rw [beq_iff_eq]
    constructor
    · exact .inl
    · rintro (same | ⟨same, some⟩)
      · exact same
      · exact forms same some
  next otherLength =>
    have different : first ≠ second := fun same =>
      otherLength (congrArg List.length same)
    split
    next lengths =>
      have form : first.to16 = v4InV6Head ++ first := if_pos lengths.1
      have form' : second.to16 = second := by
        simp [to16, lengths.2]
      rw [Bool.and_eq_true, beq_iff_eq, beq_iff_eq, inV6_iff, form, form']
      simp [different, v4InV6Head]
    next notShorter =>
      split
      next lengths =>
        have form : first.to16 = first := by
          simp [to16, lengths.1]
        have form' : second.to16 = v4InV6Head ++ second := if_pos lengths.2
        have some : first ≠ [] := by
          intro empty
          simp [empty] at lengths
        rw [Bool.and_eq_true, beq_iff_eq, beq_iff_eq, eq_comm (b := second),
          inV6_iff, form, form']
        simp [different, some, eq_comm]
      next notLonger =>
        -- At most one of the two lengths is that of an address.
        refine iff_of_false (by simp) ?_
        rintro (same | ⟨same, some⟩)
        · exact different same
        · have some' : second.to16 ≠ [] := same ▸ some
          rcases length_of_to16_ne_nil some with four | sixteen
          · rcases length_of_to16_ne_nil some' with four' | sixteen'
            · exact otherLength (four.trans four'.symm)
            · exact notShorter ⟨four, sixteen'⟩
          · rcases length_of_to16_ne_nil some' with four' | sixteen'
            · exact notLonger ⟨sixteen, four'⟩
            · exact otherLength (sixteen.trans sixteen'.symm)

/-- The same data: one address, or one next name and one set of types. -/
def SameRdata : RR → RR → Prop
  | .a _ x, .a _ y =>
      SameAddress x y
  | .aaaa _ x, .aaaa _ y =>
      SameAddress x y
  | .nsec _ nextDomain types, .nsec _ nextDomain' types' =>
      equalFold nextDomain nextDomain' = true ∧ types ⊆ types' ∧
        types' ⊆ types
  | .other _ rdata, .other _ rdata' =>
      rdata = rdata'
  | _, _ =>
      False

/-- The records that the publisher sends and looks for; a bitmap lists a type
once, as on the wire. -/
def RR.Answerable : RR → Prop
  | .a _ _ =>
      True
  | .aaaa _ _ =>
      True
  | .nsec _ _ types =>
      types.Nodup
  | .other _ _ =>
      False

/-- Among bitmaps without repeats the length and one inclusion tell whether
they list the same types. -/
theorem nsecTypesEqual_iff
    {first second : List UInt16}
    (firstOnce : first.Nodup)
    (secondOnce : second.Nodup) :
    nsecTypesEqual first second = true ↔
      first ⊆ second ∧ second ⊆ first := by
  unfold nsecTypesEqual
  split
  next otherLength =>
    refine iff_of_false (by simp) ?_
    rintro ⟨subset, superset⟩
    exact otherLength
      (Nat.le_antisymm (firstOnce.subperm subset).length_le
        (secondOnce.subperm superset).length_le)
  next sameLength =>
    rw [not_not] at sameLength
    have listed :
        (second.all fun rrtype => first.contains rrtype) = true ↔
          second ⊆ first := by
      simp [List.subset_def]
    rw [listed]
    constructor
    · intro superset
      have perm : second.Perm first :=
        (secondOnce.subperm superset).perm_of_length_le sameLength.le
      exact ⟨perm.symm.subset, superset⟩
    · exact And.right

/-- For answerable records rrdataEqual is equality of the data. -/
theorem rrdataEqual_iff
    {first second : RR}
    (firstAnswerable : first.Answerable)
    (secondAnswerable : second.Answerable) :
    rrdataEqual first second = true ↔ SameRdata first second := by
  cases first with
  | a _ x =>
      cases second with
      | a _ y =>
          exact IP.equal_iff x y
      | _ =>
          simp [rrdataEqual, SameRdata]
  | aaaa _ x =>
      cases second with
      | aaaa _ y =>
          exact IP.equal_iff x y
      | _ =>
          simp [rrdataEqual, SameRdata]
  | nsec _ nextDomain types =>
      cases second with
      | nsec _ nextDomain' types' =>
          have typesEqual :=
            nsecTypesEqual_iff firstAnswerable secondAnswerable
          simp only [rrdataEqual, SameRdata, Bool.and_eq_true, typesEqual]
      | _ =>
          simp [rrdataEqual, SameRdata]
  | other _ _ =>
      exact firstAnswerable.elim

end Rdata

section HalfTtl

/-- The same name ignoring case, type, class ignoring the cache-flush bit, and
data. -/
def Matches (known r : RR) : Prop :=
  equalFold known.header.name r.header.name = true ∧
    known.header.rrtype = r.header.rrtype ∧
    known.header.rrclass &&& ~~~cacheFlushBit =
      r.header.rrclass &&& ~~~cacheFlushBit ∧
    SameRdata known r

/-- RFC 6762 §7.1: the querier lists the record with a TTL at least half the
correct value. -/
def HalfKnown (r : RR) (known : List RR) : Prop :=
  ∃ k ∈ known, Matches k r ∧ r.header.ttl.toNat ≤ 2 * k.header.ttl.toNat

open Classical in
/-- Exactly the records that are not known with half of their TTL are kept, in
order. -/
def SuppressesHalf (records known : List RR) : Prop :=
  HostnameZone.filterKnownAnswers records known =
    records.filter fun r => ¬ HalfKnown r known

variable
  {records known : List RR}
  {r : RR}

/-- The code asks for half of the TTL rounded down. -/
theorem isKnownAnswer_iff
    (answerable : r.Answerable)
    (knownAnswerable : ∀ k ∈ known, k.Answerable) :
    HostnameZone.isKnownAnswer r known = true ↔
      ∃ k ∈ known,
        Matches k r ∧ r.header.ttl.toNat / 2 ≤ k.header.ttl.toNat := by
  rw [HostnameZone.isKnownAnswer, List.any_eq_true]
  refine exists_congr fun k => and_congr_right fun member => ?_
  simp only [Bool.and_eq_true, beq_iff_eq, decide_eq_true_eq, Matches,
    rrdataEqual_iff (knownAnswerable k member) answerable,
    UInt32.le_iff_toNat_le, UInt32.toNat_div, and_assoc]
  rfl

/-- Suppression keeps exactly the records that are no known answers. -/
theorem filterKnownAnswers_eq (records known : List RR) :
    HostnameZone.filterKnownAnswers records known =
      records.filter fun r => !HostnameZone.isKnownAnswer r known := by
  unfold HostnameZone.filterKnownAnswers
  split
  next empty =>
    rcases empty with none | none
    · simp [List.length_eq_zero_iff.mp none, HostnameZone.isKnownAnswer]
    · simp [List.length_eq_zero_iff.mp none]
  next =>
    rfl

/-- Both rules part only where the known TTL is the rounded half of an odd
one. -/
theorem half_le_iff {ttl known : Nat} :
    ttl / 2 ≤ known ↔ ttl ≤ 2 * known ∨ (ttl % 2 = 1 ∧ known = ttl / 2) := by
  omega

/-- The code and the rule agree on a record unless its TTL is odd and the most
it is listed with is the half rounded down. -/
theorem isKnownAnswer_iff_halfKnown_iff
    (answerable : r.Answerable)
    (knownAnswerable : ∀ k ∈ known, k.Answerable) :
    (HostnameZone.isKnownAnswer r known = true ↔ HalfKnown r known) ↔
      (r.header.ttl.toNat % 2 = 1 →
        (∃ k ∈ known,
          Matches k r ∧ k.header.ttl.toNat = r.header.ttl.toNat / 2) →
        ∃ k ∈ known,
          Matches k r ∧ r.header.ttl.toNat / 2 < k.header.ttl.toNat) := by
  rw [isKnownAnswer_iff answerable knownAnswerable]
  constructor
  · intro exact odd rounded
    obtain ⟨k, member, matched, half⟩ := rounded
    obtain ⟨k', member', matched', enough⟩ :=
      exact.mp ⟨k, member, matched, half.ge⟩
    exact ⟨k', member', matched', by omega⟩
  · intro above
    constructor
    · rintro ⟨k, member, matched, half⟩
      rcases half_le_iff.mp half with enough | ⟨odd, rounded⟩
      · exact ⟨k, member, matched, enough⟩
      · obtain ⟨k', member', matched', more⟩ :=
          above odd ⟨k, member, matched, rounded⟩
        exact ⟨k', member', matched', by omega⟩
    · rintro ⟨k, member, matched, enough⟩
      exact ⟨k, member, matched, half_le_iff.mpr (.inl enough)⟩

/-- Suppression follows the half-TTL rule exactly if every record of odd TTL
that is listed with the half rounded down is also listed with more. -/
theorem suppressesHalf_iff
    (answerable : ∀ r ∈ records, r.Answerable)
    (knownAnswerable : ∀ k ∈ known, k.Answerable) :
    SuppressesHalf records known ↔
      ∀ r ∈ records,
        r.header.ttl.toNat % 2 = 1 →
          (∃ k ∈ known,
            Matches k r ∧ k.header.ttl.toNat = r.header.ttl.toNat / 2) →
          ∃ k ∈ known,
            Matches k r ∧ r.header.ttl.toNat / 2 < k.header.ttl.toNat := by
  classical
  rw [SuppressesHalf, filterKnownAnswers_eq]
  constructor
  · intro same r member
    rw [← isKnownAnswer_iff_halfKnown_iff (answerable r member)
      knownAnswerable]
    have kept := congrArg (r ∈ ·) same
    simp only [List.mem_filter, member, true_and, Bool.not_eq_true',
      decide_eq_true_eq, eq_iff_iff] at kept
    rw [← not_iff_not, Bool.not_eq_true]
    exact kept
  · intro above
    refine List.filter_congr ?_
    intro r member
    have exact :=
      (isKnownAnswer_iff_halfKnown_iff (answerable r member)
        knownAnswerable).mpr (above r member)
    rw [Bool.eq_iff_iff, Bool.not_eq_true', decide_eq_true_eq, ← exact,
      Bool.not_eq_true]

/-- An address record of `host.local.`, as it is published or listed. -/
def hostA (ttl : UInt32) : RR :=
  .a { name := "host.local.", rrtype := typeA, rrclass := 0x8001, ttl := ttl }
    [10, 0, 0, 1]

/-- An even TTL is halved exactly. -/
theorem suppressesHalf_evenTtl :
    SuppressesHalf [hostA 120] [hostA 60] := by
  refine (suppressesHalf_iff ?_ ?_).mpr ?_
  · simp [hostA, RR.Answerable]
  · simp [hostA, RR.Answerable]
  · simp [hostA, RR.header]

/-- A TTL of 60 is less than half of 121, and the record is left out. -/
theorem not_suppressesHalf_oddTtl :
    ¬ SuppressesHalf [hostA 121] [hostA 60] := by
  intro suppresses
  have leftOut :
      HostnameZone.filterKnownAnswers [hostA 121] [hostA 60] = [] := by
    decide
  have unknown : ¬ HalfKnown (hostA 121) [hostA 60] := by
    rintro ⟨k, member, -, enough⟩
    rw [List.mem_singleton.mp member] at enough
    exact absurd enough (by decide)
  rw [SuppressesHalf, leftOut, eq_comm, List.filter_eq_nil_iff] at suppresses
  exact suppresses (hostA 121) (by simp) (by simpa using unknown)

end HalfTtl

end DnsServices.MdnsPublisher
