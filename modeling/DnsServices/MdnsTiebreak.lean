import Mathlib.Data.Multiset.Basic
import Mathlib.Data.Prod.Lex
import DnsServices.LexCompare
import DnsServices.MdnsRecord

namespace DnsServices.MdnsPublisher

open LexCompare

/-!
# Simultaneous-probe tiebreaking

Two hosts that probe for one name at the same time each compare the other's
proposed records with their own.  The comparison reads nothing of a record
but its class without the cache-flush bit, its type and its raw rdata, so the
outcome is a lexicographic comparison of two sorted lists of such keys.
-/

section Code

/-- The order of `bytes.Compare`. -/
def bytesCompare : List UInt8 → List UInt8 → Ordering
  | [], [] => .eq
  | [], _ :: _ => .lt
  | _ :: _, [] => .gt
  | a :: as, b :: bs =>
      if a < b then
        .lt
      else if b < a then
        .gt
      else
        bytesCompare as bs

/-- The canonical ordering: class (ignoring cache-flush bit), then type, then
raw rdata. -/
def rrLess (a b : RR) : Bool :=
  let aClass := a.header.rrclass &&& ~~~cacheFlushBit
  let bClass := b.header.rrclass &&& ~~~cacheFlushBit
  if aClass ≠ bClass then
    decide (aClass < bClass)
  else if a.header.rrtype ≠ b.header.rrtype then
    decide (a.header.rrtype < b.header.rrtype)
  else
    bytesCompare (rrdataBytes a) (rrdataBytes b) == .lt

/-- A question of a message. -/
structure Question where
  name : String
  qtype : UInt16
  qclass : UInt16
  deriving Repr, DecidableEq

/-- The sections of a message that probing reads. -/
structure Msg where
  question : List Question
  ns : List RR
  deriving Repr, DecidableEq

/-- What the handlers of packets see of the server. -/
structure MdnsServer where
  zone : HostnameZone
  probeName : String
  conflictDetected : Bool
  deriving Repr, DecidableEq

/-- The comparison loop over the sorted lists, up to the shorter one's end. -/
def tiebreakLoop : List RR → List RR → Bool
  | our :: restOur, their :: restTheir =>
      if rrLess our their then
        false
      else if rrLess their our then
        true
      else
        tiebreakLoop restOur restTheir
  -- all compared equal; the list with remaining records wins
  | restOur, restTheir => decide (restTheir.length > restOur.length)

namespace MdnsServer

/-- Whether the other host's proposed records win the §8.2 tiebreak. -/
def theyWinTiebreak (s : MdnsServer) (their : List RR) : Bool :=
  tiebreakLoop
    (sortSlice rrLess s.zone.snapshotRecords) (sortSlice rrLess their)

/-- A probe for the name that is being probed is compared with the own records.
-/
def handleProbeTiebreak (s : MdnsServer) (msg : Msg) : MdnsServer :=
  if msg.question.any fun q => equalFold q.name s.probeName then
    let their := msg.ns.filter fun rr => equalFold rr.header.name s.probeName
    if their.length = 0 then
      s
    else if s.theyWinTiebreak their then
      { s with conflictDetected := true }
    else
      s
  else
    s

end MdnsServer

/-- mDNSResponder/avahi convention. -/
def probeTiebreakTTL : UInt32 := 255

/-- The proposed records as the Authority section of a probe carries them. -/
def probeRecords (ourRecords : List RR) : List RR :=
  ourRecords.map (RR.withTtl probeTiebreakTTL)

/-- The query that probing sends. -/
def probeMsg (name : String) (ourRecords : List RR) : Msg where
  question := [{ name := name, qtype := typeANY, qclass := classINET ||| quBit }]
  ns := probeRecords ourRecords

/-- The decision of a host that publishes `ours` about a probe for
`theirs`. -/
def win (ours theirs : List RR) : Bool :=
  MdnsServer.theyWinTiebreak
    { zone := { records := ours, nsec := none }
      probeName := ""
      conflictDetected := false }
    (probeRecords theirs)

end Code

section Keys

/-- What the tiebreak compares of a record. -/
structure Key where
  rrclass : UInt16
  rrtype : UInt16
  rdata : List UInt8
  deriving Repr, DecidableEq

namespace Key

/-- What the tiebreak compares of a record. -/
def of (r : RR) : Key where
  rrclass := r.header.rrclass &&& ~~~cacheFlushBit
  rrtype := r.header.rrtype
  rdata := rrdataBytes r

/-- A key as a tuple of numbers in lexicographic order. -/
def rank (key : Key) : Nat ×ₗ Nat ×ₗ List Nat :=
  toLex (key.rrclass.toNat,
    toLex (key.rrtype.toNat, key.rdata.map UInt8.toNat))

/-- Keys of one rank are the same key. -/
theorem rank_injective : Function.Injective rank := by
  intro first second equal
  obtain ⟨firstClass, firstType, firstData⟩ := first
  obtain ⟨secondClass, secondType, secondData⟩ := second
  simp only [rank, toLex_inj, Prod.mk.injEq, UInt16.toNat_inj] at equal
  obtain ⟨rfl, rfl, sameData⟩ := equal
  have byteInjective : Function.Injective UInt8.toNat := by
    intro first second same
    exact UInt8.toNat_inj.mp same
  rw [List.map_injective_iff.mpr byteInjective sameData]

instance : LinearOrder Key :=
  LinearOrder.lift' rank rank_injective

/-- Keys are ordered as their ranks are. -/
theorem lt_iff_rank (first second : Key) :
    first < second ↔ rank first < rank second :=
  Iff.rfl

/-- Class first, then type, then the rdata bytes. -/
theorem lt_iff (first second : Key) :
    first < second ↔
      first.rrclass < second.rrclass ∨
        first.rrclass = second.rrclass ∧
          (first.rrtype < second.rrtype ∨
            first.rrtype = second.rrtype ∧
              first.rdata.map UInt8.toNat < second.rdata.map UInt8.toNat) := by
  simp only [lt_iff_rank, rank, Prod.Lex.toLex_lt_toLex, UInt16.lt_iff_toNat_lt,
    UInt16.toNat_inj]

end Key

/-- bytes.Compare is the lexicographic order on the byte values. -/
theorem bytesCompare_eq_lt_iff (first second : List UInt8) :
    bytesCompare first second = .lt ↔
      first.map UInt8.toNat < second.map UInt8.toNat := by
  induction first generalizing second with
  | nil =>
      cases second with
      | nil =>
          simp [bytesCompare]
      | cons b bs =>
          simp [bytesCompare]
  | cons a as inductionHypothesis =>
      cases second with
      | nil =>
          simp [bytesCompare]
      | cons b bs =>
          rw [bytesCompare, List.map_cons, List.map_cons, List.cons_lt_cons_iff,
            ← inductionHypothesis, ← UInt8.lt_iff_toNat_lt, UInt8.toNat_inj]
          by_cases below : a < b
          · simp [below]
          · by_cases above : b < a
            · have different : a ≠ b := by
                rintro rfl
                exact below above
              simp [below, above, different]
            · have same : a = b :=
                UInt8.le_antisymm (UInt8.not_lt.mp above)
                  (UInt8.not_lt.mp below)
              simp [same]

/-- The comparison of records is the order of their keys. -/
theorem rrLess_iff (a b : RR) :
    rrLess a b = true ↔ Key.of a < Key.of b := by
  simp only [rrLess, Key.lt_iff, Key.of]
  split
  · rename_i differentClass
    simp [differentClass]
  · rename_i sameClass
    rw [not_not] at sameClass
    split
    · rename_i differentType
      simp [sameClass, differentType]
    · rename_i sameType
      rw [not_not] at sameType
      simp [sameClass, sameType, bytesCompare_eq_lt_iff]

@[simp] theorem Key.of_withTtl (ttl : UInt32) (r : RR) :
    Key.of (r.withTtl ttl) = Key.of r := by
  cases r <;> rfl

/-- The records of a probe have the keys of the zone's records. -/
theorem map_key_probeRecords (records : List RR) :
    (probeRecords records).map Key.of = records.map Key.of := by
  simp [probeRecords]

/-- The loop compares the keys lexicographically, the lower key winning. -/
theorem tiebreakLoop_iff (our their : List RR) :
    tiebreakLoop our their = true ↔
      List.Lex (· > ·) (our.map Key.of) (their.map Key.of) := by
  induction our generalizing their with
  | nil =>
      cases their with
      | nil =>
          simp [tiebreakLoop]
      | cons their restTheir =>
          simp only [tiebreakLoop, List.map_nil, List.map_cons]
          exact ⟨fun _ => List.Lex.nil, fun _ => by simp⟩
  | cons our restOur inductionHypothesis =>
      cases their with
      | nil =>
          simp [tiebreakLoop]
      | cons their restTheir =>
          simp only [tiebreakLoop, List.map_cons]
          by_cases ourLess : rrLess our their = true
          · have below := (rrLess_iff our their).mp ourLess
            rw [if_pos ourLess, lex_cons_cons_iff (ne_of_lt below)]
            simp [le_of_lt below]
          · rw [if_neg ourLess]
            by_cases theirLess : rrLess their our = true
            · have above := (rrLess_iff their our).mp theirLess
              rw [if_pos theirLess, lex_cons_cons_iff (ne_of_gt above)]
              simp [above]
            · rw [if_neg theirLess, inductionHypothesis]
              rw [rrLess_iff, not_lt] at ourLess theirLess
              rw [le_antisymm theirLess ourLess, List.lex_cons_iff]

end Keys

section Agreement

/-- The keys of records in the order the tiebreak compares them. -/
def sortedKeys (records : List RR) : List Key :=
  (sortSlice rrLess records).map Key.of

/-- The sorted keys are canonical: they say which keys occur how often. -/
theorem sortedKeys_eq_iff (first second : List RR) :
    sortedKeys first = sortedKeys second ↔
      (first.map Key.of).Perm (second.map Key.of) :=
  keys_sortSlice_eq_iff rrLess_iff first second

/-- They win exactly when our sorted keys precede theirs, greater keys first. -/
theorem theyWinTiebreak_iff (s : MdnsServer) (their : List RR) :
    s.theyWinTiebreak their = true ↔
      List.Lex (· > ·) (sortedKeys s.zone.records) (sortedKeys their) :=
  tiebreakLoop_iff _ _

theorem sortedKeys_probeRecords (records : List RR) :
    sortedKeys (probeRecords records) = sortedKeys records := by
  rw [sortedKeys_eq_iff, map_key_probeRecords]

/-- The tiebreak between two record lists is the order of their sorted keys. -/
theorem win_iff (ours theirs : List RR) :
    win ours theirs = true ↔
      List.Lex (· > ·) (sortedKeys ours) (sortedKeys theirs) := by
  rw [win, theyWinTiebreak_iff, sortedKeys_probeRecords]

theorem header_withTtl_name (ttl : UInt32) (r : RR) :
    (r.withTtl ttl).header.name = r.header.name := by
  cases r <;> rfl

/-- A probe for the name a server probes raises its conflict exactly if the
proposed records win. -/
theorem handleProbeTiebreak_probeMsg
    (s : MdnsServer)
    (theirs : List RR)
    (named : ∀ r ∈ theirs, equalFold r.header.name s.probeName = true) :
    (s.handleProbeTiebreak (probeMsg s.probeName theirs)).conflictDetected =
      (s.conflictDetected || win s.zone.records theirs) := by
  have kept :
      ((probeRecords theirs).filter fun rr =>
        equalFold rr.header.name s.probeName) = probeRecords theirs := by
    rw [List.filter_eq_self]
    intro rr member
    obtain ⟨r, rMember, rfl⟩ := List.mem_map.mp member
    rw [header_withTtl_name]
    exact named r rMember
  have decision :
      s.theyWinTiebreak (probeRecords theirs) = win s.zone.records theirs := by
    rw [Bool.eq_iff_iff, theyWinTiebreak_iff, win_iff,
      sortedKeys_probeRecords]
  simp only [MdnsServer.handleProbeTiebreak, probeMsg, List.any_cons,
    equalFold_self, Bool.true_or, if_true, kept, decision]
  split
  · rename_i empty
    have noRecords : theirs = [] := by
      simpa [probeRecords] using empty
    have loses : win s.zone.records [] = false := by
      rw [← Bool.not_eq_true, win_iff]
      simp [sortedKeys, sortSlice]
    rw [noRecords, loses, Bool.or_false]
  · split
    · rename_i wins
      rw [wins, Bool.or_true]
    · rename_i loses
      rw [Bool.not_eq_true] at loses
      rw [loses, Bool.or_false]

/-- Neither of two hosts defers to the other exactly if they propose the same
keys. -/
theorem not_win_iff (R S : List RR) :
    win R S = false ∧ win S R = false ↔
      (R.map Key.of).Perm (S.map Key.of) := by
  rw [← sortedKeys_eq_iff, ← Bool.not_eq_true, ← Bool.not_eq_true, win_iff,
    win_iff]
  constructor
  · rintro ⟨notLater, notEarlier⟩
    exact Std.Trichotomous.trichotomous _ _ notLater notEarlier
  · intro same
    rw [same]
    exact ⟨irrefl _, irrefl _⟩

/-- Two hosts that probe for one name with the records `R` and `S` agree on
the winner, whatever the order in which either lists its records, and a host
does not defer to itself. -/
theorem win_agrees (R S : List RR) :
    ¬ (win R S = true ∧ win S R = true) ∧
      (win R S = false ∧ win S R = false ↔
        (R.map Key.of : Multiset Key) = S.map Key.of) ∧
      (∀ R' S', R'.Perm R → S'.Perm S → win R' S' = win R S) ∧
      win R R = false := by
  refine ⟨?_, ?_, ?_, ?_⟩
  · rintro ⟨theyWin, weWin⟩
    rw [win_iff] at theyWin weWin
    exact asymm theyWin weWin
  · rw [not_win_iff, Multiset.coe_eq_coe]
  · intro R' S' permR permS
    rw [Bool.eq_iff_iff, win_iff, win_iff,
      (sortedKeys_eq_iff R' R).mpr (permR.map Key.of),
      (sortedKeys_eq_iff S' S).mpr (permS.map Key.of)]
  · exact ((not_win_iff R R).mpr (List.Perm.refl _)).1

end Agreement

section Direction

/-- The host that proposes the lexicographically later records wins, as RFC
6762 §8.2 has it. -/
def TheyComeLater (our their : List RR) : Prop :=
  Later (· < ·) (sortedKeys our) (sortedKeys their)

/-- The decision has the direction of the RFC exactly if the sorted keys do
not differ at a common position. -/
theorem theyWinTiebreak_iff_later
    (s : MdnsServer)
    (their : List RR) :
    (s.theyWinTiebreak their = true ↔
        TheyComeLater s.zone.records their) ↔
      sortedKeys s.zone.records <+: sortedKeys their ∨
        sortedKeys their <+: sortedKeys s.zone.records := by
  rw [theyWinTiebreak_iff, TheyComeLater, later_iff_lex,
    lex_gt_iff_lex_lt_iff]

/-- A host that probes for `host.local.` with one IPv4 address. -/
def probingHost (address : IP) : MdnsServer where
  zone :=
    { records := recordsForIPs "host.local." [address] 120
      nsec := none }
  probeName := "host.local."
  conflictDetected := false

/-- The host with the address 10.0.0.2 defers to the one with 10.0.0.1, whose
record comes earlier. -/
theorem theyWinTiebreak_lower_address :
    ¬ ((probingHost [10, 0, 0, 2]).theyWinTiebreak
          (probeRecords (probingHost [10, 0, 0, 1]).zone.records) = true ↔
        TheyComeLater (probingHost [10, 0, 0, 2]).zone.records
          (probeRecords (probingHost [10, 0, 0, 1]).zone.records)) := by
  rw [theyWinTiebreak_iff, TheyComeLater, later_iff_lex,
    lex_gt_iff_lex_lt_iff]
  decide

end Direction

end DnsServices.MdnsPublisher
