import Mathlib.Data.List.Basic
import Mathlib.Data.Option.Basic
import Mathlib.Order.Lattice

namespace DnsServices.RecordCache

/-!
# Caches of announced records

A cache keeps what it hears of until the time to live is over.  A record can be
withdrawn, and a message that claims to hold the whole set of a record makes the
records of the set that it leaves out go; either way they stay for a moment of
grace.  What a message does to one record depends on the entry of that record
alone.
-/

variable {κ σ : Type}

/-- When a record was heard last, and how long it is kept. -/
structure Entry where
  received : Nat
  expires : Nat
  deriving Repr, DecidableEq

/-- One record of a message; without a time to live it is withdrawn. -/
structure Heard (κ : Type) where
  key : κ
  ttl : Nat
  /-- The message claims to hold the whole set of the record. -/
  flush : Bool
  deriving Repr, DecidableEq

/-- The sets of records, and the moment that is left to those that go. -/
structure Rules (κ σ : Type) where
  setOf : κ → σ
  grace : Nat

/-- What is remembered of each record. -/
abbrev Cache (κ : Type) := κ → Option Entry

/-- Let an entry end at a deadline, if it does not end before. -/
def Entry.cut (deadline : Nat) (entry : Entry) : Entry :=
  { entry with expires := min entry.expires deadline }

namespace Rules

variable [DecidableEq κ] [DecidableEq σ]

/-- What one record of a message does to the entry of a key. -/
def hearOne
    (rules : Rules κ σ)
    (now : Nat)
    (key : κ)
    (entry : Option Entry)
    (heard : Heard κ) : Option Entry :=
  if heard.key = key then
    if heard.ttl = 0 then
      entry.map (Entry.cut (now + rules.grace))
    else
      some { received := now, expires := now + heard.ttl }
  else if heard.flush ∧ rules.setOf heard.key = rules.setOf key then
    entry.map fun old =>
      -- what was heard a moment ago may be part of the same set
      if old.received + rules.grace < now then
        old.cut (now + rules.grace)
      else
        old
  else
    entry

/-- A message, record by record. -/
def hear
    (rules : Rules κ σ)
    (now : Nat)
    (message : List (Heard κ))
    (cache : Cache κ) : Cache κ :=
  fun key => message.foldl (rules.hearOne now key) (cache key)

end Rules

/-- A record that is still kept. -/
def Live (now : Nat) (entry : Option Entry) : Prop :=
  ∃ kept ∈ entry, now < kept.expires

/-- The record is gone by some time. -/
def EndsBy (deadline : Nat) (entry : Option Entry) : Prop :=
  ∀ kept ∈ entry, kept.expires ≤ deadline

/-- The record is kept up to some time. -/
def Lasts (limit : Nat) (entry : Option Entry) : Prop :=
  ∃ kept ∈ entry, limit ≤ kept.expires

theorem EndsBy.mono
    {earlier later : Nat}
    {entry : Option Entry}
    (ends : EndsBy earlier entry)
    (le : earlier ≤ later) :
    EndsBy later entry :=
  fun kept isKept => (ends kept isKept).trans le

/-- An entry that has ended is not live. -/
theorem EndsBy.not_live
    {deadline now : Nat}
    {entry : Option Entry}
    (ends : EndsBy deadline entry)
    (passed : deadline ≤ now) :
    ¬ Live now entry := by
  rintro ⟨kept, isKept, live⟩
  exact absurd live (Nat.not_lt.mpr ((ends kept isKept).trans passed))

theorem Lasts.mono
    {earlier later : Nat}
    {entry : Option Entry}
    (lasts : Lasts later entry)
    (le : earlier ≤ later) :
    Lasts earlier entry :=
  lasts.imp fun _ both => ⟨both.1, le.trans both.2⟩

/-- An entry that lasts beyond now is live. -/
theorem Lasts.live
    {limit now : Nat}
    {entry : Option Entry}
    (lasts : Lasts limit entry)
    (before : now < limit) :
    Live now entry :=
  lasts.imp fun _ both => ⟨both.1, before.trans_le both.2⟩

section Withdrawing

/-- A cut entry ends by the moment of the cut. -/
theorem endsBy_cut (deadline : Nat) (entry : Option Entry) :
    EndsBy deadline (entry.map (Entry.cut deadline)) := by
  intro kept isKept
  obtain ⟨old, -, rfl⟩ := Option.map_eq_some_iff.mp isKept
  exact Nat.min_le_right _ _

theorem EndsBy.cut
    {deadline : Nat}
    {entry : Option Entry}
    (ends : EndsBy deadline entry)
    (other : Nat) :
    EndsBy deadline (entry.map (Entry.cut other)) := by
  intro kept isKept
  obtain ⟨old, isOld, rfl⟩ := Option.map_eq_some_iff.mp isKept
  exact (Nat.min_le_left _ _).trans (ends old isOld)

variable
  [DecidableEq κ] [DecidableEq σ]
  {rules : Rules κ σ}
  {now deadline : Nat}
  {key : κ}

/-- Nothing but an announcement of a record makes it stay longer. -/
theorem EndsBy.hearOne
    {entry : Option Entry}
    (ends : EndsBy deadline entry)
    {heard : Heard κ}
    (silent : heard.key = key → heard.ttl = 0) :
    EndsBy deadline (rules.hearOne now key entry heard) := by
  unfold Rules.hearOne
  split
  next same =>
    rw [if_pos (silent same)]
    exact ends.cut _
  next =>
    split
    · intro kept isKept
      obtain ⟨old, isOld, rfl⟩ := Option.map_eq_some_iff.mp isKept
      split
      · exact (Nat.min_le_left _ _).trans (ends old isOld)
      · exact ends old isOld
    · exact ends

/-- Only a record under the key with a positive TTL prolongs an entry. -/
theorem EndsBy.foldl_hearOne
    {entry : Option Entry}
    (ends : EndsBy deadline entry)
    {message : List (Heard κ)}
    (silent : ∀ heard ∈ message, heard.key = key → heard.ttl = 0) :
    EndsBy deadline (message.foldl (rules.hearOne now key) entry) := by
  induction message generalizing entry with
  | nil =>
      exact ends
  | cons heard rest inductionHypothesis =>
      rw [List.forall_mem_cons] at silent
      exact inductionHypothesis (ends.hearOne silent.1) silent.2

/-- A message without such a record does not prolong the entry. -/
theorem EndsBy.hear
    {cache : Cache κ}
    (ends : EndsBy deadline (cache key))
    {message : List (Heard κ)}
    (silent : ∀ heard ∈ message, heard.key = key → heard.ttl = 0) :
    EndsBy deadline (rules.hear now message cache key) :=
  ends.foldl_hearOne silent

/-- A withdrawn record is gone after the moment of grace. -/
theorem endsBy_hear_withdrawn
    {message : List (Heard κ)}
    (silent : ∀ heard ∈ message, heard.key = key → heard.ttl = 0)
    {withdrawn : Heard κ}
    (member : withdrawn ∈ message)
    (same : withdrawn.key = key)
    (cache : Cache κ) :
    EndsBy (now + rules.grace) (rules.hear now message cache key) := by
  obtain ⟨before, after, rfl⟩ := List.append_of_mem member
  have ends :
      EndsBy (now + rules.grace)
        (rules.hearOne now key (before.foldl (rules.hearOne now key) (cache key))
          withdrawn) := by
    rw [Rules.hearOne, if_pos same, if_pos (silent withdrawn member same)]
    exact endsBy_cut _ _
  rw [Rules.hear, List.foldl_append, List.foldl_cons]
  refine ends.foldl_hearOne ?_
  intro heard isHeard
  exact silent heard (List.mem_append_right _ (List.mem_cons_of_mem _ isHeard))

end Withdrawing

section Announcing

variable
  [DecidableEq κ] [DecidableEq σ]
  {rules : Rules κ σ}
  {now : Nat}
  {key : κ}

/-- A message about other sets leaves a record as it is. -/
theorem hear_apart
    {message : List (Heard κ)}
    (apart : ∀ heard ∈ message, rules.setOf heard.key ≠ rules.setOf key)
    (cache : Cache κ) :
    rules.hear now message cache key = cache key := by
  rw [Rules.hear]
  generalize cache key = entry
  induction message generalizing entry with
  | nil =>
      rfl
  | cons heard rest inductionHypothesis =>
      rw [List.forall_mem_cons] at apart
      have other : heard.key ≠ key := fun same => apart.1 (same ▸ rfl)
      have same : rules.hearOne now key entry heard = entry := by
        rw [Rules.hearOne, if_neg other, if_neg (fun both => apart.1 both.2)]
      rw [List.foldl_cons, same, inductionHypothesis apart.2]

/-- A record that was heard just now is not flushed by the rest of its set. -/
theorem hearOne_fresh
    {ttl : Nat}
    (positive : ttl ≠ 0)
    {heard : Heard κ}
    (constant : heard.key = key → heard.ttl = ttl) :
    rules.hearOne now key (some { received := now, expires := now + ttl })
        heard =
      some { received := now, expires := now + ttl } := by
  unfold Rules.hearOne
  split
  next same =>
    rw [constant same, if_neg positive]
  next =>
    split
    · have recent : ¬ now + rules.grace < now := by
        omega
      rw [Option.map_some, if_neg recent]
    · rfl

/-- An announced record is kept for its time to live, whatever else is in the
message. -/
theorem hear_announced
    {ttl : Nat}
    (positive : ttl ≠ 0)
    {message : List (Heard κ)}
    (constant : ∀ heard ∈ message, heard.key = key → heard.ttl = ttl)
    {announced : Heard κ}
    (member : announced ∈ message)
    (same : announced.key = key)
    (cache : Cache κ) :
    rules.hear now message cache key =
      some { received := now, expires := now + ttl } := by
  obtain ⟨before, after, rfl⟩ := List.append_of_mem member
  have first (entry : Option Entry) :
      rules.hearOne now key entry announced =
        some { received := now, expires := now + ttl } := by
    rw [Rules.hearOne, if_pos same, constant announced member same,
      if_neg positive]
  rw [Rules.hear, List.foldl_append, List.foldl_cons, first]
  have rest :
      ∀ heard ∈ after, heard.key = key → heard.ttl = ttl := by
    intro heard isHeard
    exact constant heard
      (List.mem_append_right _ (List.mem_cons_of_mem _ isHeard))
  clear member constant
  induction after with
  | nil =>
      rfl
  | cons heard after inductionHypothesis =>
      rw [List.forall_mem_cons] at rest
      rw [List.foldl_cons, hearOne_fresh positive rest.1]
      exact inductionHypothesis rest.2

end Announcing

section Flushing

variable
  [DecidableEq κ] [DecidableEq σ]
  {rules : Rules κ σ}
  {now : Nat}
  {key : κ}

/-- Heard longer ago than the moment of grace. -/
def Old (rules : Rules κ σ) (now : Nat) (entry : Option Entry) : Prop :=
  ∀ kept ∈ entry, kept.received + rules.grace < now

/-- An old entry stays old until its own record is heard. -/
theorem Old.hearOne
    {entry : Option Entry}
    (old : Old rules now entry)
    {heard : Heard κ}
    (other : heard.key ≠ key) :
    Old rules now (rules.hearOne now key entry heard) := by
  unfold Rules.hearOne
  rw [if_neg other]
  split
  · intro kept isKept
    obtain ⟨before, isBefore, rfl⟩ := Option.map_eq_some_iff.mp isKept
    split
    · exact old before isBefore
    · exact old before isBefore
  · exact old

/-- A record that a message leaves out of its set is gone after the moment of
grace. -/
theorem endsBy_hear_flushed
    {message : List (Heard κ)}
    (absent : ∀ heard ∈ message, heard.key ≠ key)
    {flushing : Heard κ}
    (member : flushing ∈ message)
    (flush : flushing.flush = true)
    (sameSet : rules.setOf flushing.key = rules.setOf key)
    {cache : Cache κ}
    (old : Old rules now (cache key)) :
    EndsBy (now + rules.grace) (rules.hear now message cache key) := by
  rw [Rules.hear]
  generalize cache key = entry at old
  induction message generalizing entry with
  | nil =>
      cases member
  | cons heard rest inductionHypothesis =>
      rw [List.forall_mem_cons] at absent
      rw [List.foldl_cons]
      rcases List.mem_cons.mp member with rfl | later
      · have cut :
            EndsBy (now + rules.grace)
              (rules.hearOne now key entry flushing) := by
          rw [Rules.hearOne, if_neg absent.1, if_pos ⟨flush, sameSet⟩]
          intro kept isKept
          obtain ⟨before, isBefore, rfl⟩ := Option.map_eq_some_iff.mp isKept
          rw [if_pos (old before isBefore)]
          exact Nat.min_le_right _ _
        refine cut.foldl_hearOne ?_
        intro other isOther same
        exact absurd same (absent.2 other isOther)
      · exact inductionHypothesis absent.2 later _ (old.hearOne absent.1)

end Flushing

end DnsServices.RecordCache
