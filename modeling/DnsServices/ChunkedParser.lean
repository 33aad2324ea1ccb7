import Mathlib.Data.List.Basic

namespace DnsServices.ChunkedParser

/-!
# Incremental parsers that do not depend on chunk borders

A stream parser keeps the bytes it has not consumed yet and, whenever new
bytes arrive, pops complete items off the front until no complete item is
left.  This module states when such a loop computes the same result for every
way of cutting its input: an accepted item must be a non-empty front part of
the buffer, and bytes behind that front part must not change it.

Nothing here depends on what the items are.
-/

/--
A parser of one front item is delimited when it makes progress and when bytes
that arrive later cannot revise an item it has already accepted.
-/
structure Delimited (next : List β → Option (α × List β)) : Prop where
  shorter :
    ∀ {buffer item rest},
      next buffer = some (item, rest) →
      rest.length < buffer.length
  stable :
    ∀ {buffer item rest} (more : List β),
      next buffer = some (item, rest) →
      next (buffer ++ more) = some (item, rest ++ more)

/--
Pop items until none is complete, passing each one to `body`.

The fuel bounds the number of items; `consume_fuel` shows that the buffer
length is always enough.
-/
def consume
    (next : List β → Option (α × List β))
    (body : σ → α → σ) :
    Nat → σ → List β → σ × List β
  | 0, state, buffer =>
      (state, buffer)
  | fuel + 1, state, buffer =>
      match next buffer with
      | none =>
          (state, buffer)
      | some (item, rest) =>
          consume next body fuel (body state item) rest

/-- Everything one arriving chunk does to the loop state and the buffer. -/
def feed
    (next : List β → Option (α × List β))
    (body : σ → α → σ)
    (state : σ)
    (buffer chunk : List β) :
    σ × List β :=
  consume next body (buffer ++ chunk).length state (buffer ++ chunk)

/-- The loop state and buffer after a list of chunks, in arrival order. -/
def feedAll
    (next : List β → Option (α × List β))
    (body : σ → α → σ)
    (state : σ)
    (buffer : List β)
    (chunks : List (List β)) :
    σ × List β :=
  chunks.foldl
    (fun reached chunk => feed next body reached.1 reached.2 chunk)
    (state, buffer)

/-- The complete items at the front of a buffer. -/
def items
    (next : List β → Option (α × List β))
    (buffer : List β) :
    List α :=
  (consume next (fun seen item => seen ++ [item])
    buffer.length [] buffer).1

/-- The bytes left behind the complete items of a buffer. -/
def residue
    (next : List β → Option (α × List β))
    (buffer : List β) :
    List β :=
  (consume next (fun seen item => seen ++ [item])
    buffer.length [] buffer).2

section Progress

variable {next : List β → Option (α × List β)}

/-- An incomplete buffer is kept for the next chunk. -/
theorem consume_of_none
    {buffer : List β}
    (body : σ → α → σ)
    (fuel : Nat)
    (state : σ)
    (incomplete : next buffer = none) :
    consume next body fuel state buffer = (state, buffer) := by
  cases fuel with
  | zero =>
      rfl
  | succ fuel =>
      simp [consume, incomplete]

/-- Any two amounts of fuel that cover the buffer give the same result. -/
theorem consume_fuel
    (delimited : Delimited next)
    (body : σ → α → σ)
    {first second : Nat}
    {buffer : List β}
    (state : σ)
    (firstCovers : buffer.length ≤ first)
    (secondCovers : buffer.length ≤ second) :
    consume next body first state buffer =
      consume next body second state buffer := by
  induction first generalizing second state buffer with
  | zero =>
      have empty : buffer = [] :=
        List.length_eq_zero_iff.mp (Nat.le_zero.mp firstCovers)
      have incomplete : next buffer = none := by
        cases popped : next buffer with
        | none =>
            rfl
        | some found =>
            obtain ⟨item, rest⟩ := found
            have progress := delimited.shorter popped
            simp [empty] at progress
      rw [consume_of_none body _ _ incomplete,
        consume_of_none body _ _ incomplete]
  | succ first inductionHypothesis =>
      cases popped : next buffer with
      | none =>
          rw [consume_of_none body _ _ popped,
            consume_of_none body _ _ popped]
      | some found =>
          obtain ⟨item, rest⟩ := found
          have progress := delimited.shorter popped
          cases second with
          | zero =>
              omega
          | succ second =>
              simp only [consume, popped]
              exact inductionHypothesis (body state item)
                (by omega) (by omega)

/-- After the loop no complete item is left in the buffer. -/
theorem consume_residue_none
    (delimited : Delimited next)
    (body : σ → α → σ)
    {fuel : Nat}
    {buffer : List β}
    (state : σ)
    (covers : buffer.length ≤ fuel) :
    next (consume next body fuel state buffer).2 = none := by
  induction fuel generalizing state buffer with
  | zero =>
      cases popped : next buffer with
      | none =>
          simpa [consume] using popped
      | some found =>
          obtain ⟨item, rest⟩ := found
          have progress := delimited.shorter popped
          omega
  | succ fuel inductionHypothesis =>
      cases popped : next buffer with
      | none =>
          simp [consume, popped]
      | some found =>
          obtain ⟨item, rest⟩ := found
          have progress := delimited.shorter popped
          simp only [consume, popped]
          exact inductionHypothesis (body state item) (by omega)

/-- Feeding a chunk leaves no complete item in the buffer. -/
theorem feed_residue_none
    (delimited : Delimited next)
    (body : σ → α → σ)
    (state : σ)
    (buffer chunk : List β) :
    next (feed next body state buffer chunk).2 = none :=
  consume_residue_none delimited body state (Nat.le_refl _)

/-- Running the loop is folding its body over the complete items. -/
theorem consume_eq_foldl
    (body : σ → α → σ)
    (fuel : Nat)
    (state : σ)
    (buffer : List β)
    (seen : List α) :
    consume next body fuel (seen.foldl body state) buffer =
      (((consume next (fun seen item => seen ++ [item])
          fuel seen buffer).1).foldl body state,
        (consume next (fun seen item => seen ++ [item])
          fuel seen buffer).2) := by
  induction fuel generalizing buffer seen with
  | zero =>
      rfl
  | succ fuel inductionHypothesis =>
      cases popped : next buffer with
      | none =>
          simp [consume, popped]
      | some found =>
          obtain ⟨item, rest⟩ := found
          have stepped := inductionHypothesis rest (seen ++ [item])
          simp only [consume, popped]
          simpa using stepped

/-- One feed folds the body over the items of the extended buffer. -/
theorem feed_eq_items
    (body : σ → α → σ)
    (state : σ)
    (buffer chunk : List β) :
    feed next body state buffer chunk =
      ((items next (buffer ++ chunk)).foldl body state,
        residue next (buffer ++ chunk)) :=
  consume_eq_foldl body _ state (buffer ++ chunk) []

end Progress

section Chunking

variable {next : List β → Option (α × List β)}

/--
Bytes that arrive after a run of the loop can be handled by a second run on
what the first one left over.
-/
theorem consume_append
    (delimited : Delimited next)
    (body : σ → α → σ)
    {fuel : Nat}
    {buffer : List β}
    (state : σ)
    (more : List β)
    (covers : buffer.length ≤ fuel) :
    consume next body (fuel + more.length) state (buffer ++ more) =
      feed next body
        (consume next body fuel state buffer).1
        (consume next body fuel state buffer).2 more := by
  induction fuel generalizing state buffer with
  | zero =>
      have empty : buffer = [] :=
        List.length_eq_zero_iff.mp (Nat.le_zero.mp covers)
      subst buffer
      simp [consume, feed]
  | succ fuel inductionHypothesis =>
      cases popped : next buffer with
      | none =>
          rw [consume_of_none body _ _ popped]
          exact consume_fuel delimited body state
            (by simp only [List.length_append]; omega) (Nat.le_refl _)
      | some found =>
          obtain ⟨item, rest⟩ := found
          have progress := delimited.shorter popped
          have stable := delimited.stable more popped
          have stepped :=
            inductionHypothesis (body state item)
              (by omega : rest.length ≤ fuel)
          rw [show fuel + 1 + more.length =
            (fuel + more.length) + 1 by omega]
          simp only [consume, stable, popped]
          exact stepped

/-- Two chunks one after the other act like their concatenation. -/
theorem feed_feed
    (delimited : Delimited next)
    (body : σ → α → σ)
    (state : σ)
    (buffer first second : List β) :
    feed next body
        (feed next body state buffer first).1
        (feed next body state buffer first).2 second =
      feed next body state buffer (first ++ second) := by
  have joined := consume_append delimited body state second
    (Nat.le_refl (buffer ++ first).length)
  simp only [feed] at joined ⊢
  rw [← joined]
  simp only [List.append_assoc, List.length_append]
  congr 1
  omega

/--
The loop does not depend on chunk borders: feeding any list of chunks to a
buffer without a complete item is feeding their concatenation at once.
-/
theorem feedAll_eq_feed
    (delimited : Delimited next)
    (body : σ → α → σ)
    (state : σ)
    {buffer : List β}
    (incomplete : next buffer = none)
    (chunks : List (List β)) :
    feedAll next body state buffer chunks =
      feed next body state buffer chunks.flatten := by
  induction chunks generalizing state buffer with
  | nil =>
      simp [feedAll, feed, consume_of_none, incomplete]
  | cons chunk rest inductionHypothesis =>
      have stepped := inductionHypothesis
        (feed next body state buffer chunk).1
        (feed_residue_none delimited body state buffer chunk)
      simp only [feedAll, List.foldl_cons] at stepped ⊢
      rw [stepped, feed_feed delimited body, List.flatten_cons]

/-- A popped item is the first of the items, the others follow behind it. -/
theorem items_cons
    (delimited : Delimited next)
    {buffer rest : List β}
    {item : α}
    (popped : next buffer = some (item, rest)) :
    items next buffer = item :: items next rest ∧
      residue next buffer = residue next rest := by
  have progress := delimited.shorter popped
  obtain ⟨fuel, lengthShape⟩ :
      ∃ fuel, buffer.length = fuel + 1 :=
    ⟨buffer.length - 1, by omega⟩
  have unfolded :
      consume next (fun seen item => seen ++ [item])
          buffer.length [] buffer =
        consume next (fun seen item => seen ++ [item])
          rest.length [item] rest := by
    rw [lengthShape]
    simp only [consume, popped, List.nil_append]
    exact consume_fuel delimited _ _ (by omega) (Nat.le_refl _)
  have folded :
      consume next (fun seen item => seen ++ [item])
          rest.length [item] rest =
        ((items next rest).foldl
            (fun seen item => seen ++ [item]) [item],
          residue next rest) :=
    consume_eq_foldl _ rest.length [item] rest []
  have appended :
      ∀ (seen : List α) (start : List α),
        seen.foldl (fun seen item => seen ++ [item]) start =
          start ++ seen := by
    intro seen
    induction seen with
    | nil => simp
    | cons head tail hypothesis => simp [hypothesis]
  constructor
  · rw [items, unfolded, folded, appended]
    rfl
  · rw [residue, unfolded, folded]

/-- An incomplete buffer holds no item and is its own residue. -/
theorem items_of_none
    {buffer : List β}
    (incomplete : next buffer = none) :
    items next buffer = [] ∧ residue next buffer = buffer := by
  simp [items, residue, consume_of_none, incomplete]

/-- More bytes add items behind those already complete. -/
theorem items_append
    (delimited : Delimited next)
    (buffer more : List β) :
    items next (buffer ++ more) =
        items next buffer ++ items next (residue next buffer ++ more) ∧
      residue next (buffer ++ more) =
        residue next (residue next buffer ++ more) := by
  have joined :=
    feed_feed delimited (fun seen item => seen ++ [item])
      [] [] buffer more
  have first :
      feed next (fun seen item => seen ++ [item]) [] [] buffer =
        (items next buffer, residue next buffer) := rfl
  have whole :
      feed next (fun seen item => seen ++ [item]) [] [] (buffer ++ more) =
        (items next (buffer ++ more), residue next (buffer ++ more)) := rfl
  rw [first, whole, feed_eq_items] at joined
  simp only [List.foldl_append_eq_append, ← List.flatMap_def,
    List.flatMap_singleton', Prod.mk.injEq] at joined
  exact ⟨joined.1.symm, joined.2.symm⟩

end Chunking

end DnsServices.ChunkedParser
