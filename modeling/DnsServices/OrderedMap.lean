import Mathlib.Data.List.Basic
import Mathlib.Order.Basic
import Mathlib.Order.Lattice

namespace DnsServices.OrderedMap

/-!
# Maps kept in the order of their keys

A map is the list of its entries, with increasing keys.  An entry is added, or
merged with the one that has its key already; a map that is built in this way
with a commutative and associative merge does not depend on the order in which
the entries come.
-/

variable {κ β : Type} [LinearOrder κ] {merge : β → β → β}

/-- Add an entry, or merge it into the one with its key. -/
def upsert (merge : β → β → β) (key : κ) (value : β) :
    List (κ × β) → List (κ × β)
  | [] =>
      [(key, value)]
  | (first, held) :: rest =>
      if key < first then
        (key, value) :: (first, held) :: rest
      else if key = first then
        (first, merge held value) :: rest
      else
        (first, held) :: upsert merge key value rest

/-- The keys increase. -/
def Ordered (map : List (κ × β)) : Prop :=
  map.Pairwise fun entry later => entry.1 < later.1

/-- The value under a key. -/
def find (key : κ) (map : List (κ × β)) : Option β :=
  (map.find? fun entry => entry.1 = key).map Prod.snd

theorem find_cons (key : κ) (entry : κ × β) (map : List (κ × β)) :
    find key (entry :: map) =
      if entry.1 = key then some entry.2 else find key map := by
  unfold find
  rw [List.find?_cons]
  by_cases same : entry.1 = key
  · simp [same]
  · simp [same]

/-- Nothing is found below the first key. -/
theorem find_eq_none
    {key : κ}
    {map : List (κ × β)}
    (above : ∀ entry ∈ map, key < entry.1) :
    find key map = none := by
  rw [find, Option.map_eq_none_iff, List.find?_eq_none]
  intro entry member
  have differs : entry.1 ≠ key := (above entry member).ne'
  simp [differs]

/-- In an ordered map an entry is in the list exactly when its key finds it. -/
theorem mem_iff_find
    {map : List (κ × β)}
    (ordered : Ordered map)
    {key : κ}
    {value : β} :
    (key, value) ∈ map ↔ find key map = some value := by
  induction map with
  | nil =>
      simp [find]
  | cons entry rest inductionHypothesis =>
      obtain ⟨first, held⟩ := entry
      rw [Ordered, List.pairwise_cons] at ordered
      rw [find_cons, List.mem_cons]
      by_cases same : first = key
      · subst same
        have notLater : (first, value) ∉ rest := by
          intro later
          exact absurd (ordered.1 _ later) (lt_irrefl first)
        simp [notLater, eq_comm]
      · have differs : ¬ (key, value) = (first, held) := by
          rintro ⟨⟩
          exact same rfl
        simp only [differs, false_or, same, if_false]
        exact inductionHypothesis ordered.2

/-- Maps in order that find the same are the same. -/
theorem ext
    {first second : List (κ × β)}
    (firstOrdered : Ordered first)
    (secondOrdered : Ordered second)
    (agree : ∀ key, find key first = find key second) :
    first = second := by
  refine List.Perm.eq_of_pairwise ?_ firstOrdered secondOrdered ?_
  · intro a b _ _ below above
    exact absurd (lt_trans below above) (lt_irrefl _)
  · have firstNodup : first.Nodup :=
      firstOrdered.imp fun below same => below.ne (congrArg Prod.fst same)
    have secondNodup : second.Nodup :=
      secondOrdered.imp fun below same => below.ne (congrArg Prod.fst same)
    refine (List.perm_ext_iff_of_nodup firstNodup secondNodup).mpr ?_
    rintro ⟨key, value⟩
    rw [mem_iff_find firstOrdered, mem_iff_find secondOrdered, agree]

/-- Upserting adds no key but the given one. -/
theorem mem_upsert
    {key : κ}
    {value : β}
    {map : List (κ × β)}
    {entry : κ × β}
    (member : entry ∈ upsert merge key value map) :
    entry.1 = key ∨ ∃ old ∈ map, old.1 = entry.1 := by
  induction map with
  | nil =>
      exact .inl (congrArg Prod.fst (List.mem_singleton.mp member))
  | cons other rest inductionHypothesis =>
      obtain ⟨first, held⟩ := other
      rw [upsert] at member
      split at member
      · rcases List.mem_cons.mp member with rfl | old
        · exact .inl rfl
        · exact .inr ⟨entry, old, rfl⟩
      · split at member
        · rcases List.mem_cons.mp member with rfl | old
          · exact .inr ⟨_, List.mem_cons_self, rfl⟩
          · exact .inr ⟨entry, List.mem_cons_of_mem _ old, rfl⟩
        · rcases List.mem_cons.mp member with rfl | old
          · exact .inr ⟨_, List.mem_cons_self, rfl⟩
          · rcases inductionHypothesis old with isNew | ⟨found, isOld, same⟩
            · exact .inl isNew
            · exact .inr ⟨found, List.mem_cons_of_mem _ isOld, same⟩

theorem ordered_upsert
    {map : List (κ × β)}
    (ordered : Ordered map)
    (key : κ)
    (value : β) :
    Ordered (upsert merge key value map) := by
  induction map with
  | nil =>
      exact List.pairwise_singleton _ _
  | cons entry rest inductionHypothesis =>
      obtain ⟨first, held⟩ := entry
      have both := ordered
      rw [Ordered, List.pairwise_cons] at both
      rw [upsert]
      split
      next below =>
        refine List.pairwise_cons.mpr ⟨?_, ordered⟩
        intro later member
        rcases List.mem_cons.mp member with rfl | behind
        · exact below
        · exact lt_trans below (both.1 later behind)
      next notBelow =>
        split
        · exact List.pairwise_cons.mpr both
        next differs =>
          refine List.pairwise_cons.mpr ⟨?_, inductionHypothesis both.2⟩
          intro later member
          rcases mem_upsert member with isNew | ⟨old, isOld, same⟩
          · have above : first < key :=
              lt_of_le_of_ne (not_lt.mp notBelow) (Ne.symm differs)
            exact isNew ▸ above
          · exact same ▸ both.1 old isOld

/-- What is found after an entry was added or merged. -/
theorem find_upsert
    {map : List (κ × β)}
    (ordered : Ordered map)
    (key other : κ)
    (value : β) :
    find other (upsert merge key value map) =
      if key = other then
        some ((find key map).elim value fun held => merge held value)
      else
        find other map := by
  induction map with
  | nil =>
      rw [upsert, find_cons]
      rfl
  | cons entry rest inductionHypothesis =>
      obtain ⟨first, held⟩ := entry
      have both := ordered
      rw [Ordered, List.pairwise_cons] at both
      rw [upsert]
      split
      next below =>
        have missing : find key ((first, held) :: rest) = none := by
          refine find_eq_none ?_
          intro later member
          rcases List.mem_cons.mp member with rfl | behind
          · exact below
          · exact lt_trans below (both.1 later behind)
        rw [find_cons, missing]
        rfl
      next notBelow =>
        split
        next same =>
          subst same
          rw [find_cons, find_cons, find_cons]
          simp only [if_true, Option.elim_some]
          split
          · rfl
          · rfl
        next differs =>
          rw [find_cons, inductionHypothesis both.2, find_cons, find_cons]
          simp only [Ne.symm differs, if_false]
          by_cases same : key = other
          · subst same
            simp [Ne.symm differs]
          · simp [same]

/-! ## Maps that are built entry by entry -/

/-- All entries merged into one map. -/
def gather (merge : β → β → β) (items : List (κ × β)) : List (κ × β) :=
  items.foldl (fun map item => upsert merge item.1 item.2 map) []

/-- All values merged into one. -/
def combine (merge : β → β → β) (values : List β) : Option β :=
  values.foldl (fun held value => some (held.elim value (merge · value))) none

/-- The values that come under a key. -/
def valuesOf (key : κ) (items : List (κ × β)) : List β :=
  (items.filter fun item => item.1 = key).map Prod.snd

theorem ordered_gather (items : List (κ × β)) : Ordered (gather merge items) := by
  have step (map : List (κ × β)) (ordered : Ordered map) :
      Ordered
        (items.foldl (fun map item => upsert merge item.1 item.2 map) map) := by
    induction items generalizing map with
    | nil =>
        exact ordered
    | cons item rest inductionHypothesis =>
        exact inductionHypothesis _ (ordered_upsert ordered _ _)
  exact step [] .nil

/-- Under each key stands the merge of all its values. -/
theorem find_gather (items : List (κ × β)) (key : κ) :
    find key (gather merge items) = combine merge (valuesOf key items) := by
  have step (map : List (κ × β)) (ordered : Ordered map) :
      find key
          (items.foldl (fun map item => upsert merge item.1 item.2 map) map) =
        (valuesOf key items).foldl
          (fun held value => some (held.elim value (merge · value)))
          (find key map) := by
    induction items generalizing map with
    | nil =>
        rfl
    | cons item rest inductionHypothesis =>
        rw [List.foldl_cons,
          inductionHypothesis _ (ordered_upsert ordered _ _),
          find_upsert ordered]
        by_cases same : item.1 = key
        · simp [valuesOf, same]
        · simp [valuesOf, same]
  exact step [] .nil

theorem combine_cons (value : β) (rest : List β) :
    combine merge (value :: rest) = some (rest.foldl merge value) := by
  have step (values : List β) (held : β) :
      values.foldl (fun held value => some (held.elim value (merge · value)))
          (some held) =
        some (values.foldl merge held) := by
    induction values generalizing held with
    | nil =>
        rfl
    | cons next values inductionHypothesis =>
        exact inductionHypothesis (merge held next)
  exact step rest value

/-- A merge that picks the smaller of two values leaves a smallest one. -/
theorem least_of_combine
    {le : β → β → Prop}
    (refl : ∀ a, le a a)
    (trans : ∀ a b c, le a b → le b c → le a c)
    (picks : ∀ a b, merge a b = a ∧ le a b ∨ merge a b = b ∧ le b a)
    {values : List β}
    {least : β}
    (merged : combine merge values = some least) :
    least ∈ values ∧ ∀ value ∈ values, le least value := by
  have step (rest : List β) (held : β) :
      rest.foldl merge held ∈ held :: rest ∧
        ∀ value ∈ held :: rest, le (rest.foldl merge held) value := by
    induction rest generalizing held with
    | nil =>
        exact ⟨List.mem_cons_self, by simpa using refl held⟩
    | cons next rest inductionHypothesis =>
        obtain ⟨member, below⟩ := inductionHypothesis (merge held next)
        have belowMerged := below _ List.mem_cons_self
        rw [List.foldl_cons]
        rcases picks held next with ⟨same, smaller⟩ | ⟨same, smaller⟩
        · rw [same] at member below belowMerged ⊢
          refine ⟨by grind, ?_⟩
          intro value isValue
          rcases List.mem_cons.mp isValue with rfl | later
          · exact belowMerged
          · rcases List.mem_cons.mp later with rfl | last
            · exact trans _ _ _ belowMerged smaller
            · exact below value (List.mem_cons_of_mem _ last)
        · rw [same] at member below belowMerged ⊢
          refine ⟨List.mem_cons_of_mem _ member, ?_⟩
          intro value isValue
          rcases List.mem_cons.mp isValue with rfl | later
          · exact trans _ _ _ belowMerged smaller
          · exact below value later
  cases values with
  | nil =>
      exact absurd merged (by simp [combine])
  | cons value rest =>
      rw [combine_cons, Option.some.injEq] at merged
      exact merged ▸ step rest value

/-- Only no entry at all leaves the map empty. -/
theorem gather_ne_nil {items : List (κ × β)} (some_item : items ≠ []) :
    gather merge items ≠ [] := by
  obtain ⟨item, rest, rfl⟩ := List.exists_cons_of_ne_nil some_item
  intro empty
  have found : find item.1 (gather merge (item :: rest)) ≠ none := by
    rw [find_gather, valuesOf, List.filter_cons_of_pos (by simp),
      List.map_cons, combine_cons]
    exact Option.some_ne_none _
  rw [empty] at found
  exact found rfl

/-- A commutative and associative merge does not depend on the order. -/
theorem combine_perm
    [Std.Commutative merge]
    [Std.Associative merge]
    {first second : List β}
    (perm : first.Perm second) :
    combine merge first = combine merge second := by
  refine perm.foldl_eq' ?_ none
  intro x _ y _ held
  cases held with
  | none =>
      have swap : merge x y = merge y x := by ac_rfl
      exact congrArg some swap
  | some held =>
      have swap : merge (merge held x) y = merge (merge held y) x := by ac_rfl
      exact congrArg some swap

/-- The order in which the entries come does not matter. -/
theorem gather_perm
    [Std.Commutative merge]
    [Std.Associative merge]
    {first second : List (κ × β)}
    (perm : first.Perm second) :
    gather merge first = gather merge second := by
  refine ext (ordered_gather first) (ordered_gather second) ?_
  intro key
  rw [find_gather, find_gather]
  exact combine_perm ((perm.filter _).map _)

end DnsServices.OrderedMap
