import Mathlib.Data.List.Sort

namespace DnsServices.StableSort

/-!
# Stable sorting, best first

A stable sort by descending key lists the items of higher key, then those of
an equal key in their old order, then those of lower key.  Where an item ends
up is thus determined by the items that outrank it.
-/

variable {α κ : Type} [LinearOrder κ]

/-- A stable sort by a key, highest first. -/
def sortByKeyReverse (key : α → κ) (items : List α) : List α :=
  items.insertionSort fun first second => key second ≤ key first

variable {key : α → κ}

/-- Sorting by descending key permutes the list. -/
theorem sortByKeyReverse_perm (key : α → κ) (items : List α) :
    (sortByKeyReverse key items).Perm items :=
  List.perm_insertionSort _ items

/-- The keys come out in descending order. -/
theorem pairwise_sortByKeyReverse (key : α → κ) (items : List α) :
    (sortByKeyReverse key items).Pairwise
      fun first second => key second ≤ key first := by
  have total :
      Std.Total fun first second : α => key second ≤ key first :=
    ⟨fun first second => le_total (key second) (key first)⟩
  have transitive :
      IsTrans α fun first second => key second ≤ key first :=
    ⟨fun _ _ _ firstSecond secondThird => secondThird.trans firstSecond⟩
  exact List.pairwise_insertionSort _ items

/-- An inserted item comes before the items of its own class. -/
theorem filter_orderedInsert
    {r : α → α → Prop}
    [DecidableRel r]
    {selected : α → Bool}
    {item : α}
    {items : List α}
    (first : selected item = true →
      ∀ other ∈ items, selected other = true → r item other) :
    (items.orderedInsert r item).filter selected =
      (item :: items).filter selected := by
  induction items with
  | nil =>
      rfl
  | cons head rest inductionHypothesis =>
      rw [List.orderedInsert]
      split
      · rfl
      · rename_i notBefore
        have later :=
          inductionHypothesis fun isSelected other member =>
            first isSelected other (List.mem_cons_of_mem head member)
        rw [List.filter_cons, later]
        by_cases itemSelected : selected item = true
        · have headNotSelected : ¬ selected head = true := fun headSelected =>
            notBefore (first itemSelected head List.mem_cons_self headSelected)
          simp [itemSelected, headNotSelected]
        · simp [List.filter_cons, itemSelected]

/-- Items of equal key keep their order. -/
theorem filter_sortByKeyReverse (items : List α) (value : κ) :
    ((sortByKeyReverse key items).filter fun item => key item = value) =
      items.filter fun item => key item = value := by
  induction items with
  | nil =>
      rfl
  | cons head rest inductionHypothesis =>
      rw [sortByKeyReverse, List.insertionSort_cons, filter_orderedInsert,
        List.filter_cons, List.filter_cons, ← sortByKeyReverse,
        inductionHypothesis]
      intro headSelected other _ otherSelected
      rw [decide_eq_true_eq] at headSelected otherSelected
      exact (otherSelected.trans headSelected.symm).le

/-- A sorted list is its higher, equal and lower parts. -/
theorem eq_filter_append
    {items : List α}
    (sorted : items.Pairwise fun first second => key second ≤ key first)
    (value : κ) :
    items =
      (items.filter fun item => value < key item) ++
        (items.filter fun item => key item = value) ++
        items.filter fun item => key item < value := by
  induction items with
  | nil =>
      rfl
  | cons head rest inductionHypothesis =>
      obtain ⟨headFirst, restSorted⟩ := List.pairwise_cons.mp sorted
      have split := inductionHypothesis restSorted
      rcases lt_trichotomy (key head) value with below | same | above
      · have noneAbove : (rest.filter fun item => value < key item) = [] := by
          rw [List.filter_eq_nil_iff]
          intro item member
          have := (headFirst item member).trans_lt below
          simpa using this.le
        have noneEqual : (rest.filter fun item => key item = value) = [] := by
          rw [List.filter_eq_nil_iff]
          intro item member
          have := (headFirst item member).trans_lt below
          simpa using this.ne
        rw [noneAbove, noneEqual, List.nil_append, List.nil_append] at split
        simp [noneAbove, noneEqual, below, below.le, below.ne, ← split]
      · have noneAbove : (rest.filter fun item => value < key item) = [] := by
          rw [List.filter_eq_nil_iff]
          intro item member
          have := (headFirst item member).trans_eq same
          simpa using this
        rw [noneAbove, List.nil_append] at split
        simp [noneAbove, same, ← split]
      · simp [above, above.le, above.ne', ← split]

/-- What a stable sort puts in front of an item: the items of higher key, and
the earlier ones of the same key. -/
def outranking (key : α → κ) (left : List α) (item : α) (right : List α) :
    List α :=
  ((left ++ right).filter fun other => key item < key other) ++
    left.filter fun other => key other = key item

/-- In front of an item come exactly those that outrank it. -/
theorem sortByKeyReverse_split
    (left : List α)
    (item : α)
    (right : List α) :
    ∃ front rest,
      sortByKeyReverse key (left ++ item :: right) = front ++ item :: rest ∧
        front.Perm (outranking key left item right) := by
  have split :=
    eq_filter_append
      (pairwise_sortByKeyReverse key (left ++ item :: right)) (key item)
  rw [filter_sortByKeyReverse, List.filter_append, List.filter_cons] at split
  simp only [decide_true, if_true] at split
  refine ⟨((sortByKeyReverse key (left ++ item :: right)).filter
      fun other => key item < key other) ++
        left.filter fun other => key other = key item,
    (right.filter fun other => key other = key item) ++
      (sortByKeyReverse key (left ++ item :: right)).filter
        fun other => key other < key item, ?_, ?_⟩
  · simpa using split
  · refine List.Perm.append_right _ ?_
    have perm :=
      (sortByKeyReverse_perm key (left ++ item :: right)).filter
        fun other => decide (key item < key other)
    simpa using perm

/-- A stable sort by a key, lowest first. -/
def sortByKey (key : α → κ) (items : List α) : List α :=
  items.insertionSort fun first second => key first ≤ key second

/-- Lowest first is highest first in the opposite order. -/
theorem sortByKey_eq (key : α → κ) (items : List α) :
    sortByKey key items =
      sortByKeyReverse (fun item => OrderDual.toDual (key item)) items :=
  rfl

theorem sortByKey_perm (key : α → κ) (items : List α) :
    (sortByKey key items).Perm items :=
  List.perm_insertionSort _ items

/-- A sort by a flag lists the items without it before those with it. -/
theorem sortByKey_bool (flag : α → Bool) (items : List α) :
    sortByKey flag items =
      (items.filter fun item => !flag item) ++ items.filter flag := by
  let key : α → Boolᵒᵈ := fun item => OrderDual.toDual (flag item)
  have split :=
    eq_filter_append (pairwise_sortByKeyReverse key items)
      (OrderDual.toDual true)
  have unset :
      (fun item => decide (OrderDual.toDual true < key item)) =
        fun item => decide (key item = OrderDual.toDual false) := by
    funext item
    cases isFlag : flag item <;> simp [key, isFlag]
  have none :
      ((sortByKeyReverse key items).filter
        fun item => key item < OrderDual.toDual true) = [] := by
    rw [List.filter_eq_nil_iff]
    intro item _
    cases isFlag : flag item <;> simp [key, isFlag]
  have isUnset :
      (fun item => decide (key item = OrderDual.toDual false)) =
        fun item => !flag item := by
    funext item
    cases isFlag : flag item <;> simp [key, isFlag]
  have isSet :
      (fun item => decide (key item = OrderDual.toDual true)) = flag := by
    funext item
    cases isFlag : flag item <;> simp [key, isFlag]
  rw [none, List.append_nil, unset, filter_sortByKeyReverse,
    filter_sortByKeyReverse, isUnset, isSet] at split
  rw [sortByKey_eq]
  exact split

/-- How many unset items the front of a list sorted by a flag has. -/
theorem countP_take_sortByKey
    (flag : α → Bool)
    (items : List α)
    (count : Nat) :
    ((sortByKey flag items).take count).countP (fun item => !flag item) =
      min count (items.countP fun item => !flag item) := by
  have unsetOnly :
      ((items.filter fun item => !flag item).take count).countP
          (fun item => !flag item) =
        ((items.filter fun item => !flag item).take count).length := by
    rw [List.countP_eq_length]
    intro item member
    exact (List.mem_filter.mp (List.mem_of_mem_take member)).2
  have setOnly (rest : Nat) :
      ((items.filter flag).take rest).countP (fun item => !flag item) = 0 := by
    rw [List.countP_eq_zero]
    intro item member
    have isSet := (List.mem_filter.mp (List.mem_of_mem_take member)).2
    simp [isSet]
  rw [sortByKey_bool, List.take_append, List.countP_append, unsetOnly,
    setOnly, Nat.add_zero, List.length_take, List.countP_eq_length_filter]

/-- A front that is a rearrangement of the front of the items. -/
theorem take_perm_take
    {items front rest : List α}
    {count : Nat}
    (perm : front.Perm (items.take count))
    (whole : items.length ≤ count → rest = []) :
    ((front ++ rest).take count).Perm (items.take count) := by
  by_cases short : items.length ≤ count
  · have size : front.length ≤ count := by
      rw [perm.length_eq, List.length_take]
      exact Nat.min_le_left _ _
    rwa [whole short, List.append_nil, List.take_of_length_le size]
  · have size : front.length = count := by
      rw [perm.length_eq, List.length_take]
      omega
    rwa [List.take_left' size]

/-- The items of a list with a property, in front of a cut and behind it. -/
theorem filter_take_append_filter_drop
    (keep : α → Bool)
    (items : List α)
    (count : Nat) :
    (items.take count).filter keep ++ (items.drop count).filter keep =
      items.filter keep := by
  rw [← List.filter_append, List.take_append_drop]

/-- The same items in front of the cut leave unset items on one side of it. -/
theorem unset_or_set_of_take_perm
    {flag : α → Bool}
    {items : List α}
    {count : Nat}
    (perm : ((sortByKey flag items).take count).Perm (items.take count)) :
    (∀ item ∈ items.take count, flag item = false) ∨
      ∀ item ∈ items.drop count, flag item = true := by
  have counted := perm.countP_eq fun item => !flag item
  have total :
      items.countP (fun item => !flag item) =
        (items.take count).countP (fun item => !flag item) +
          (items.drop count).countP (fun item => !flag item) := by
    rw [← List.countP_append, List.take_append_drop]
  have size := List.length_take_le count items
  have bound :=
    List.countP_le_length (l := items.take count)
      (p := fun item => !flag item)
  rw [countP_take_sortByKey] at counted
  by_cases rest : (items.drop count).countP (fun item => !flag item) = 0
  · right
    intro item member
    simpa using List.countP_eq_zero.mp rest item member
  · left
    have full :
        (items.take count).countP (fun item => !flag item) =
          (items.take count).length := by
      omega
    intro item member
    simpa using List.countP_eq_length.mp full item member

/-- A front without set items stays in front. -/
theorem take_perm_of_unset
    {flag : α → Bool}
    {items : List α}
    {count : Nat}
    (front : ∀ item ∈ items.take count, flag item = false) :
    ((sortByKey flag items).take count).Perm (items.take count) := by
  have allUnset :
      (items.take count).filter (fun item => !flag item) =
        items.take count := by
    rw [List.filter_eq_self]
    intro item member
    simp [front item member]
  have noneSet : (items.take count).filter flag = [] := by
    rw [List.filter_eq_nil_iff]
    intro item member
    simp [front item member]
  rw [sortByKey_bool, ← filter_take_append_filter_drop _ items count,
    ← filter_take_append_filter_drop flag items count, allUnset, noneSet,
    List.append_assoc]
  refine take_perm_take (List.Perm.refl _) fun short => ?_
  rw [List.drop_of_length_le short]
  rfl

/-- Items that are all set stay behind. -/
theorem take_perm_of_set
    {flag : α → Bool}
    {items : List α}
    {count : Nat}
    (rest : ∀ item ∈ items.drop count, flag item = true) :
    ((sortByKey flag items).take count).Perm (items.take count) := by
  have noneUnset :
      ((items.drop count).filter fun item => !flag item) = [] := by
    rw [List.filter_eq_nil_iff]
    intro item member
    simp [rest item member]
  rw [sortByKey_bool, ← filter_take_append_filter_drop _ items count,
    ← filter_take_append_filter_drop flag items count, noneUnset,
    List.append_nil, ← List.append_assoc]
  refine take_perm_take ?_ fun short => ?_
  · exact (List.perm_append_comm).trans
      (List.filter_append_perm flag (items.take count))
  · rw [List.drop_of_length_le short]
    rfl

/--
Cutting a list behind a sort by a flag keeps the same items as cutting the
list itself exactly if the front has only unset items or the rest only set
ones.
-/
theorem take_sortByKey_perm_iff
    (flag : α → Bool)
    (items : List α)
    (count : Nat) :
    ((sortByKey flag items).take count).Perm (items.take count) ↔
      (∀ item ∈ items.take count, flag item = false) ∨
        ∀ item ∈ items.drop count, flag item = true := by
  constructor
  · exact unset_or_set_of_take_perm
  · rintro (front | rest)
    · exact take_perm_of_unset front
    · exact take_perm_of_set rest

/-- Taking the items with a flag first changes nothing exactly if none of the
others stands before one of them. -/
theorem filter_append_filter_not_eq_self_iff
    (flag : α → Bool)
    (items : List α) :
    items.filter flag ++ items.filter (!flag ·) = items ↔
      items.Pairwise fun earlier later =>
        flag later = true → flag earlier = true := by
  have sorted : items.filter flag ++ items.filter (!flag ·) =
      sortByKey (!flag ·) items := by
    simp [sortByKey_bool]
  have order : ∀ earlier later : α,
      ((!flag earlier) ≤ !flag later) ↔
        (flag later = true → flag earlier = true) := by
    intro earlier later
    cases flag earlier <;> cases flag later <;> decide
  simp only [← order, sorted]
  constructor
  · intro same
    rw [← same]
    exact List.pairwise_insertionSort _ items
  · intro pairwise
    exact List.Pairwise.insertionSort_eq pairwise

end DnsServices.StableSort
