import Mathlib.Data.List.Lex
import Mathlib.Data.List.Sort

namespace DnsServices.LexCompare

/-!
# Comparing sorted lists by their first difference

Two parties each hold a list of items in no particular order.  Sorting both
by a key makes the lists canonical, and a comparison that stops at the first
difference then orders the parties: it never puts two of them both ways, and
it fails to separate them only if they hold the same keys.
-/

section Difference

variable {κ : Type} {before : κ → κ → Prop}

/-- `theirs` comes later than `ours`: the first item in which they differ
comes later, or `ours` is a proper prefix of `theirs`. -/
def Later
    (before : κ → κ → Prop)
    (ours theirs : List κ) : Prop :=
  (∃ common ourItem ourRest theirItem theirRest,
      ours = common ++ ourItem :: ourRest ∧
        theirs = common ++ theirItem :: theirRest ∧
        before ourItem theirItem) ∨
    ours <+: theirs ∧ ours ≠ theirs

/-- Being later is the lexicographic order. -/
theorem later_iff_lex {ours theirs : List κ} :
    Later before ours theirs ↔ List.Lex before ours theirs := by
  constructor
  · rintro (⟨common, ourItem, ourRest, theirItem, theirRest,
      rfl, rfl, ordered⟩ | ⟨⟨extra, rfl⟩, different⟩)
    · exact List.Lex.append_left before (List.Lex.rel ordered) common
    · cases extra with
      | nil =>
          exact (different (List.append_nil ours).symm).elim
      | cons item extra =>
          have longer :=
            List.Lex.append_left before
              (List.Lex.nil : List.Lex before [] (item :: extra)) ours
          rwa [List.append_nil] at longer
  · intro ordered
    induction ordered with
    | nil =>
        exact Or.inr (by simp)
    | @cons item ourRest theirRest _ inductionHypothesis =>
        rcases inductionHypothesis with
          ⟨common, ourItem, ourTail, theirItem, theirTail,
            rfl, rfl, itemsOrdered⟩ | ⟨isPrefix, different⟩
        · exact Or.inl ⟨item :: common, ourItem, ourTail, theirItem,
            theirTail, rfl, rfl, itemsOrdered⟩
        · refine Or.inr ⟨List.cons_prefix_cons.mpr ⟨rfl, isPrefix⟩, ?_⟩
          intro equal
          exact different (List.cons.inj equal).2
    | @rel ourItem ourRest theirItem theirRest itemsOrdered =>
        exact Or.inl ⟨[], ourItem, ourRest, theirItem, theirRest,
          rfl, rfl, itemsOrdered⟩

/-- Two lists differ at a common position unless one is a prefix of the
other. -/
theorem prefix_or_difference
    (ours theirs : List κ) :
    (ours <+: theirs ∨ theirs <+: ours) ∨
      ∃ common ourItem ourRest theirItem theirRest,
        ours = common ++ ourItem :: ourRest ∧
          theirs = common ++ theirItem :: theirRest ∧
          ourItem ≠ theirItem := by
  induction ours generalizing theirs with
  | nil =>
      exact Or.inl (Or.inl (by simp))
  | cons ourItem ourRest inductionHypothesis =>
      cases theirs with
      | nil =>
          exact Or.inl (Or.inr (by simp))
      | cons theirItem theirRest =>
          by_cases same : ourItem = theirItem
          · subst same
            rcases inductionHypothesis theirRest with
              isPrefix | ⟨common, ourNext, ourTail, theirNext, theirTail,
                rfl, rfl, different⟩
            · simp only [List.cons_prefix_cons, true_and]
              exact Or.inl isPrefix
            · exact Or.inr ⟨ourItem :: common, ourNext, ourTail, theirNext,
                theirTail, rfl, rfl, different⟩
          · exact Or.inr ⟨[], ourItem, ourRest, theirItem, theirRest,
              rfl, rfl, same⟩

/-- Differing first items decide. -/
theorem lex_cons_cons_iff
    {ourRest theirRest : List κ}
    {ourItem theirItem : κ}
    (different : ourItem ≠ theirItem) :
    List.Lex before (ourItem :: ourRest) (theirItem :: theirRest) ↔
      before ourItem theirItem := by
  constructor
  · intro ordered
    cases ordered with
    | cons _ =>
        exact (different rfl).elim
    | rel itemsOrdered =>
        exact itemsOrdered
  · exact List.Lex.rel

/-- After a common part, differing items decide. -/
theorem lex_append_cons_iff
    [Std.Irrefl before]
    {common ourRest theirRest : List κ}
    {ourItem theirItem : κ}
    (different : ourItem ≠ theirItem) :
    List.Lex before
        (common ++ ourItem :: ourRest) (common ++ theirItem :: theirRest) ↔
      before ourItem theirItem := by
  induction common with
  | nil =>
      exact lex_cons_cons_iff different
  | cons item common inductionHypothesis =>
      rw [List.cons_append, List.cons_append, List.lex_cons_iff,
        inductionHypothesis]

/-- Between a list and an extension of it the order of the items is never
asked. -/
theorem lex_iff_of_comparable
    {other : κ → κ → Prop}
    [Std.Irrefl before]
    [Std.Irrefl other]
    {ours theirs : List κ}
    (comparable : ours <+: theirs ∨ theirs <+: ours) :
    List.Lex before ours theirs ↔ List.Lex other ours theirs := by
  induction ours generalizing theirs with
  | nil =>
      cases theirs with
      | nil =>
          simp
      | cons theirItem theirRest =>
          exact ⟨fun _ => List.Lex.nil, fun _ => List.Lex.nil⟩
  | cons ourItem ourRest inductionHypothesis =>
      cases theirs with
      | nil =>
          simp
      | cons theirItem theirRest =>
          simp only [List.cons_prefix_cons] at comparable
          obtain ⟨rfl, restComparable⟩ :
              ourItem = theirItem ∧
                (ourRest <+: theirRest ∨ theirRest <+: ourRest) := by
            rcases comparable with ⟨same, rest⟩ | ⟨same, rest⟩
            · exact ⟨same, Or.inl rest⟩
            · exact ⟨same.symm, Or.inr rest⟩
          rw [List.lex_cons_iff, List.lex_cons_iff,
            inductionHypothesis restComparable]

end Difference

section Orders

variable {κ : Type} [LinearOrder κ]

/-- Reversing the order of the items changes the outcome exactly if the lists
differ at a common position. -/
theorem lex_gt_iff_lex_lt_iff
    (ours theirs : List κ) :
    (List.Lex (· > ·) ours theirs ↔ List.Lex (· < ·) ours theirs) ↔
      ours <+: theirs ∨ theirs <+: ours := by
  constructor
  · intro agree
    rcases prefix_or_difference ours theirs with
      comparable | ⟨common, ourItem, ourRest, theirItem, theirRest,
        rfl, rfl, different⟩
    · exact comparable
    · rw [lex_append_cons_iff different, lex_append_cons_iff different]
        at agree
      rcases lt_or_gt_of_ne different with below | above
      · exact (lt_asymm below (agree.mpr below)).elim
      · exact (lt_asymm above (agree.mp above)).elim
  · intro comparable
    exact lex_iff_of_comparable comparable

end Orders

section Sorting

variable {α κ : Type} [LinearOrder κ] {key : α → κ} {less : α → α → Bool}

/-- Sort by a strict comparison.  Items that it does not separate may come
out in any order; here they keep theirs. -/
def sortSlice
    (less : α → α → Bool)
    (items : List α) : List α :=
  items.insertionSort fun first second => less second first = false

/-- Sorting a slice permutes it. -/
theorem sortSlice_perm (items : List α) :
    (sortSlice less items).Perm items :=
  List.perm_insertionSort _ items

/-- A sort that compares keys leaves the keys in order. -/
theorem sortedKeys_sortSlice
    (lessByKey : ∀ first second, less first second = true ↔
      key first < key second)
    (items : List α) :
    ((sortSlice less items).map key).Pairwise (· ≤ ·) := by
  have leByKey : ∀ first second,
      less second first = false ↔ key first ≤ key second := by
    intro first second
    rw [← Bool.not_eq_true, lessByKey, not_lt]
  have total : Std.Total fun first second => less second first = false := by
    refine ⟨fun first second => ?_⟩
    rw [leByKey, leByKey]
    exact le_total _ _
  have transitive :
      IsTrans α fun first second => less second first = false := by
    refine ⟨fun first second third firstSecond secondThird => ?_⟩
    rw [leByKey] at firstSecond secondThird ⊢
    exact firstSecond.trans secondThird
  rw [List.pairwise_map]
  refine (List.pairwise_insertionSort _ items).imp ?_
  intro first second ordered
  exact (leByKey first second).mp ordered

/-- However items with equal keys are arranged, the sorted keys are
determined by the keys that occur. -/
theorem keys_sortSlice_eq_iff
    (lessByKey : ∀ first second, less first second = true ↔
      key first < key second)
    (first second : List α) :
    (sortSlice less first).map key = (sortSlice less second).map key ↔
      (first.map key).Perm (second.map key) := by
  have firstPerm : ((sortSlice less first).map key).Perm (first.map key) :=
    (sortSlice_perm first).map key
  have secondPerm :
      ((sortSlice less second).map key).Perm (second.map key) :=
    (sortSlice_perm second).map key
  constructor
  · intro equal
    rw [equal] at firstPerm
    exact firstPerm.symm.trans secondPerm
  · intro same
    exact List.Perm.eq_of_pairwise'
      (sortedKeys_sortSlice lessByKey first)
      (sortedKeys_sortSlice lessByKey second)
      (firstPerm.trans (same.trans secondPerm.symm))

end Sorting

end DnsServices.LexCompare
