import Mathlib.Algebra.Order.Group.Multiset
import Mathlib.Data.List.AList

namespace DnsServices.KeyedItems

/-!
# Items held in keyed maps

Items that move between maps with different keys are counted by what the maps
hold, whatever the keys.  Taking an entry out takes its item out once, and an
insertion adds its item at the price of the entry it replaces.
-/

variable {κ ν ι : Type} [DecidableEq κ] {m : AList fun _ : κ => ν}

/-- Taking an entry out of a map takes it out of its entries. -/
theorem entries_perm_erase
    {key : κ}
    {value : ν}
    (found : m.lookup key = some value) :
    m.entries.Perm (⟨key, value⟩ :: (m.erase key).entries) := by
  have isKey : key ∈ m.entries.keys :=
    AList.lookup_isSome.mp (by rw [found]; rfl)
  obtain ⟨other, before, after, notBefore, shape, erased⟩ :=
    List.exists_of_kerase isKey
  have same : other = value := by
    have member : (⟨key, other⟩ : Sigma fun _ => ν) ∈ m.entries := by
      rw [shape]
      simp
    have lookedUp := AList.mem_lookup_iff.mpr member
    rw [found] at lookedUp
    exact (Option.some.inj lookedUp).symm
  have erasedEntries : (m.erase key).entries = before ++ after :=
    erased
  rw [erasedEntries, shape, same]
  exact List.perm_middle

theorem erase_of_notMem {key : κ} (absent : key ∉ m) : m.erase key = m :=
  AList.ext (List.kerase_of_notMem_keys absent)

/-- An insertion adds its own entry only. -/
theorem lookup_of_lookup_insert
    {key other : κ}
    {value found : ν}
    (lookedUp : (m.insert key value).lookup other = some found) :
    other = key ∧ found = value ∨ m.lookup other = some found := by
  by_cases same : other = key
  · subst same
    rw [AList.lookup_insert] at lookedUp
    exact .inl ⟨rfl, (Option.some.inj lookedUp).symm⟩
  · rw [AList.lookup_insert_ne same] at lookedUp
    exact .inr lookedUp

/-- Erasing an entry adds none. -/
theorem lookup_of_lookup_erase
    {key other : κ}
    {found : ν}
    (lookedUp : (m.erase key).lookup other = some found) :
    m.lookup other = some found := by
  by_cases same : other = key
  · subst same
    rw [AList.lookup_erase] at lookedUp
    cases lookedUp
  · rwa [AList.lookup_erase_ne same] at lookedUp

/-- The items of the values a map holds. -/
def items (item : ν → ι) (m : AList fun _ : κ => ν) : Multiset ι :=
  (m.entries.map fun entry => item entry.2 : List ι)

variable {item : ν → ι}

/-- A stored value can be taken out of the items of the map. -/
theorem items_of_lookup
    {key : κ}
    {value : ν}
    (found : m.lookup key = some value) :
    items item m = item value ::ₘ items item (m.erase key) :=
  Multiset.coe_eq_coe.mpr
    ((entries_perm_erase found).map fun entry => item entry.2)

/-- Inserting replaces the items of the old value under the key. -/
theorem items_insert (key : κ) (value : ν) :
    items item (m.insert key value) =
      item value ::ₘ items item (m.erase key) :=
  rfl

theorem items_insert_of_notMem
    {key : κ}
    (value : ν)
    (absent : key ∉ m) :
    items item (m.insert key value) = item value ::ₘ items item m := by
  rw [items_insert, erase_of_notMem absent]

/-- Two successive balances of lost, held and added items compose. -/
theorem balance_trans
    {firstLost laterLost before between after : Multiset ι}
    {addedBefore addedBetween addedAfter : Multiset ι}
    (first : firstLost + between + addedBefore = before + addedBetween)
    (later : laterLost + after + addedBetween = between + addedAfter) :
    firstLost + laterLost + after + addedBefore = before + addedAfter := by
  have both := congrArg₂ (· + ·) first later
  refine @add_right_cancel _ _ _ _ (between + addedBetween) _ ?_
  calc
    firstLost + laterLost + after + addedBefore + (between + addedBetween) =
        firstLost + between + addedBefore +
          (laterLost + after + addedBetween) := by
      ac_rfl
    _ = before + addedBetween + (between + addedAfter) := both
    _ = before + addedAfter + (between + addedBetween) := by
      ac_rfl

end DnsServices.KeyedItems
