import Mathlib.Algebra.Order.BigOperators.Group.List
import Mathlib.Algebra.Order.Ring.Int
import Mathlib.Tactic.Common

-- Sums over the values of a finite map, and how they change with one key.
namespace MapSum

open Std (ExtTreeMap)

variable {α β : Type} [Ord α] [Std.TransOrd α] [Std.LawfulEqOrd α] {k : α} {v : β}

def total (weight : β → Int) (map : ExtTreeMap α β) : Int :=
  (map.toList.map fun entry => weight entry.2).sum

private theorem nodup_toList (map : ExtTreeMap α β) : map.toList.Nodup := by
  refine map.distinct_keys_toList.imp ?_
  rintro a b hne rfl
  exact hne Std.ReflOrd.compare_self

theorem toList_perm_of_getElem? {map : ExtTreeMap α β} (h : map[k]? = some v) :
    map.toList.Perm ((k, v) :: (map.erase k).toList) := by
  have hfresh : (k, v) ∉ (map.erase k).toList := by simp
  refine (List.perm_ext_iff_of_nodup (nodup_toList map)
    (List.nodup_cons.mpr ⟨hfresh, nodup_toList _⟩)).mpr ?_
  rintro ⟨k', v'⟩
  simp only [ExtTreeMap.mem_toList_iff_getElem?_eq_some, List.mem_cons, Prod.mk.injEq,
    ExtTreeMap.getElem?_erase, Std.LawfulEqOrd.compare_eq_iff_eq]
  by_cases hk : k = k'
  · subst hk
    simp [h, eq_comm]
  · simp [hk, Ne.symm hk]

variable (weight : β → Int) (map : ExtTreeMap α β)

theorem total_of_getElem? (h : map[k]? = some v) :
    total weight map = weight v + total weight (map.erase k) := by
  unfold total
  rw [((toList_perm_of_getElem? h).map _).sum_eq, List.map_cons, List.sum_cons]

theorem total_erase_of_notMem (h : map[k]? = none) :
    total weight (map.erase k) = total weight map := by
  congr 1
  refine ExtTreeMap.ext_getElem? fun k' => ?_
  by_cases hk : k = k'
  · subst hk
    simp [h]
  · simp [ExtTreeMap.getElem?_erase, hk]

theorem total_insert (k : α) (v : β) :
    total weight (map.insert k v) = weight v + total weight (map.erase k) := by
  have herase : (map.insert k v).erase k = map.erase k := by
    refine ExtTreeMap.ext_getElem? fun k' => ?_
    simp only [ExtTreeMap.getElem?_erase, ExtTreeMap.getElem?_insert,
      Std.LawfulEqOrd.compare_eq_iff_eq]
    split_ifs <;> rfl
  rw [total_of_getElem? weight (map.insert k v) ExtTreeMap.getElem?_insert_self, herase]

omit [Std.LawfulEqOrd α] in
theorem total_nonneg (h : ∀ v, 0 ≤ weight v) : 0 ≤ total weight map := by
  refine List.sum_nonneg ?_
  simp only [List.mem_map]
  rintro _ ⟨entry, _, rfl⟩
  exact h entry.2

end MapSum
