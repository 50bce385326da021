import Std.Data.ExtTreeMap
import Mathlib.Data.List.Basic

-- Reading an ordered map with a cursor.
namespace Scan

open Std (ExtTreeMap TransCmp TransOrd LawfulEqOrd)

section Seek

variable {α β : Type} [Ord α] [TransOrd α]

def seek (start : α) (m : ExtTreeMap α β) : List (α × β) :=
  m.toList.dropWhile fun row => compare row.1 start = .lt

theorem dropWhile_eq_filter {rows : List (α × β)} (start : α)
    (hsorted : rows.Pairwise fun a b => compare a.1 b.1 = .lt) :
    rows.dropWhile (fun row => compare row.1 start = .lt) =
      rows.filter fun row => compare row.1 start ≠ .lt := by
  induction rows with
  | nil => rfl
  | cons row rows ih =>
    obtain ⟨hrow, hrows⟩ := List.pairwise_cons.mp hsorted
    by_cases hlt : compare row.1 start = .lt
    · rw [List.dropWhile_cons_of_pos (by simpa using hlt), ih hrows,
        List.filter_cons_of_neg (by simpa using hlt)]
    rw [List.dropWhile_cons_of_neg (by simpa using hlt), eq_comm, List.filter_eq_self]
    intro other hother
    rcases List.mem_cons.mp hother with rfl | hother
    · simpa using hlt
    · have hbelow : compare other.1 start ≠ .lt := fun h =>
        hlt (TransCmp.lt_trans (hrow other hother) h)
      simpa using hbelow

theorem seek_eq_filter (start : α) (m : ExtTreeMap α β) :
    seek start m = m.toList.filter fun row => compare row.1 start ≠ .lt :=
  dropWhile_eq_filter start ExtTreeMap.ordered_keys_toList

end Seek

section Prefixes

variable {α β : Type} [Ord α] [LawfulEqOrd α] {start : List α}

theorem not_lt_of_isPrefix {key : List α} (h : start <+: key) : compare key start ≠ .lt := by
  induction start generalizing key with
  | nil => cases key <;> simp
  | cons a start ih =>
    cases key with
    | nil => simp at h
    | cons b key =>
      obtain ⟨rfl, hrest⟩ := List.cons_prefix_cons.mp h
      simpa using ih hrest

-- After the last key with the prefix there is no other one.
theorem not_isPrefix_of_lt {key later : List α} (hstart : compare key start ≠ .lt)
    (hkey : ¬ start <+: key) (hlt : compare key later = .lt) : ¬ start <+: later := by
  induction start generalizing key later with
  | nil => exact absurd (List.nil_prefix) hkey
  | cons a start ih =>
    intro hlater
    rcases key with _ | ⟨b, key⟩
    · simp at hstart
    rcases later with _ | ⟨c, later⟩
    · simp at hlater
    obtain ⟨rfl, hrest⟩ := List.cons_prefix_cons.mp hlater
    rw [List.compare_cons_cons] at hstart hlt
    cases hcompare : compare b a with
    | lt => simp [hcompare] at hstart
    | gt => simp [hcompare] at hlt
    | eq =>
      obtain rfl := LawfulEqOrd.eq_of_compare hcompare
      simp only [hcompare] at hstart hlt
      refine ih hstart (fun h => hkey (List.cons_prefix_cons.mpr ⟨rfl, h⟩)) hlt hrest

variable [BEq α] [LawfulBEq α]

theorem takeWhile_eq_filter {rows : List (List α × β)}
    (hsorted : rows.Pairwise fun a b => compare a.1 b.1 = .lt)
    (hstart : ∀ row ∈ rows, compare row.1 start ≠ .lt) :
    rows.takeWhile (fun row => start.isPrefixOf row.1) =
      rows.filter fun row => start.isPrefixOf row.1 := by
  induction rows with
  | nil => rfl
  | cons row rows ih =>
    obtain ⟨hrow, hrows⟩ := List.pairwise_cons.mp hsorted
    by_cases hprefix : start.isPrefixOf row.1 = true
    · simp only [List.takeWhile_cons, List.filter_cons, hprefix, if_true]
      rw [ih hrows fun other hother => hstart other (List.mem_cons_of_mem _ hother)]
    simp only [List.takeWhile_cons, hprefix, Bool.false_eq_true, if_false]
    rw [eq_comm, List.filter_eq_nil_iff]
    have hnot : ¬ start <+: row.1 := fun h => hprefix (List.isPrefixOf_iff_prefix.mpr h)
    intro other hother hother'
    rcases List.mem_cons.mp hother with rfl | hother
    · exact hprefix hother'
    · exact not_isPrefix_of_lt (hstart row List.mem_cons_self) hnot (hrow other hother)
        (List.isPrefixOf_iff_prefix.mp hother')

variable [TransOrd α]

-- The rows from a text on, as long as their keys start with it.
def scanPrefix (start : List α) (m : ExtTreeMap (List α) β) : List (List α × β) :=
  (seek start m).takeWhile fun row => start.isPrefixOf row.1

theorem scanPrefix_eq_filter (start : List α) (m : ExtTreeMap (List α) β) :
    scanPrefix start m = m.toList.filter fun row => start.isPrefixOf row.1 := by
  unfold scanPrefix
  rw [seek_eq_filter, takeWhile_eq_filter (ExtTreeMap.ordered_keys_toList.filter _), List.filter_filter]
  · refine List.filter_congr fun row _ => ?_
    cases hprefix : start.isPrefixOf row.1 with
    | false => simp
    | true => simpa using not_lt_of_isPrefix (List.isPrefixOf_iff_prefix.mp hprefix)
  · intro row hrow
    simpa using (List.mem_filter.mp hrow).2

end Prefixes

section Rows

variable {α β : Type} [Ord α] [TransOrd α] [LawfulEqOrd α] {m : ExtTreeMap α β}

-- The rows of a map are known from their order and the single keys.
theorem toList_eq {rows : List (α × β)} (hsorted : rows.Pairwise fun a b => compare a.1 b.1 = .lt)
    (hmem : ∀ key value, (key, value) ∈ rows ↔ m[key]? = some value) : m.toList = rows := by
  have hirrefl : ∀ row : α × β, compare row.1 row.1 ≠ .lt := fun row => by simp
  have hnodup : ∀ {l : List (α × β)}, (l.Pairwise fun a b => compare a.1 b.1 = .lt) → l.Nodup := by
    intro l hl
    refine List.Pairwise.imp (fun hlt => ?_) hl
    rintro rfl
    exact hirrefl _ hlt
  have hperm : m.toList.Perm rows := by
    refine (List.perm_ext_iff_of_nodup (hnodup ExtTreeMap.ordered_keys_toList) (hnodup hsorted)).mpr ?_
    rintro ⟨key, value⟩
    rw [ExtTreeMap.mem_toList_iff_getElem?_eq_some, hmem]
  refine hperm.eq_of_pairwise ?_ ExtTreeMap.ordered_keys_toList hsorted
  intro a b _ _ hab hba
  exact absurd (TransCmp.lt_trans hab hba) (hirrefl a)

theorem toList_insert_last {key : α} (value : β)
    (hlast : ∀ other v, m[other]? = some v → compare other key = .lt) :
    (m.insert key value).toList = m.toList ++ [(key, value)] := by
  refine toList_eq ?_ fun other v => ?_
  · refine List.pairwise_append.mpr ⟨ExtTreeMap.ordered_keys_toList, List.pairwise_singleton .., ?_⟩
    rintro ⟨other, v⟩ hother row hrow
    obtain rfl := List.mem_singleton.mp hrow
    exact hlast other v (ExtTreeMap.mem_toList_iff_getElem?_eq_some.mp hother)
  · rw [List.mem_append, List.mem_singleton,
      ExtTreeMap.getElem?_insert]
    by_cases hkey : key = other
    · subst hkey
      have hnone : m[key]? = none := by
        by_contra h
        obtain ⟨v, hv⟩ := Option.ne_none_iff_exists'.mp h
        simpa using hlast key v hv
      simp [hnone, eq_comm]
    · simp [hkey, Ne.symm hkey]

end Rows

section EraseAll

variable {α β γ : Type} [Ord α] [TransOrd α] [LawfulEqOrd α] [DecidableEq α]

theorem getElem?_foldl_erase (key : γ → α) (rows : List γ) (m : ExtTreeMap α β) (k : α) :
    (rows.foldl (fun m row => m.erase (key row)) m)[k]? =
      if k ∈ rows.map key then none else m[k]? := by
  induction rows generalizing m with
  | nil => simp
  | cons row rows ih =>
    rw [List.foldl_cons, ih, ExtTreeMap.getElem?_erase]
    by_cases hkey : key row = k
    · simp [hkey]
    · have hmem : k ∈ (row :: rows).map key ↔ k ∈ rows.map key := by
        rw [List.map_cons, List.mem_cons, or_iff_right (Ne.symm hkey)]
      simp only [hmem, hkey, Std.compare_eq_iff_eq, if_false]

theorem getElem?_foldl_erase_keys (keys : List α) (m : ExtTreeMap α β) (k : α) :
    (keys.foldl (fun m key => m.erase key) m)[k]? = if k ∈ keys then none else m[k]? := by
  simpa using getElem?_foldl_erase id keys m k

end EraseAll

end Scan
