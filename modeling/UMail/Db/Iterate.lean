import UMail.Db.Queue
import UMail.Library.Scan

namespace UMail.Db

open Std (ExtTreeMap)
open UMail.Storage (Bytes)

abbrev RawBucket := ExtTreeMap Bytes Bytes

-- Where a page starts: at the prefix, or behind the last key of the page before,
-- which may be gone.
def seekPage (start : Bytes) (after : Option Bytes) (bucket : RawBucket) : List (Bytes × Bytes) :=
  match after with
  | none => Scan.seek start bucket
  | some key =>
    match Scan.seek key bucket with
    | [] => []
    | row :: rows => if row.1 = key then rows else row :: rows

def readPage (size : Nat) (start : Bytes) (after : Option Bytes) (bucket : RawBucket) :
    List (Bytes × Bytes) :=
  ((seekPage start after bucket).takeWhile fun row => start.isPrefixOf row.1).take size

-- The rows given to the callback, and whether the loop has ended. Every page is
-- read in a transaction of its own, from the bucket as it is by then.
def iterate (size : Nat) (start : Bytes) (after : Option Bytes) : List RawBucket → List (Bytes × Bytes) × Bool
  | [] => ([], false)
  | bucket :: later =>
    let page := readPage size start after bucket
    if page.length < size then (page, true)
    else
      let rest := iterate size start (page.getLast?.map Prod.fst) later
      (page ++ rest.1, rest.2)

-- The keys that are still to come.
def ahead (start : Bytes) (after : Option Bytes) (key : Bytes) : Bool :=
  start.isPrefixOf key && after.all fun last => compare last key = .lt

section Pages

variable {size : Nat} {start : Bytes} {after : Option Bytes} {bucket : RawBucket} {last : Bytes × Bytes}

theorem compare_lt_iff {key other : Bytes} :
    compare key other = .lt ↔ compare other key ≠ .lt ∧ other ≠ key := by
  rw [Std.OrientedOrd.eq_swap (a := key)]
  cases hcompare : compare other key with
  | lt => simp
  | eq => simp [Std.LawfulEqOrd.eq_of_compare hcompare]
  | gt =>
    refine iff_of_true rfl ⟨by simp, ?_⟩
    rintro rfl
    simp at hcompare

theorem seekPage_some (start key : Bytes) :
    seekPage start (some key) bucket = bucket.toList.filter fun row => compare key row.1 = .lt := by
  have hsorted : (Scan.seek key bucket).Pairwise fun a b => compare a.1 b.1 = .lt := by
    rw [Scan.seek_eq_filter]
    exact bucket.ordered_keys_toList.filter _
  have hnext : bucket.toList.filter (fun row => compare key row.1 = .lt) =
      (Scan.seek key bucket).filter fun row => row.1 ≠ key := by
    rw [Scan.seek_eq_filter, List.filter_filter]
    refine List.filter_congr fun row _ => ?_
    rw [Bool.eq_iff_iff, Bool.and_eq_true, decide_eq_true_eq, decide_eq_true_eq, decide_eq_true_eq,
      @compare_lt_iff key row.1, and_comm]
  have hfirst : ∀ row ∈ Scan.seek key bucket, compare row.1 key ≠ .lt := by
    rw [Scan.seek_eq_filter]
    exact fun row hrow => by simpa using (List.mem_filter.mp hrow).2
  rw [hnext, seekPage]
  rcases hrows : Scan.seek key bucket with _ | ⟨row, rows⟩
  · rfl
  rw [hrows] at hsorted hfirst
  obtain ⟨hrow, -⟩ := List.pairwise_cons.mp hsorted
  -- Every other row is behind the first one, and so is not the resume key.
  have hrest : ∀ other ∈ rows, other.1 ≠ key := by
    rintro other hother rfl
    exact hfirst row List.mem_cons_self (hrow other hother)
  have hkept : rows.filter (fun row => row.1 ≠ key) = rows := List.filter_eq_self.mpr (by simpa using hrest)
  dsimp only
  split_ifs with hkey
  · rw [List.filter_cons_of_neg (by simpa using hkey), hkept]
  · rw [List.filter_cons_of_pos (by simpa using hkey), hkept]

-- The last key of a page has the prefix.
variable (hafter : ∀ key ∈ after, start <+: key)

include hafter in
theorem readPage_eq :
    readPage size start after bucket =
      (bucket.toList.filter fun row => ahead start after row.1).take size := by
  unfold readPage ahead
  congr 1
  cases after with
  | none =>
    have hscan := Scan.scanPrefix_eq_filter start bucket
    rw [Scan.scanPrefix] at hscan
    simpa [seekPage] using hscan
  | some key =>
    rw [seekPage_some, Scan.takeWhile_eq_filter (bucket.ordered_keys_toList.filter _), List.filter_filter]
    · simp
    · intro row hrow hlt
      have hkey : compare key row.1 = .lt := by simpa using (List.mem_filter.mp hrow).2
      exact Scan.not_lt_of_isPrefix (hafter key rfl) (Std.TransCmp.lt_trans hkey hlt)

include hafter in
theorem ahead_of_mem_readPage {row : Bytes × Bytes} (hrow : row ∈ readPage size start after bucket) :
    ahead start after row.1 = true := by
  rw [readPage_eq hafter] at hrow
  exact (List.mem_filter.mp (List.mem_of_mem_take hrow)).2

theorem ahead_trans {last key : Bytes} (h : ahead start after last = true)
    (hkey : ahead start (some last) key = true) : ahead start after key = true := by
  simp only [ahead, Bool.and_eq_true, Option.all_eq_true, decide_eq_true_eq] at h hkey ⊢
  exact ⟨hkey.1, fun first hfirst => Std.TransCmp.lt_trans (h.2 first hfirst) (hkey.2 last rfl)⟩

theorem filter_behind_take {rows : List (Bytes × Bytes)}
    (hsorted : rows.Pairwise fun a b => compare a.1 b.1 = .lt)
    (hlast : (rows.take size).getLast? = some last) :
    rows.filter (fun row => compare last.1 row.1 = .lt) = rows.drop size ∧
      ∀ row ∈ rows.take size, row = last ∨ compare row.1 last.1 = .lt := by
  obtain ⟨init, hinit⟩ := List.getLast?_eq_some_iff.mp hlast
  rw [← List.take_append_drop size rows, List.pairwise_append] at hsorted
  obtain ⟨hwithin, -, hacross⟩ := hsorted
  rw [hinit, List.pairwise_append] at hwithin
  have hpage : ∀ row ∈ rows.take size, row = last ∨ compare row.1 last.1 = .lt := by
    intro row hrow
    rw [hinit, List.mem_append, List.mem_singleton] at hrow
    exact hrow.symm.imp_right fun hrow => hwithin.2.2 row hrow last (List.mem_singleton.mpr rfl)
  refine ⟨?_, hpage⟩
  conv_lhs => rw [← List.take_append_drop size rows, List.filter_append]
  rw [List.filter_eq_nil_iff.mpr, List.filter_eq_self.mpr, List.nil_append]
  · intro row hrow
    simpa using hacross last (List.mem_of_getLast? hlast) row hrow
  · intro row hrow
    rcases hpage row hrow with rfl | hlt
    · simp
    · simpa using (compare_lt_iff.mp hlt).1

variable (hsize : 0 < size)

include hsize hafter

-- A full page has a last row, and what is ahead of it is what the page has left.
theorem exists_last (hfull : ¬ (readPage size start after bucket).length < size) :
    ∃ last, (readPage size start after bucket).getLast? = some last ∧ ahead start after last.1 = true ∧
      (∀ key ∈ some last.1, start <+: key) ∧
      bucket.toList.filter (fun row => ahead start (some last.1) row.1) =
        (bucket.toList.filter fun row => ahead start after row.1).drop size := by
  have hne : readPage size start after bucket ≠ [] := by
    intro hnil
    rw [hnil, List.length_nil] at hfull
    omega
  obtain ⟨last, hlast⟩ := Option.isSome_iff_exists.mp (List.getLast?_isSome.mpr hne)
  have hahead := ahead_of_mem_readPage hafter (List.mem_of_getLast? hlast)
  have hstart : start <+: last.1 := List.isPrefixOf_iff_prefix.mp (Bool.and_eq_true_iff.mp hahead).1
  refine ⟨last, hlast, hahead, by simpa using hstart, ?_⟩
  rw [readPage_eq hafter] at hlast
  rw [← (filter_behind_take (bucket.ordered_keys_toList.filter _) hlast).1, List.filter_filter]
  refine List.filter_congr fun row _ => ?_
  rw [Bool.eq_iff_iff, Bool.and_eq_true, decide_eq_true_eq]
  constructor
  · intro hrow
    refine ⟨?_, ahead_trans hahead hrow⟩
    simpa [ahead] using (Bool.and_eq_true_iff.mp hrow).2
  · rintro ⟨hlt, hrow⟩
    simpa [ahead, hlt] using (Bool.and_eq_true_iff.mp hrow).1

-- Whatever happens to the bucket between the pages, the rows come in ascending
-- order.
theorem iterate_ascending (buckets : List RawBucket) :
    (iterate size start after buckets).1.Pairwise (fun a b => compare a.1 b.1 = .lt) ∧
      ∀ row ∈ (iterate size start after buckets).1, ahead start after row.1 = true := by
  induction buckets generalizing after with
  | nil => exact ⟨.nil, List.forall_mem_nil _⟩
  | cons bucket later ih =>
    have hsorted : (readPage size start after bucket).Pairwise fun a b => compare a.1 b.1 = .lt := by
      rw [readPage_eq hafter]
      exact (bucket.ordered_keys_toList.filter _).take
    unfold iterate
    dsimp only
    split_ifs with hshort
    · exact ⟨hsorted, fun _ => ahead_of_mem_readPage hafter⟩
    obtain ⟨last, hlast, hahead, hnext, -⟩ := exists_last hafter hsize hshort
    obtain ⟨hlater, hrest⟩ := ih hnext
    rw [hlast, Option.map_some]
    refine ⟨List.pairwise_append.mpr ⟨hsorted, hlater, fun row hrow other hother => ?_⟩, fun row hrow => ?_⟩
    · have hbehind : compare last.1 other.1 = .lt := by
        simpa [ahead] using (Bool.and_eq_true_iff.mp (hrest other hother)).2
      rw [readPage_eq hafter] at hlast hrow
      rcases (filter_behind_take (bucket.ordered_keys_toList.filter _) hlast).2 row hrow with rfl | hlt
      · exact hbehind
      · exact Std.TransCmp.lt_trans hlt hbehind
    · rcases List.mem_append.mp hrow with hrow | hrow
      · exact ahead_of_mem_readPage hafter hrow
      · exact ahead_trans hahead (hrest row hrow)

-- A key that is there for every page is met, if the loop ends.
theorem mem_iterate {key : Bytes} (hkey : ahead start after key = true) {buckets : List RawBucket}
    (hpresent : ∀ bucket ∈ buckets, key ∈ bucket)
    (hended : (iterate size start after buckets).2 = true) :
    key ∈ (iterate size start after buckets).1.map Prod.fst := by
  induction buckets generalizing after with
  | nil => cases hended
  | cons bucket later ih =>
    obtain ⟨hhere, hlater⟩ := List.forall_mem_cons.mp hpresent
    obtain ⟨value, hvalue⟩ := Option.isSome_iff_exists.mp (ExtTreeMap.mem_iff_isSome_getElem?.mp hhere)
    have hrow : (key, value) ∈ bucket.toList.filter fun row => ahead start after row.1 :=
      List.mem_filter.mpr ⟨ExtTreeMap.mem_toList_iff_getElem?_eq_some.mpr hvalue, hkey⟩
    unfold iterate at hended ⊢
    dsimp only at hended ⊢
    split_ifs at hended ⊢ with hshort
    · rw [readPage_eq hafter] at hshort ⊢
      rw [List.length_take] at hshort
      rw [List.take_of_length_le (by omega)]
      exact List.mem_map_of_mem hrow
    · obtain ⟨last, hlast, -, hnext, hleft⟩ := exists_last hafter hsize hshort
      rw [hlast, Option.map_some] at hended ⊢
      rw [List.map_append, List.mem_append]
      rw [← List.take_append_drop size (bucket.toList.filter _), List.mem_append, ← readPage_eq hafter,
        ← hleft] at hrow
      rcases hrow with hrow | hrow
      · exact .inl (List.mem_map_of_mem hrow)
      · exact .inr (ih hnext (List.mem_filter.mp hrow).2 hlater hended)

-- Nothing is written meanwhile. A page that is not the last one leaves fewer rows.
theorem iterate_replicate {n : Nat}
    (hn : (bucket.toList.filter fun row => ahead start after row.1).length < n) :
    iterate size start after (List.replicate n bucket) =
      (bucket.toList.filter fun row => ahead start after row.1, true) := by
  induction n generalizing after with
  | zero => omega
  | succ n ih =>
    rw [List.replicate_succ, iterate]
    dsimp only
    split_ifs with hshort
    · rw [readPage_eq hafter] at hshort ⊢
      rw [List.length_take] at hshort
      rw [List.take_of_length_le (by omega)]
    obtain ⟨last, hlast, -, hnext, hleft⟩ := exists_last hafter hsize hshort
    rw [readPage_eq hafter, List.length_take] at hshort
    rw [hlast, Option.map_some, ih hnext, hleft, readPage_eq hafter, List.take_append_drop]
    rw [hleft, List.length_drop]
    omega

end Pages

-- Every list of buckets is what the transactions of the pages see.
theorem iterate_paged {size : Nat} (hsize : 0 < size) (start : Bytes) :
    (∀ bucket n, bucket.size < n → iterate size start none (List.replicate n bucket) =
      (bucket.toList.filter fun row => start.isPrefixOf row.1, true)) ∧
    ∀ buckets, (iterate size start none buckets).1.Pairwise (fun a b => compare a.1 b.1 = .lt) ∧
      ((iterate size start none buckets).2 = true → ∀ key, start <+: key →
        (∀ bucket ∈ buckets, key ∈ bucket) → key ∈ (iterate size start none buckets).1.map Prod.fst) := by
  have hnone : ∀ key ∈ (none : Option Bytes), start <+: key := by simp
  refine ⟨fun bucket n hn => ?_, fun buckets => ⟨(iterate_ascending hnone hsize buckets).1, ?_⟩⟩
  · have hall : (fun row : Bytes × Bytes => ahead start none row.1) = fun row => start.isPrefixOf row.1 := by
      simp [ahead]
    rw [iterate_replicate hnone hsize, hall]
    refine Nat.lt_of_le_of_lt (List.length_filter_le _ _) ?_
    rwa [ExtTreeMap.length_toList]
  · intro hended key hkey hpresent
    exact mem_iterate hnone hsize (by simpa [ahead] using List.isPrefixOf_iff_prefix.mpr hkey) hpresent hended

def threeRows : RawBucket := ((ExtTreeMap.empty.insert [7, 1] []).insert [7, 2] []).insert [7, 3] []

-- The key to go on from is gone when the second page is read.
theorem iterate_paged_erased :
    (readPage 2 [7] none threeRows).map Prod.fst = [[7, 1], [7, 2]] ∧ [7, 2] ∉ threeRows.erase [7, 2] ∧
      [7, 3] ∈ (iterate 2 [7] none [threeRows, threeRows.erase [7, 2]]).1.map Prod.fst :=
  ⟨by decide, by decide, ((iterate_paged (by decide) [7]).2 _).2 (by decide) [7, 3] (by decide) (by decide)⟩

end UMail.Db
