import Mathlib.Data.List.Sort

-- Reading a growing log page by page, each page starting after the last item
-- of the one before.
namespace Paging

open Std (IsLinearOrder LawfulOrderLT)

section Pages

variable {γ α : Type} [LT α] [DecidableLT α] (key : γ → α)

def after (start : α) (log : List γ) : List γ := log.filter fun x => start < key x

def upTo (start stop : α) (log : List γ) : List γ :=
  (after key start log).filter fun x => ¬ stop < key x

def page (size : Nat) (start : α) (log : List γ) : List γ := (after key start log).take size

def next (size : Nat) (start : α) (log : List γ) : α :=
  ((page key size start log).getLast?.map key).getD start

variable {key} {log : List γ} {start stop : α} {size : Nat} {x : γ}

theorem mem_after : x ∈ after key start log ↔ x ∈ log ∧ start < key x := by
  simp [after]

theorem mem_upTo : x ∈ upTo key start stop log ↔ x ∈ log ∧ start < key x ∧ ¬ stop < key x := by
  simp [upTo, mem_after, and_assoc]

theorem page_append_drop (size : Nat) (start : α) (log : List γ) :
    page key size start log ++ (after key start log).drop size = after key start log :=
  List.take_append_drop ..

theorem upTo_self (start : α) (log : List γ) : upTo key start start log = [] :=
  List.eq_nil_iff_forall_not_mem.mpr fun _ hx => (mem_upTo.mp hx).2.2 (mem_upTo.mp hx).2.1

-- What is appended above the end of a range does not belong to it.
theorem upTo_append {new : List γ} (h : ∀ x ∈ new, stop < key x) :
    upTo key start stop (log ++ new) = upTo key start stop log := by
  unfold upTo after
  rw [List.filter_append, List.filter_append, List.append_right_eq_self, List.filter_eq_nil_iff]
  intro x hx
  simpa using h x (List.mem_of_mem_filter hx)

end Pages

section Ordered

variable {γ α : Type} [LE α] [LT α] [IsLinearOrder α] [LawfulOrderLT α] [DecidableLT α]
variable {key : γ → α} {log : List γ} {start mid stop : α} {size : Nat}

variable (hsorted : log.Pairwise fun x y => key x < key y)

include hsorted

-- The last item of a page is at least as large as the others, and smaller than
-- what the page leaves.
theorem page_last {last : γ} (hlast : (page key size start log).getLast? = some last) :
    (∀ x ∈ page key size start log, key x ≤ key last) ∧
      ∀ x ∈ (after key start log).drop size, key last < key x := by
  have hafter : (after key start log).Pairwise fun x y => key x < key y := hsorted.filter _
  rw [← page_append_drop size, List.pairwise_append] at hafter
  obtain ⟨hwithin, _, hacross⟩ := hafter
  obtain ⟨init, hinit⟩ := List.getLast?_eq_some_iff.mp hlast
  rw [hinit, List.pairwise_append] at hwithin
  refine ⟨fun x hx => ?_, fun x hx => hacross last (List.mem_of_getLast? hlast) x hx⟩
  rw [hinit, List.mem_append, List.mem_singleton] at hx
  rcases hx with hx | rfl
  · exact Std.le_of_lt (hwithin.2.2 x hx last (List.mem_singleton.mpr rfl))
  · exact Std.le_refl _

omit hsorted in
theorem le_next (start : α) (log : List γ) : start ≤ next key size start log := by
  unfold next
  cases hlast : (page key size start log).getLast? with
  | none => exact Std.le_refl _
  | some last =>
    have hmem : last ∈ after key start log := List.mem_of_mem_take (List.mem_of_getLast? hlast)
    exact Std.le_of_lt (mem_after.mp hmem).2

-- A page is what lies between its start and the start of the next one.
theorem page_eq_upTo : page key size start log = upTo key start (next key size start log) log := by
  unfold next
  cases hlast : (page key size start log).getLast? with
  | none =>
    rw [List.getLast?_eq_none_iff.mp hlast]
    exact (upTo_self start log).symm
  | some last =>
    obtain ⟨hwithin, hbeyond⟩ := page_last hsorted hlast
    unfold upTo
    rw [← page_append_drop size, List.filter_append, List.filter_eq_self.mpr,
      List.filter_eq_nil_iff.mpr, List.append_nil]
    · intro x hx
      simpa using hbeyond x hx
    · intro x hx
      simpa using Std.not_lt.mpr (hwithin x hx)

-- A page leaves something exactly when there are items after the next start.
theorem size_lt_length_after :
    size < (after key start log).length ↔ ∃ x ∈ log, next key size start log < key x := by
  constructor
  · intro hsize
    have hleft : (after key start log).drop size ≠ [] := by
      rw [Ne, List.drop_eq_nil_iff]
      omega
    obtain ⟨x, hx⟩ := List.exists_mem_of_ne_nil _ hleft
    obtain ⟨hlog, hstart⟩ := mem_after.mp (List.mem_of_mem_drop hx)
    refine ⟨x, hlog, ?_⟩
    unfold next
    cases hlast : (page key size start log).getLast? with
    | none => exact hstart
    | some last => exact (page_last hsorted hlast).2 x hx
  · rintro ⟨x, hx, hnext⟩
    have hafter : x ∈ after key start log :=
      mem_after.mpr ⟨hx, Std.lt_of_le_of_lt (le_next start log) hnext⟩
    rw [← page_append_drop size, List.mem_append] at hafter
    rcases hafter with hin | hleft
    · rw [page_eq_upTo hsorted] at hin
      exact absurd hnext (mem_upTo.mp hin).2.2
    · by_contra hsize
      rw [List.drop_eq_nil_of_le (Nat.not_lt.mp hsize)] at hleft
      cases hleft

theorem filter_append_filter (mid : α) :
    log.filter (fun x => ¬ mid < key x) ++ log.filter (fun x => mid < key x) = log := by
  induction log with
  | nil => rfl
  | cons x log ih =>
    obtain ⟨hx, hlog⟩ := List.pairwise_cons.mp hsorted
    by_cases hmid : mid < key x
    · have habove : ∀ y ∈ log, mid < key y := fun y hy =>
        Std.lt_of_le_of_lt (Std.le_of_lt hmid) (hx y hy)
      rw [List.filter_eq_nil_iff.mpr, List.nil_append, List.filter_eq_self.mpr]
      · intro y hy
        rcases List.mem_cons.mp hy with rfl | hy
        · simpa using hmid
        · simpa using habove y hy
      · intro y hy
        rcases List.mem_cons.mp hy with rfl | hy
        · simpa using hmid
        · simpa using habove y hy
    · rw [List.filter_cons_of_pos (by simpa using hmid), List.filter_cons_of_neg (by simpa using hmid),
        List.cons_append, ih hlog]

theorem upTo_append_page (hle : start ≤ mid) : upTo key start mid log ++ page key size mid log =
      upTo key start (next key size mid log) log := by
  have hnext : mid ≤ next key size mid log := le_next mid log
  rw [page_eq_upTo hsorted]
  generalize next key size mid log = stop at hnext
  have hrange : (upTo key start stop log).Pairwise fun x y => key x < key y :=
    (hsorted.filter _).filter _
  rw [← filter_append_filter hrange mid]
  congr 1
  · unfold upTo
    rw [List.filter_filter]
    refine List.filter_congr fun x _ => ?_
    by_cases hmid : mid < key x
    · simp [hmid]
    · have hstop : ¬ stop < key x := fun h => hmid (Std.lt_of_le_of_lt hnext h)
      simp [hstop]
  · unfold upTo after
    rw [List.filter_filter, List.filter_filter, List.filter_filter]
    refine List.filter_congr fun x _ => ?_
    by_cases hmid : mid < key x
    · have hstart : start < key x := Std.lt_of_le_of_lt hle hmid
      simp [hmid, hstart]
    · simp [hmid]

-- Two logs with the same items after a start have the same pages from there.
omit [Std.IsLinearOrder α] in
theorem after_congr {log' : List γ} (hsorted' : log'.Pairwise fun x y => key x < key y)
    (h : ∀ x, start < key x → (x ∈ log ↔ x ∈ log')) : after key start log = after key start log' := by
  refine List.Pairwise.eq_of_mem_iff (hsorted.filter _) (hsorted'.filter _) fun x => ?_
  exact mem_after.trans ((and_congr_left (h x)).trans mem_after.symm)

-- The last items are those with few items after them.
theorem mem_drop_length_sub {x : γ} (n : Nat) :
    x ∈ log.drop (log.length - n) ↔ x ∈ log ∧ (after key (key x) log).length < n := by
  induction log with
  | nil => simp
  | cons y log ih =>
    obtain ⟨hy, hlog⟩ := List.pairwise_cons.mp hsorted
    by_cases hxy : x = y
    · subst hxy
      have habove : after key (key x) (x :: log) = log := by
        unfold after
        rw [List.filter_cons_of_neg (by simpa using Std.lt_irrefl), List.filter_eq_self]
        exact fun z hz => by simpa using hy z hz
      rw [habove, List.length_cons]
      by_cases hn : log.length < n
      · simp [hn, show log.length + 1 - n = 0 by omega]
      have hdrop : log.length + 1 - n = (log.length - n) + 1 := by omega
      rw [hdrop]
      refine iff_of_false (fun hmem => ?_) fun h => hn h.2
      exact Std.lt_irrefl (hy x (List.mem_of_mem_drop hmem))
    · have hmem : x ∈ y :: log ↔ x ∈ log := by simp [hxy]
      have habove : x ∈ log → after key (key x) (y :: log) = after key (key x) log := by
        intro hx
        have hlt : ¬ key x < key y := fun h => Std.lt_irrefl (Std.lt_trans h (hy x hx))
        exact List.filter_cons_of_neg (by simpa using hlt)
      have hbelow : x ∈ (y :: log).drop ((y :: log).length - n) ↔ x ∈ log.drop (log.length - n) := by
        rw [List.length_cons]
        by_cases hn : log.length < n
        · simp [hxy, show log.length + 1 - n = 0 by omega, show log.length - n = 0 by omega]
        · rw [show log.length + 1 - n = (log.length - n) + 1 by omega, List.drop_succ_cons]
      rw [hbelow, ih hlog, hmem]
      exact and_congr_right fun hx => by rw [habove hx]

end Ordered

end Paging
