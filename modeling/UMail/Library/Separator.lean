import Mathlib.Data.List.Basic
import Mathlib.Data.List.Count

namespace Separator

variable {α : Type} {separator : α} {head head' tail tail' : List α}

theorem append_separator_inj (hn : separator ∉ head) (hn' : separator ∉ head')
    (h : head ++ separator :: tail = head' ++ separator :: tail') : head = head' ∧ tail = tail' := by
  induction head generalizing head' with
  | nil =>
    cases head' with
    | nil => simpa using h
    | cons d head' =>
      simp only [List.nil_append, List.cons_append, List.cons.injEq] at h
      exact False.elim (hn' (h.1 ▸ List.mem_cons_self))
  | cons c head ih =>
    cases head' with
    | nil =>
      simp only [List.nil_append, List.cons_append, List.cons.injEq] at h
      exact False.elim (hn (h.1 ▸ List.mem_cons_self))
    | cons d head' =>
      simp only [List.cons_append, List.cons.injEq] at h
      obtain ⟨rfl, ht⟩ := h
      obtain ⟨rfl, hr⟩ := ih (fun hm => hn (List.mem_cons_of_mem _ hm))
        (fun hm => hn' (List.mem_cons_of_mem _ hm)) ht
      exact ⟨rfl, hr⟩

-- Where there is one separator only, there is one way to cut.
theorem append_separator_unique [DecidableEq α] (hhead : separator ∉ head') (htail : separator ∉ tail')
    (h : head ++ separator :: tail = head' ++ separator :: tail') : head = head' ∧ tail = tail' := by
  have hcount := congrArg (List.count separator) h
  simp only [List.count_append, List.count_cons_self, List.count_eq_zero_of_not_mem hhead,
    List.count_eq_zero_of_not_mem htail] at hcount
  have hhead' : separator ∉ head := List.count_eq_zero.mp (by omega)
  exact append_separator_inj hhead' hhead h

-- A beginning without a separator ends before the first one.
theorem head_of_notMem (hn : separator ∉ head') (h : head' ++ tail' = head ++ separator :: tail) :
    ∃ middle, head = head' ++ middle ∧ tail' = middle ++ separator :: tail := by
  rcases List.append_eq_append_iff.mp h with ⟨middle, hhead, htail⟩ | ⟨middle, hhead, htail⟩
  · exact ⟨middle, hhead, htail⟩
  cases middle with
  | nil => exact ⟨[], by simpa using hhead.symm, by simpa using htail.symm⟩
  | cons c middle =>
    obtain ⟨rfl, -⟩ := List.cons.inj htail
    exact absurd (hhead ▸ List.mem_append_right head List.mem_cons_self) hn

theorem append_separator_inj_last (hn : separator ∉ tail) (hn' : separator ∉ tail')
    (h : head ++ separator :: tail = head' ++ separator :: tail') : head = head' ∧ tail = tail' := by
  have hreverse := congrArg List.reverse h
  simp only [List.reverse_append, List.reverse_cons, List.append_assoc]
    at hreverse
  obtain ⟨htail, hhead⟩ := append_separator_inj (by simpa using hn) (by simpa using hn') hreverse
  exact ⟨List.reverse_injective hhead, List.reverse_injective htail⟩

-- The parts before and after the last separator.
def cutLast [DecidableEq α] (separator : α) : List α → Option (List α × List α)
  | [] => none
  | c :: s => match cutLast separator s with
    | some (before, after) => some (c :: before, after)
    | none => if c = separator then some ([], s) else none

theorem cutLast_eq_none [DecidableEq α] {s : List α} (h : cutLast separator s = none) :
    separator ∉ s := by
  induction s with
  | nil => exact List.not_mem_nil
  | cons c s ih =>
    unfold cutLast at h
    cases hrest : cutLast separator s with
    | some parts => simp [hrest] at h
    | none =>
      simp only [hrest, ite_eq_right_iff, reduceCtorEq] at h
      rw [List.mem_cons, not_or]
      exact ⟨Ne.symm h, ih hrest⟩

theorem cutLast_eq_some [DecidableEq α] {s before after : List α}
    (h : cutLast separator s = some (before, after)) :
    s = before ++ separator :: after ∧ separator ∉ after := by
  induction s generalizing before with
  | nil => cases h
  | cons c s ih =>
    unfold cutLast at h
    cases hrest : cutLast separator s with
    | some parts =>
      simp only [hrest] at h
      obtain ⟨rfl, rfl⟩ := h
      obtain ⟨hs, hafter⟩ := ih hrest
      exact ⟨congrArg (c :: ·) hs, hafter⟩
    | none =>
      simp only [hrest] at h
      split_ifs at h with hc
      cases h
      exact ⟨by rw [hc, List.nil_append], cutLast_eq_none hrest⟩

theorem cutLast_append [DecidableEq α] (before : List α) {after : List α} (h : separator ∉ after) :
    cutLast separator (before ++ separator :: after) = some (before, after) := by
  rcases hcut : cutLast separator (before ++ separator :: after) with _ | parts
  · exact absurd (List.mem_append_right before List.mem_cons_self) (cutLast_eq_none hcut)
  obtain ⟨hsplit, hafter⟩ := cutLast_eq_some hcut
  obtain ⟨hhead, htail⟩ := append_separator_inj_last h hafter hsplit
  rw [hhead, htail]

end Separator
