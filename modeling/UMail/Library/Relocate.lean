import Std.Data.ExtTreeMap
import Mathlib.Data.List.Basic

namespace Relocate

open Std (ExtTreeMap)

variable {α β : Type} {cmp : α → α → Ordering}

structure Move (α β : Type) where
  source : α
  target : α
  value : β

-- Moves the entries one after the other. A later move can land on the key an
-- earlier one has left, or remove what an earlier one has put there.
def relocate (cmp : α → α → Ordering) [Std.TransCmp cmp] (moves : List (Move α β))
    (m : ExtTreeMap α β cmp) : ExtTreeMap α β cmp :=
  moves.foldl (fun m move => (m.insert move.target move.value).erase move.source) m

variable [Std.TransCmp cmp]

theorem relocate_cons (move : Move α β) (later : List (Move α β)) (m : ExtTreeMap α β cmp) :
    relocate cmp (move :: later) m =
      relocate cmp later ((m.insert move.target move.value).erase move.source) := rfl

variable [Std.LawfulEqCmp cmp] [DecidableEq α]

theorem getElem?_step (m : ExtTreeMap α β cmp) (move : Move α β) (x : α) :
    ((m.insert move.target move.value).erase move.source)[x]? =
      if move.source = x then none
      else if move.target = x then some move.value else m[x]? := by
  rw [ExtTreeMap.getElem?_erase, ExtTreeMap.getElem?_insert]
  simp only [Std.LawfulEqCmp.compare_eq_iff_eq]

-- What is at a key in the end: what was there if no move is about it, or else
-- what the last of those moves has left.
theorem getElem?_relocate_cases (moves : List (Move α β)) (m : ExtTreeMap α β cmp) (x : α) :
    ((∀ move ∈ moves, move.source ≠ x ∧ move.target ≠ x) ∧ (relocate cmp moves m)[x]? = m[x]?) ∨
      (∃ move ∈ moves, move.target = x ∧ (relocate cmp moves m)[x]? = some move.value) ∨
      ∃ move ∈ moves, move.source = x ∧ (relocate cmp moves m)[x]? = none := by
  induction moves generalizing m with
  | nil => exact .inl ⟨List.forall_mem_nil _, rfl⟩
  | cons move later ih =>
    rw [relocate_cons]
    rcases ih ((m.insert move.target move.value).erase move.source) with
      ⟨hfree, hsame⟩ | ⟨other, hmem, hrest⟩ | ⟨other, hmem, hrest⟩
    · rw [hsame, getElem?_step]
      split_ifs with hsource htarget
      · exact .inr (.inr ⟨move, List.mem_cons_self, hsource, rfl⟩)
      · exact .inr (.inl ⟨move, List.mem_cons_self, htarget, rfl⟩)
      · exact .inl ⟨List.forall_mem_cons.mpr ⟨⟨hsource, htarget⟩, hfree⟩, rfl⟩
    · exact .inr (.inl ⟨other, List.mem_cons_of_mem _ hmem, hrest⟩)
    · exact .inr (.inr ⟨other, List.mem_cons_of_mem _ hmem, hrest⟩)

end Relocate
