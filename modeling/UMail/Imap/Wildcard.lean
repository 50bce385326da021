import Mathlib.Computability.Language
import UMail.Imap.Rename
import UMail.Imap.SequenceSet

namespace UMail.Imap

open UMail.Storage

def percent : UInt8 := 37

section Cells

variable (name : Bytes) (c : UInt8) (cur : Nat → Bool)

-- The slice next after the loop, for a wildcard and for a literal byte.
def wildcardCell : Nat → Bool
  | 0 => cur 0
  | i + 1 => cur (i + 1) || (wildcardCell i && (c == star || name[i]? != some slash))

def literalCell : Nat → Bool
  | 0 => false
  | i + 1 => cur i && name[i]? == some c

def nextCell : Nat → Bool :=
  if c = star ∨ c = percent then wildcardCell name c cur else literalCell name c cur

end Cells

def imapWildcardMatch (name pattern : Bytes) : Bool :=
  pattern.foldl (fun cur c => nextCell name c cur) (· == 0) name.length

def pieces (c : UInt8) : Language UInt8 :=
  {piece | if c = star then True else if c = percent then slash ∉ piece else piece = [c]}

-- The names that can be cut along the pattern, one piece for each byte of it.
def splitsAlong (pattern : Bytes) : Language UInt8 := (pattern.map pieces).prod

theorem mem_pieces {c : UInt8} {piece : Bytes} : piece ∈ pieces c ↔
    if c = star then True else if c = percent then slash ∉ piece else piece = [c] := Iff.rfl

section Pieces

variable {names : Language UInt8} {text : Bytes} {b c : UInt8}

theorem mem_pieces_literal (hc : ¬ (c = star ∨ c = percent)) : text ∈ pieces c ↔ text = [c] := by
  obtain ⟨hstar, hpercent⟩ := not_or.mp hc
  rw [mem_pieces, if_neg hstar, if_neg hpercent]

theorem mem_mul_literal (hc : ¬ (c = star ∨ c = percent)) :
    text ++ [b] ∈ names * pieces c ↔ text ∈ names ∧ b = c := by
  simp only [Language.mem_mul, mem_pieces_literal hc]
  constructor
  · rintro ⟨before, hbefore, _, rfl, htext⟩
    obtain ⟨rfl, hlast⟩ := List.append_inj' htext rfl
    exact ⟨hbefore, (List.singleton_inj.mp hlast).symm⟩
  · rintro ⟨hbefore, rfl⟩
    exact ⟨text, hbefore, [b], rfl, rfl⟩

variable (hc : c = star ∨ c = percent)
include hc

theorem nil_mem_pieces : [] ∈ pieces c := by
  rcases hc with rfl | rfl <;> simp [mem_pieces]

theorem concat_mem_pieces : text ++ [b] ∈ pieces c ↔ text ∈ pieces c ∧ (c = star ∨ b ≠ slash) := by
  rw [mem_pieces, mem_pieces]
  by_cases hstar : c = star
  · simp [hstar]
  · simp [hc.resolve_left hstar, eq_comm, show ¬ percent = star by decide]

-- A wildcard ends at a byte in two ways: it takes nothing, or the byte is the
-- last one that it takes.
theorem mem_mul_wildcard : text ++ [b] ∈ names * pieces c ↔
    text ++ [b] ∈ names ∨ text ∈ names * pieces c ∧ (c = star ∨ b ≠ slash) := by
  simp only [Language.mem_mul]
  constructor
  · rintro ⟨before, hbefore, piece, hpiece, htext⟩
    rcases List.eq_nil_or_concat' piece with rfl | ⟨init, last, rfl⟩
    · rw [List.append_nil] at htext
      exact .inl (htext ▸ hbefore)
    rw [← List.append_assoc] at htext
    obtain ⟨rfl, hlast⟩ := List.append_inj' htext rfl
    obtain rfl := List.singleton_inj.mp hlast
    obtain ⟨hinit, htakes⟩ := (concat_mem_pieces hc).mp hpiece
    exact .inr ⟨⟨before, hbefore, init, hinit, rfl⟩, htakes⟩
  · rintro (htext | ⟨⟨before, hbefore, piece, hpiece, rfl⟩, htakes⟩)
    · exact ⟨_, htext, [], nil_mem_pieces hc, List.append_nil _⟩
    · refine ⟨before, hbefore, piece ++ [b], (concat_mem_pieces hc).mpr ⟨hpiece, htakes⟩, ?_⟩
      rw [List.append_assoc]

end Pieces

section Cells

variable {name : Bytes} {names : Language UInt8} {c : UInt8} {cur : Nat → Bool}

-- A cell is for a beginning of the name.
def CellsOf (name : Bytes) (names : Language UInt8) (cur : Nat → Bool) : Prop :=
  ∀ i ≤ name.length, cur i = true ↔ name.take i ∈ names

theorem cellsOf_nextCell (h : CellsOf name names cur) :
    CellsOf name (names * pieces c) (nextCell name c cur) := by
  intro i hi
  unfold nextCell
  split_ifs with hc
  · induction i with
    | zero =>
      refine (h 0 hi).trans ⟨fun hnil => ?_, fun hnil => ?_⟩
      · exact Language.append_mem_mul hnil (nil_mem_pieces hc)
      · obtain ⟨before, hbefore, piece, _, hnil⟩ := Language.mem_mul.mp hnil
        obtain ⟨rfl, rfl⟩ := List.append_eq_nil_iff.mp hnil
        exact hbefore
    | succ i ih =>
      rw [← List.take_append_getElem hi, mem_mul_wildcard hc, List.take_append_getElem hi,
        ← h _ hi, ← ih (Nat.le_of_lt hi)]
      simp [wildcardCell, List.getElem?_eq_getElem hi]
  · cases i with
    | zero => simp [literalCell, Language.mem_mul, mem_pieces_literal hc]
    | succ i =>
      rw [← List.take_append_getElem hi, mem_mul_literal hc, ← h i (Nat.le_of_lt hi)]
      simp [literalCell, List.getElem?_eq_getElem hi]

theorem cellsOf_foldl (pattern : Bytes) (h : CellsOf name names cur) :
    CellsOf name (pattern.foldl (fun names c => names * pieces c) names)
      (pattern.foldl (fun cur c => nextCell name c cur) cur) := by
  induction pattern generalizing names cur with
  | nil => exact h
  | cons c pattern ih => exact ih (cellsOf_nextCell h)

end Cells

-- A name is listed for a pattern exactly when it can be cut along the pattern.
theorem imapWildcardMatch_iff (name pattern : Bytes) :
    imapWildcardMatch name pattern = true ↔ name ∈ splitsAlong pattern := by
  have hstart : CellsOf name 1 (· == 0) := by
    intro i hi
    rw [Language.mem_one, beq_iff_eq, List.take_eq_nil_iff]
    exact ⟨.inl, fun h => h.elim id fun hname => by simpa [hname] using hi⟩
  have hlast := cellsOf_foldl pattern hstart name.length (Nat.le_refl _)
  rw [List.take_length] at hlast
  rw [splitsAlong, List.prod_eq_foldl, List.foldl_map]
  exact hlast

end UMail.Imap
