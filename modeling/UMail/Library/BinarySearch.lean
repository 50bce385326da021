import Mathlib.Logic.Basic

namespace BinarySearch

variable {n : Nat} {f : Nat → Bool}

-- Halves the interval from i to j. The fuel bounds the length of the interval.
def searchLoop (f : Nat → Bool) : Nat → Nat → Nat → Nat
  | 0, i, _ => i
  | fuel + 1, i, j =>
    if i < j then
      let h := (i + j) / 2
      if f h then searchLoop f fuel i h else searchLoop f fuel (h + 1) j
    else i

def search (n : Nat) (f : Nat → Bool) : Nat := searchLoop f n 0 n

-- Everything before i fails the predicate, and j, when it is a position,
-- satisfies it. Each round keeps both and shortens the interval.
theorem searchLoop_spec
    (hmono : ∀ i j, i ≤ j → j < n → f i = true → f j = true) (fuel i j : Nat) (hij : i ≤ j)
    (hj : j ≤ n) (hfuel : j - i ≤ fuel) (hlow : ∀ k, k < i → f k = false)
    (hhigh : j < n → f j = true) :
    searchLoop f fuel i j ≤ n ∧ (∀ k, k < searchLoop f fuel i j → f k = false) ∧
      (searchLoop f fuel i j < n → f (searchLoop f fuel i j) = true) := by
  induction fuel generalizing i j with
  | zero =>
    obtain rfl : i = j := by omega
    exact ⟨hj, hlow, hhigh⟩
  | succ fuel ih =>
    unfold searchLoop
    split
    · rename_i hlt
      dsimp only
      split
      · rename_i hf
        exact ih i ((i + j) / 2) (by omega) (by omega) (by omega) hlow (fun _ => hf)
      rename_i hf
      refine ih ((i + j) / 2 + 1) j (by omega) hj (by omega) (fun k hk => ?_) hhigh
      cases hfk : f k with
      | false => rfl
      | true => exact False.elim (hf (hmono k ((i + j) / 2) (by omega) (by omega) hfk))
    · obtain rfl : i = j := by omega
      exact ⟨hj, hlow, hhigh⟩

-- On a predicate that stays true once it is, the search finds the first
-- position at which it holds, or n when there is none.
theorem search_spec (hmono : ∀ i j, i ≤ j → j < n → f i = true → f j = true) :
    search n f ≤ n ∧ (∀ k, k < search n f → f k = false) ∧
      (search n f < n → f (search n f) = true) :=
  searchLoop_spec hmono n 0 n (Nat.zero_le n) (Nat.le_refl n) (by omega)
    (fun k hk => absurd hk (Nat.not_lt_zero k)) (fun h => absurd h (Nat.lt_irrefl n))

end BinarySearch
