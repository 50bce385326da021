import Mathlib.Logic.Basic
import Mathlib.Data.Nat.Basic
import Mathlib.Data.Set.Basic

-- Ways along a partial function from a place to the next one.
namespace Chain

variable {α : Type} {next next' : α → Option α} {a b c : α} {m n : Nat}

def Reaches (next : α → Option α) : Nat → α → α → Prop
  | 0, a, b => a = b
  | n + 1, a, b => ∃ c, next a = some c ∧ Reaches next n c b

def Ends (next : α → Option α) : Nat → α → Prop
  | 0, a => next a = none
  | n + 1, a => ∀ c, next a = some c → Ends next n c

theorem Reaches.trans (h : Reaches next m a b) (h' : Reaches next n b c) :
    Reaches next (m + n) a c := by
  induction m generalizing a with
  | zero =>
    cases h
    rwa [Nat.zero_add]
  | succ m ih =>
    obtain ⟨d, hd, hrest⟩ := h
    rw [Nat.succ_add]
    exact ⟨d, hd, ih hrest⟩

theorem Reaches.single (h : next a = some b) : Reaches next 1 a b := ⟨b, h, rfl⟩

theorem Ends.mono (h : Ends next m a) (hle : m ≤ n) : Ends next n a := by
  induction m generalizing a n with
  | zero =>
    cases n with
    | zero => exact h
    | succ n =>
      intro c hc
      rw [show next a = none from h] at hc
      cases hc
  | succ m ih =>
    cases n with
    | zero => omega
    | succ n => exact fun c hc => ih (h c hc) (by omega)

-- Where there are fewer steps to take, a way is not longer.
theorem Ends.of_subset (hsub : ∀ a b, next' a = some b → next a = some b) (h : Ends next n a) :
    Ends next' n a := by
  induction n generalizing a with
  | zero =>
    rcases hnext : next' a with _ | b
    · exact hnext
    have hold := hsub a b hnext
    rw [show next a = none from h] at hold
    cases hold
  | succ n ih => exact fun c hc => ih (h c (hsub a c hc))

theorem Ends.after (h : Ends next n a) (hreach : Reaches next m a b) :
    m ≤ n ∧ Ends next (n - m) b := by
  induction m generalizing a n with
  | zero =>
    cases hreach
    exact ⟨Nat.zero_le n, h⟩
  | succ m ih =>
    obtain ⟨c, hc, hrest⟩ := hreach
    cases n with
    | zero =>
      rw [show next a = none from h] at hc
      cases hc
    | succ n =>
      obtain ⟨hle, hends⟩ := ih (h c hc) hrest
      exact ⟨by omega, by rwa [Nat.succ_sub_succ]⟩

-- A way that ends does not come back.
theorem Ends.not_reaches_self (h : Ends next n a) (hpos : 0 < m) : ¬ Reaches next m a a := by
  intro hreach
  induction n using Nat.strong_induction_on with
  | h n ih =>
    obtain ⟨hle, hends⟩ := h.after hreach
    exact ih (n - m) (by omega) hends

theorem Ends.exists_last (h : Ends next n a) :
    ∃ m, m ≤ n ∧ Ends next m a ∧ ∃ b, Reaches next m a b := by
  induction n generalizing a with
  | zero => exact ⟨0, le_rfl, h, a, rfl⟩
  | succ n ih =>
    rcases hnext : next a with _ | c
    · exact ⟨0, Nat.zero_le _, hnext, a, rfl⟩
    obtain ⟨m, hle, hends, b, hb⟩ := ih (h c hnext)
    refine ⟨m + 1, by omega, ?_, b, c, hnext, hb⟩
    intro d hd
    cases hnext.symm.trans hd
    exact hends

section Splice

variable {changed : Set α} {target : α} {limit : Nat}

-- A way that meets no changed place is as it was.
theorem Ends.of_avoids (hsame : ∀ a, a ∉ changed → next' a = next a) (h : Ends next n a)
    (havoid : ∀ i b, Reaches next i a b → b ∉ changed) : Ends next' n a := by
  induction n generalizing a with
  | zero => exact (hsame a (havoid 0 a rfl)).trans h
  | succ n ih =>
    intro c hc
    rw [hsame a (havoid 0 a rfl)] at hc
    exact ih (h c hc) fun i b hb => havoid (i + 1) b ⟨c, hc, hb⟩

theorem ends_changed (htarget : ∀ a ∈ changed, ∀ b, next' a = some b → b = target)
    (hafter : Ends next' m target) (ha : a ∈ changed) (hle : 0 + 1 + m ≤ limit) :
    Ends next' limit a := by
  obtain ⟨rest, rfl⟩ : ∃ rest, limit = rest + 1 := ⟨limit - 1, by omega⟩
  intro c hc
  rw [htarget a ha c hc]
  exact hafter.mono (by omega)

-- The changed places lead to one place, and from there on nothing has changed.
-- Then a way has the steps to the first of them, one more, and the steps from
-- there.
theorem Ends.splice (hsame : ∀ a, a ∉ changed → next' a = next a)
    (htarget : ∀ a ∈ changed, ∀ b, next' a = some b → b = target) (hafter : Ends next' m target)
    (h : Ends next n a) (hn : n ≤ limit)
    (hlimit : ∀ i b, Reaches next i a b → b ∈ changed → i + 1 + m ≤ limit) :
    Ends next' limit a := by
  induction n generalizing a limit with
  | zero =>
    by_cases ha : a ∈ changed
    · exact ends_changed htarget hafter ha (hlimit 0 a rfl ha)
    · have hend : Ends next' 0 a := (hsame a ha).trans h
      exact hend.mono (Nat.zero_le limit)
  | succ n ih =>
    by_cases ha : a ∈ changed
    · exact ends_changed htarget hafter ha (hlimit 0 a rfl ha)
    obtain ⟨rest, rfl⟩ : ∃ rest, limit = rest + 1 := ⟨limit - 1, by omega⟩
    intro c hc
    rw [hsame a ha] at hc
    refine ih (h c hc) (by omega) fun i b hb hchanged => ?_
    have hstep := hlimit (i + 1) b ⟨c, hc, hb⟩ hchanged
    omega

end Splice

end Chain
