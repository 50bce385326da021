import UMail.Library.Utf8
import Mathlib.Data.List.DropRight

-- A string of the source: any bytes. Where it is read as characters, a byte that
-- belongs to none counts as a replacement character.
abbrev Text := List UInt8

namespace Text

open Utf8 (Scalar runes encodeRune encodeRunes validText)

-- The encodings of the white space characters.
def spaces : List Text :=
  [[9], [10], [11], [12], [13], [32], [194, 133], [194, 160], [225, 154, 128]] ++
    ([128, 129, 130, 131, 132, 133, 134, 135, 136, 137, 138, 168, 169, 175].map
      fun c => [226, 128, c]) ++ [[226, 129, 159], [227, 128, 128]]

-- Removes any of the given words from the front, as often as there is one. The
-- fuel bounds the number of rounds.
def trimFront (words : List Text) : Nat → Text → Text
  | 0, s => s
  | fuel + 1, s =>
    match words.find? (·.isPrefixOf s) with
    | some word => trimFront words fuel (s.drop word.length)
    | none => s

-- strings.TrimSpace.
def trimSpace (s : Text) : Text :=
  let s := trimFront spaces s.length s
  (trimFront (spaces.map List.reverse) s.length s.reverse).reverse

-- strings.Fields. The fuel bounds the number of characters.
def fieldsLoop : Nat → Text → Text → List Text
  | 0, word, _ | _ + 1, word, [] => if word = [] then [] else [word]
  | fuel + 1, word, c :: s =>
    match spaces.find? (·.isPrefixOf (c :: s)) with
    | some space => (if word = [] then [] else [word]) ++ fieldsLoop fuel [] ((c :: s).drop space.length)
    | none => fieldsLoop fuel (word ++ [c]) s

def fields (s : Text) : List Text := fieldsLoop (s.length + 1) [] s

def isDigit (c : UInt8) : Bool := 48 ≤ c && c ≤ 57

def Caseless (c : Nat) : Prop := c < 128 ∧ ¬ (65 ≤ c ∧ c ≤ 90) ∧ ¬ (97 ≤ c ∧ c ≤ 122)

instance (c : Nat) : Decidable (Caseless c) :=
  inferInstanceAs (Decidable (c < 128 ∧ ¬ (65 ≤ c ∧ c ≤ 90) ∧ ¬ (97 ≤ c ∧ c ≤ 122)))

-- Simple case mappings, from one character to one: the lower case, and one
-- character for all those that differ in case only. The two need not agree:
-- the lower case of a letter can be in another class than the letter.
structure CaseTable where
  lower : Nat → Nat
  fold : Nat → Nat
  scalar_lower : ∀ {c}, Scalar c → Scalar (lower c)
  lower_eq_iff : ∀ {c d}, Caseless c → (lower d = c ↔ d = c)
  fold_eq_iff : ∀ {c d}, Caseless c → (fold d = fold c ↔ d = c)

-- strings.ToLower.
def toLower (table : CaseTable) (s : Text) : Text := encodeRunes ((runes s).map table.lower)

-- strings.EqualFold.
def equalFold (table : CaseTable) (s t : Text) : Bool :=
  (runes s).map table.fold == (runes t).map table.fold

def trimRight (c : UInt8) (s : Text) : Text := s.rdropWhile (· = c)

def cutFirst (separator : UInt8) (s : Text) : Option Text :=
  if separator ∈ s then some (s.takeWhile (· ≠ separator)) else none

section Trim

-- A text made of some of the words.
def MadeOf (words : List Text) (s : Text) : Prop :=
  ∃ parts : List Text, (∀ part ∈ parts, part ∈ words) ∧ s = parts.flatten

variable {words : List Text} {before after s t core : Text} {fuel : Nat}

theorem MadeOf.nil : MadeOf words [] := ⟨[], nofun, rfl⟩

theorem MadeOf.reverse (h : MadeOf words s) : MadeOf (words.map List.reverse) s.reverse := by
  obtain ⟨parts, hparts, rfl⟩ := h
  refine ⟨(parts.map List.reverse).reverse, fun part hpart => ?_, List.reverse_flatten⟩
  obtain ⟨word, hword, rfl⟩ := List.mem_map.mp (List.mem_reverse.mp hpart)
  exact List.mem_map_of_mem (hparts word hword)

theorem madeOf_blanks (h : ∀ c ∈ s, c = 32 ∨ c = 9) : MadeOf spaces s := by
  refine ⟨s.map ([·]), fun part hpart => ?_, (List.flatMap_singleton' s).symm⟩
  obtain ⟨c, hc, rfl⟩ := List.mem_map.mp hpart
  clear hpart
  rcases h c hc with rfl | rfl
  · exact (by decide : [32] ∈ spaces)
  · exact (by decide : [9] ∈ spaces)

theorem trimFront_split (words : List Text) (fuel : Nat) (s : Text) :
    ∃ before, MadeOf words before ∧ s = before ++ trimFront words fuel s := by
  induction fuel generalizing s with
  | zero => exact ⟨[], .nil, rfl⟩
  | succ fuel ih =>
    rw [trimFront]
    cases hfind : words.find? (·.isPrefixOf s) with
    | none => exact ⟨[], .nil, rfl⟩
    | some word =>
      have hstarts := List.find?_some hfind
      obtain ⟨tail, rfl⟩ := List.isPrefixOf_iff_prefix.mp hstarts
      obtain ⟨before, ⟨parts, hparts, rfl⟩, hsplit⟩ := ih tail
      refine ⟨word ++ parts.flatten, ⟨word :: parts, ?_, rfl⟩, ?_⟩
      · exact List.forall_mem_cons.mpr ⟨List.mem_of_find?_eq_some hfind, hparts⟩
      · dsimp only
        rw [List.drop_left, List.append_assoc, ← hsplit]

-- Words none of which starts another are removed one by one.
theorem trimFront_append (hfree : ∀ u ∈ words, u ≠ [] ∧ ∀ v ∈ words, u <+: v → u = v)
    (hbefore : MadeOf words before) (ht : ∀ word ∈ words, ¬ word <+: t)
    (hfuel : before.length ≤ fuel) : trimFront words fuel (before ++ t) = t := by
  obtain ⟨parts, hparts, rfl⟩ := hbefore
  induction parts generalizing fuel with
  | nil =>
    cases fuel with
    | zero => rfl
    | succ fuel =>
      have hnone : words.find? (·.isPrefixOf t) = none :=
        List.find?_eq_none.mpr fun word hword hstarts =>
          ht word hword (List.isPrefixOf_iff_prefix.mp hstarts)
      rw [List.flatten_nil, List.nil_append, trimFront, hnone]
  | cons word parts ih =>
    obtain ⟨hword, hrest⟩ := List.forall_mem_cons.mp hparts
    rw [List.flatten_cons, List.length_append] at hfuel
    have hpos : 0 < word.length := List.length_pos_of_ne_nil (hfree word hword).1
    obtain ⟨fuel, rfl⟩ : ∃ n, fuel = n + 1 := ⟨fuel - 1, by omega⟩
    rw [List.flatten_cons, List.append_assoc, trimFront]
    cases hfound : words.find? (·.isPrefixOf (word ++ (parts.flatten ++ t))) with
    | none =>
      exact absurd (List.isPrefixOf_iff_prefix.mpr (List.prefix_append ..))
        (List.find?_eq_none.mp hfound word hword)
    | some other =>
      have hstarts := List.find?_some hfound
      have hother := List.isPrefixOf_iff_prefix.mp hstarts
      have hmem := List.mem_of_find?_eq_some hfound
      have heq : other = word := by
        rcases List.prefix_or_prefix_of_prefix hother (List.prefix_append word _) with h | h
        · exact (hfree other hmem).2 word hword h
        · exact ((hfree word hword).2 other hmem h).symm
      subst heq
      dsimp only
      rw [List.drop_left]
      exact ih hrest (by omega)

theorem trimSpace_split (s : Text) :
    ∃ before after, MadeOf spaces before ∧ MadeOf spaces after ∧ s = before ++ trimSpace s ++ after := by
  obtain ⟨before, hbefore, hs⟩ := trimFront_split spaces s.length s
  obtain ⟨after, hafter, ht⟩ := trimFront_split (spaces.map List.reverse)
    (trimFront spaces s.length s).length (trimFront spaces s.length s).reverse
  refine ⟨before, after.reverse, hbefore, ?_, ?_⟩
  · have hagain := hafter.reverse
    rwa [List.map_map, List.reverse_involutive.comp_self, List.map_id] at hagain
  · rw [List.append_assoc, trimSpace, ← List.reverse_append, ← ht, List.reverse_reverse, ← hs]

-- A text that neither starts nor ends with white space is what is left.
theorem trimSpace_append (hbefore : MadeOf spaces before) (hafter : MadeOf spaces after)
    (hfront : ∀ space ∈ spaces, ¬ space <+: core) (hback : ∀ space ∈ spaces, ¬ space <:+ core) :
    trimSpace (before ++ core ++ after) = core := by
  have hfree : ∀ u ∈ spaces, u ≠ [] ∧ ∀ v ∈ spaces, u <+: v → u = v := by decide
  have hfree' : ∀ u ∈ spaces.map List.reverse, u ≠ [] ∧
      ∀ v ∈ spaces.map List.reverse, u <+: v → u = v := by decide
  obtain rfl | hcore := eq_or_ne core []
  · obtain ⟨parts, hparts, rfl⟩ := hbefore
    obtain ⟨others, hothers, rfl⟩ := hafter
    have hall : MadeOf spaces (parts.flatten ++ others.flatten) :=
      ⟨parts ++ others, List.forall_mem_append.mpr ⟨hparts, hothers⟩, by simp⟩
    rw [List.append_nil, trimSpace, ← List.append_nil (_ ++ _), trimFront_append hfree hall hfront (by simp)]
    rfl
  have hends : ∀ space ∈ spaces, ¬ space <+: core ++ after := by
    rintro space hspace ⟨rest, hsplit⟩
    obtain ⟨more, rfl, -⟩ | ⟨_ | ⟨c, more⟩, rfl, hmore⟩ := List.append_eq_append_iff.mp hsplit
    · exact hfront space hspace (List.prefix_append ..)
    · rw [List.append_nil] at hspace
      exact hfront core hspace List.prefix_rfl
    -- No white space goes on with a byte that starts one.
    have hapart : ∀ u ∈ spaces, ∀ v ∈ spaces, v.head?.all (!u.tail.contains ·) = true := by decide
    obtain ⟨_ | ⟨v, parts⟩, hparts, rfl⟩ := hafter
    · cases hmore
    have hv := hparts v List.mem_cons_self
    obtain ⟨d, v, rfl⟩ := List.exists_cons_of_ne_nil (hfree v hv).1
    obtain ⟨e, core, rfl⟩ := List.exists_cons_of_ne_nil hcore
    obtain ⟨rfl, -⟩ := List.cons_eq_cons.mp hmore
    exact absurd (hapart _ hspace _ hv) (by simp)
  have hback' : ∀ word ∈ spaces.map List.reverse, ¬ word <+: core.reverse := by
    intro word hword hstarts
    obtain ⟨space, hspace, rfl⟩ := List.mem_map.mp hword
    exact hback space hspace (List.reverse_prefix.mp hstarts)
  unfold trimSpace
  dsimp only
  rw [List.append_assoc, trimFront_append hfree hbefore hends (by simp), List.reverse_append,
    trimFront_append hfree' hafter.reverse hback' (by simp), List.reverse_reverse]

theorem not_space_start (h : ∀ c ∈ core.head?, 32 < c ∧ c < 127) :
    ∀ space ∈ spaces, ¬ space <+: core := by
  have hheads : ∀ space ∈ spaces, ∃ c ∈ space.head?, ¬ (32 < c ∧ c < 127) := by decide
  rintro space hspace ⟨rest, rfl⟩
  obtain ⟨c, hc, hnot⟩ := hheads space hspace
  exact hnot (h c (by rw [List.head?_append, hc]; rfl))

theorem not_space_end (h : ∀ c ∈ core.getLast?, 32 < c ∧ c < 127) :
    ∀ space ∈ spaces, ¬ space <:+ core := by
  have hlasts : ∀ space ∈ spaces, ∃ c ∈ space.getLast?, ¬ (32 < c ∧ c < 127) := by decide
  rintro space hspace ⟨rest, rfl⟩
  obtain ⟨c, hc, hnot⟩ := hlasts space hspace
  exact hnot (h c (by rw [List.getLast?_append, hc]; rfl))

end Trim

section Cases

variable {table : CaseTable} {c : UInt8} {s s' t t' : Text}

theorem runes_toLower : runes (toLower table s) = (runes s).map table.lower := by
  refine Utf8.runes_encodeRunes fun r hr => ?_
  obtain ⟨d, hd, rfl⟩ := List.mem_map.mp hr
  exact table.scalar_lower (Utf8.scalar_of_mem_runes hd)

theorem notMem_toLower (hc : Caseless c.toNat) (h : c ∉ s) : c ∉ toLower table s := by
  rw [← Utf8.mem_runes hc.1, runes_toLower, List.mem_map]
  rintro ⟨d, hd, heq⟩
  rw [(table.lower_eq_iff hc).mp heq, Utf8.mem_runes hc.1] at hd
  exact h hd

theorem notMem_trimRight {d : UInt8} (h : c ∉ s) : c ∉ trimRight d s :=
  fun hmem => h ((List.rdropWhile_prefix _ _).subset hmem)

theorem equalFold_iff :
    equalFold table s t = true ↔ (runes s).map table.fold = (runes t).map table.fold := beq_iff_eq

theorem equalFold_comm (s t : Text) : equalFold table s t = equalFold table t s := by
  rw [Bool.eq_iff_iff, equalFold_iff, equalFold_iff]
  exact eq_comm

theorem equalFold_append (hc : c.toNat < 128) (hs : equalFold table s s' = true)
    (ht : equalFold table t t' = true) : equalFold table (s ++ c :: t) (s' ++ c :: t') = true := by
  rw [equalFold_iff] at hs ht ⊢
  simp only [Utf8.runes_separator hc, List.map_append, List.map_cons, hs, ht]

-- What has no case is in both of two texts that differ in case only.
theorem notMem_of_equalFold (hc : Caseless c.toNat) (h : equalFold table s t = true)
    (hs : c ∉ s) : c ∉ t := by
  intro ht
  have hmem : table.fold c.toNat ∈ (runes s).map table.fold := by
    rw [equalFold_iff.mp h]
    exact List.mem_map_of_mem ((Utf8.mem_runes hc.1).mpr ht)
  obtain ⟨d, hd, hfold⟩ := List.mem_map.mp hmem
  rw [(table.fold_eq_iff hc).mp hfold, Utf8.mem_runes hc.1] at hd
  exact hs hd

-- A beginning, taken by its length, that ends in a separator but for case is
-- cut there.
theorem take_separator (hc : Caseless c.toNat) {n : Nat} {name : Text}
    (h : equalFold table (s.take n) (name ++ [c]) = true) :
    ∃ head tail, s = head ++ c :: tail ∧ equalFold table head name = true := by
  rw [equalFold_iff, Utf8.runes_separator hc.1, List.map_append, List.map_eq_append_iff] at h
  obtain ⟨before, last, hsplit, hbefore, hlast⟩ := h
  rw [List.map_cons, Utf8.runes_eq_nil.mpr rfl, List.map_nil, List.map_eq_singleton_iff] at hlast
  obtain ⟨d, rfl, hd⟩ := hlast
  rw [table.fold_eq_iff hc] at hd
  subst hd
  rcases hcut : Separator.cutLast c (s.take n) with _ | ⟨head, tail⟩
  · refine absurd ((Utf8.mem_runes hc.1).mp ?_) (Separator.cutLast_eq_none hcut)
    rw [hsplit]
    simp
  -- Behind the last separator there is nothing.
  obtain ⟨htake, htail⟩ := Separator.cutLast_eq_some hcut
  rw [htake, Utf8.runes_separator hc.1] at hsplit
  rw [← Utf8.mem_runes hc.1] at htail
  obtain ⟨rfl, -⟩ := Separator.append_separator_inj_last htail List.not_mem_nil hsplit
  exact ⟨head, tail ++ s.drop n, by rw [← List.cons_append, ← List.append_assoc, ← htake,
    List.take_append_drop], equalFold_iff.mpr hbefore⟩

end Cases

def dottedI : Nat := 0x130

-- The letters of ASCII, and the capital I with a dot. Its lower case is the i of
-- ASCII, but it is in a class of its own.
def latin : CaseTable where
  lower c := if c = dottedI then 105 else if 65 ≤ c ∧ c ≤ 90 then c + 32 else c
  fold c := if 65 ≤ c ∧ c ≤ 90 then c + 32 else c
  scalar_lower {c} hc := by
    unfold Scalar at hc ⊢
    split_ifs <;> omega
  lower_eq_iff {c d} hc := by
    unfold Caseless at hc
    unfold dottedI
    split_ifs <;> omega
  fold_eq_iff {c d} hc := by
    unfold Caseless at hc
    split_ifs <;> omega

end Text
