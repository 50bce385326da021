import Mathlib.Data.List.GetD
import Mathlib.Data.List.Nodup

-- Bytes written as letters that carry six bits each, with or without padding.
namespace Base64

-- A line break is no letter: it is skipped when letters are read.
structure Alphabet where
  letters : List UInt8
  length_eq : letters.length = 64
  nodup : letters.Nodup
  noCR : 13 ∉ letters
  noLF : 10 ∉ letters

-- base64.RawURLEncoding.
def rawURL : Alphabet where
  letters :=
    "ABCDEFGHIJKLMNOPQRSTUVWXYZabcdefghijklmnopqrstuvwxyz0123456789-_".toUTF8.data.toList
  length_eq := by decide
  nodup := by decide
  noCR := by decide
  noLF := by decide

def sextets : List UInt8 → List Nat
  | a :: b :: c :: s =>
    a.toNat / 4 :: (a.toNat % 4 * 16 + b.toNat / 16) :: (b.toNat % 16 * 4 + c.toNat / 64) ::
      c.toNat % 64 :: sextets s
  | [a, b] => [a.toNat / 4, a.toNat % 4 * 16 + b.toNat / 16, b.toNat % 16 * 4]
  | [a] => [a.toNat / 4, a.toNat % 4 * 16]
  | [] => []

-- A last group may be short. The bits that it leaves over must be zero.
def assemble : List Nat → Option (List UInt8)
  | w :: x :: y :: z :: s =>
    (assemble s).map
      ([.ofNat (w * 4 + x / 16), .ofNat (x % 16 * 16 + y / 4), .ofNat (y % 4 * 64 + z)] ++ ·)
  | [w, x, y] =>
    if y % 4 ≠ 0 then none else some [.ofNat (w * 4 + x / 16), .ofNat (x % 16 * 16 + y / 4)]
  | [w, x] => if x % 16 ≠ 0 then none else some [.ofNat (w * 4 + x / 16)]
  | [_] => none
  | [] => some []

def Alphabet.letter (alphabet : Alphabet) (i : Nat) : UInt8 := alphabet.letters.getD i 0

def Alphabet.value (alphabet : Alphabet) (c : UInt8) : Option Nat :=
  if c ∈ alphabet.letters then some (alphabet.letters.idxOf c) else none

def encodeToString (alphabet : Alphabet) (s : List UInt8) : List UInt8 :=
  (sextets s).map alphabet.letter

def decodeString (alphabet : Alphabet) (s : List UInt8) : Option (List UInt8) :=
  ((s.filter fun c => c ≠ 13 ∧ c ≠ 10).mapM alphabet.value).bind assemble

def lastTwo (w x : Nat) : List UInt8 := [.ofNat (w * 4 + x / 16)]

def lastThree (w x y : Nat) : List UInt8 := [.ofNat (w * 4 + x / 16), .ofNat (x % 16 * 16 + y / 4)]

-- Every group has four letters, the last one with padding in the place of what
-- is missing. Here the bits that are left over may be anything.
def decodeGroups (alphabet : Alphabet) (padding : UInt8) : List UInt8 → Option (List UInt8)
  | [] => some []
  | a :: b :: c :: d :: s =>
    (alphabet.value a).bind fun w => (alphabet.value b).bind fun x =>
      if d = padding ∧ s = [] then
        if c = padding then some (lastTwo w x) else (alphabet.value c).map (lastThree w x)
      else (alphabet.value c).bind fun y => (alphabet.value d).bind fun z =>
        (decodeGroups alphabet padding s).map
          ([.ofNat (w * 4 + x / 16), .ofNat (x % 16 * 16 + y / 4), .ofNat (y % 4 * 64 + z)] ++ ·)
  | _ => none

def encodePadded (alphabet : Alphabet) (padding : UInt8) (s : List UInt8) : List UInt8 :=
  let letters := encodeToString alphabet s
  letters ++ List.replicate ((4 - letters.length % 4) % 4) padding

def decodePadded (alphabet : Alphabet) (padding : UInt8) (s : List UInt8) : Option (List UInt8) :=
  decodeGroups alphabet padding (s.filter fun c => c ≠ 13 ∧ c ≠ 10)

def standard : Alphabet where
  letters := "ABCDEFGHIJKLMNOPQRSTUVWXYZabcdefghijklmnopqrstuvwxyz0123456789+/".toUTF8.data.toList
  length_eq := by decide
  nodup := by decide
  noCR := by decide
  noLF := by decide

section Groups

theorem sextets_lt (s : List UInt8) : ∀ i ∈ sextets s, i < 64 := by
  fun_induction sextets s with
  | case1 a b c s ih =>
    have := a.toNat_lt
    have := b.toNat_lt
    have := c.toNat_lt
    simp only [List.forall_mem_cons]
    exact ⟨by omega, by omega, by omega, by omega, ih⟩
  | case2 a b =>
    have := a.toNat_lt
    have := b.toNat_lt
    simp only [List.forall_mem_cons]
    exact ⟨by omega, by omega, by omega, by simp⟩
  | case3 a =>
    have := a.toNat_lt
    simp only [List.forall_mem_cons]
    exact ⟨by omega, by omega, by simp⟩
  | case4 => simp

theorem assemble_sextets (s : List UInt8) : assemble (sextets s) = some s := by
  fun_induction sextets s with
  | case1 a b c s ih =>
    have := a.toNat_lt
    have := b.toNat_lt
    have := c.toNat_lt
    simp only [assemble, ih, Option.map_some, List.cons_append, List.nil_append, Option.some.injEq,
      List.cons.injEq, and_true, UInt8.ofNat_eq_iff_mod_eq_toNat]
    omega
  | case2 a b =>
    have := a.toNat_lt
    have := b.toNat_lt
    rw [assemble, if_neg (by omega)]
    simp only [Option.some.injEq, List.cons.injEq, and_true, UInt8.ofNat_eq_iff_mod_eq_toNat]
    omega
  | case3 a =>
    have := a.toNat_lt
    rw [assemble, if_neg (by omega)]
    simp only [Option.some.injEq, List.cons.injEq, and_true, UInt8.ofNat_eq_iff_mod_eq_toNat]
    omega
  | case4 => rfl

-- Since no bit is left over, the groups are those of the bytes.
theorem sextets_of_assemble {i : List Nat} {s : List UInt8} (hlt : ∀ n ∈ i, n < 64)
    (h : assemble i = some s) : sextets s = i := by
  fun_induction assemble i generalizing s with
  | case1 w x y z i ih =>
    simp only [List.forall_mem_cons] at hlt
    obtain ⟨hw, hx, hy, hz, hrest⟩ := hlt
    obtain ⟨s', hs', rfl⟩ := Option.map_eq_some_iff.mp h
    have ha := UInt8.toNat_ofNat_of_lt' (show w * 4 + x / 16 < 256 by omega)
    have hb := UInt8.toNat_ofNat_of_lt' (show x % 16 * 16 + y / 4 < 256 by omega)
    have hc := UInt8.toNat_ofNat_of_lt' (show y % 4 * 64 + z < 256 by omega)
    simp only [List.cons_append, List.nil_append, sextets, hb, ih hrest hs', List.cons.injEq,
      and_true]
    omega
  | case2 w x y hy =>
    cases h
  | case3 w x y hy =>
    simp only [List.forall_mem_cons] at hlt
    cases h
    have ha := UInt8.toNat_ofNat_of_lt' (show w * 4 + x / 16 < 256 by omega)
    have hb := UInt8.toNat_ofNat_of_lt' (show x % 16 * 16 + y / 4 < 256 by omega)
    simp only [sextets, hb, List.cons.injEq, and_true]
    omega
  | case4 w x hx => cases h
  | case5 w x hx =>
    simp only [List.forall_mem_cons] at hlt
    cases h
    have ha := UInt8.toNat_ofNat_of_lt' (show w * 4 + x / 16 < 256 by omega)
    simp only [sextets, List.cons.injEq, and_true]
    omega
  | case6 => cases h
  | case7 =>
    cases h
    rfl

end Groups

section Letters

variable {alphabet : Alphabet} {c : UInt8} {i : Nat} {s t : List UInt8} {is : List Nat}

theorem letter_mem (h : i < 64) : alphabet.letter i ∈ alphabet.letters := by
  have hlength : i < alphabet.letters.length := by rwa [alphabet.length_eq]
  rw [Alphabet.letter, List.getD_eq_getElem _ _ hlength]
  exact List.getElem_mem hlength

theorem value_letter (h : i < 64) : alphabet.value (alphabet.letter i) = some i := by
  have hlength : i < alphabet.letters.length := by rwa [alphabet.length_eq]
  rw [Alphabet.value, if_pos (letter_mem h), Alphabet.letter, List.getD_eq_getElem _ _ hlength,
    alphabet.nodup.idxOf_getElem]

theorem letter_of_value (h : alphabet.value c = some i) : i < 64 ∧ alphabet.letter i = c := by
  unfold Alphabet.value at h
  split_ifs at h with hmem
  cases h
  have hlt := List.idxOf_lt_length_of_mem hmem
  refine ⟨alphabet.length_eq ▸ hlt, ?_⟩
  rw [Alphabet.letter, List.getD_eq_getElem _ _ hlt, List.getElem_idxOf]

theorem mem_letters_of_encode (h : c ∈ encodeToString alphabet s) : c ∈ alphabet.letters := by
  obtain ⟨i, hi, rfl⟩ := List.mem_map.mp h
  exact letter_mem (sextets_lt s i hi)

theorem filter_encode :
    (encodeToString alphabet s).filter (fun c => c ≠ 13 ∧ c ≠ 10) = encodeToString alphabet s := by
  refine List.filter_eq_self.mpr fun c hc => ?_
  have hmem := mem_letters_of_encode hc
  simp only [decide_eq_true_eq]
  exact ⟨fun h => alphabet.noCR (h ▸ hmem), fun h => alphabet.noLF (h ▸ hmem)⟩

theorem mapM_value_letters (h : ∀ i ∈ is, i < 64) :
    (is.map alphabet.letter).mapM alphabet.value = some is := by
  induction is with
  | nil => rfl
  | cons i is ih =>
    obtain ⟨hi, his⟩ := List.forall_mem_cons.mp h
    simp [value_letter hi, ih his]

theorem decodeString_encodeToString : decodeString alphabet (encodeToString alphabet s) = some s := by
  rw [decodeString, filter_encode, encodeToString, mapM_value_letters (sextets_lt s), Option.bind_some,
    assemble_sextets]

theorem letters_of_mapM_value (h : s.mapM alphabet.value = some is) :
    (∀ i ∈ is, i < 64) ∧ is.map alphabet.letter = s := by
  induction s generalizing is with
  | nil =>
    cases h
    exact ⟨by simp, rfl⟩
  | cons c s ih =>
    rw [List.mapM_cons] at h
    obtain ⟨i, hi, h⟩ := Option.bind_eq_some_iff.mp h
    obtain ⟨is', his', h⟩ := Option.bind_eq_some_iff.mp h
    cases h
    obtain ⟨hlt, hmap⟩ := ih his'
    obtain ⟨hi, hletter⟩ := letter_of_value hi
    exact ⟨List.forall_mem_cons.mpr ⟨hi, hlt⟩, by rw [List.map_cons, hletter, hmap]⟩

-- But for line breaks, there is one way to write bytes.
theorem encodeToString_of_decodeString (h : decodeString alphabet s = some t) :
    encodeToString alphabet t = s.filter fun c => c ≠ 13 ∧ c ≠ 10 := by
  obtain ⟨is, his, hassemble⟩ := Option.bind_eq_some_iff.mp h
  obtain ⟨hlt, hmap⟩ := letters_of_mapM_value his
  rw [encodeToString, sextets_of_assemble hlt hassemble, hmap]

end Letters

end Base64
