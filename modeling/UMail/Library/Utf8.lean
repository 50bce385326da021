import UMail.Library.Separator

-- Text in UTF-8.
namespace Utf8

-- The number of bytes of an encoded character, by its first byte. Zero stands
-- for a byte that starts none.
def encodedLength (c : UInt8) : Nat :=
  if c < 0x80 then 1
  else if 0xC2 ≤ c ∧ c ≤ 0xDF then 2
  else if 0xE0 ≤ c ∧ c ≤ 0xEF then 3
  else if 0xF0 ≤ c ∧ c ≤ 0xF4 then 4
  else 0

def isContinuation (c : UInt8) : Bool := 0x80 ≤ c && c ≤ 0xBF

-- The second byte excludes overlong forms, surrogates and what is too large.
def isSecondByte (first c : UInt8) : Bool :=
  isContinuation c && (first ≠ 0xE0 || 0xA0 ≤ c) && (first ≠ 0xED || c ≤ 0x9F) &&
    (first ≠ 0xF0 || 0x90 ≤ c) && (first ≠ 0xF4 || c ≤ 0x8F)

-- utf8.DecodeRuneInString: the length of the character in front, or zero.
def runeLength : List UInt8 → Nat
  | [] => 0
  | c :: s =>
    let tail := s.take (encodedLength c - 1)
    if tail.length + 1 = encodedLength c && (tail.take 1).all (isSecondByte c) &&
        (tail.drop 1).all isContinuation then encodedLength c
    else 0

def Scalar (r : Nat) : Prop := r < 0xD800 ∨ 0xE000 ≤ r ∧ r < 0x110000

instance (r : Nat) : Decidable (Scalar r) :=
  inferInstanceAs (Decidable (r < 0xD800 ∨ 0xE000 ≤ r ∧ r < 0x110000))

def runeError : Nat := 0xFFFD

-- utf8.AppendRune. What is no character is written as the replacement.
def encodeRune (r : Nat) : List UInt8 :=
  if r < 0x80 then [.ofNat r]
  else if r < 0x800 then [.ofNat (0xC0 + r / 64), .ofNat (0x80 + r % 64)]
  else if ¬ Scalar r then [0xEF, 0xBF, 0xBD]
  else if r < 0x10000 then
    [.ofNat (0xE0 + r / 4096), .ofNat (0x80 + r / 64 % 64), .ofNat (0x80 + r % 64)]
  else
    [.ofNat (0xF0 + r / 262144), .ofNat (0x80 + r / 4096 % 64), .ofNat (0x80 + r / 64 % 64),
      .ofNat (0x80 + r % 64)]

def leadBound : Nat → Nat
  | 1 => 128
  | 2 => 32
  | 3 => 16
  | _ => 8

-- utf8.DecodeRuneInString: the number of the character in front and its length.
def decodeRune (s : List UInt8) : Nat × Nat :=
  match runeLength s, s with
  | n + 1, c :: tail =>
    ((tail.take n).foldl (fun r d => r * 64 + d.toNat % 64) (c.toNat % leadBound (n + 1)), n + 1)
  | _, _ => (runeError, 1)

-- The characters of a text in turn. The fuel bounds their number.
def runesLoop : Nat → List UInt8 → List Nat
  | 0, _ | _ + 1, [] => []
  | fuel + 1, c :: s =>
    let (r, size) := decodeRune (c :: s)
    r :: runesLoop fuel ((c :: s).drop size)

def runes (s : List UInt8) : List Nat := runesLoop s.length s

def validStringLoop : Nat → List UInt8 → Bool
  | 0, _ | _ + 1, [] => true
  | fuel + 1, c :: s =>
    runeLength (c :: s) ≠ 0 && validStringLoop fuel ((c :: s).drop (runeLength (c :: s)))

-- utf8.ValidString.
def validString (s : List UInt8) : Bool := validStringLoop s.length s

section Characters

variable {r : Nat} {c d e f : UInt8} {s : List UInt8}

theorem isContinuation_iff : isContinuation c = true ↔ 128 ≤ c.toNat ∧ c.toNat ≤ 191 := by
  simp [isContinuation, UInt8.le_iff_toNat_le]

theorem isSecondByte_iff : isSecondByte c d = true ↔ (128 ≤ d.toNat ∧ d.toNat ≤ 191) ∧
    (c.toNat = 224 → 160 ≤ d.toNat) ∧ (c.toNat = 237 → d.toNat ≤ 159) ∧
    (c.toNat = 240 → 144 ≤ d.toNat) ∧ (c.toNat = 244 → d.toNat ≤ 143) := by
  simp only [isSecondByte, Bool.and_eq_true, Bool.or_eq_true, decide_eq_true_eq, isContinuation_iff,
    ne_eq, ← UInt8.toNat_inj]
  tauto

theorem encodedLength_le (c : UInt8) : encodedLength c ≤ 4 := by
  unfold encodedLength
  split_ifs <;> omega

theorem encodedLength_eq_one : encodedLength c = 1 ↔ c.toNat < 128 := by
  simp only [encodedLength, UInt8.lt_iff_toNat_lt, UInt8.reduceToNat]
  split_ifs <;> simp <;> omega

theorem encodedLength_eq_two : encodedLength c = 2 ↔ 194 ≤ c.toNat ∧ c.toNat ≤ 223 := by
  simp only [encodedLength, UInt8.lt_iff_toNat_lt, UInt8.le_iff_toNat_le, UInt8.reduceToNat]
  split_ifs <;> simp <;> omega

theorem encodedLength_eq_three : encodedLength c = 3 ↔ 224 ≤ c.toNat ∧ c.toNat ≤ 239 := by
  simp only [encodedLength, UInt8.lt_iff_toNat_lt, UInt8.le_iff_toNat_le, UInt8.reduceToNat]
  split_ifs <;> simp <;> omega

theorem encodedLength_eq_four : encodedLength c = 4 ↔ 240 ≤ c.toNat ∧ c.toNat ≤ 244 := by
  simp only [encodedLength, UInt8.lt_iff_toNat_lt, UInt8.le_iff_toNat_le, UInt8.reduceToNat]
  split_ifs <;> simp <;> omega

inductive Character : List UInt8 → Nat → Prop
  | one {c : UInt8} (hc : encodedLength c = 1) : Character [c] c.toNat
  | two {c d : UInt8} (hc : encodedLength c = 2) (hd : isSecondByte c d = true) :
      Character [c, d] (c.toNat % 32 * 64 + d.toNat % 64)
  | three {c d e : UInt8} (hc : encodedLength c = 3) (hd : isSecondByte c d = true)
      (he : isContinuation e = true) :
      Character [c, d, e] ((c.toNat % 16 * 64 + d.toNat % 64) * 64 + e.toNat % 64)
  | four {c d e f : UInt8} (hc : encodedLength c = 4) (hd : isSecondByte c d = true)
      (he : isContinuation e = true) (hf : isContinuation f = true) :
      Character [c, d, e, f]
        (((c.toNat % 8 * 64 + d.toNat % 64) * 64 + e.toNat % 64) * 64 + f.toNat % 64)

variable {character : List UInt8}

theorem Character.ne_nil (h : Character character r) : character ≠ [] := by
  cases h <;> exact List.cons_ne_nil _ _

theorem Character.runeLength (h : Character character r) (s : List UInt8) :
    runeLength (character ++ s) = character.length := by
  cases h with
  | one hc => simp [Utf8.runeLength, hc]
  | two hc hd => simp [Utf8.runeLength, hc, hd]
  | three hc hd he => simp [Utf8.runeLength, hc, hd, he]
  | four hc hd he hf => simp [Utf8.runeLength, hc, hd, he, hf]

theorem Character.decodeRune (h : Character character r) (s : List UInt8) :
    decodeRune (character ++ s) = (r, character.length) := by
  have hlength := h.runeLength s
  unfold Utf8.decodeRune
  rw [hlength]
  cases h with
  | @one c hc => simp [leadBound, Nat.mod_eq_of_lt (encodedLength_eq_one.mp hc)]
  | two hc hd => rfl
  | three hc hd he => rfl
  | four hc hd he hf => rfl

theorem exists_character (h : runeLength s ≠ 0) :
    ∃ character r rest, Character character r ∧ s = character ++ rest := by
  rcases s with _ | ⟨c, s⟩
  · exact absurd rfl h
  simp only [runeLength, ne_eq, ite_eq_right_iff, Classical.not_imp, Bool.and_eq_true,
    List.length_take] at h
  obtain ⟨⟨⟨hlength, hsecond⟩, hothers⟩, hne⟩ := h
  have hle := encodedLength_le c
  rcases (by omega : encodedLength c = 1 ∨ encodedLength c = 2 ∨ encodedLength c = 3 ∨
    encodedLength c = 4) with hc | hc | hc | hc
  · exact ⟨[c], _, s, .one hc, rfl⟩
  · rw [hc] at hlength hsecond hothers
    match s with
    | d :: s => exact ⟨[c, d], _, s, .two hc (by simpa using hsecond), rfl⟩
  · rw [hc] at hlength hsecond hothers
    match s with
    | d :: e :: s =>
      exact ⟨[c, d, e], _, s, .three hc (by simpa using hsecond) (by simpa using hothers), rfl⟩
  · rw [hc] at hlength hsecond hothers
    match s with
    | d :: e :: f :: s =>
      have hothers : isContinuation e = true ∧ isContinuation f = true := by simpa using hothers
      exact ⟨[c, d, e, f], _, s, .four hc (by simpa using hsecond) hothers.1 hothers.2, rfl⟩

theorem Character.scalar (h : Character character r) : Scalar r := by
  cases h with
  | one hc =>
    have := encodedLength_eq_one.mp hc
    exact .inl (by omega)
  | two hc hd =>
    exact .inl (by omega)
  | three hc hd he =>
    have := encodedLength_eq_three.mp hc
    have := isSecondByte_iff.mp hd
    unfold Scalar
    omega
  | four hc hd he hf =>
    have := encodedLength_eq_four.mp hc
    have := isSecondByte_iff.mp hd
    unfold Scalar
    omega

theorem Character.encodeRune (h : Character character r) : encodeRune r = character := by
  have hscalar := h.scalar
  cases h with
  | one hc => simp [Utf8.encodeRune, encodedLength_eq_one.mp hc]
  | two hc hd =>
    have := encodedLength_eq_two.mp hc
    have := isSecondByte_iff.mp hd
    rw [Utf8.encodeRune, if_neg (by omega), if_pos (by omega)]
    simp only [List.cons.injEq, and_true, UInt8.ofNat_eq_iff_mod_eq_toNat]
    omega
  | three hc hd he =>
    have := encodedLength_eq_three.mp hc
    have := isSecondByte_iff.mp hd
    have := isContinuation_iff.mp he
    rw [Utf8.encodeRune, if_neg (by omega), if_neg (by omega), if_neg (not_not.mpr hscalar),
      if_pos (by omega)]
    simp only [List.cons.injEq, and_true, UInt8.ofNat_eq_iff_mod_eq_toNat]
    omega
  | four hc hd he hf =>
    have := encodedLength_eq_four.mp hc
    have := isSecondByte_iff.mp hd
    have := isContinuation_iff.mp he
    have := isContinuation_iff.mp hf
    rw [Utf8.encodeRune, if_neg (by omega), if_neg (by omega), if_neg (not_not.mpr hscalar),
      if_neg (by omega)]
    simp only [List.cons.injEq, and_true, UInt8.ofNat_eq_iff_mod_eq_toNat]
    omega

theorem Character.of_eq {r' : Nat} (h : Character character r') (hr : r' = r) : Character character r :=
  hr ▸ h

theorem character_encodeRune (h : Scalar r) : Character (encodeRune r) r := by
  have hbound : r < 0x110000 := by
    unfold Scalar at h
    omega
  unfold Utf8.encodeRune
  split_ifs with h₁ h₂ h₄
  · have hc := UInt8.toNat_ofNat_of_lt' (show r < 256 by omega)
    exact (Character.one (by rw [encodedLength_eq_one]; omega)).of_eq hc
  · have hc := UInt8.toNat_ofNat_of_lt' (show 0xC0 + r / 64 < 256 by omega)
    have hd := UInt8.toNat_ofNat_of_lt' (show 0x80 + r % 64 < 256 by omega)
    refine (Character.two ?_ ?_).of_eq (by omega)
    · rw [encodedLength_eq_two]
      omega
    · rw [isSecondByte_iff]
      omega
  · have hc := UInt8.toNat_ofNat_of_lt' (show 0xE0 + r / 4096 < 256 by omega)
    have hd := UInt8.toNat_ofNat_of_lt' (show 0x80 + r / 64 % 64 < 256 by omega)
    have he := UInt8.toNat_ofNat_of_lt' (show 0x80 + r % 64 < 256 by omega)
    refine (Character.three ?_ ?_ ?_).of_eq (by omega)
    · rw [encodedLength_eq_three]
      omega
    · rw [isSecondByte_iff]
      unfold Scalar at h
      omega
    · rw [isContinuation_iff]
      omega
  · have hc := UInt8.toNat_ofNat_of_lt' (show 0xF0 + r / 262144 < 256 by omega)
    have hd := UInt8.toNat_ofNat_of_lt' (show 0x80 + r / 4096 % 64 < 256 by omega)
    have he := UInt8.toNat_ofNat_of_lt' (show 0x80 + r / 64 % 64 < 256 by omega)
    have hf := UInt8.toNat_ofNat_of_lt' (show 0x80 + r % 64 < 256 by omega)
    refine (Character.four ?_ ?_ ?_ ?_).of_eq (by omega)
    · rw [encodedLength_eq_four]
      omega
    · rw [isSecondByte_iff]
      omega
    · rw [isContinuation_iff]
      omega
    · rw [isContinuation_iff]
      omega

end Characters

def encodeRunes (rs : List Nat) : List UInt8 := rs.flatMap encodeRune

-- A byte that belongs to no character becomes a replacement character.
def validText (s : List UInt8) : List UInt8 := encodeRunes (runes s)

example : validText [0x61, 0xC3, 0xA9, 0xFF] = [0x61, 0xC3, 0xA9, 0xEF, 0xBF, 0xBD] := by decide

section Texts

variable {r : Nat} {rs : List Nat} {s : List UInt8} {fuel : Nat}

theorem encodeRunes_cons : encodeRunes (r :: rs) = encodeRune r ++ encodeRunes rs := List.flatMap_cons

theorem encodeRunes_append {rs' : List Nat} :
    encodeRunes (rs ++ rs') = encodeRunes rs ++ encodeRunes rs' := List.flatMap_append

theorem runesLoop_encodeRunes (h : ∀ r ∈ rs, Scalar r) (hfuel : (encodeRunes rs).length ≤ fuel) :
    runesLoop fuel (encodeRunes rs) = rs := by
  induction rs generalizing fuel with
  | nil => cases fuel <;> rfl
  | cons r rs ih =>
    obtain ⟨hr, hrs⟩ := List.forall_mem_cons.mp h
    have hcharacter := character_encodeRune hr
    have hpos := List.length_pos_of_ne_nil hcharacter.ne_nil
    rw [encodeRunes_cons, List.length_append] at hfuel
    obtain ⟨fuel, rfl⟩ : ∃ n, fuel = n + 1 := ⟨fuel - 1, by omega⟩
    obtain ⟨c, tail, hcons⟩ := List.exists_cons_of_ne_nil
      (List.append_ne_nil_of_left_ne_nil hcharacter.ne_nil (encodeRunes rs))
    rw [encodeRunes_cons, hcons, runesLoop, ← hcons, hcharacter.decodeRune]
    dsimp only
    rw [List.drop_left, ih hrs (by omega)]

theorem runes_encodeRunes (h : ∀ r ∈ rs, Scalar r) : runes (encodeRunes rs) = rs :=
  runesLoop_encodeRunes h (Nat.le_refl _)

theorem validStringLoop_iff (hfuel : s.length ≤ fuel) :
    validStringLoop fuel s = true ↔ ∃ rs, (∀ r ∈ rs, Scalar r) ∧ s = encodeRunes rs := by
  induction fuel generalizing s with
  | zero =>
    rw [List.length_eq_zero_iff.mp (Nat.le_zero.mp hfuel)]
    exact ⟨fun _ => ⟨[], by simp, rfl⟩, fun _ => rfl⟩
  | succ fuel ih =>
    rcases s with _ | ⟨c, s⟩
    · exact ⟨fun _ => ⟨[], by simp, rfl⟩, fun _ => rfl⟩
    rw [validStringLoop, Bool.and_eq_true, decide_eq_true_eq]
    constructor
    · rintro ⟨hlength, hvalid⟩
      obtain ⟨character, r, rest, hcharacter, hsplit⟩ := exists_character hlength
      have hpos := List.length_pos_of_ne_nil hcharacter.ne_nil
      have htotal := congrArg List.length hsplit
      rw [List.length_append] at htotal
      rw [hsplit, hcharacter.runeLength, List.drop_left, ih (by omega)] at hvalid
      obtain ⟨rs, hrs, rfl⟩ := hvalid
      refine ⟨r :: rs, List.forall_mem_cons.mpr ⟨hcharacter.scalar, hrs⟩, ?_⟩
      rw [hsplit, encodeRunes_cons, hcharacter.encodeRune]
    · rintro ⟨rs, hrs, hsplit⟩
      rcases rs with _ | ⟨r, rs⟩
      · cases hsplit
      obtain ⟨hr, hrs⟩ := List.forall_mem_cons.mp hrs
      have hcharacter := character_encodeRune hr
      have hpos := List.length_pos_of_ne_nil hcharacter.ne_nil
      have htotal := congrArg List.length hsplit
      rw [encodeRunes_cons, List.length_append] at htotal
      rw [hsplit, encodeRunes_cons, hcharacter.runeLength, List.drop_left, ih (by omega)]
      exact ⟨by omega, rs, hrs, rfl⟩

-- Valid text is what characters are written as.
theorem validString_iff : validString s = true ↔ ∃ rs, (∀ r ∈ rs, Scalar r) ∧ s = encodeRunes rs :=
  validStringLoop_iff (Nat.le_refl _)

theorem encodeRunes_runes (h : validString s = true) : encodeRunes (runes s) = s := by
  obtain ⟨rs, hrs, rfl⟩ := validString_iff.mp h
  rw [runes_encodeRunes hrs]

-- What is no character is read as the replacement, which is one.
theorem scalar_decodeRune : Scalar (decodeRune s).1 := by
  by_cases h : runeLength s = 0
  · unfold decodeRune
    rw [h]
    change Scalar runeError
    decide
  · obtain ⟨character, r, rest, hcharacter, rfl⟩ := exists_character h
    rw [hcharacter.decodeRune]
    exact hcharacter.scalar

theorem scalar_of_mem_runesLoop (h : r ∈ runesLoop fuel s) : Scalar r := by
  induction fuel generalizing s with
  | zero => cases h
  | succ fuel ih =>
    rcases s with _ | ⟨c, s⟩
    · cases h
    rcases List.mem_cons.mp h with rfl | h
    · exact scalar_decodeRune
    · exact ih h

theorem scalar_of_mem_runes (h : r ∈ runes s) : Scalar r := scalar_of_mem_runesLoop h

theorem runes_validText : runes (validText s) = runes s :=
  runes_encodeRunes fun _ => scalar_of_mem_runes

theorem validText_validText : validText (validText s) = validText s := congrArg encodeRunes runes_validText

end Texts

-- What stands before a character of ASCII is read as if it stood alone.
section Splits

variable {r : Nat} {c : UInt8} {s t character : List UInt8} {fuel fuel' : Nat}

theorem decodeRune_of_runeLength (h : runeLength s = 0) : decodeRune s = (runeError, 1) := by
  unfold decodeRune
  rw [h]

theorem decodeRune_pos : 0 < (decodeRune s).2 := by
  by_cases h : runeLength s = 0
  · rw [decodeRune_of_runeLength h]
    exact Nat.one_pos
  · obtain ⟨character, r, rest, hcharacter, rfl⟩ := exists_character h
    rw [hcharacter.decodeRune]
    exact List.length_pos_of_ne_nil hcharacter.ne_nil

theorem length_drop_decodeRune : ((c :: s).drop (decodeRune (c :: s)).2).length ≤ s.length := by
  have hpos := decodeRune_pos (s := c :: s)
  rw [List.length_drop, List.length_cons]
  omega

theorem runesLoop_fuel (hfuel : s.length ≤ fuel) (hfuel' : s.length ≤ fuel') :
    runesLoop fuel s = runesLoop fuel' s := by
  induction fuel generalizing s fuel' with
  | zero =>
    rw [List.length_eq_zero_iff.mp (Nat.le_zero.mp hfuel)]
    cases fuel' <;> rfl
  | succ fuel ih =>
    rcases s with _ | ⟨c, s⟩
    · cases fuel' <;> rfl
    rw [List.length_cons] at hfuel hfuel'
    obtain ⟨fuel', rfl⟩ : ∃ n, fuel' = n + 1 := ⟨fuel' - 1, by omega⟩
    have hdrop := length_drop_decodeRune (c := c) (s := s)
    exact congrArg _ (ih (Nat.le_trans hdrop (by omega)) (Nat.le_trans hdrop (by omega)))

theorem runes_eq_cons (h : s ≠ []) :
    runes s = (decodeRune s).1 :: runes (s.drop (decodeRune s).2) := by
  obtain ⟨c, s, rfl⟩ := List.exists_cons_of_ne_nil h
  exact congrArg _ (runesLoop_fuel length_drop_decodeRune (Nat.le_refl _))

theorem runes_eq_nil : runes s = [] ↔ s = [] := by
  constructor
  · intro h
    by_contra hne
    rw [runes_eq_cons hne] at h
    cases h
  · rintro rfl
    rfl

theorem Character.tail (h : Character character r) : ∀ c ∈ character.tail, 128 ≤ c.toNat := by
  cases h with
  | one hc => simp
  | two hc hd => simpa using (isSecondByte_iff.mp hd).1.1
  | three hc hd he => simpa using ⟨(isSecondByte_iff.mp hd).1.1, (isContinuation_iff.mp he).1⟩
  | four hc hd he hf =>
    simpa using ⟨(isSecondByte_iff.mp hd).1.1, (isContinuation_iff.mp he).1, (isContinuation_iff.mp hf).1⟩

theorem Character.runes_append (h : Character character r) :
    runes (character ++ s) = r :: runes s := by
  rw [runes_eq_cons (List.append_ne_nil_of_left_ne_nil h.ne_nil s), h.decodeRune, List.drop_left]

variable (hc : c.toNat < 128)

include hc

theorem decodeRune_append (hs : s ≠ []) :
    decodeRune (s ++ c :: t) = decodeRune s ∧ (decodeRune s).2 ≤ s.length := by
  by_cases hlength : runeLength (s ++ c :: t) = 0
  · have hself : runeLength s = 0 := by
      by_contra hself
      obtain ⟨character, r, rest, hcharacter, rfl⟩ := exists_character hself
      rw [List.append_assoc, hcharacter.runeLength] at hlength
      exact hcharacter.ne_nil (List.length_eq_zero_iff.mp hlength)
    rw [decodeRune_of_runeLength hlength, decodeRune_of_runeLength hself]
    exact ⟨rfl, List.length_pos_of_ne_nil hs⟩
  obtain ⟨character, r, rest, hcharacter, hsplit⟩ := exists_character hlength
  obtain ⟨b, s, rfl⟩ := List.exists_cons_of_ne_nil hs
  obtain ⟨b', tail, rfl⟩ := List.exists_cons_of_ne_nil hcharacter.ne_nil
  obtain ⟨rfl, hrest⟩ := List.cons.inj hsplit
  have hnot : c ∉ tail := fun hmem => by
    have := hcharacter.tail c hmem
    omega
  obtain ⟨middle, rfl, -⟩ := Separator.head_of_notMem hnot hrest.symm
  rw [hsplit, hcharacter.decodeRune, ← List.cons_append, hcharacter.decodeRune]
  exact ⟨rfl, by simp⟩

theorem runes_separator : runes (s ++ c :: t) = runes s ++ c.toNat :: runes t := by
  induction h : s.length using Nat.strongRecOn generalizing s with
  | ind n ih =>
    by_cases hs : s = []
    · rw [hs]
      exact (Character.one (encodedLength_eq_one.mpr hc)).runes_append
    obtain ⟨hdecode, hle⟩ := decodeRune_append (t := t) hc hs
    have hpos := decodeRune_pos (s := s)
    rw [runes_eq_cons (List.append_ne_nil_of_left_ne_nil hs _), runes_eq_cons hs, hdecode,
      List.drop_append_of_le_length hle, List.cons_append,
      ih _ (by rw [List.length_drop]; omega) rfl]

theorem mem_runes : c.toNat ∈ runes s ↔ c ∈ s := by
  constructor
  · induction h : s.length using Nat.strongRecOn generalizing s with
    | ind n ih =>
      intro hmem
      have hs : s ≠ [] := by
        rintro rfl
        cases hmem
      have hpos := decodeRune_pos (s := s)
      have hlength := List.length_pos_of_ne_nil hs
      rw [runes_eq_cons hs] at hmem
      rcases List.mem_cons.mp hmem with hr | hmem
      · by_cases hbad : runeLength s = 0
        · rw [decodeRune_of_runeLength hbad, runeError] at hr
          omega
        obtain ⟨character, r, rest, hcharacter, rfl⟩ := exists_character hbad
        rw [hcharacter.decodeRune] at hr
        subst hr
        rw [← hcharacter.encodeRune, encodeRune, if_pos hc]
        simp
      · exact List.mem_of_mem_drop (ih _ (by rw [List.length_drop]; omega) rfl hmem)
  · intro hmem
    obtain ⟨before, after, rfl⟩ := List.append_of_mem hmem
    rw [runes_separator hc]
    simp

end Splits

end Utf8
