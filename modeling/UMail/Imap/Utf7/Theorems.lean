import UMail.Imap.Utf7
import Mathlib.Data.FinEnum
import Mathlib.Data.List.TakeWhile
import Mathlib.Tactic.IntervalCases

namespace UMail.Imap

open Base64 (encodeToString decodeString encodeToString_of_decodeString decodeString_encodeToString
  mem_letters_of_encode)
open UMail.Storage (Bytes bytes)
open Utf8 (Scalar Character encodeRune encodeRunes encodeRunes_append encodeRunes_cons encodeRunes_runes
  runes runes_encodeRunes scalar_of_mem_runes validString)
open Utf16 (isSurrogate units)

section Units

variable {r : Nat} {rs us : List Nat} {s t : Bytes}

theorem rawUnits_unitBytes (h : ∀ u ∈ us, u < 0x10000) : rawUnits (us.flatMap unitBytes) = us := by
  induction us with
  | nil => rfl
  | cons u us ih =>
    obtain ⟨hu, hus⟩ := List.forall_mem_cons.mp h
    rw [List.flatMap_cons, unitBytes, List.cons_append, List.cons_append, List.nil_append, rawUnits,
      ih hus, UInt8.toNat_ofNat', UInt8.toNat_ofNat']
    simp only [List.cons.injEq, and_true]
    omega

theorem length_unitBytes : (us.flatMap unitBytes).length = 2 * us.length := by
  induction us with
  | nil => rfl
  | cons u us ih =>
    rw [List.flatMap_cons, List.length_append]
    simp only [unitBytes, List.length_cons, List.length_nil]
    omega

theorem unitBytes_rawUnits (h : s.length % 2 = 0) : (rawUnits s).flatMap unitBytes = s := by
  fun_induction rawUnits s with
  | case1 high low s ih =>
    have := low.toNat_lt
    rw [List.flatMap_cons, ih (by simp only [List.length_cons] at h; omega)]
    simp only [unitBytes, List.cons_append, List.nil_append, List.cons.injEq, and_true,
      UInt8.ofNat_eq_iff_mod_eq_toNat]
    have := high.toNat_lt
    omega
  | case2 s hs =>
    rcases s with _ | ⟨c, s⟩
    · rfl
    cases s with
    | nil => simp at h
    | cons d s => exact absurd rfl (hs c d s)

theorem rawUnits_lt : ∀ u ∈ rawUnits s, u < 0x10000 := by
  fun_induction rawUnits s with
  | case1 high low s ih =>
    have := low.toNat_lt
    have := high.toNat_lt
    exact List.forall_mem_cons.mpr ⟨by omega, ih⟩
  | case2 s hs => simp

def Shifted (rs : List Nat) : Prop := ∀ r ∈ rs, Scalar r ∧ isPrintable r = false

theorem shifted_cons : Shifted (r :: rs) ↔ (Scalar r ∧ isPrintable r = false) ∧ Shifted rs :=
  List.forall_mem_cons

theorem Shifted.nil : Shifted [] := fun _ h => absurd h List.not_mem_nil

theorem Shifted.singleton (hr : Scalar r) (hplain : isPrintable r = false) : Shifted [r] :=
  shifted_cons.mpr ⟨⟨hr, hplain⟩, .nil⟩

theorem shifted_append {rs' : List Nat} : Shifted (rs ++ rs') ↔ Shifted rs ∧ Shifted rs' :=
  List.forall_mem_append

theorem isPrintable_iff : isPrintable r = true ↔ 32 ≤ r ∧ r ≤ 126 := by simp [isPrintable]

theorem isPrintable_of_le (h : 127 ≤ r) : isPrintable r = false := by
  rw [← Bool.not_eq_true, isPrintable_iff]
  omega

theorem decodeUnits_cons (h : isSurrogate r = false) (hr : isPrintable r = false) :
    decodeUnits (r :: us) = (decodeUnits us).map (encodeRune r ++ ·) := by
  cases us with
  | nil => simp [decodeUnits, h, hr]
  | cons u us => simp [decodeUnits, h, hr]

theorem decodeUnits_units (h : Shifted rs) : decodeUnits (rs.flatMap units) = some (encodeRunes rs) := by
  induction rs with
  | nil => rfl
  | cons r rs ih =>
    obtain ⟨⟨hr, hplain⟩, hrs⟩ := shifted_cons.mp h
    rw [List.flatMap_cons, encodeRunes_cons]
    by_cases hlt : r < 0x10000
    · rw [Utf16.units_of_lt hlt, List.singleton_append,
        decodeUnits_cons (Utf16.not_isSurrogate hlt hr) hplain, ih hrs, Option.map_some]
    · obtain ⟨u, v, hunits, hsurrogate, hdecode, hne⟩ := Utf16.decodeRune_units (by omega) hr
      rw [hunits, List.cons_append, List.cons_append, List.nil_append, decodeUnits, if_pos hsurrogate]
      simp only [hdecode, if_neg hne, ih hrs, Option.map_some]

theorem units_of_decodeUnits (hlt : ∀ u ∈ us, u < 0x10000) (h : decodeUnits us = some t) :
    ∃ rs, Shifted rs ∧ us = rs.flatMap units ∧ t = encodeRunes rs := by
  fun_induction decodeUnits us generalizing t with
  | case1 =>
    cases h
    exact ⟨[], .nil, rfl, rfl⟩
  | case2 u hu => cases h
  | case3 u hu =>
    cases h
    simp only [Bool.or_eq_true, not_or, Bool.not_eq_true] at hu
    have hu' := List.forall_mem_singleton.mp hlt
    refine ⟨[u], ?_, ?_, by simp [encodeRunes]⟩
    · exact .singleton (Utf16.scalar_of_not_isSurrogate hu.1 hu') hu.2
    · simp [Utf16.units_of_lt hu']
  | case4 u v us hsurrogate herror => cases h
  | case5 u v us hsurrogate herror ih =>
    obtain ⟨t', ht', rfl⟩ := Option.map_eq_some_iff.mp h
    simp only [List.forall_mem_cons] at hlt
    obtain ⟨rs, hrs, rfl, rfl⟩ := ih hlt.2.2 ht'
    obtain ⟨hscalar, hle, hunits⟩ := Utf16.units_decodeRune herror
    refine ⟨_, shifted_cons.mpr ⟨⟨hscalar, isPrintable_of_le (by omega)⟩, hrs⟩, ?_, ?_⟩
    · rw [List.flatMap_cons, hunits]
      rfl
    · rw [encodeRunes_cons]
  | case6 u v us hsurrogate hplain => cases h
  | case7 u v us hsurrogate hplain ih =>
    obtain ⟨t', ht', rfl⟩ := Option.map_eq_some_iff.mp h
    obtain ⟨hu, hrest⟩ := List.forall_mem_cons.mp hlt
    obtain ⟨rs, hrs, hus, rfl⟩ := ih hrest ht'
    rw [Bool.not_eq_true] at hsurrogate hplain
    refine ⟨u :: rs, ?_, ?_, ?_⟩
    · exact shifted_cons.mpr ⟨⟨Utf16.scalar_of_not_isSurrogate hsurrogate hu, hplain⟩, hrs⟩
    · rw [List.flatMap_cons, Utf16.units_of_lt hu, List.singleton_append, hus]
    · rw [encodeRunes_cons]

end Units

section Shifts

variable {r : Nat} {rs run : List Nat} {c : UInt8} {enc name s t : Bytes}

theorem units_flatMap_lt (h : Shifted rs) : ∀ u ∈ rs.flatMap units, u < 0x10000 := by
  intro u hu
  obtain ⟨r, hr, hu⟩ := List.mem_flatMap.mp hu
  exact Utf16.units_lt (h r hr).1 hu

theorem units_flatMap_eq_nil : rs.flatMap units = [] ↔ rs = [] := by
  cases rs with
  | nil => simp
  | cons r rs => simp [Utf16.units_ne_nil]

def shiftText (rs : List Nat) : Bytes :=
  encodeToString mutf7Enc ((rs.flatMap units).flatMap unitBytes)

theorem letters_printable (h : c ∈ mutf7Enc.letters) :
    (32 ≤ c.toNat ∧ c.toNat ≤ 126) ∧ c ≠ 45 :=
  (by decide +kernel : ∀ c ∈ mutf7Enc.letters, (32 ≤ c.toNat ∧ c.toNat ≤ 126) ∧ c ≠ 45) c h

theorem shiftText_ne_nil (h : Shifted rs) (hne : rs ≠ []) : shiftText rs ≠ [] := by
  intro hnil
  have hdecode : decodeString mutf7Enc (shiftText rs) = some ((rs.flatMap units).flatMap unitBytes) :=
    decodeString_encodeToString
  rw [hnil] at hdecode
  have hempty : [] = (rs.flatMap units).flatMap unitBytes := Option.some.inj hdecode
  have hraw := rawUnits_unitBytes (units_flatMap_lt h)
  rw [← hempty] at hraw
  exact hne (units_flatMap_eq_nil.mp hraw.symm)

theorem decodeShift_shiftText (h : Shifted rs) (hne : rs ≠ []) :
    decodeShift (shiftText rs) = some (encodeRunes rs) := by
  rw [decodeShift, if_neg (shiftText_ne_nil h hne), shiftText, decodeString_encodeToString,
    Option.bind_some, if_neg (by rw [length_unitBytes]; omega), rawUnits_unitBytes (units_flatMap_lt h),
    decodeUnits_units h]

-- What is accepted as a shift is the shift of what it stands for, but for line
-- breaks within it.
theorem shiftText_of_decodeShift (hne : enc ≠ []) (hbreak : ∀ c ∈ enc, c ≠ 13 ∧ c ≠ 10)
    (h : decodeShift enc = some t) :
    ∃ rs, Shifted rs ∧ rs ≠ [] ∧ enc = shiftText rs ∧ t = encodeRunes rs := by
  rw [decodeShift, if_neg hne] at h
  obtain ⟨raw, hraw, h⟩ := Option.bind_eq_some_iff.mp h
  have henc : encodeToString mutf7Enc raw = enc := by
    rw [encodeToString_of_decodeString hraw]
    exact List.filter_eq_self.mpr fun c hc => decide_eq_true (hbreak c hc)
  split_ifs at h with heven
  rw [not_not] at heven
  obtain ⟨rs, hrs, hunits, rfl⟩ := units_of_decodeUnits rawUnits_lt h
  have htext : enc = shiftText rs := by
    rw [shiftText, ← hunits, unitBytes_rawUnits heven, henc]
  refine ⟨rs, hrs, ?_, htext, rfl⟩
  rintro rfl
  exact hne htext

theorem flush_units (hne : rs ≠ []) : flush (rs.flatMap units) = 38 :: shiftText rs ++ [45] := by
  rw [flush, if_neg (by rwa [List.length_eq_zero_iff, units_flatMap_eq_nil]), shiftText]

end Shifts

section Decoding

variable {r : Nat} {rs run : List Nat} {c : UInt8} {enc name s t : Bytes} {fuel : Nat}

theorem decodeLoop_nil : decodeLoop fuel [] = some [] := by cases fuel <;> rfl

theorem length_of_decodePiece {piece : Bytes × Bytes} (h : decodePiece c s = some piece) :
    piece.2.length ≤ s.length := by
  unfold decodePiece at h
  split_ifs at h with hc hvalid hend
  · cases h
    exact (List.dropWhile_sublist _).length_le
  · obtain ⟨text, -, rfl⟩ := Option.map_eq_some_iff.mp h
    exact ((List.drop_sublist 1 _).trans (List.dropWhile_sublist _)).length_le

theorem decodeLoop_fuel (hfuel : s.length ≤ fuel) : decodeLoop fuel s = decodeLoop s.length s := by
  induction fuel using Nat.strong_induction_on generalizing s with
  | _ fuel ih =>
    rcases s with _ | ⟨c, s⟩
    · rw [decodeLoop_nil, decodeLoop_nil]
    rw [List.length_cons] at hfuel ⊢
    obtain ⟨fuel, rfl⟩ : ∃ n, fuel = n + 1 := ⟨fuel - 1, by omega⟩
    refine Option.bind_congr fun piece hpiece => ?_
    have hlength := length_of_decodePiece hpiece
    rw [ih fuel (by omega) (by omega), ih s.length (by omega) hlength]

-- A name without a shift takes one turn of the loop at most.
theorem decodeMUTF7_eq : decodeMUTF7 s = decodeLoop s.length s := by
  unfold decodeMUTF7
  split_ifs with hshift hvalid
  · rfl
  · cases s with
    | nil => rfl
    | cons c s =>
      rw [List.mem_cons, not_or] at hshift
      have htext : s.takeWhile (· ≠ 38) = s := List.takeWhile_eq_self_iff.mpr fun d hd =>
        decide_eq_true fun h => hshift.2 (h ▸ hd)
      have hrest : s.dropWhile (· ≠ 38) = [] := List.dropWhile_eq_nil_iff.mpr fun d hd =>
        decide_eq_true fun h => hshift.2 (h ▸ hd)
      rw [List.length_cons, decodeLoop, decodePiece, if_pos (Ne.symm hshift.1), htext, if_pos hvalid,
        hrest, Option.bind_some, decodeLoop_nil, Option.map_some, List.append_nil]
  · cases s with
    | nil => exact absurd rfl hvalid
    | cons c s =>
      rw [List.mem_cons, not_or] at hshift
      have htext : s.takeWhile (· ≠ 38) = s := List.takeWhile_eq_self_iff.mpr fun d hd =>
        decide_eq_true fun h => hshift.2 (h ▸ hd)
      rw [List.length_cons, decodeLoop, decodePiece, if_pos (Ne.symm hshift.1), htext, if_neg hvalid,
        Option.bind_none]

theorem decodeMUTF7_cons : decodeMUTF7 (c :: s) =
      (decodePiece c s).bind fun piece => (decodeMUTF7 piece.2).map (piece.1 ++ ·) := by
  rw [decodeMUTF7_eq, List.length_cons]
  refine Option.bind_congr fun piece hpiece => ?_
  rw [decodeMUTF7_eq, decodeLoop_fuel (length_of_decodePiece hpiece)]

theorem validString_ascii_cons (hc : c.toNat < 128) : validString (c :: s) = validString s := by
  rw [validString, List.length_cons, Utf8.validStringLoop,
    show Utf8.runeLength (c :: s) = 1 from
      (Character.one (Utf8.encodedLength_eq_one.mpr hc)).runeLength s]
  simp [validString]

theorem decodeMUTF7_ascii (hc : c.toNat < 128) (hne : c ≠ 38) :
    decodeMUTF7 (c :: s) = (decodeMUTF7 s).map (c :: ·) := by
  rw [decodeMUTF7_cons, decodePiece, if_pos hne, validString_ascii_cons hc]
  rcases s with _ | ⟨d, s⟩
  · rfl
  rw [decodeMUTF7_cons, decodePiece]
  by_cases hd : d ≠ 38
  · have htext : (d :: s).takeWhile (· ≠ 38) = d :: s.takeWhile (· ≠ 38) :=
      List.takeWhile_cons_of_pos (decide_eq_true hd)
    have hrest : (d :: s).dropWhile (· ≠ 38) = s.dropWhile (· ≠ 38) :=
      List.dropWhile_cons_of_pos (decide_eq_true hd)
    rw [htext, hrest]
    split_ifs with hvalid
    · simp only [Option.bind_some, Option.map_map]
      rfl
    · rfl
  · have htext : (d :: s).takeWhile (· ≠ 38) = [] :=
      List.takeWhile_cons_of_neg (by simpa using hd)
    have hrest : (d :: s).dropWhile (· ≠ 38) = d :: s :=
      List.dropWhile_cons_of_neg (by simpa using hd)
    have hvalid : validString [] = true := rfl
    rw [htext, hrest, if_pos hvalid, Option.bind_some, decodeMUTF7_cons]
    rfl

theorem decodeMUTF7_shift (henc : 45 ∉ enc) :
    decodeMUTF7 (38 :: enc ++ 45 :: s) =
      (decodeShift enc).bind fun text => (decodeMUTF7 s).map (text ++ ·) := by
  have hinside : ∀ c ∈ enc, decide (c ≠ 45) = true :=
    fun c hc => decide_eq_true (ne_of_mem_of_not_mem hc henc)
  have htext : (enc ++ 45 :: s).takeWhile (· ≠ 45) = enc := by
    rw [List.takeWhile_append_of_pos hinside, List.takeWhile_cons_of_neg (by simp), List.append_nil]
  have hrest : (enc ++ 45 :: s).dropWhile (· ≠ 45) = 45 :: s := by
    rw [List.dropWhile_append_of_pos hinside, List.dropWhile_cons_of_neg (by simp)]
  rw [List.cons_append, decodeMUTF7_cons, decodePiece, if_neg (not_not.mpr rfl), if_pos (by simp), htext,
    hrest]
  cases decodeShift enc <;> rfl

theorem minus_notMem_shiftText : 45 ∉ shiftText rs :=
  fun h => (letters_printable (mem_letters_of_encode h)).2 rfl

theorem decodeMUTF7_flush (h : Shifted rs) :
    decodeMUTF7 (flush (rs.flatMap units) ++ s) = (decodeMUTF7 s).map (encodeRunes rs ++ ·) := by
  rcases rs with _ | ⟨r, rs⟩
  · simp [flush, encodeRunes]
  have hne := List.cons_ne_nil r rs
  rw [flush_units hne, List.append_assoc, List.singleton_append,
    decodeMUTF7_shift minus_notMem_shiftText, decodeShift_shiftText h hne, Option.bind_some]

end Decoding

section Encoding

variable {r : Nat} {rs waiting run : List Nat} {c : UInt8} {enc name s t : Bytes}

theorem encodeRune_ascii (h : isPrintable r = true) : encodeRune r = [.ofNat r] := by
  rw [isPrintable_iff] at h
  rw [encodeRune, if_pos (by omega)]

def written (r : Nat) : Bytes := if r = 38 then bytes "&-" else encodeRune r

theorem decodeMUTF7_written (h : isPrintable r = true) :
    decodeMUTF7 (written r ++ s) = (decodeMUTF7 s).map (encodeRune r ++ ·) := by
  unfold written
  split_ifs with hand
  · subst hand
    exact decodeMUTF7_shift (List.not_mem_nil : 45 ∉ ([] : Bytes))
  have hr := isPrintable_iff.mp h
  have hnat : (UInt8.ofNat r).toNat = r := UInt8.toNat_ofNat_of_lt' (show r < 256 by omega)
  have hne : UInt8.ofNat r ≠ 38 := fun heq => hand (by rw [← hnat, heq]; rfl)
  rw [encodeRune_ascii h, List.singleton_append, decodeMUTF7_ascii (by omega) hne]
  rfl

theorem encodeLoop_printable (h : isPrintable r = true) :
    encodeLoop run (r :: rs) = flush run ++ written r ++ encodeLoop [] rs := by
  rw [encodeLoop, if_pos h, written]

theorem encodeLoop_shifted (waiting : List Nat) (h : isPrintable r = false) :
    encodeLoop (waiting.flatMap units) (r :: rs) = encodeLoop ((waiting ++ [r]).flatMap units) rs := by
  rw [encodeLoop, if_neg (Bool.not_eq_true _ ▸ h), List.flatMap_append, List.flatMap_singleton]

-- By induction on the characters, for any that wait.
theorem decodeMUTF7_encodeLoop (hwaiting : Shifted waiting) (h : ∀ r ∈ rs, Scalar r) :
    decodeMUTF7 (encodeLoop (waiting.flatMap units) rs) = some (encodeRunes (waiting ++ rs)) := by
  induction rs generalizing waiting with
  | nil =>
    rw [encodeLoop, ← List.append_nil (flush _), decodeMUTF7_flush hwaiting]
    simp [decodeMUTF7_eq, decodeLoop_nil]
  | cons r rs ih =>
    obtain ⟨hr, hrs⟩ := List.forall_mem_cons.mp h
    by_cases hplain : isPrintable r = true
    · have hrest := ih .nil hrs
      rw [List.flatMap_nil, List.nil_append] at hrest
      rw [encodeLoop_printable hplain, List.append_assoc, decodeMUTF7_flush hwaiting,
        decodeMUTF7_written hplain, hrest, Option.map_some, Option.map_some, encodeRunes_append,
        encodeRunes_cons]
    · rw [Bool.not_eq_true] at hplain
      have hwaiting' : Shifted (waiting ++ [r]) :=
        shifted_append.mpr ⟨hwaiting, .singleton hr hplain⟩
      rw [encodeLoop_shifted _ hplain, ih hwaiting' hrs, List.append_assoc, List.singleton_append]

theorem decodeMUTF7_encodeMUTF7 (h : validString name = true) :
    decodeMUTF7 (encodeMUTF7 name) = some name := by
  have hscalar : ∀ r ∈ runes name, Scalar r := fun r hr => scalar_of_mem_runes hr
  have hdecode := decodeMUTF7_encodeLoop .nil hscalar
  rw [List.nil_append, encodeRunes_runes h] at hdecode
  exact hdecode

def PrintableASCII (s : Bytes) : Prop := ∀ c ∈ s, 32 ≤ c.toNat ∧ c.toNat ≤ 126

theorem printableASCII_append : PrintableASCII (s ++ t) ↔ PrintableASCII s ∧ PrintableASCII t :=
  List.forall_mem_append

theorem printableASCII_flush : PrintableASCII (flush run) := by
  unfold flush
  split_ifs with hrun
  · exact fun c hc => absurd hc List.not_mem_nil
  intro c hc
  simp only [List.cons_append, List.mem_cons, List.mem_append, List.not_mem_nil, or_false] at hc
  rcases hc with rfl | hc | rfl
  · decide
  · exact (letters_printable (mem_letters_of_encode hc)).1
  · decide

theorem printableASCII_written (h : isPrintable r = true) : PrintableASCII (written r) := by
  unfold written
  split_ifs with hand
  · unfold PrintableASCII
    decide +kernel
  have hr := isPrintable_iff.mp h
  rw [encodeRune_ascii h]
  intro c hc
  rw [List.mem_singleton.mp hc, UInt8.toNat_ofNat_of_lt' (show r < 256 by omega)]
  exact hr

theorem printableASCII_encodeLoop (run rs : List Nat) : PrintableASCII (encodeLoop run rs) := by
  induction rs generalizing run with
  | nil => exact printableASCII_flush
  | cons r rs ih =>
    by_cases hplain : isPrintable r = true
    · rw [encodeLoop_printable hplain, printableASCII_append, printableASCII_append]
      exact ⟨⟨printableASCII_flush, printableASCII_written hplain⟩, ih []⟩
    · rw [encodeLoop, if_neg hplain]
      exact ih _

theorem encodeMUTF7_round_trip (h : validString name = true) :
    PrintableASCII (encodeMUTF7 name) ∧ decodeMUTF7 (encodeMUTF7 name) = some name ∧
      ∀ other, validString other = true → encodeMUTF7 other = encodeMUTF7 name → other = name := by
  refine ⟨printableASCII_encodeLoop _ _, decodeMUTF7_encodeMUTF7 h, fun other hother heq => ?_⟩
  have hdecode := decodeMUTF7_encodeMUTF7 hother
  rw [heq, decodeMUTF7_encodeMUTF7 h] at hdecode
  exact (Option.some.inj hdecode).symm

-- A letter beyond ASCII, the ampersand and a character that takes two units.
theorem encodeMUTF7_round_trip_mixed :
    validString [71, 0xC3, 0xB6, 38, 0xF0, 0x9F, 0x98, 0x80] = true ∧
      decodeMUTF7 (encodeMUTF7 [71, 0xC3, 0xB6, 38, 0xF0, 0x9F, 0x98, 0x80]) =
        some [71, 0xC3, 0xB6, 38, 0xF0, 0x9F, 0x98, 0x80] :=
  ⟨by decide, (encodeMUTF7_round_trip (by decide)).2.1⟩

end Encoding

section Canonical

variable {r : Nat} {rs waiting : List Nat} {c : UInt8} {enc name s t : Bytes}

-- Where a reader of a wire name stands: in text, right behind the start of a
-- shift, within one, behind one that was not empty, and there again right
-- behind the start of a shift.
inductive Place
  | text
  | opened
  | within
  | closed
  | reopened
  deriving DecidableEq, Repr

-- No shift stands right behind another. The two characters for an ampersand are
-- no shift.
def shiftsApart : Place → Bytes → Bool
  | _, [] => true
  | .text, c :: s => shiftsApart (if c = 38 then .opened else .text) s
  | .opened, c :: s => shiftsApart (if c = 45 then .text else .within) s
  | .within, c :: s => shiftsApart (if c = 45 then .closed else .within) s
  | .closed, c :: s => shiftsApart (if c = 38 then .reopened else .text) s
  | .reopened, c :: s => c = 45 && shiftsApart .text s

def Canonical (s : Bytes) : Prop := PrintableASCII s ∧ shiftsApart .text s = true

instance (s : Bytes) : Decidable (Canonical s) :=
  inferInstanceAs (Decidable ((∀ c ∈ s, 32 ≤ c.toNat ∧ c.toNat ≤ 126) ∧ shiftsApart .text s = true))

theorem shiftsApart_within (h : 45 ∉ enc) :
    shiftsApart .within (enc ++ 45 :: s) = shiftsApart .closed s := by
  induction enc with
  | nil => rfl
  | cons c enc ih =>
    rw [List.mem_cons, not_or] at h
    rw [List.cons_append, shiftsApart, if_neg (Ne.symm h.1), ih h.2]

theorem shiftsApart_shift (h : 45 ∉ enc) (hne : enc ≠ []) :
    shiftsApart .text (38 :: enc ++ 45 :: s) = shiftsApart .closed s := by
  obtain ⟨c, enc, rfl⟩ := List.exists_cons_of_ne_nil hne
  rw [List.mem_cons, not_or] at h
  rw [List.cons_append, List.cons_append, shiftsApart, if_pos rfl, shiftsApart, if_neg (Ne.symm h.1),
    shiftsApart_within h.2]

theorem shiftsApart_text_of_closed (h : shiftsApart .closed s = true) : shiftsApart .text s = true := by
  rcases s with _ | ⟨c, s⟩
  · rfl
  simp only [shiftsApart] at h ⊢
  split_ifs at h ⊢ with hc
  · cases s with
    | nil => rfl
    | cons d s =>
      simp only [shiftsApart, Bool.and_eq_true, decide_eq_true_eq] at h
      rw [shiftsApart, if_pos h.1]
      exact h.2
  · exact h

theorem shiftsApart_written {place : Place} (hplace : place = .text ∨ place = .closed)
    (h : isPrintable r = true) : shiftsApart place (written r ++ s) = shiftsApart .text s := by
  unfold written
  split_ifs with hand
  · rcases hplace with rfl | rfl <;> rfl
  have hr := isPrintable_iff.mp h
  have hne : UInt8.ofNat r ≠ 38 := by
    rw [Ne, UInt8.ofNat_eq_iff_mod_eq_toNat]
    change ¬ r % 256 = 38
    omega
  rw [encodeRune_ascii h, List.singleton_append]
  rcases hplace with rfl | rfl
  · rw [shiftsApart, if_neg hne]
  · rw [shiftsApart, if_neg hne]

theorem shiftsApart_encodeLoop (hwaiting : Shifted waiting) (h : ∀ r ∈ rs, Scalar r) :
    shiftsApart .text (encodeLoop (waiting.flatMap units) rs) = true := by
  induction rs generalizing waiting with
  | nil =>
    rcases waiting with _ | ⟨r, waiting⟩
    · rfl
    have hne := List.cons_ne_nil r waiting
    rw [encodeLoop, flush_units hne,
      shiftsApart_shift minus_notMem_shiftText (shiftText_ne_nil hwaiting hne)]
    rfl
  | cons r rs ih =>
    obtain ⟨hr, hrs⟩ := List.forall_mem_cons.mp h
    by_cases hplain : isPrintable r = true
    · have hrest := ih .nil hrs
      rw [encodeLoop_printable hplain, List.append_assoc]
      rcases waiting with _ | ⟨w, waiting⟩
      · exact (shiftsApart_written (.inl rfl) hplain).trans hrest
      have hne := List.cons_ne_nil w waiting
      rw [flush_units hne, List.append_assoc, List.singleton_append,
        shiftsApart_shift minus_notMem_shiftText (shiftText_ne_nil hwaiting hne),
        shiftsApart_written (.inr rfl) hplain]
      exact hrest
    · rw [Bool.not_eq_true] at hplain
      rw [encodeLoop_shifted _ hplain]
      exact ih (shifted_append.mpr ⟨hwaiting, .singleton hr hplain⟩) hrs

theorem not_shiftsApart_flush (hwaiting : Shifted waiting) (hne : waiting ≠ []) :
    shiftsApart .closed (flush (waiting.flatMap units) ++ s) = false := by
  obtain ⟨c, enc, henc⟩ := List.exists_cons_of_ne_nil (shiftText_ne_nil hwaiting hne)
  have hc : c ≠ 45 := by
    rintro rfl
    exact minus_notMem_shiftText (henc ▸ List.mem_cons_self)
  rw [flush_units hne, henc]
  simp only [List.cons_append, shiftsApart, if_pos, decide_eq_false hc, Bool.false_and]

-- While characters wait, a shift comes first.
theorem not_shiftsApart_waiting (hwaiting : Shifted waiting) (hne : waiting ≠ [])
    (h : ∀ r ∈ rs, Scalar r) :
    shiftsApart .closed (encodeLoop (waiting.flatMap units) rs) = false := by
  induction rs generalizing waiting with
  | nil =>
    rw [encodeLoop, ← List.append_nil (flush _)]
    exact not_shiftsApart_flush hwaiting hne
  | cons r rs ih =>
    obtain ⟨hr, hrs⟩ := List.forall_mem_cons.mp h
    by_cases hplain : isPrintable r = true
    · rw [encodeLoop_printable hplain, List.append_assoc]
      exact not_shiftsApart_flush hwaiting hne
    · rw [Bool.not_eq_true] at hplain
      rw [encodeLoop_shifted _ hplain]
      exact ih (shifted_append.mpr ⟨hwaiting, .singleton hr hplain⟩) (by simp) hrs

theorem encodeLoop_shifted_append (waiting : List Nat) (h : Shifted rs) (name : List Nat) :
    encodeLoop (waiting.flatMap units) (rs ++ name) =
      encodeLoop ((waiting ++ rs).flatMap units) name := by
  induction rs generalizing waiting with
  | nil => rw [List.nil_append, List.append_nil]
  | cons r rs ih =>
    obtain ⟨⟨-, hplain⟩, hrs⟩ := shifted_cons.mp h
    rw [List.cons_append, encodeLoop_shifted _ hplain, ih _ hrs, List.append_assoc,
      List.singleton_append]

-- Where no shift comes first, the characters that wait are one shift of their own.
theorem encodeLoop_waiting {name : List Nat} (h : ∀ r ∈ name, Scalar r)
    (happart : shiftsApart .closed (encodeLoop [] name) = true) (run : List Nat) :
    encodeLoop run name = flush run ++ encodeLoop [] name := by
  rcases name with _ | ⟨r, name⟩
  · simp [encodeLoop, flush]
  obtain ⟨hr, hname⟩ := List.forall_mem_cons.mp h
  by_cases hplain : isPrintable r = true
  · rw [encodeLoop_printable hplain, encodeLoop_printable hplain, List.append_assoc]
    rfl
  rw [Bool.not_eq_true] at hplain
  have hfirst : encodeLoop [] (r :: name) = encodeLoop ([r].flatMap units) name :=
    encodeLoop_shifted [] hplain
  rw [hfirst, not_shiftsApart_waiting (.singleton hr hplain) (List.cons_ne_nil _ _) hname]
    at happart
  cases happart

theorem forall_scalar_append (h : Shifted rs) {name : List Nat} (hname : ∀ r ∈ name, Scalar r) :
    ∀ r ∈ rs ++ name, Scalar r :=
  List.forall_mem_append.mpr ⟨fun r hr => (h r hr).1, hname⟩

-- By induction on the length of the name, one piece at a time.
theorem encodeLoop_of_decodeMUTF7 (hprintable : PrintableASCII s) (happart : shiftsApart .text s = true)
    (h : decodeMUTF7 s = some t) :
    ∃ name, (∀ r ∈ name, Scalar r) ∧ t = encodeRunes name ∧ encodeLoop [] name = s := by
  induction hlength : s.length using Nat.strong_induction_on generalizing s t with
  | _ n ih =>
    cases s with
    | nil =>
      cases h
      exact ⟨[], by simp, rfl, rfl⟩
    | cons c s =>
      have ⟨hc, hs⟩ := List.forall_mem_cons.mp hprintable
      by_cases hshift : c = 38
      · subst hshift
        have hmem : 45 ∈ s := by
          by_contra hmem
          rw [decodeMUTF7_cons, decodePiece, if_neg hmem] at h
          cases h
        obtain ⟨enc, s, rfl, henc⟩ := List.eq_append_cons_of_mem hmem
        obtain ⟨hinside, hclosed⟩ := List.forall_mem_append.mp hs
        obtain ⟨-, hrest⟩ := List.forall_mem_cons.mp hclosed
        have hshorter : s.length < n := by
          rw [← hlength]
          simp only [List.length_cons, List.length_append]
          omega
        rw [← List.cons_append] at h happart ⊢
        rw [decodeMUTF7_shift henc] at h
        obtain ⟨text, htext, h⟩ := Option.bind_eq_some_iff.mp h
        obtain ⟨t, ht, rfl⟩ := Option.map_eq_some_iff.mp h
        by_cases hempty : enc = []
        · subst hempty
          cases htext
          obtain ⟨name, hname, rfl, rfl⟩ := ih _ hshorter (s := s) hrest happart ht rfl
          exact ⟨38 :: name, List.forall_mem_cons.mpr ⟨.inl (by decide), hname⟩, rfl, rfl⟩
        · rw [shiftsApart_shift henc hempty] at happart
          have hbreak : ∀ c ∈ enc, c ≠ 13 ∧ c ≠ 10 := by
            intro c hc
            have := hinside c hc
            constructor <;> rintro rfl <;> simp at this
          obtain ⟨rs, hrs, hne, rfl, rfl⟩ := shiftText_of_decodeShift hempty hbreak htext
          obtain ⟨name, hname, rfl, rfl⟩ :=
            ih _ hshorter (s := s) hrest (shiftsApart_text_of_closed happart) ht rfl
          refine ⟨rs ++ name, forall_scalar_append hrs hname, encodeRunes_append.symm, ?_⟩
          have hfirst : encodeLoop [] (rs ++ name) = encodeLoop (rs.flatMap units) name :=
            encodeLoop_shifted_append [] hrs name
          rw [hfirst, encodeLoop_waiting hname happart, flush_units hne, List.append_assoc,
            List.singleton_append]
      · rw [decodeMUTF7_ascii (by omega) hshift] at h
        obtain ⟨t, ht, rfl⟩ := Option.map_eq_some_iff.mp h
        rw [shiftsApart, if_neg hshift] at happart
        obtain ⟨name, hname, rfl, rfl⟩ := ih _ (by rw [← hlength]; simp) hs happart ht rfl
        have hplain : isPrintable c.toNat = true := isPrintable_iff.mpr hc
        have hself : encodeRune c.toNat = [c] := by rw [encodeRune_ascii hplain, UInt8.ofNat_toNat]
        refine ⟨c.toNat :: name, List.forall_mem_cons.mpr ⟨.inl (by omega), hname⟩, ?_, ?_⟩
        · rw [encodeRunes_cons, hself]
          rfl
        · have hne : c.toNat ≠ 38 := fun heq => hshift (UInt8.toNat_inj.mp heq)
          rw [encodeLoop_printable hplain, written, if_neg hne, hself]
          rfl

theorem canonical_encodeMUTF7 : Canonical (encodeMUTF7 name) :=
  ⟨printableASCII_encodeLoop _ _,
    shiftsApart_encodeLoop .nil fun _ hr => scalar_of_mem_runes hr⟩

-- Two shifts that stand for one letter each are read as one name with the shift
-- that stands for both.
theorem decodeMUTF7_ambiguous :
    decodeMUTF7 (bytes "&AOk-&AOk-") = some [0xC3, 0xA9, 0xC3, 0xA9] ∧
      decodeMUTF7 (bytes "&AOkA6Q-") = some [0xC3, 0xA9, 0xC3, 0xA9] ∧
      encodeMUTF7 [0xC3, 0xA9, 0xC3, 0xA9] ≠ bytes "&AOk-&AOk-" := by
  decide

-- An accepted name is the one its mailbox is shown under exactly if it is
-- printable and no shift follows another; so such names are told apart.
theorem encodeMUTF7_decodeMUTF7_iff (h : decodeMUTF7 s = some name) :
    (encodeMUTF7 name = s ↔ Canonical s) ∧
      ∀ other, Canonical s → Canonical other → decodeMUTF7 other = some name → other = s := by
  have hwire : ∀ s, decodeMUTF7 s = some name → Canonical s → encodeMUTF7 name = s := by
    rintro s h ⟨hprintable, happart⟩
    obtain ⟨rs, hrs, rfl, rfl⟩ := encodeLoop_of_decodeMUTF7 hprintable happart h
    rw [encodeMUTF7, runes_encodeRunes hrs]
  refine ⟨⟨fun heq => heq ▸ canonical_encodeMUTF7, hwire s h⟩, fun other hs hother hdecode => ?_⟩
  rw [← hwire other hdecode hother, hwire s h hs]

theorem encodeMUTF7_decodeMUTF7_iff_letter :
    decodeMUTF7 (bytes "a&AOk-&-") = some [97, 0xC3, 0xA9, 38] ∧
      encodeMUTF7 [97, 0xC3, 0xA9, 38] = bytes "a&AOk-&-" :=
  ⟨by decide +kernel, (encodeMUTF7_decodeMUTF7_iff (by decide +kernel)).1.mpr (by decide +kernel)⟩

end Canonical

end UMail.Imap
