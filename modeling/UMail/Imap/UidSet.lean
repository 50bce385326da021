import UMail.Imap.SequenceSet

namespace UMail.Imap

open UMail.Storage

def writeRun (b : Bytes) (first last : UInt32) (more : Bool) : Bytes :=
  (if b.length > 0 then b ++ [comma] else b) ++
    if more then formatUint first ++ colon :: formatUint last else formatUint first

-- The inner loop takes the next UID into the run. When it ends, the run is
-- written, and the next one begins.
def uidSetLoop (b : Bytes) (first last : UInt32) (more : Bool) : List UInt32 → Bytes
  | [] => writeRun b first last more
  | uid :: rest =>
    if uid = last + 1 then uidSetLoop b first uid true rest
    else uidSetLoop (writeRun b first last more) uid uid false rest

def uidSetString : List UInt32 → Bytes
  | [] => []
  | first :: rest => uidSetLoop [] first first false rest

-- The UIDs of a range, as a client counts them.
def SeqRange.numbers (r : SeqRange) : List UInt32 :=
  (List.range' r.first.toNat (r.last.toNat + 1 - r.first.toNat)).map UInt32.ofNat

structure Ascends (r : SeqRange) : Prop where
  first : r.first ≠ 0
  last : r.last ≠ 0
  le : r.first.toNat ≤ r.last.toNat

variable {first last : UInt32} {more : Bool} {rest : List UInt32}

theorem numbers_self (n : UInt32) : (⟨n, n⟩ : SeqRange).numbers = [n] := by simp [SeqRange.numbers]

theorem Ascends.numbers_concat (h : Ascends ⟨first, last⟩) (hnext : last + 1 ≠ 0) :
    (⟨first, last + 1⟩ : SeqRange).numbers = (⟨first, last⟩ : SeqRange).numbers ++ [last + 1] ∧
      Ascends ⟨first, last + 1⟩ := by
  have hle : first.toNat ≤ last.toNat := h.le
  have hsucc : (last + 1).toNat = last.toNat + 1 := by
    have hzero : (last + 1).toNat ≠ 0 := fun h0 => hnext (UInt32.toNat_inj.mp h0)
    have hlt := last.toNat_lt
    rw [UInt32.toNat_add, UInt32.toNat_one] at hzero ⊢
    omega
  have hlast : UInt32.ofNat (last.toNat + 1) = last + 1 := by rw [← hsucc, UInt32.ofNat_toNat]
  refine ⟨?_, h.first, hnext, by dsimp only; omega⟩
  have hend : first.toNat + 1 * (last.toNat + 1 - first.toNat) = last.toNat + 1 := by omega
  simp only [SeqRange.numbers, hsucc, Nat.succ_sub (Nat.le_succ_of_le hle), List.range'_concat, hend,
    List.map_append, List.map_singleton, hlast]

theorem Ascends.contains_iff {r : SeqRange} (h : Ascends r) (u maxSeq : UInt32) :
    r.contains u maxSeq = true ↔ u ∈ r.numbers := by
  have hle := h.le
  have hlt := r.last.toNat_lt
  have hmem : u ∈ r.numbers ↔ r.first.toNat ≤ u.toNat ∧ u.toNat ≤ r.last.toNat := by
    simp only [SeqRange.numbers, List.mem_map, List.mem_range'_1]
    constructor
    · rintro ⟨i, hi, rfl⟩
      rw [UInt32.toNat_ofNat_of_lt' (by change i < 2 ^ 32; omega)]
      omega
    · intro hu
      exact ⟨u.toNat, by omega, UInt32.ofNat_toNat⟩
  simp only [hmem, SeqRange.contains, if_neg h.first, if_neg h.last, gt_iff_lt, UInt32.lt_iff_toNat_lt,
    Nat.not_lt.mpr hle, if_false, Bool.and_eq_true, decide_eq_true_eq, ge_iff_le, UInt32.le_iff_toNat_le]

theorem readsAs_writeRun (h : Ascends ⟨first, last⟩) (hmore : more = false → first = last) :
    ReadsAs (writeRun [] first last more) ⟨first, last⟩ := by
  cases more with
  | false =>
    obtain rfl := hmore rfl
    exact readsAs_formatUint h.first
  | true =>
    change ReadsAs (formatUint first ++ colon :: formatUint last) _
    have hcomma := @notMem_formatUint comma (by decide)
    have hcolon := @notMem_formatUint colon (by decide)
    have hsplit : ([colon].intercalate [formatUint first, formatUint last]).splitOn colon = _ :=
      List.splitOn_intercalate colon (by simp [hcolon]) (by simp)
    rw [List.intercalate_cons_cons, List.intercalate_singleton, List.append_assoc,
      List.singleton_append] at hsplit
    refine ⟨?_, by simp, trimSpace_of_ends (fun c hc => ?_) fun c hc => ?_, ?_⟩
    · simp [hcomma, show comma ≠ colon by decide]
    · rw [List.head?_append_of_ne_nil _ (formatUint_ne_nil first)] at hc
      exact formatUint_digits first c (List.mem_of_mem_head? hc)
    · rw [List.getLast?_append_cons, List.getLast?_cons_of_ne_nil (formatUint_ne_nil last)] at hc
      exact formatUint_digits last c (List.mem_of_getLast? hc)
    · simp [parsePart, hsplit, parseSeqNumber_formatUint h.first, parseSeqNumber_formatUint h.last,
        bind, Except.bind]

theorem uidSetLoop_append {b : Bytes} (hb : b ≠ []) :
    uidSetLoop b first last more rest = b ++ comma :: uidSetLoop [] first last more rest := by
  have hwrite : ∀ {b : Bytes}, b ≠ [] → ∀ first last more, writeRun b first last more =
      b ++ comma :: writeRun [] first last more := by
    intro b hb first last more
    simp [writeRun, List.length_pos_iff.mpr hb]
  have hne : ∀ b first last more, writeRun b first last more ≠ [] := by
    intro b first last more
    cases more <;> simp [writeRun, formatUint_ne_nil]
  induction rest generalizing b first last more with
  | nil => exact hwrite hb _ _ _
  | cons uid rest ih =>
    unfold uidSetLoop
    split_ifs
    · exact ih hb
    · rw [ih (hne _ _ _ _), hwrite hb, ih (hne [] _ _ _)]
      simp

-- By induction on the UIDs behind the run that is open.
theorem uidSetLoop_readsAs (h : Ascends ⟨first, last⟩) (hmore : more = false → first = last)
    (hrest : ∀ u ∈ rest, u ≠ 0) :
    ∃ part parts ranges, uidSetLoop [] first last more rest = joinComma (part :: parts) ∧
      List.Forall₂ ReadsAs (part :: parts) ranges ∧ (∀ r ∈ ranges, Ascends r) ∧
      ranges.flatMap SeqRange.numbers = (⟨first, last⟩ : SeqRange).numbers ++ rest := by
  induction rest generalizing first last more with
  | nil =>
    exact ⟨_, [], [⟨first, last⟩], by simp [joinComma, uidSetLoop], .cons (readsAs_writeRun h hmore) .nil,
      by simpa, by simp⟩
  | cons uid rest ih =>
    obtain ⟨huid, htail⟩ := List.forall_mem_cons.mp hrest
    unfold uidSetLoop
    split_ifs with hnext
    · subst hnext
      obtain ⟨hnumbers, hascends⟩ := h.numbers_concat huid
      simpa [hnumbers] using @ih first (last + 1) true hascends (by simp) htail
    · have hpart := readsAs_writeRun h hmore
      obtain ⟨part, parts, ranges, htext, hreads, hranges, hnumbers⟩ :=
        @ih uid uid false ⟨huid, huid, Nat.le_refl _⟩ (fun _ => rfl) htail
      refine ⟨_, part :: parts, ⟨first, last⟩ :: ranges, ?_, .cons hpart hreads,
        List.forall_mem_cons.mpr ⟨h, hranges⟩, ?_⟩
      · rw [uidSetLoop_append hpart.ne_nil, htext]
        simp [joinComma]
      · rw [List.flatMap_cons, hnumbers, numbers_self, List.singleton_append]

-- What is printed for UIDs is read back as these UIDs in their order, so the two
-- sets of a COPYUID response pair what the lists pair, and a UID is in what is
-- printed exactly when it was in the list.
theorem uidSetString_exact {uids : List UInt32} (h : ∀ u ∈ uids, u ≠ 0) :
    ∃ ranges, parseSequenceSet (uidSetString uids) = .ok ranges ∧
      ranges.flatMap SeqRange.numbers = uids ∧
      ∀ u maxSeq, inRanges ranges u maxSeq = true ↔ u ∈ uids := by
  rcases uids with _ | ⟨first, rest⟩
  · exact ⟨[], by decide, rfl, by simp [inRanges]⟩
  obtain ⟨hfirst, hrest⟩ := List.forall_mem_cons.mp h
  obtain ⟨part, parts, ranges, htext, hreads, hranges, hnumbers⟩ :=
    @uidSetLoop_readsAs first first false rest ⟨hfirst, hfirst, Nat.le_refl _⟩ (fun _ => rfl) hrest
  rw [numbers_self, List.singleton_append] at hnumbers
  refine ⟨ranges, ?_, hnumbers, fun u maxSeq => ?_⟩
  · rw [uidSetString, htext]
    exact parseSequenceSet_of_readsAs hreads
  · rw [inRanges, List.any_eq_true, ← hnumbers, List.mem_flatMap]
    exact exists_congr fun r => and_congr_right fun hr => (hranges r hr).contains_iff u maxSeq

theorem uidSetString_exact_run : uidSetString [1, 2, 3, 7] = bytes "1:3,7" ∧
    ∃ ranges, parseSequenceSet (uidSetString [1, 2, 3, 7]) = .ok ranges ∧
      ranges.flatMap SeqRange.numbers = [1, 2, 3, 7] := by
  obtain ⟨ranges, hparse, hnumbers, _⟩ := @uidSetString_exact [1, 2, 3, 7] (by simp)
  exact ⟨by decide, ranges, hparse, hnumbers⟩

end UMail.Imap
