import UMail.Storage.MessageStore
import Mathlib.Tactic.IntervalCases
import Mathlib.Data.List.Forall2

namespace UMail.Imap

variable {s : Bytes} {n : UInt32}

open Text (isDigit trimSpace)
open UMail.Storage

def comma : UInt8 := 44

def star : UInt8 := 42

structure SeqRange where
  first : UInt32
  last : UInt32
  deriving DecidableEq, Repr

inductive SeqError
  | invalidSequenceSet (set : Bytes)
  | invalidRange (part : Bytes)
  | invalidSequenceNumber (s : Bytes)
  deriving DecidableEq, Repr

def SeqError.text : SeqError → Bytes
  | .invalidSequenceSet set => bytes "invalid sequence set: " ++ set
  | .invalidRange part => bytes "invalid range: " ++ part
  | .invalidSequenceNumber s => bytes "invalid sequence number: " ++ s

def parseDigits : Nat → Bytes → Option Nat
  | value, [] => some value
  | value, c :: rest =>
    if isDigit c then parseDigits (value * 10 + (c.toNat - 48)) rest else none

-- strconv.ParseUint in base 10 with 32 bits.
def parseUint32 (s : Bytes) : Option Nat :=
  if s = [] then none else (parseDigits 0 s).filter (· < 2 ^ 32)

def parseSeqNumber (s : Bytes) : Except SeqError UInt32 :=
  if s = [star] then .ok 0
  else match parseUint32 s with
    | some n => if n = 0 then .error (.invalidSequenceNumber s) else .ok (UInt32.ofNat n)
    | none => .error (.invalidSequenceNumber s)

def parsePart (part : Bytes) : Except SeqError SeqRange :=
  if part.contains colon then
    match part.splitOn colon with
    | [first, last] => do
      let first ← parseSeqNumber first
      let last ← parseSeqNumber last
      .ok ⟨first, last⟩
    | _ => .error (.invalidRange part)
  else do
    let num ← parseSeqNumber part
    .ok ⟨num, num⟩

def parseParts (set : Bytes) (single : Bool) : List Bytes → Except SeqError (List SeqRange)
  | [] => .ok []
  | part :: rest =>
    let part := trimSpace part
    if part = [] then if single then .ok [] else .error (.invalidSequenceSet set)
    else do
      let range ← parsePart part
      let ranges ← parseParts set single rest
      .ok (range :: ranges)

def parseSequenceSet (set : Bytes) : Except SeqError (List SeqRange) :=
  let parts := set.splitOn comma
  parseParts set (parts.length = 1) parts

def SeqRange.contains (r : SeqRange) (seqNum maxSeq : UInt32) : Bool :=
  let first := if r.first = 0 then maxSeq else r.first
  let last := if r.last = 0 then maxSeq else r.last
  if first > last then seqNum ≥ last && seqNum ≤ first else seqNum ≥ first && seqNum ≤ last

def inRanges (ranges : List SeqRange) (seqNum maxSeq : UInt32) : Bool :=
  ranges.any fun r => r.contains seqNum maxSeq

def digit (n : Nat) : UInt8 := UInt8.ofNat (48 + n)

def formatLoop : Nat → Nat → Bytes → Bytes
  | 0, _, tail => tail
  | fuel + 1, n, tail =>
    if n < 10 then digit n :: tail else formatLoop fuel (n / 10) (digit (n % 10) :: tail)

-- strconv.FormatUint in base 10. A 64 bit number has at most 20 digits.
def formatUint (n : UInt32) : Bytes := formatLoop 20 n.toNat []

def joinComma (parts : List Bytes) : Bytes := [comma].intercalate parts

example : parseSequenceSet (bytes "1:5, 7,9:*") = .ok [⟨1, 5⟩, ⟨7, 7⟩, ⟨9, 0⟩] := by decide

theorem isDigit_digit {n : Nat} (h : n < 10) : isDigit (digit n) = true := by
  interval_cases n <;> decide

theorem digit_toNat {n : Nat} (h : n < 10) : (digit n).toNat - 48 = n := by
  interval_cases n <;> decide

-- Reading the digits of a number in front of a text puts the number in front.
theorem parseDigits_formatLoop (fuel n : Nat) (tail : Bytes) (h : n < 10 ^ fuel) :
    parseDigits 0 (formatLoop fuel n tail) = parseDigits n tail := by
  induction fuel generalizing n tail with
  | zero =>
    obtain rfl : n = 0 := by simpa using h
    rfl
  | succ fuel ih =>
    unfold formatLoop
    split_ifs with hn
    · simp only [parseDigits, isDigit_digit hn, digit_toNat hn, if_true, Nat.zero_mul, Nat.zero_add]
    have hd : n % 10 < 10 := Nat.mod_lt _ (by decide)
    rw [ih (n / 10) _ (by rw [pow_succ] at h; omega)]
    simp only [parseDigits, isDigit_digit hd, digit_toNat hd, if_true]
    rw [Nat.div_add_mod']

theorem formatLoop_digits (fuel n : Nat) (tail : Bytes) (h : ∀ c ∈ tail, isDigit c = true) :
    ∀ c ∈ formatLoop fuel n tail, isDigit c = true := by
  induction fuel generalizing n tail with
  | zero => exact h
  | succ fuel ih =>
    unfold formatLoop
    split_ifs with hn
    · exact List.forall_mem_cons.mpr ⟨isDigit_digit hn, h⟩
    · exact ih _ _ (List.forall_mem_cons.mpr ⟨isDigit_digit (Nat.mod_lt _ (by decide)), h⟩)

theorem formatUint_digits (n : UInt32) : ∀ c ∈ formatUint n, isDigit c = true :=
  formatLoop_digits 20 n.toNat [] (by simp)

theorem parseDigits_formatUint (n : UInt32) : parseDigits 0 (formatUint n) = some n.toNat :=
  parseDigits_formatLoop 20 n.toNat [] (Nat.lt_trans n.toNat_lt (by decide))

theorem formatLoop_ne_nil {fuel n : Nat} {tail : Bytes} (h : fuel ≠ 0 ∨ tail ≠ []) :
    formatLoop fuel n tail ≠ [] := by
  induction fuel generalizing n tail with
  | zero => exact h.resolve_left fun hzero => hzero rfl
  | succ fuel ih =>
    unfold formatLoop
    split_ifs
    · exact List.cons_ne_nil _ _
    · exact ih (.inr (List.cons_ne_nil _ _))

theorem formatUint_ne_nil (n : UInt32) : formatUint n ≠ [] := formatLoop_ne_nil (.inl (by decide))

theorem notMem_formatUint {c : UInt8} (hc : isDigit c = false) (n : UInt32) : c ∉ formatUint n := by
  intro hmem
  have hdigit := formatUint_digits n c hmem
  rw [hc] at hdigit
  cases hdigit

theorem trimSpace_of_ends (hhead : ∀ c ∈ s.head?, isDigit c = true)
    (hlast : ∀ c ∈ s.getLast?, isDigit c = true) : trimSpace s = s := by
  have hgraphic : ∀ c : UInt8, isDigit c = true → 32 < c ∧ c < 127 := by
    intro c hc
    simp only [isDigit, Bool.and_eq_true, decide_eq_true_eq] at hc
    exact ⟨UInt8.lt_of_lt_of_le (by decide) hc.1, UInt8.lt_of_le_of_lt hc.2 (by decide)⟩
  have h : trimSpace ([] ++ s ++ []) = s := Text.trimSpace_append .nil .nil
    (Text.not_space_start fun c hc => hgraphic c (hhead c hc))
    (Text.not_space_end fun c hc => hgraphic c (hlast c hc))
  simpa using h

theorem parseSeqNumber_formatUint (hn : n ≠ 0) : parseSeqNumber (formatUint n) = .ok n := by
  have hstar : formatUint n ≠ [star] := by
    intro he
    exact notMem_formatUint (by decide) n (he ▸ List.mem_singleton_self star)
  have hnat : n.toNat ≠ 0 := fun h => hn (UInt32.toNat_inj.mp h)
  have hparse : parseUint32 (formatUint n) = some n.toNat := by
    rw [parseUint32, if_neg (formatUint_ne_nil n), parseDigits_formatUint]
    simpa using n.toNat_lt
  simp [parseSeqNumber, hstar, hparse, hnat]

-- A part that stands in a set as it is, and what it is read as.
structure ReadsAs (part : Bytes) (range : SeqRange) : Prop where
  notMem : comma ∉ part
  ne_nil : part ≠ []
  trimmed : trimSpace part = part
  parsed : parsePart part = .ok range

theorem readsAs_formatUint (hn : n ≠ 0) : ReadsAs (formatUint n) ⟨n, n⟩ where
  notMem := notMem_formatUint (by decide) n
  ne_nil := formatUint_ne_nil n
  trimmed := trimSpace_of_ends (fun c hc => formatUint_digits n c (List.mem_of_mem_head? hc))
    fun c hc => formatUint_digits n c (List.mem_of_getLast? hc)
  parsed := by
    have hcolon : colon ∉ formatUint n := notMem_formatUint (by decide) n
    simp [parsePart, hcolon, parseSeqNumber_formatUint hn, Except.bind, bind]

variable {parts : List Bytes} {ranges : List SeqRange}

theorem parseParts_of_readsAs (h : List.Forall₂ ReadsAs parts ranges) (set : Bytes) (single : Bool) :
    parseParts set single parts = .ok ranges := by
  induction h with
  | nil => rfl
  | cons hpart _ ih =>
    simp [parseParts, hpart.trimmed, hpart.ne_nil, hpart.parsed, ih, bind, Except.bind]

-- Parts that are joined by commas are read one by one.
theorem parseSequenceSet_of_readsAs (h : List.Forall₂ ReadsAs parts ranges) :
    parseSequenceSet (joinComma parts) = .ok ranges := by
  cases parts with
  | nil =>
    obtain rfl := List.forall₂_nil_left_iff.mp h
    decide
  | cons part parts =>
    have hcommas : ∀ other ∈ part :: parts, comma ∉ other := by
      intro other hother
      obtain ⟨i, hi, rfl⟩ := List.getElem_of_mem hother
      exact ((List.forall₂_iff_get.mp h).2 i hi (h.length_eq ▸ hi)).notMem
    have hsplit : (joinComma (part :: parts)).splitOn comma = part :: parts :=
      List.splitOn_intercalate comma hcommas (by simp)
    unfold parseSequenceSet
    rw [hsplit]
    exact parseParts_of_readsAs h _ _

-- The list of numbers a session builds is read back as those numbers.
theorem parseSequenceSet_joinComma (seqs : List UInt32) (h : ∀ n ∈ seqs, n ≠ 0) :
    parseSequenceSet (joinComma (seqs.map formatUint)) = .ok (seqs.map fun n => ⟨n, n⟩) := by
  refine parseSequenceSet_of_readsAs ?_
  rw [List.forall₂_map_left_iff, List.forall₂_map_right_iff, List.forall₂_same]
  exact fun n hn => readsAs_formatUint (h n hn)

end UMail.Imap
