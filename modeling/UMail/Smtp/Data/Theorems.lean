import UMail.Smtp.Data
import Mathlib.Order.Basic
import Mathlib.Tactic.Common

namespace UMail.Smtp

open Buffered (Reader Flowing Later readSlice readSlice_none sliceLoop_some)
open Lines (crlf)
open Separator (append_separator_inj head_of_notMem)
open UMail.Storage (Bytes)

def Piece (piece : Bytes) : Prop := ∃ text, 10 ∉ text ∧ piece = text ++ [10]

def endsCRLF (piece : Bytes) : Bool := piece.dropLast.getLast? = some 13

def bounded (keep : Nat) (piece : Bytes) : BoundedLine :=
  ⟨piece.take keep, piece.length, endsCRLF piece⟩

section Reading

variable {keep fuel : Nat} {r : Reader UInt8} {text rest : Bytes}

theorem take_append_take (done chunk : Bytes) :
    done.take keep ++ chunk.take (keep - (done.take keep).length) = (done ++ chunk).take keep := by
  rw [List.take_append, List.length_take]
  congr 2
  omega

-- The byte in front of the line end is in the last slice, or it ended the one
-- before.
theorem endsCRLF_slice (done text : Bytes) :
    ((2 ≤ (text ++ [10]).length && (text ++ [10]).getD ((text ++ [10]).length - 2) 0 = 13) ||
      ((text ++ [10]).length = 1 && done.getLastD 0 = 13)) =
    endsCRLF (done ++ text ++ [10]) := by
  rw [endsCRLF]
  rcases List.eq_nil_or_concat text with rfl | ⟨text, c, rfl⟩
  · rcases List.eq_nil_or_concat done with rfl | ⟨done, d, rfl⟩
    · simp
    · simp
  · simp

-- By induction on the slices that are still to come.
theorem boundedLoop_spec (done : Bytes) (hflow : Flowing r) (hfuel : r.stream.length < fuel)
    (hstream : r.stream = text ++ 10 :: rest) (htext : 10 ∉ text) :
    ∃ r', boundedLoop keep fuel r (done.take keep) done.length (done.getLastD 0) =
        some (bounded keep (done ++ text ++ [10]), r') ∧ r'.stream = rest ∧ Later r r' := by
  induction fuel generalizing r done text with
  | zero => exact absurd hfuel (Nat.not_lt_zero _)
  | succ fuel ih =>
    cases hslice : readSlice 10 r with
    | none =>
      have hmem := readSlice_none hflow hslice
      rw [hstream] at hmem
      simp at hmem
    | some slice =>
      obtain ⟨hsplit, hne, hlater, hcomplete, hpart⟩ := sliceLoop_some hflow hslice
      rw [boundedLoop, hslice, Option.bind_some]
      rw [take_append_take]
      by_cases hend : slice.complete = true
      · obtain ⟨text', htext', hchunk⟩ := hcomplete hend
        have hcut : text' ++ 10 :: slice.reader.stream = text ++ 10 :: rest := by
          rw [← hstream, hsplit, hchunk, List.append_assoc, List.singleton_append]
        obtain ⟨rfl, rfl⟩ := append_separator_inj htext' htext hcut
        refine ⟨slice.reader, ?_, rfl, hlater⟩
        rw [if_pos hend, hchunk, endsCRLF_slice, bounded, ← List.append_assoc]
        simp only [List.length_append, Nat.add_assoc]
      · rw [Bool.not_eq_true] at hend
        obtain ⟨tail, rfl, hrest⟩ := head_of_notMem (hpart hend) (hsplit.symm.trans hstream)
        have hshorter : slice.reader.stream.length < fuel := by
          have := List.length_pos_of_ne_nil hne
          rw [hsplit, List.length_append] at hfuel
          omega
        have hlast : (done ++ slice.chunk).getLastD 0 = slice.chunk.getLastD 0 := by
          simp [List.getLast?_append_of_ne_nil _ hne]
        obtain ⟨r', hloop, hr', hlater'⟩ :=
          ih (done ++ slice.chunk) hlater.flowing hshorter hrest
            fun h => htext (List.mem_append_right _ h)
        refine ⟨r', ?_, hr', hlater.trans hlater'⟩
        rw [if_neg (Bool.not_eq_true _ ▸ hend), ← List.length_append, ← hlast, ← List.append_assoc]
        exact hloop

theorem readBoundedLine_spec (hflow : Flowing r) (hstream : r.stream = text ++ 10 :: rest)
    (htext : 10 ∉ text) :
    ∃ r', readBoundedLine keep r = some (bounded keep (text ++ [10]), r') ∧ r'.stream = rest ∧
      Later r r' := by
  obtain ⟨r', hloop, hrest, hlater⟩ := boundedLoop_spec [] hflow (Nat.lt_succ_self _) hstream htext
  rw [List.take_nil] at hloop
  exact ⟨r', hloop, hrest, hlater⟩

theorem boundedLoop_none {line : Bytes} {total : Nat} {prev : UInt8} (hflow : Flowing r)
    (hstream : 10 ∉ r.stream) : boundedLoop keep fuel r line total prev = none := by
  induction fuel generalizing r line total prev with
  | zero => rfl
  | succ fuel ih =>
    rw [boundedLoop]
    rcases hslice : readSlice 10 r with _ | slice
    · rfl
    obtain ⟨hsplit, hne, hlater, hcomplete, hpart⟩ := sliceLoop_some hflow hslice
    rw [hsplit, List.mem_append, not_or] at hstream
    rw [Option.bind_some]
    rw [if_neg fun hend => ?_]
    · exact ih hlater.flowing hstream.2
    · obtain ⟨text, -, hchunk⟩ := hcomplete hend
      exact hstream.1 (hchunk ▸ List.mem_append_right _ List.mem_cons_self)

end Reading

def dotCRLF : Bytes := [46, 13, 10]

-- Data ends with a dot between two line ends. At the very start it needs no line
-- end in front.
def EndsData (atLineStart : Bool) (data : Bytes) : Prop :=
  (atLineStart = true ∧ data = dotCRLF) ∨ crlf ++ dotCRLF <:+ data

structure FirstEnd (atLineStart : Bool) (stream data : Bytes) : Prop where
  beginning : data <+: stream
  ends : EndsData atLineStart data
  first : ∀ other, other <+: stream → EndsData atLineStart other → data.length ≤ other.length

section Framing

variable {atLineStart : Bool} {piece text rest data : Bytes}

theorem endsData_reversed {text : Bytes} (h : 10 ∉ text) (q : Bytes) :
    [10, 13, 46, 10, 13] <+: q ++ 10 :: text ↔
      (text.head? = some 13 ∧ q = [10, 13, 46]) ∨ [10, 13, 46, 10, 13] <+: q := by
  match q with
  | [] =>
    simp only [List.nil_append, List.cons_prefix_cons, List.prefix_nil, true_and, reduceCtorEq,
      and_false, or_self, iff_false]
    exact fun hstarts => h (hstarts.subset (by simp))
  | [a] => simp
  | [a, b] => simp
  | [a, b, c] =>
    have hhead : [13] <+: text ↔ text.head? = some 13 := by
      cases text <;> simp [eq_comm]
    simp only [List.cons_append, List.nil_append, List.cons_prefix_cons, hhead, true_and]
    constructor
    · rintro ⟨rfl, rfl, rfl, h⟩
      exact .inl ⟨h, rfl⟩
    · rintro (⟨h, habc⟩ | ⟨-, -, -, hnil⟩)
      · cases habc
        exact ⟨rfl, rfl, rfl, h⟩
      · cases List.prefix_nil.mp hnil
  | [a, b, c, d] => simp
  | a :: b :: c :: d :: e :: q => simp

-- An end that starts in a line takes the end of that line.
theorem suffix_append_piece (h : 10 ∉ text) (q : Bytes) :
    crlf ++ dotCRLF <:+ text ++ [10] ++ q ↔
      (text.getLast? = some 13 ∧ q = dotCRLF) ∨ crlf ++ dotCRLF <:+ q := by
  have hq : q = dotCRLF ↔ q.reverse = [10, 13, 46] := by
    rw [← List.reverse_inj]
    rfl
  have hreversed := endsData_reversed (fun hmem => h (List.mem_reverse.mp hmem)) q.reverse
  have hends : (crlf ++ dotCRLF).reverse = [10, 13, 46, 10, 13] := rfl
  have htext : (text ++ [10] ++ q).reverse = q.reverse ++ 10 :: text.reverse := by simp
  rw [← List.reverse_prefix, ← List.reverse_prefix, List.getLast?_eq_head?_reverse, hq, htext]
  exact hreversed

theorem endsData_piece_append (hpiece : Piece piece) (hend : ¬ (atLineStart = true ∧ piece = dotCRLF))
    {q : Bytes} :
    EndsData atLineStart (piece ++ q) ↔ EndsData (endsCRLF piece) q := by
  obtain ⟨text, htext, rfl⟩ := hpiece
  rw [EndsData, EndsData, suffix_append_piece htext, endsCRLF, List.dropLast_concat, decide_eq_true_eq]
  constructor
  · rintro (⟨hstart, hdot⟩ | h)
    · have hcut : text ++ 10 :: q = [46, 13] ++ 10 :: [] := by
        rw [← List.singleton_append, ← List.append_assoc, hdot]
        rfl
      obtain ⟨rfl, rfl⟩ := append_separator_inj htext (by decide) hcut
      exact absurd ⟨hstart, rfl⟩ hend
    · exact h
  · exact .inr

theorem not_endsData_of_prefix_piece (hpiece : Piece piece)
    (hend : ¬ (atLineStart = true ∧ piece = dotCRLF)) (hdata : data <+: piece) :
    ¬ EndsData atLineStart data := by
  obtain ⟨text, htext, rfl⟩ := hpiece
  rintro (⟨hstart, rfl⟩ | hsuffix)
  · obtain ⟨tail, htail⟩ := hdata
    have hcut : [46, 13] ++ 10 :: tail = text ++ 10 :: [] := by
      rw [← htail]
      rfl
    obtain ⟨rfl, rfl⟩ := append_separator_inj (by decide) htext hcut
    exact hend ⟨hstart, rfl⟩
  · have hle : (crlf ++ dotCRLF).count 10 ≤ (text ++ [10]).count 10 :=
      (hsuffix.sublist.trans hdata.sublist).count_le 10
    have hone : (text ++ [10]).count 10 = 1 := by
      rw [List.count_append, List.count_eq_zero_of_not_mem htext]
      rfl
    rw [hone] at hle
    exact absurd hle (by decide)

variable {limits : Limits} {fuel : Nat} {r : Reader UInt8} {state : DataState}

-- Whether the line ends the data is seen in what is kept of it.
theorem isEndOfData_bounded : isEndOfData state (bounded (maxLineLength + 1) piece) = true ↔
    state.atLineStart = true ∧ piece = dotCRLF := by
  simp only [isEndOfData, isDotLine, Bool.and_eq_true, decide_eq_true_eq]
  constructor
  · rintro ⟨⟨⟨⟨hstart, hdot⟩, hlength⟩, hcr⟩, hlf⟩
    change piece.length = 3 at hlength
    rw [bounded, List.take_of_length_le (by rw [hlength]; decide)] at hdot hcr hlf
    match piece with
    | [a, b, c] => simp_all [dotCRLF]
  · rintro ⟨hstart, rfl⟩
    exact ⟨⟨⟨⟨hstart, rfl⟩, rfl⟩, rfl⟩, rfl⟩

-- The octets that the connection delivers stay within what a session may send.
def WithinBudget (limits : Limits) (r : Reader UInt8) : Prop := r.total ≤ limits.maxSessionBytes

theorem WithinBudget.later {r' : Reader UInt8} (h : WithinBudget limits r) (hlater : Later r r') :
    WithinBudget limits r' ∧ ¬ limits.maxSessionBytes < r'.taken := by
  have htotal : r'.total ≤ limits.maxSessionBytes := hlater.total ▸ h
  have htaken : r'.taken ≤ r'.total := Nat.le_add_right _ _
  exact ⟨htotal, by omega⟩

theorem dataLoop_piece (hflow : Flowing r) (hbudget : WithinBudget limits r)
    (hpiece : Piece piece) (hstream : r.stream = piece ++ rest)
    (hend : ¬ (state.atLineStart = true ∧ piece = dotCRLF)) :
    ∃ r', dataLoop limits (fuel + 1) r state =
        dataLoop limits fuel r'
          (dataLine limits.maxMessageSize state (bounded (maxLineLength + 1) piece)) ∧
      r'.stream = rest ∧ Later r r' := by
  obtain ⟨text, htext, rfl⟩ := hpiece
  rw [List.append_assoc] at hstream
  obtain ⟨r', hread, hrest, hlater⟩ := readBoundedLine_spec hflow hstream htext
  refine ⟨r', ?_, hrest, hlater⟩
  rw [dataLoop, hread]
  dsimp only
  rw [if_neg (hbudget.later hlater).2, if_neg (mt isEndOfData_bounded.mp hend)]

theorem dataLoop_end (hflow : Flowing r) (hbudget : WithinBudget limits r)
    (hstream : r.stream = dotCRLF ++ rest) (hstart : state.atLineStart = true) :
    ∃ r', dataLoop limits (fuel + 1) r state = .ok (state.result, r') ∧ r'.stream = rest ∧
      Later r r' := by
  have hcut : r.stream = [46, 13] ++ 10 :: rest := hstream
  obtain ⟨r', hread, hrest, hlater⟩ := readBoundedLine_spec hflow hcut (by decide)
  refine ⟨r', ?_, hrest, hlater⟩
  rw [dataLoop, hread]
  dsimp only
  have hend := isEndOfData_bounded.mpr ⟨hstart, rfl⟩
  rw [if_neg (hbudget.later hlater).2]
  exact if_pos hend

theorem dataLoop_unended (hflow : Flowing r) (hstream : 10 ∉ r.stream) :
    dataLoop limits fuel r state = .error .connection := by
  cases fuel with
  | zero => rfl
  | succ fuel => rw [dataLoop, readBoundedLine, boundedLoop_none hflow hstream]

theorem dataLine_atLineStart (max : Nat) (read : BoundedLine) :
    (dataLine max state read).atLineStart = read.endsCRLF := by
  unfold dataLine appendLine
  split
  · rfl
  · split
    · rfl
    · split_ifs <;> rfl

theorem EndsData.lf_mem (h : EndsData atLineStart data) : 10 ∈ data := by
  rcases h with ⟨-, rfl⟩ | hsuffix
  · decide
  · exact hsuffix.subset (by decide)

-- Behind a line that is not the end, the first end is the same one.
theorem FirstEnd.behind_piece (hpiece : Piece piece) (hend : ¬ (atLineStart = true ∧ piece = dotCRLF))
    (h : FirstEnd atLineStart (piece ++ rest) data) :
    ∃ behind, data = piece ++ behind ∧ FirstEnd (endsCRLF piece) rest behind := by
  rcases List.prefix_or_prefix_of_prefix h.beginning (List.prefix_append piece rest) with
    hwithin | ⟨behind, rfl⟩
  · exact absurd h.ends (not_endsData_of_prefix_piece hpiece hend hwithin)
  have hbehind := (List.prefix_append_right_inj piece).mp h.beginning
  refine ⟨behind, rfl, hbehind, (endsData_piece_append hpiece hend).mp h.ends, ?_⟩
  intro other hother hends
  have hle := h.first (piece ++ other) ((List.prefix_append_right_inj piece).mpr hother)
    ((endsData_piece_append hpiece hend).mpr hends)
  simp only [List.length_append] at hle
  omega

-- By induction on the lines. The flag says whether the line in front starts
-- after CRLF; nothing else of the state matters.
theorem dataLoop_frame (hflow : Flowing r) (hbudget : WithinBudget limits r)
    (hfuel : r.stream.length < fuel) :
    (∀ data, FirstEnd state.atLineStart r.stream data → ∃ result r',
      dataLoop limits fuel r state = .ok (result, r') ∧ r.stream = data ++ r'.stream ∧ Later r r') ∧
    ((∀ data, data <+: r.stream → ¬ EndsData state.atLineStart data) →
      dataLoop limits fuel r state = .error .connection) := by
  induction fuel generalizing r state with
  | zero => exact absurd hfuel (Nat.not_lt_zero _)
  | succ fuel ih =>
    by_cases hmem : 10 ∈ r.stream
    · obtain ⟨text, rest, hsplit, htext⟩ := List.eq_append_cons_of_mem hmem
      have hstream : r.stream = (text ++ [10]) ++ rest := by simp [hsplit]
      have hpiece : Piece (text ++ [10]) := ⟨text, htext, rfl⟩
      by_cases hend : state.atLineStart = true ∧ text ++ [10] = dotCRLF
      · rw [hend.2] at hstream
        have hfirst : EndsData state.atLineStart dotCRLF := .inl ⟨hend.1, rfl⟩
        have hstarts : dotCRLF <+: r.stream := hstream ▸ List.prefix_append _ _
        refine ⟨fun data hdata => ?_, fun hnone => absurd hfirst (hnone _ hstarts)⟩
        have hle : data.length ≤ 3 := hdata.first dotCRLF hstarts hfirst
        have hdot : data = dotCRLF := by
          rcases hdata.ends with ⟨-, hdot⟩ | hsuffix
          · exact hdot
          · have hlong : 5 ≤ data.length := hsuffix.length_le
            omega
        obtain ⟨r', hloop, hrest, hlater⟩ := dataLoop_end hflow hbudget hstream hend.1
        exact ⟨_, r', hloop, by rw [hdot, hrest, hstream], hlater⟩
      · obtain ⟨r', hloop, hrest, hlater⟩ := dataLoop_piece hflow hbudget hpiece hstream hend
        have hshorter : r'.stream.length < fuel := by
          rw [hstream, List.length_append, List.length_append, List.length_singleton] at hfuel
          rw [hrest]
          omega
        have hnext := @ih r' (dataLine limits.maxMessageSize state (bounded (maxLineLength + 1)
          (text ++ [10]))) hlater.flowing (hbudget.later hlater).1 hshorter
        rw [dataLine_atLineStart] at hnext
        rw [hloop]
        refine ⟨fun data hdata => ?_, fun hnone => hnext.2 fun data hstarts hends => ?_⟩
        · rw [hstream] at hdata
          obtain ⟨behind, rfl, hbehind⟩ := hdata.behind_piece hpiece hend
          obtain ⟨result, r'', hres, hafter, hlater'⟩ := hnext.1 behind (hrest ▸ hbehind)
          refine ⟨result, r'', hres, ?_, hlater.trans hlater'⟩
          rw [hstream, List.append_assoc _ behind, ← hafter, hrest]
        · rw [hrest] at hstarts
          refine hnone (text ++ [10] ++ data) ?_ ((endsData_piece_append hpiece hend).mpr hends)
          rw [hstream]
          exact (List.prefix_append_right_inj _).mpr hstarts
    · refine ⟨fun data hdata => ?_, fun _ => dataLoop_unended hflow hmem⟩
      exact absurd (hdata.beginning.subset hdata.ends.lf_mem) hmem

end Framing

def stuffLoop : Bool → Bytes → Bytes
  | _, [] => []
  | _, 13 :: 10 :: s => 13 :: 10 :: stuffLoop true s
  | start, c :: s => (if start && c = 46 then [46, c] else [c]) ++ stuffLoop false s

def dotStuffed (m : Bytes) : Bytes := stuffLoop true m

def stuffPiece (start : Bool) (piece : Bytes) : Bytes :=
  if start && piece.head? = some 46 then 46 :: piece else piece

def absorb (maxMessageSize : Nat) (state : DataState) (piece : Bytes) : DataState :=
  match state.contentErr with
  | some e => ⟨state.data, some e, endsCRLF piece⟩
  | none => match lineError piece.length piece with
    | some e => ⟨state.data, some e, endsCRLF piece⟩
    | none => appendLine maxMessageSize state.data piece (endsCRLF piece)

section Content

variable {start : Bool} {piece text s : Bytes} {ps : List Bytes} {c : UInt8} {max : Nat}

theorem stuffLoop_cons (h : c = 13 → s.head? ≠ some 10) :
    stuffLoop start (c :: s) = (if start && c = 46 then [46, c] else [c]) ++ stuffLoop false s := by
  refine stuffLoop.eq_3 start c s fun s' hc hs => ?_
  exact h hc (by rw [hs, List.head?_cons])

theorem stuffLoop_piece (hpiece : Piece piece) :
    stuffLoop start (piece ++ s) = stuffPiece start piece ++ stuffLoop (endsCRLF piece) s := by
  obtain ⟨text, htext, rfl⟩ := hpiece
  induction text generalizing start with
  | nil => simp [stuffLoop, stuffPiece, endsCRLF]
  | cons c text ih =>
    rw [List.mem_cons, not_or] at htext
    by_cases hend : c = 13 ∧ text = []
    · obtain ⟨rfl, rfl⟩ := hend
      simp [stuffLoop, stuffPiece, endsCRLF]
    have hcons : c = 13 → (text ++ [10] ++ s).head? ≠ some 10 := by
      intro hc
      rcases text with _ | ⟨d, text⟩
      · exact absurd ⟨hc, rfl⟩ hend
      simp only [List.cons_append, List.head?_cons, ne_eq, Option.some.injEq]
      rintro rfl
      exact htext.2 List.mem_cons_self
    have hlast : endsCRLF (c :: text ++ [10]) = endsCRLF (text ++ [10]) := by
      rw [endsCRLF, endsCRLF, List.dropLast_concat, List.dropLast_concat]
      cases text with
      | nil => simpa using fun hc => hend ⟨hc, rfl⟩
      | cons d text => rw [List.getLast?_cons_cons]
    rw [List.cons_append, List.cons_append, stuffLoop_cons hcons, ih htext.2, ← List.cons_append]
    have hplain : stuffPiece false (text ++ [10]) = text ++ [10] := rfl
    rw [hplain]
    unfold stuffPiece
    split_ifs <;> simp_all

theorem piece_stuffPiece (start : Bool) (hpiece : Piece piece) : Piece (stuffPiece start piece) := by
  unfold stuffPiece
  split_ifs with hdot
  · obtain ⟨text, htext, rfl⟩ := hpiece
    exact ⟨46 :: text, by simpa using htext, rfl⟩
  · exact hpiece

theorem stuffPiece_ne_dotCRLF : ¬ (start = true ∧ stuffPiece start piece = dotCRLF) := by
  rintro ⟨rfl, hdot⟩
  unfold stuffPiece at hdot
  split_ifs at hdot with hhead
  · obtain ⟨-, rfl⟩ := List.cons.inj hdot
    exact absurd hhead (by decide)
  · rw [hdot] at hhead
    exact hhead (by decide)

theorem hasBareCR_cons (hc : c ≠ 13) : hasBareCR (c :: s) = hasBareCR s := by
  cases s with
  | nil => simp [hasBareCR, hc]
  | cons d s => simp [hasBareCR, hc]

theorem lineError_none (h : lineError s.length s = none) : s.length ≤ maxLineLength := by
  unfold lineError at h
  split_ifs at h with hlong
  omega

-- The line as it was read, with or without a dot, is checked as the line of the
-- message.
theorem lineError_read {line : Bytes} {n : Nat}
    (hline : n ≤ maxLineLength → line = s ∨ line = 46 :: s) : lineError n line = lineError n s := by
  unfold lineError
  split_ifs with hlong <;> try rfl
  all_goals
    rcases hline (by omega) with rfl | rfl
    · simp_all
    · simp_all [hasBareCR_cons]

theorem endsCRLF_cons (hpiece : Piece piece) (hc : c ≠ 13) :
    endsCRLF (c :: piece) = endsCRLF piece := by
  obtain ⟨text, -, rfl⟩ := hpiece
  rw [endsCRLF, endsCRLF, ← List.cons_append, List.dropLast_concat, List.dropLast_concat]
  cases text with
  | nil => simpa using hc
  | cons d text => rw [List.getLast?_cons_cons]

structure ReadAs (state : DataState) (read : BoundedLine) (piece : Bytes) : Prop where
  length : dataLineLength state read = piece.length
  line : piece.length ≤ maxLineLength → read.line = piece ∨ read.line = 46 :: piece
  text : piece.length ≤ maxLineLength → dataLineText state read = piece
  ends : read.endsCRLF = endsCRLF piece

-- The added dot is seen, and it is all that is taken away.
theorem readAs_stuffPiece (state : DataState) (hpiece : Piece piece) :
    ReadAs state (bounded (maxLineLength + 1) (stuffPiece state.atLineStart piece)) piece := by
  by_cases hdot : (state.atLineStart && decide (piece.head? = some 46)) = true
  · have hstuffed : stuffPiece state.atLineStart piece = 46 :: piece := if_pos hdot
    have hline : (bounded (maxLineLength + 1) (46 :: piece)).line = 46 :: piece.take maxLineLength :=
      rfl
    have hseen : isDotLine state (bounded (maxLineLength + 1) (46 :: piece)) = true := by
      rw [isDotLine, (Bool.and_eq_true_iff.mp hdot).1]
      rfl
    rw [hstuffed]
    refine ⟨?_, fun hshort => .inr ?_, fun hshort => ?_, endsCRLF_cons hpiece (by decide)⟩
    · rw [dataLineLength, if_pos hseen]
      rfl
    · rw [hline, List.take_of_length_le hshort]
    · rw [dataLineText, if_pos hseen, hline, List.drop_one, List.tail_cons,
        List.take_of_length_le hshort]
  · have hstuffed : stuffPiece state.atLineStart piece = piece := if_neg hdot
    have hunseen : ¬ isDotLine state (bounded (maxLineLength + 1) piece) = true := by
      rw [isDotLine, bounded]
      cases piece with
      | nil => simp
      | cons c piece => exact hdot
    rw [hstuffed]
    refine ⟨?_, fun hshort => .inl ?_, fun hshort => ?_, rfl⟩
    · rw [dataLineLength, if_neg hunseen]
      rfl
    · exact List.take_of_length_le (hshort.trans (Nat.le_succ _))
    · rw [dataLineText, if_neg hunseen]
      exact List.take_of_length_le (hshort.trans (Nat.le_succ _))

theorem dataLine_stuffPiece (max : Nat) (state : DataState) (hpiece : Piece piece) :
    dataLine max state (bounded (maxLineLength + 1) (stuffPiece state.atLineStart piece)) =
      absorb max state piece := by
  obtain ⟨hlength, hline, htext, hends⟩ := readAs_stuffPiece state hpiece
  unfold dataLine absorb
  rw [hlength, lineError_read hline]
  cases state.contentErr with
  | some e => exact congrArg (DataState.mk _ _) hends
  | none =>
    cases herror : lineError piece.length piece with
    | some e => exact congrArg (DataState.mk _ _) hends
    | none =>
      rw [htext (lineError_none herror)]
      exact congrArg (appendLine _ _ _) hends

theorem absorb_atLineStart (state : DataState) :
    (absorb max state piece).atLineStart = endsCRLF piece := by
  unfold absorb appendLine
  split
  · rfl
  · split
    · rfl
    · split_ifs <;> rfl

theorem dataLoop_pieces {limits : Limits} {r : Reader UInt8} {rest : Bytes} (state : DataState)
    {fuel : Nat} (hps : ∀ piece ∈ ps, Piece piece) (hflow : Flowing r) (hbudget : WithinBudget limits r)
    (hstream : r.stream = stuffLoop state.atLineStart ps.flatten ++ rest) :
    ∃ r', dataLoop limits (fuel + ps.length) r state =
        dataLoop limits fuel r' (ps.foldl (absorb limits.maxMessageSize) state) ∧
      r'.stream = rest ∧ Flowing r' ∧ WithinBudget limits r' := by
  induction ps generalizing r state with
  | nil => exact ⟨r, rfl, hstream, hflow, hbudget⟩
  | cons piece ps ih =>
    obtain ⟨hpiece, hps⟩ := List.forall_mem_cons.mp hps
    rw [List.flatten_cons, stuffLoop_piece hpiece, List.append_assoc] at hstream
    obtain ⟨r', hloop, hrest, hlater⟩ := dataLoop_piece hflow hbudget
      (piece_stuffPiece _ hpiece) hstream stuffPiece_ne_dotCRLF
    rw [dataLine_stuffPiece _ _ hpiece] at hloop
    rw [← absorb_atLineStart state] at hrest
    obtain ⟨r'', hloop', hrest', hflow', hbudget'⟩ :=
      ih (absorb limits.maxMessageSize state piece) hps hlater.flowing (hbudget.later hlater).1 hrest
    exact ⟨r'', hloop.trans hloop', hrest', hflow', hbudget'⟩

theorem foldl_absorb_error {state : DataState} {e : ContentError}
    (h : state.contentErr = some e) : (ps.foldl (absorb max) state).result = .error e := by
  induction ps generalizing state with
  | nil => rw [List.foldl_nil, DataState.result, h]
  | cons piece ps ih =>
    refine ih ?_
    rw [absorb, h]

-- A message is accepted if every line is and the whole is small enough; errors
-- are never taken back.
theorem foldl_absorb_ok {data result : Bytes} (hdata : data.length ≤ max) :
    (ps.foldl (absorb max) ⟨data, none, start⟩).result = .ok result ↔
      (∀ piece ∈ ps, lineError piece.length piece = none) ∧
        (data ++ (ps.map normalizeLine).flatten).length ≤ max ∧
        result = data ++ (ps.map normalizeLine).flatten := by
  induction ps generalizing data start with
  | nil => simp [DataState.result, hdata, eq_comm]
  | cons piece ps ih =>
    rw [List.foldl_cons, List.forall_mem_cons, List.map_cons, List.flatten_cons]
    cases herror : lineError piece.length piece with
    | some e =>
      have habsorb : (absorb max ⟨data, none, start⟩ piece).contentErr = some e := by
        simp [absorb, herror]
      rw [foldl_absorb_error habsorb]
      simp
    | none =>
      have habsorb : absorb max ⟨data, none, start⟩ piece =
          appendLine max data piece (endsCRLF piece) := by
        simp [absorb, herror]
      rw [habsorb, appendLine]
      split_ifs with hlarge
      · rw [foldl_absorb_error rfl]
        simp only [reduceCtorEq, List.length_append, false_iff]
        rw [List.length_append] at hlarge
        omega
      · rw [ih (by omega)]
        simp

end Content

section Message

variable {piece text s m : Bytes} {ps : List Bytes} {line : Bytes}

theorem hasBareCR_piece_append (hpiece : Piece piece) :
    hasBareCR (piece ++ s) = (hasBareCR piece || hasBareCR s) := by
  obtain ⟨text, -, rfl⟩ := hpiece
  induction text with
  | nil => exact hasBareCR_cons (by decide)
  | cons c text ih =>
    cases text with
    | nil => simp [hasBareCR, hasBareCR_cons]
    | cons d text =>
      simp only [List.cons_append, hasBareCR] at ih ⊢
      rw [ih, Bool.or_assoc]

theorem hasBareCR_flatten (hps : ∀ piece ∈ ps, Piece piece) :
    hasBareCR ps.flatten = ps.any hasBareCR := by
  induction ps with
  | nil => rfl
  | cons piece ps ih =>
    obtain ⟨hpiece, hps⟩ := List.forall_mem_cons.mp hps
    rw [List.flatten_cons, hasBareCR_piece_append hpiece, ih hps, List.any_cons]

theorem lineLength_piece_append (hpiece : Piece piece) :
    lineLength (piece ++ s) = piece.length := by
  obtain ⟨text, htext, rfl⟩ := hpiece
  have hassoc : text ++ [10] ++ s = text ++ 10 :: s := by simp
  rw [lineLength, hassoc, List.idxOf_append_of_notMem htext]
  simp

theorem Piece.ne_nil (h : Piece piece) : piece ≠ [] := by
  obtain ⟨text, -, rfl⟩ := h
  exact List.append_ne_nil_of_right_ne_nil _ (List.cons_ne_nil _ _)

theorem overlongLoop_flatten {fuel : Nat} (hps : ∀ piece ∈ ps, Piece piece)
    (hfuel : ps.flatten.length ≤ fuel) :
    overlongLoop fuel ps.flatten = ps.any fun piece => 1000 < piece.length := by
  induction ps generalizing fuel with
  | nil => cases fuel <;> rfl
  | cons piece ps ih =>
    obtain ⟨hpiece, hps⟩ := List.forall_mem_cons.mp hps
    have hpos := List.length_pos_of_ne_nil hpiece.ne_nil
    rw [List.flatten_cons, List.length_append] at hfuel
    obtain ⟨fuel, rfl⟩ : ∃ n, fuel = n + 1 := ⟨fuel - 1, by omega⟩
    obtain ⟨c, tail, hcons⟩ := List.exists_cons_of_ne_nil
      (List.append_ne_nil_of_left_ne_nil hpiece.ne_nil ps.flatten)
    rw [List.flatten_cons, hcons, overlongLoop, ← hcons, lineLength_piece_append hpiece,
      List.drop_left, ih hps (by omega), List.any_cons]

theorem normalizeLoop_text {afterCR : Bool} (h : 10 ∉ text) :
    normalizeLoop afterCR (text ++ 10 :: s) =
      text ++ (if (text = [] ∧ afterCR = true) ∨ text.getLast? = some 13 then [10] else crlf) ++
        normalizeLoop false s := by
  induction text generalizing afterCR with
  | nil => cases afterCR <;> rfl
  | cons c text ih =>
    rw [List.mem_cons, not_or] at h
    rw [List.cons_append, normalizeLoop, ih h.2, if_neg (by simp [Ne.symm h.1])]
    cases text with
    | nil => simp
    | cons d text => simp

theorem normalizeLoop_piece_append (hpiece : Piece piece) :
    normalizeLoop false (piece ++ s) = normalizeLine piece ++ normalizeLoop false s := by
  obtain ⟨text, htext, rfl⟩ := hpiece
  rw [List.append_assoc, List.singleton_append, normalizeLoop_text htext]
  unfold normalizeLine
  by_cases hcr : text.getLast? = some 13
  · simp [hcr]
  · simp [hcr]

theorem normalizeBareLF_flatten (hps : ∀ piece ∈ ps, Piece piece) :
    normalizeBareLF ps.flatten = (ps.map normalizeLine).flatten := by
  induction ps with
  | nil => rfl
  | cons piece ps ih =>
    obtain ⟨hpiece, hps⟩ := List.forall_mem_cons.mp hps
    rw [List.flatten_cons, normalizeBareLF, normalizeLoop_piece_append hpiece, List.map_cons,
      List.flatten_cons, ← ih hps]
    rfl

theorem lineError_eq_none : lineError s.length s = none ↔
    ¬ 1000 < s.length ∧ 0 ∉ s ∧ ¬ hasBareCR s = true := by
  unfold lineError maxLineLength
  split_ifs <;> simp_all

-- The checks of the lines one by one and of the message as a whole agree.
theorem forall_lineError_iff (hps : ∀ piece ∈ ps, Piece piece) :
    (∀ piece ∈ ps, lineError piece.length piece = none) ↔
      hasOverlongLine ps.flatten = false ∧ 0 ∉ ps.flatten ∧ hasBareCR ps.flatten = false := by
  rw [hasOverlongLine, overlongLoop_flatten hps le_rfl, hasBareCR_flatten hps]
  simp only [lineError_eq_none, List.any_eq_false, List.mem_flatten, not_exists, not_and,
    decide_eq_true_eq]
  constructor
  · intro h
    exact ⟨fun p hp => (h p hp).1, fun p hp hzero => (h p hp).2.1 hzero, fun p hp => (h p hp).2.2⟩
  · rintro ⟨hlong, hzero, hcr⟩ p hp
    exact ⟨hlong p hp, hzero p hp, hcr p hp⟩

theorem exists_pieces (h : m = [] ∨ m.getLast? = some 10) :
    ∃ ps : List Bytes, (∀ piece ∈ ps, Piece piece) ∧ m = ps.flatten := by
  induction hlength : m.length using Nat.strong_induction_on generalizing m with
  | _ n ih =>
    rcases h with rfl | hlast
    · exact ⟨[], by simp, rfl⟩
    obtain ⟨text, rest, rfl, htext⟩ := List.eq_append_cons_of_mem (List.mem_of_getLast? hlast)
    have hrest : rest = [] ∨ rest.getLast? = some 10 := by
      cases rest with
      | nil => exact .inl rfl
      | cons c rest => exact .inr (by simpa using hlast)
    have hshorter : rest.length < n := by
      rw [← hlength, List.length_append, List.length_cons]
      omega
    obtain ⟨ps, hps, rfl⟩ := ih _ hshorter hrest rfl
    exact ⟨(text ++ [10]) :: ps, List.forall_mem_cons.mpr ⟨⟨text, htext, rfl⟩, hps⟩, by simp⟩

-- A message as both ways of sending one take it.
def EndsInCRLF (m : Bytes) : Prop := m = [] ∨ crlf <:+ m

theorem getLast?_flatten (hps : ∀ piece ∈ ps, Piece piece) (hne : ps ≠ []) :
    ps.flatten.getLast? = some 10 := by
  obtain ⟨init, piece, rfl⟩ := (List.eq_nil_or_concat ps).resolve_left hne
  obtain ⟨text, -, rfl⟩ := hps piece (by simp)
  simp

theorem endsCRLF_last (hps : ∀ p ∈ ps ++ [piece], Piece p)
    (h : crlf <:+ (ps ++ [piece]).flatten) : endsCRLF piece = true := by
  obtain ⟨hinit, hpiece⟩ := List.forall_mem_append.mp hps
  obtain ⟨text, -, rfl⟩ := hpiece piece (by simp)
  obtain ⟨front, hfront⟩ := h
  have hcut : front ++ [13] = ps.flatten ++ text := by
    have hall : (front ++ [13]) ++ [10] = (ps.flatten ++ text) ++ [10] := by
      simpa [crlf] using hfront
    exact List.append_cancel_right hall
  have hlast : (ps.flatten ++ text).getLast? = some 13 := by rw [← hcut, List.getLast?_concat]
  rw [endsCRLF, decide_eq_true_eq]
  rcases List.eq_nil_or_concat text with rfl | ⟨text, c, rfl⟩
  · by_cases hnil : ps = []
    · subst hnil
      cases hlast
    · rw [List.append_nil, getLast?_flatten hinit hnil] at hlast
      exact absurd hlast (by decide)
  · simpa using hlast

theorem foldl_absorb_atLineStart {max : Nat} (hps : ∀ piece ∈ ps, Piece piece)
    (h : EndsInCRLF ps.flatten) : (ps.foldl (absorb max) .start).atLineStart = true := by
  rcases List.eq_nil_or_concat ps with rfl | ⟨init, piece, rfl⟩
  · rfl
  rw [List.concat_eq_append] at hps h ⊢
  rw [List.foldl_append, List.foldl_cons, List.foldl_nil, absorb_atLineStart]
  rcases h with hnil | hcrlf
  · have hne := (hps piece (by simp)).ne_nil
    simp [hne] at hnil
  · exact endsCRLF_last hps hcrlf

theorem length_le_stuffLoop (start : Bool) (hps : ∀ piece ∈ ps, Piece piece) :
    ps.length ≤ (stuffLoop start ps.flatten).length := by
  induction ps generalizing start with
  | nil => exact Nat.zero_le _
  | cons piece ps ih =>
    obtain ⟨hpiece, hps⟩ := List.forall_mem_cons.mp hps
    have hpos := List.length_pos_of_ne_nil (piece_stuffPiece start hpiece).ne_nil
    have hle := ih (endsCRLF piece) hps
    rw [List.flatten_cons, stuffLoop_piece hpiece, List.length_cons, List.length_append]
    omega

-- A message is taken as it is, up to its bare line feeds, or refused; the reader
-- stands behind its end in both cases.
theorem readData_message {limits : Limits} {r : Reader UInt8} {rest : Bytes} (hflow : Flowing r)
    (hbudget : WithinBudget limits r) (hm : EndsInCRLF m)
    (hstream : r.stream = dotStuffed m ++ dotCRLF ++ rest) :
    ∃ result r', readData limits r = .ok (result, r') ∧ r'.stream = rest ∧
      ∀ data, result = .ok data ↔
        (hasOverlongLine m = false ∧ 0 ∉ m ∧ hasBareCR m = false) ∧
          (normalizeBareLF m).length ≤ limits.maxMessageSize ∧ data = normalizeBareLF m := by
  have hlast : m = [] ∨ m.getLast? = some 10 := by
    rcases hm with hnil | ⟨front, rfl⟩
    · exact .inl hnil
    · exact .inr (by simp [crlf])
  obtain ⟨ps, hps, rfl⟩ := exists_pieces hlast
  rw [List.append_assoc] at hstream
  obtain ⟨fuel, hfuel⟩ : ∃ fuel, r.stream.length + 1 = fuel + 1 + ps.length := by
    have hle : ps.length ≤ (dotStuffed ps.flatten).length := length_le_stuffLoop true hps
    have hlength := congrArg List.length hstream
    rw [List.length_append] at hlength
    exact ⟨r.stream.length - ps.length, by omega⟩
  obtain ⟨r', hloop, hrest, hflow', hbudget'⟩ :=
    dataLoop_pieces .start hps hflow hbudget hstream
  obtain ⟨r'', hend, hrest', -⟩ := dataLoop_end hflow' hbudget' hrest
    (foldl_absorb_atLineStart hps hm)
  refine ⟨(ps.foldl (absorb limits.maxMessageSize) .start).result, r'', ?_, hrest', fun data => ?_⟩
  · rw [readData, hfuel, hloop, hend]
  · rw [DataState.start, foldl_absorb_ok (Nat.zero_le _), forall_lineError_iff hps, List.nil_append,
      normalizeBareLF_flatten hps]

theorem normalizeLine_ended : normalizeLine (line ++ crlf) = line ++ crlf := by
  have hdrop : (line ++ crlf).dropLast = line ++ [13] := by
    rw [show line ++ crlf = line ++ [13] ++ [10] by simp [crlf], List.dropLast_concat]
  rw [normalizeLine, hdrop, if_neg (by simp)]

def SendableLine (line : Bytes) : Prop :=
  Lines.Plain line ∧ 0 ∉ line ∧ (line ++ crlf).length ≤ maxLineLength

def messageOf (lines : List Bytes) : Bytes := (lines.map (· ++ crlf)).flatten

theorem SendableLine.isPiece (h : SendableLine line) : Piece (line ++ crlf) :=
  ⟨line ++ [13], by simpa using h.1.2, by simp [crlf]⟩

theorem hasBareCR_plain (h : 13 ∉ line) : hasBareCR (line ++ crlf) = false := by
  induction line with
  | nil => rfl
  | cons c line ih =>
    rw [List.mem_cons, not_or] at h
    rw [List.cons_append, hasBareCR_cons (Ne.symm h.1), ih h.2]

theorem SendableLine.lineError {line : Bytes} (h : SendableLine line) :
    lineError (line ++ crlf).length (line ++ crlf) = none := by
  obtain ⟨hplain, hzero, hlength⟩ := h
  refine lineError_eq_none.mpr ⟨Nat.not_lt.mpr hlength, ?_, ?_⟩
  · simpa [crlf] using hzero
  · rw [hasBareCR_plain hplain.1]
    exact Bool.false_ne_true

end Message

-- Whatever the message holds and however its octets arrive, the data ends at the
-- first end and the next octet is the first that follows; without an end it never
-- does. A message of proper lines is returned as it was, and one with bare line
-- feeds with these made line ends.
theorem readData_exact {limits : Limits} {r : Reader UInt8} (hflow : Flowing r)
    (hbudget : WithinBudget limits r) :
    (∀ data, FirstEnd true r.stream data → ∃ result r',
      readData limits r = .ok (result, r') ∧ r.stream = data ++ r'.stream) ∧
    ((∀ data, data <+: r.stream → ¬ EndsData true data) → readData limits r = .error .connection) ∧
    (∀ lines rest, (∀ line ∈ lines, SendableLine line) →
      (messageOf lines).length ≤ limits.maxMessageSize →
      r.stream = dotStuffed (messageOf lines) ++ dotCRLF ++ rest →
      ∃ r', readData limits r = .ok (.ok (messageOf lines), r') ∧ r'.stream = rest) ∧
    ∀ m rest, EndsInCRLF m → hasOverlongLine m = false → 0 ∉ m → hasBareCR m = false →
      (normalizeBareLF m).length ≤ limits.maxMessageSize → r.stream = dotStuffed m ++ dotCRLF ++ rest →
      ∃ r', readData limits r = .ok (.ok (normalizeBareLF m), r') ∧ r'.stream = rest := by
  have hframe := @dataLoop_frame limits _ r .start hflow hbudget (Nat.lt_succ_self _)
  have hmessage : ∀ m rest, EndsInCRLF m → hasOverlongLine m = false → 0 ∉ m → hasBareCR m = false →
      (normalizeBareLF m).length ≤ limits.maxMessageSize → r.stream = dotStuffed m ++ dotCRLF ++ rest →
      ∃ r', readData limits r = .ok (.ok (normalizeBareLF m), r') ∧ r'.stream = rest := by
    intro m rest hm hlong hzero hcr hsize hstream
    obtain ⟨result, r', hread, hrest, hresult⟩ := readData_message hflow hbudget hm hstream
    have hok := (hresult (normalizeBareLF m)).mpr ⟨⟨hlong, hzero, hcr⟩, hsize, rfl⟩
    exact ⟨r', hok ▸ hread, hrest⟩
  refine ⟨fun data hdata => ?_, hframe.2, fun lines rest hlines hsize hstream => ?_, hmessage⟩
  · obtain ⟨result, r', hread, hrest, -⟩ := hframe.1 data hdata
    exact ⟨result, r', hread, hrest⟩
  · have hps : ∀ piece ∈ lines.map (· ++ crlf), Piece piece :=
      List.forall_mem_map.mpr fun line hline => (hlines line hline).isPiece
    have hnormal : normalizeBareLF (messageOf lines) = messageOf lines := by
      rw [messageOf, normalizeBareLF_flatten hps, List.map_map]
      congr 1
      exact List.map_congr_left fun line _ => normalizeLine_ended
    obtain ⟨hlong, hzero, hcr⟩ := (forall_lineError_iff hps).mp
      (List.forall_mem_map.mpr fun line hline => (hlines line hline).lineError)
    have hended : EndsInCRLF (messageOf lines) := by
      rcases List.eq_nil_or_concat lines with rfl | ⟨init, line, rfl⟩
      · exact .inl rfl
      · exact .inr ⟨messageOf init ++ line, by simp [messageOf]⟩
    have hread := hmessage _ rest hended hlong hzero hcr (hnormal.symm ▸ hsize) hstream
    rwa [hnormal] at hread

-- A small buffer and line ends that are cut: two lines, of which the second is a
-- dot, and the start of the next command.
def cutReader : Reader UInt8 := ⟨2, [97], [[13], [10, 46], [46, 13, 10, 46, 13], [10, 81]], 1⟩

theorem readData_exact_cut :
    Flowing cutReader ∧ WithinBudget ⟨6, 11⟩ cutReader ∧ ∃ r',
      readData ⟨6, 11⟩ cutReader = .ok (.ok (messageOf [[97], [46]]), r') ∧ r'.stream = [81] := by
  have hflow : Flowing cutReader := ⟨by decide, by decide, fun h => absurd h.length_le (by decide)⟩
  have hbudget : WithinBudget ⟨6, 11⟩ cutReader := by
    unfold WithinBudget
    decide
  have hlines : ∀ line ∈ ([[97], [46]] : List Bytes), SendableLine line := by
    unfold SendableLine
    decide
  have hexact := readData_exact hflow hbudget
  exact ⟨hflow, hbudget, hexact.2.2.1 [[97], [46]] [81] hlines (by decide) (by decide)⟩

end UMail.Smtp
