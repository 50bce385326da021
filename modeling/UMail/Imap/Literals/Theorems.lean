import UMail.Imap.Literals

namespace UMail.Imap

open Text (fields fieldsLoop isDigit spaces)
open UMail.Storage
open Separator (cutLast cutLast_append)

def Argument.folded (arg : Argument) : Bytes :=
  match arg.form with
  | .atom => arg.value
  | .quoted | .literal _ => quoteMailbox arg.value

def foldedArgs (args : List Argument) : Bytes := args.flatMap fun arg => 32 :: arg.folded

def firstLine : List Argument → Bytes
  | [] => []
  | ⟨value, .atom⟩ :: args => 32 :: value ++ firstLine args
  | ⟨value, .quoted⟩ :: args => 32 :: quoteMailbox value ++ firstLine args
  | ⟨value, .literal nonSync⟩ :: _ => 32 :: marker value.length nonSync

def restInput : List Argument → Bytes → Bytes
  | [], after => after
  | ⟨_, .atom⟩ :: args, after | ⟨_, .quoted⟩ :: args, after => restInput args after
  | ⟨value, .literal _⟩ :: args, after => value ++ (firstLine args ++ crlf ++ restInput args after)

theorem encode_eq (args : List Argument) (after : Bytes) :
    encode args (crlf ++ after) = firstLine args ++ crlf ++ restInput args after := by
  induction args with
  | nil => rfl
  | cons arg args ih =>
    obtain ⟨value, form⟩ := arg
    cases form <;> simp [encode, firstLine, restInput, ih]

theorem length_le_restInput (args : List Argument) (after : Bytes) :
    after.length ≤ (restInput args after).length := by
  induction args with
  | nil => exact le_rfl
  | cons arg args ih =>
    obtain ⟨value, form⟩ := arg
    cases form with
    | atom | quoted => exact ih
    | literal nonSync =>
      simp only [restInput, List.length_append]
      omega

section Lines

theorem readLine_crlf {line rest : Bytes} (hline : ∀ c ∈ line, isLineEnd c = false)
    (hlength : line.length + 2 ≤ maxCommandLineLength) :
    readLine (line ++ crlf ++ rest) = .ok (line, rest) := by
  have hspan : (line ++ crlf ++ rest).span (· ≠ 10) = (line ++ [13], 10 :: rest) := by
    have hplain : ∀ c ∈ line ++ [13], decide (c ≠ 10) = true := by
      intro c hc
      rcases List.mem_append.mp hc with hc | hc
      · have := hline c hc
        simp only [isLineEnd, Bool.or_eq_false_iff] at this
        simpa using this.2
      · simp only [List.mem_singleton] at hc
        subst hc
        decide
    rw [List.span_eq_takeWhile_dropWhile]
    have hsplit : line ++ crlf ++ rest = (line ++ [13]) ++ 10 :: rest := by simp [crlf]
    rw [hsplit, List.takeWhile_append_of_pos hplain, List.dropWhile_append_of_pos hplain]
    simp
  have hdrop : (line ++ [13]).rdropWhile isLineEnd = line := by
    rw [List.rdropWhile_concat_pos _ _ _ (by decide)]
    rcases List.eq_nil_or_concat' line with rfl | ⟨init, last, rfl⟩
    · rfl
    · rw [List.rdropWhile_concat_neg]
      simp [hline last (by simp)]
  unfold readLine
  rw [hspan]
  simp only [List.length_append, List.length_singleton, hdrop]
  rw [if_neg (by omega)]

end Lines

section Markers

variable {line s : Bytes} {c : UInt8} {n : Nat}

theorem parseDigits_eq_none (hc : c ∈ s) (hdigit : isDigit c = false) (value : Nat) :
    parseDigits value s = none := by
  induction s generalizing value with
  | nil => cases hc
  | cons d s ih =>
    unfold parseDigits
    split_ifs with hd
    · rcases List.mem_cons.mp hc with rfl | hc
      · rw [hdigit] at hd
        cases hd
      · exact ih hc _
    · rfl

theorem parseUint32_eq_none (hc : c ∈ s) (hdigit : isDigit c = false) : parseUint32 s = none := by
  unfold parseUint32
  rw [parseDigits_eq_none hc hdigit]
  simp

theorem parseLiteralSize_eq_none {spec : Bytes} (hc : c ∈ spec) (hdigit : isDigit c = false)
    (hplus : c ≠ plus) : parseLiteralSize spec = none := by
  unfold parseLiteralSize
  split_ifs with hlast
  · obtain ⟨init, rfl⟩ := List.getLast?_eq_some_iff.mp hlast
    rw [List.dropLast_concat]
    rcases List.mem_append.mp hc with hc | hc
    · rw [parseUint32_eq_none hc hdigit]
      rfl
    · exact absurd (List.mem_singleton.mp hc) hplus
  · rw [parseUint32_eq_none hc hdigit]
    rfl

-- A line with a blank after its last brace has no marker at its end.
theorem trailingLiteral_blank {before after : Bytes} (hne : after ≠ [])
    (hbrace : openBrace ∉ after) : trailingLiteral (before ++ 32 :: after) = none := by
  unfold trailingLiteral
  split_ifs
  · cases hcut : cutLast openBrace (before ++ 32 :: after) with
    | none => rfl
    | some parts =>
      obtain ⟨head, spec⟩ := parts
      obtain ⟨hsplit, hspec⟩ := Separator.cutLast_eq_some hcut
      have hmem : (32 : UInt8) ∈ spec.dropLast := by
        rcases List.append_eq_append_iff.mp hsplit with ⟨mid, _, hmid⟩ | ⟨mid, _, hmid⟩
        · have hbrace' : openBrace ∈ 32 :: after := by
            rw [hmid]
            simp
          rcases List.mem_cons.mp hbrace' with h | h
          · exact absurd h (by decide)
          · exact absurd h hbrace
        · cases mid with
          | nil =>
            simp only [List.nil_append, List.cons.injEq] at hmid
            exact absurd hmid.1 (by decide)
          | cons c mid =>
            simp only [List.cons_append, List.cons.injEq] at hmid
            rw [hmid.2, List.dropLast_append_of_ne_nil (by simp), List.dropLast_cons_of_ne_nil hne]
            simp
      simp only [parseLiteralSize_eq_none hmem (by decide) (by decide), Option.map_none]
  · rfl

theorem trailingLiteral_quoted (before value : Bytes) :
    trailingLiteral (before ++ quoteMailbox value) = none := by
  unfold trailingLiteral quoteMailbox
  rw [if_neg]
  simp only [List.getLast?_append, List.getLast?_singleton, Option.some_or]
  decide

theorem parseUint32_formatLoop (h : n < 2 ^ 32) : parseUint32 (formatLoop 20 n []) = some n := by
  have hdigits := parseDigits_formatLoop 20 n [] (Nat.lt_trans h (by decide))
  unfold parseUint32
  rw [if_neg, hdigits]
  · simpa [parseDigits] using h
  · intro hnil
    have hne := formatUint_ne_nil (UInt32.ofNat n)
    rw [formatUint, UInt32.toNat_ofNat_of_lt' h] at hne
    exact hne hnil

theorem parseLiteralSize_marker (h : n < 2 ^ 32) (nonSync : Bool) :
    parseLiteralSize (formatLoop 20 n [] ++ if nonSync then [plus] else []) = some (n, nonSync) := by
  unfold parseLiteralSize
  cases nonSync with
  | true =>
    rw [if_pos rfl, if_pos (by simp), List.dropLast_concat, parseUint32_formatLoop h]
    rfl
  | false =>
    have hlast : (formatLoop 20 n []).getLast? ≠ some plus := by
      intro hlast
      have hdigit := formatLoop_digits 20 n [] (by simp) _ (List.mem_of_getLast? hlast)
      exact absurd hdigit (by decide)
    simp only [Bool.false_eq_true, if_false, List.append_nil, if_neg hlast,
      parseUint32_formatLoop h, Option.map_some]

theorem trailingLiteral_marker (before : Bytes) (h : n < 2 ^ 32) (nonSync : Bool) :
    trailingLiteral (before ++ marker n nonSync) = some (before, n, nonSync) := by
  have hmarker : before ++ marker n nonSync = before ++ openBrace ::
      ((formatLoop 20 n [] ++ if nonSync then [plus] else []) ++ [closeBrace]) := by
    simp [marker]
  have hbrace : openBrace ∉ (formatLoop 20 n [] ++ if nonSync then [plus] else []) ++ [closeBrace] := by
    simp only [List.mem_append, not_or]
    refine ⟨⟨fun hmem => ?_, ?_⟩, by decide⟩
    · exact absurd (formatLoop_digits 20 n [] (by simp) _ hmem) (by decide)
    · cases nonSync <;> decide
  unfold trailingLiteral
  rw [hmarker, cutLast_append before hbrace, if_pos]
  · simp only [List.dropLast_concat, parseLiteralSize_marker h, Option.map_some]
  · rw [← List.cons_append, ← List.append_assoc, List.getLast?_concat]

end Markers

section Arguments

theorem count_quoteMailbox (value : Bytes) :
    (quoteMailbox value).count quote = value.count quote + 2 := by
  have hflat : (value.flatMap escapeQuoted).count quote = value.count quote := by
    induction value with
    | nil => rfl
    | cons c value ih =>
      rw [List.flatMap_cons, List.count_append, ih]
      unfold escapeQuoted
      by_cases hq : c = quote
      · subst hq
        have hone : List.count quote [backslash, quote] = 1 := by decide
        simp [hone, Nat.add_comm]
      by_cases hb : c = backslash
      · subst hb
        simp [quote, backslash]
      · simp [hq, hb]
  unfold quoteMailbox
  rw [List.count_append, List.count_cons_self, hflat]
  rfl

variable {value : Bytes} {args : List Argument}

theorem valid_atom (h : Argument.valid ⟨value, .atom⟩ = true) :
    value ≠ [] ∧ ∀ c ∈ value, isBlank c = false ∧ isLineEnd c = false ∧ c ≠ quote ∧ c ≠ openBrace := by
  simp only [Argument.valid, Bool.and_eq_true, decide_eq_true_eq, List.all_eq_true,
    Bool.not_eq_true'] at h
  exact ⟨h.1, fun c hc => ⟨(h.2 c hc).1.1.1.2, (h.2 c hc).1.1.2, (h.2 c hc).1.2, (h.2 c hc).2⟩⟩

theorem valid_quoted (h : Argument.valid ⟨value, .quoted⟩ = true) :
    ∀ c ∈ value, isLineEnd c = false := by
  simp only [Argument.valid, List.all_eq_true, Bool.and_eq_true, Bool.not_eq_true'] at h
  exact fun c hc => (h c hc).2

theorem valid_literal {nonSync : Bool} (h : Argument.valid ⟨value, .literal nonSync⟩ = true) :
    (∀ c ∈ value, c ≠ 0) ∧ value.length ≤ maxArgLiteral := by
  simp only [Argument.valid, Bool.and_eq_true, List.all_eq_true, decide_eq_true_eq] at h
  exact h

theorem lineEnd_quoteMailbox (h : ∀ c ∈ value, isLineEnd c = false) :
    ∀ c ∈ quoteMailbox value, isLineEnd c = false := by
  intro c hc
  simp only [quoteMailbox, List.mem_append, List.mem_cons, List.mem_flatMap, List.not_mem_nil,
    or_false] at hc
  rcases hc with (rfl | ⟨d, hd, hc⟩) | rfl
  · decide
  · unfold escapeQuoted at hc
    split_ifs at hc
    · rcases List.mem_cons.mp hc with rfl | hc
      · decide
      · rw [List.mem_singleton.mp hc]
        exact h d hd
    · rw [List.mem_singleton.mp hc]
      exact h d hd
  · decide

theorem lineEnd_of_digit {c : UInt8} (h : isDigit c = true) : isLineEnd c = false := by
  have hne : c ≠ 13 ∧ c ≠ 10 := by constructor <;> rintro rfl <;> cases h
  simp [isLineEnd, hne]

theorem lineEnd_marker (n : Nat) (nonSync : Bool) : ∀ c ∈ marker n nonSync, isLineEnd c = false := by
  intro c hc
  simp only [marker, List.mem_append, List.mem_cons, List.not_mem_nil, or_false] at hc
  rcases hc with ((rfl | hc) | hc) | rfl
  · decide
  · exact lineEnd_of_digit (formatLoop_digits 20 n [] (by simp) c hc)
  · cases nonSync with
    | false => cases hc
    | true =>
      rw [List.mem_singleton.mp hc]
      decide
  · decide

theorem lineEnd_firstLine (hvalid : ∀ arg ∈ args, arg.valid = true) :
    ∀ c ∈ firstLine args, isLineEnd c = false := by
  induction args with
  | nil => intro c hc; cases hc
  | cons arg args ih =>
    obtain ⟨value, form⟩ := arg
    obtain ⟨hhead, htail⟩ := List.forall_mem_cons.mp hvalid
    have hblank : isLineEnd 32 = false := by decide
    cases form with
    | atom =>
      have hvalue : ∀ c ∈ value, isLineEnd c = false := fun c hc => ((valid_atom hhead).2 c hc).2.1
      exact List.forall_mem_append.mpr ⟨List.forall_mem_cons.mpr ⟨hblank, hvalue⟩, ih htail⟩
    | quoted =>
      have hvalue := lineEnd_quoteMailbox (valid_quoted hhead)
      exact List.forall_mem_append.mpr ⟨List.forall_mem_cons.mpr ⟨hblank, hvalue⟩, ih htail⟩
    | literal nonSync => exact List.forall_mem_cons.mpr ⟨hblank, lineEnd_marker _ _⟩

theorem fitsLines_firstLine {used : Nat} (h : fitsLines used args = true) :
    used + (firstLine args).length + 2 ≤ maxCommandLineLength := by
  induction args generalizing used with
  | nil => simpa [fitsLines, firstLine] using h
  | cons arg args ih =>
    obtain ⟨value, form⟩ := arg
    cases form with
    | atom | quoted =>
      have hrest := ih h
      simp only [firstLine, List.length_append, List.length_cons]
      omega
    | literal nonSync =>
      simp only [fitsLines, Bool.and_eq_true, decide_eq_true_eq] at h
      simp only [firstLine, List.length_cons]
      omega

end Arguments

def Readable : Nat → List Argument → Prop
  | _, [] => True
  | quotes, ⟨_, .atom⟩ :: args => Readable quotes args
  | quotes, ⟨value, .quoted⟩ :: args => Readable (quotes + value.count quote) args
  | quotes, ⟨value, .literal _⟩ :: args =>
    quotes % 2 = 0 ∧ (∀ c ∈ value, isLineEnd c = false) ∧
      Readable (quotes + value.count quote) args

section Loop

variable {tag after : Bytes} {args : List Argument}

theorem resolveLoop_of_none {left total : Nat} {line input : Bytes} {replies : List Reply}
    (h : literalOf line = none) :
    resolveLoop tag left total line input replies = ⟨.folded line, input, replies⟩ := by
  cases left <;> simp only [resolveLoop, h]

-- The command is read to its end, or its end is missed, and that is decided by
-- whether it can be read.
def Resolves (r : Resolution) (expected after : Bytes) (readable : Prop) : Prop :=
  (readable ∧ r.outcome = .folded expected ∧ r.input = after) ∨
    (¬ readable ∧ ∀ out, r.outcome = .folded out → r.input ≠ after)

-- One literal: the server finds it and goes on behind it, or takes its marker
-- for text, or refuses its contents.
theorem resolveLoop_literal (tag after done : Bytes) (left : Nat) (replies : List Reply)
    {total used : Nat} {value : Bytes} {nonSync : Bool}
    (hvalid : Argument.valid ⟨value, .literal nonSync⟩ = true)
    (htail : ∀ arg ∈ args, arg.valid = true) (htotal : total + value.length ≤ maxArgLiteralTotal)
    (hlines : fitsLines used args = true) :
    ∃ replies', resolveLoop tag (left + 1) total (done ++ 32 :: marker value.length nonSync)
        (value ++ (firstLine args ++ crlf ++ restInput args after)) replies =
      if done.count quote % 2 = 1 then ⟨.folded (done ++ 32 :: marker value.length nonSync),
        value ++ (firstLine args ++ crlf ++ restInput args after), replies⟩
      else if value.any isLineEnd then ⟨.refused, restInput args after, replies'⟩
      else resolveLoop tag left (total + value.length)
        (done ++ 32 :: quoteMailbox value ++ firstLine args) (restInput args after) replies' := by
  obtain ⟨hzero, hsize⟩ := valid_literal hvalid
  have hlt : value.length < 2 ^ 32 := lt_of_le_of_lt hsize (by decide)
  have hfound := trailingLiteral_marker (done ++ [32]) hlt nonSync
  rw [List.append_assoc, List.singleton_append] at hfound
  have hsame : (done ++ [32]).count quote = done.count quote := by
    rw [List.count_append]
    rfl
  by_cases hodd : done.count quote % 2 = 1
  · have hnone : literalOf (done ++ 32 :: marker value.length nonSync) = none := by
      simp [literalOf, hfound, hsame, hodd]
    exact ⟨replies, by rw [resolveLoop_of_none hnone, if_pos hodd]⟩
  have hsome : literalOf (done ++ 32 :: marker value.length nonSync) =
      some (done ++ [32], value.length, nonSync) := by
    have heven : done.count quote % 2 = 0 := by omega
    simp [literalOf, hfound, hsame, heven]
  have hfits := fitsLines_firstLine hlines
  have hread : readLine (firstLine args ++ crlf ++ restInput args after) =
      .ok (firstLine args, restInput args after) :=
    readLine_crlf (lineEnd_firstLine htail) (by omega)
  have hbad : (value.any fun c => c = 13 || c = 10 || c = 0) = value.any isLineEnd := by
    rw [Bool.eq_iff_iff, List.any_eq_true, List.any_eq_true]
    refine exists_congr fun c => and_congr_right fun hc => ?_
    simp [isLineEnd, hzero c hc]
  have hsmall : (decide (value.length > maxArgLiteral) ||
      decide (total + value.length > maxArgLiteralTotal)) = false := by
    simp only [Bool.or_eq_false_iff, decide_eq_false_iff_not]
    omega
  have hlong : ¬ (value ++ (firstLine args ++ crlf ++ restInput args after)).length < value.length := by
    rw [List.length_append]
    omega
  simp only [resolveLoop, hsome, hsmall, Bool.false_eq_true, if_false, if_neg hlong,
    List.drop_left, List.take_left, hread, hbad, if_neg hodd]
  by_cases hend : value.any isLineEnd = true
  · exact ⟨_, by rw [if_pos hend, if_pos hend]⟩
  · refine ⟨_, by rw [if_neg hend, if_neg hend, List.append_assoc done [32], List.singleton_append]⟩

-- After an argument in quotes the line has no marker at its end.
theorem closed_quoteMailbox (done value : Bytes) :
    trailingLiteral (done ++ 32 :: quoteMailbox value) = none ∧
      (done ++ 32 :: quoteMailbox value).count quote = done.count quote + (value.count quote + 2) := by
  constructor
  · have h := trailingLiteral_quoted (done ++ [32]) value
    rwa [List.append_assoc, List.singleton_append] at h
  · rw [List.count_append, List.count_cons_of_ne (by decide), count_quoteMailbox]

theorem resolveLoop_spec {left total quotes used : Nat} {done : Bytes} {replies : List Reply}
    (hvalid : ∀ arg ∈ args, arg.valid = true) (hclosed : trailingLiteral done = none)
    (hquotes : done.count quote % 2 = quotes % 2)
    (hcount : (args.filterMap Argument.literalSize).length ≤ left)
    (htotal : total + (args.filterMap Argument.literalSize).sum ≤ maxArgLiteralTotal)
    (hlines : fitsLines used args = true) :
    Resolves (resolveLoop tag left total (done ++ firstLine args) (restInput args after) replies)
      (done ++ foldedArgs args) after (Readable quotes args) := by
  induction args generalizing left total quotes used done replies with
  | nil =>
    have hnone : literalOf (done ++ firstLine []) = none := by
      simp [literalOf, firstLine, hclosed]
    rw [resolveLoop_of_none hnone]
    exact .inl ⟨trivial, by simp [firstLine, foldedArgs], rfl⟩
  | cons arg args ih =>
    obtain ⟨value, form⟩ := arg
    obtain ⟨hhead, htail⟩ := List.forall_mem_cons.mp hvalid
    obtain ⟨hclosed', hcount'⟩ := closed_quoteMailbox done value
    cases form with
    | atom =>
      obtain ⟨hne, hplain⟩ := valid_atom hhead
      have hline : done ++ firstLine (⟨value, .atom⟩ :: args) =
          (done ++ 32 :: value) ++ firstLine args := by simp [firstLine]
      have hfold : done ++ foldedArgs (⟨value, .atom⟩ :: args) =
          (done ++ 32 :: value) ++ foldedArgs args := by simp [foldedArgs, Argument.folded]
      have hnoquote : value.count quote = 0 :=
        List.count_eq_zero.mpr fun h => (hplain _ h).2.2.1 rfl
      rw [hline, hfold]
      refine ih htail (trailingLiteral_blank hne fun h => (hplain _ h).2.2.2 rfl) ?_ hcount htotal
        hlines
      rw [List.count_append, List.count_cons_of_ne (by decide), hnoquote, Nat.add_zero, hquotes]
    | quoted =>
      have hline : done ++ firstLine (⟨value, .quoted⟩ :: args) =
          (done ++ 32 :: quoteMailbox value) ++ firstLine args := by simp [firstLine]
      have hfold : done ++ foldedArgs (⟨value, .quoted⟩ :: args) =
          (done ++ 32 :: quoteMailbox value) ++ foldedArgs args := by
        simp [foldedArgs, Argument.folded]
      rw [hline, hfold]
      exact ih htail hclosed' (by omega) hcount htotal hlines
    | literal nonSync =>
      obtain ⟨left, rfl⟩ : ∃ rest, left = rest + 1 := ⟨left - 1, by
        simp only [List.filterMap_cons, Argument.literalSize, List.length_cons] at hcount
        omega⟩
      simp only [List.filterMap_cons, Argument.literalSize, List.length_cons, List.sum_cons]
        at hcount htotal
      simp only [fitsLines, Bool.and_eq_true] at hlines
      have hsum : total + value.length ≤ maxArgLiteralTotal := by omega
      obtain ⟨replies', hstep⟩ :=
        resolveLoop_literal tag after done left replies hhead htail hsum hlines.2
      change Resolves (resolveLoop tag (left + 1) total
        (done ++ 32 :: marker value.length nonSync)
        (value ++ (firstLine args ++ crlf ++ restInput args after)) replies) _ _ _
      rw [hstep]
      split_ifs with hodd hbad
      · -- The marker is taken for text.
        refine .inr ⟨fun hr => by have := hr.1; omega, fun out _ heq => ?_⟩
        have hlength := congrArg List.length heq
        have hrest := length_le_restInput args after
        simp only [List.length_append, crlf, List.length_cons] at hlength
        omega
      · -- The contents are refused.
        refine .inr ⟨fun hr => ?_, fun out hout => by cases hout⟩
        obtain ⟨c, hc, hend⟩ := List.any_eq_true.mp hbad
        rw [hr.2.1 c hc] at hend
        cases hend
      · -- The loop goes on with the contents in quotes.
        have hfold : done ++ foldedArgs (⟨value, .literal nonSync⟩ :: args) =
            (done ++ 32 :: quoteMailbox value) ++ foldedArgs args := by
          simp [foldedArgs, Argument.folded]
        have hplain : ∀ c ∈ value, isLineEnd c = false := by
          intro c hc
          by_contra hend
          exact hbad (List.any_eq_true.mpr ⟨c, hc, by simpa using hend⟩)
        rw [hfold]
        rcases @ih left (total + value.length) (quotes + value.count quote) _ _ replies' htail hclosed'
          (by omega) (by omega) (by omega) hlines.2 with ⟨hr, hout⟩ | ⟨hr, hout⟩
        · exact .inl ⟨⟨by omega, hplain, hr⟩, hout⟩
        · exact .inr ⟨fun h => hr h.2.2, hout⟩

end Loop

variable {args : List Argument} {word rest name : Bytes} {tag : Bytes} {c : UInt8}

-- Every literal is free of line ends and comes after an even number of quotes.
theorem readable_iff {quotes : Nat} (hvalid : ∀ arg ∈ args, arg.valid = true) :
    Readable quotes args ↔ ∀ before value nonSync rest,
      args = before ++ ⟨value, .literal nonSync⟩ :: rest →
        (quotes + (before.flatMap Argument.value).count quote) % 2 = 0 ∧
          ∀ c ∈ value, isLineEnd c = false := by
  induction args generalizing quotes with
  | nil => simp [Readable]
  | cons arg args ih =>
    obtain ⟨hfirst, htail⟩ := List.forall_mem_cons.mp hvalid
    -- The literals of the rest are those that stand after the first argument.
    have hlater : Readable (quotes + arg.value.count quote) args ↔ ∀ before value nonSync rest,
        arg :: args = (arg :: before) ++ ⟨value, .literal nonSync⟩ :: rest →
          (quotes + ((arg :: before).flatMap Argument.value).count quote) % 2 = 0 ∧
            ∀ c ∈ value, isLineEnd c = false := by
      rw [ih htail]
      refine forall_congr' fun before => forall_congr' fun value => forall_congr' fun nonSync =>
        forall_congr' fun rest => ?_
      rw [List.cons_append, List.cons_inj_right, List.flatMap_cons, List.count_append, Nat.add_assoc]
    have hhead : Readable quotes (arg :: args) ↔ (∀ nonSync, arg.form = .literal nonSync →
        quotes % 2 = 0 ∧ ∀ c ∈ arg.value, isLineEnd c = false) ∧
          Readable (quotes + arg.value.count quote) args := by
      obtain ⟨value, form⟩ := arg
      cases form with
      | atom =>
        have hnone : value.count quote = 0 :=
          List.count_eq_zero.mpr fun h => ((valid_atom hfirst).2 _ h).2.2.1 rfl
        simp [Readable, hnone]
      | quoted => simp [Readable]
      | literal nonSync => simp [Readable, and_assoc]
    rw [hhead, hlater]
    constructor
    · rintro ⟨hliteral, hrest⟩ before value nonSync rest heq
      cases before with
      | nil =>
        obtain ⟨rfl, rfl⟩ := List.cons.inj heq
        exact hliteral nonSync rfl
      | cons first before =>
        obtain ⟨rfl, htail'⟩ := List.cons.inj heq
        exact hrest before value nonSync rest heq
    · intro h
      refine ⟨fun nonSync hform => ?_, fun before value nonSync rest heq => h _ value nonSync rest heq⟩
      exact h [] arg.value nonSync args (by rw [← hform]; rfl)

theorem readQuoted_quote (s : Bytes) : readQuoted (quote :: s) = ([], s) := by
  cases s <;> rfl

theorem readQuoted_plain (hquote : c ≠ quote) (hback : c ≠ backslash) (s : Bytes) :
    readQuoted (c :: s) = (c :: (readQuoted s).1, (readQuoted s).2) := by
  cases s with
  | nil => simp only [readQuoted, if_neg hquote]
  | cons d s => rw [readQuoted, if_neg hquote, if_neg hback]

theorem readQuoted_quoted (value rest : Bytes) :
    readQuoted (value.flatMap escapeQuoted ++ quote :: rest) = (value, rest) := by
  induction value with
  | nil => exact readQuoted_quote rest
  | cons c value ih =>
    rw [List.flatMap_cons, List.append_assoc]
    by_cases hspecial : (decide (c = quote) || decide (c = backslash)) = true
    · have hescape : escapeQuoted c = [backslash, c] := if_pos hspecial
      rw [hescape]
      change (c :: (readQuoted (value.flatMap escapeQuoted ++ quote :: rest)).1,
        (readQuoted (value.flatMap escapeQuoted ++ quote :: rest)).2) = _
      rw [ih]
    · have hescape : escapeQuoted c = [c] := if_neg hspecial
      simp only [Bool.or_eq_true, decide_eq_true_eq, not_or] at hspecial
      rw [hescape, List.singleton_append, readQuoted_plain hspecial.1 hspecial.2, ih]

theorem blank_foldedArgs : foldedArgs args = [] ∨ ∃ rest, foldedArgs args = 32 :: rest := by
  cases args with
  | nil => exact .inl rfl
  | cons arg args => exact .inr ⟨_, rfl⟩

theorem takeWhile_word (hword : ∀ c ∈ word, isBlank c = false)
    (hrest : rest = [] ∨ ∃ tail, rest = 32 :: tail) :
    (word ++ rest).takeWhile (fun c => !isBlank c) = word ∧
      (word ++ rest).dropWhile (fun c => !isBlank c) = rest := by
  have hplain : ∀ c ∈ word, (!isBlank c) = true := fun c hc => by rw [hword c hc]; rfl
  rw [List.takeWhile_append_of_pos hplain, List.dropWhile_append_of_pos hplain]
  rcases hrest with rfl | ⟨tail, rfl⟩
  · simp
  · have hblank : (!isBlank 32) = false := by decide
    simp [hblank]

theorem isWord_iff : isWord word = true ↔ word ≠ [] ∧
    ∀ c ∈ word, 33 ≤ c ∧ c ≤ 126 ∧ c ≠ quote ∧ c ≠ openBrace := by
  simp [isWord, and_assoc]

theorem folded_cases {arg : Argument} (h : arg.form = .atom → arg.valid = true) :
    (arg.folded = arg.value ∧ arg.value ≠ [] ∧
        ∀ c ∈ arg.value, isBlank c = false ∧ c ≠ quote) ∨
      arg.folded = quoteMailbox arg.value := by
  obtain ⟨value, form⟩ := arg
  cases form with
  | atom =>
    obtain ⟨hne, hplain⟩ := valid_atom (h rfl)
    exact .inl ⟨rfl, hne, fun c hc => ⟨(hplain c hc).1, (hplain c hc).2.2.1⟩⟩
  | quoted | literal => exact .inr rfl

theorem splitArgs_foldedArgs (hvalid : ∀ arg ∈ args, arg.form = .atom → arg.valid = true) {fuel : Nat}
    (hfuel : (foldedArgs args).length ≤ fuel) :
    splitArgs fuel (foldedArgs args) = args.map Argument.value := by
  induction args generalizing fuel with
  | nil => cases fuel <;> rfl
  | cons arg args ih =>
    obtain ⟨hfirst, htail⟩ := List.forall_mem_cons.mp hvalid
    have hcons : foldedArgs (arg :: args) = 32 :: (arg.folded ++ foldedArgs args) := by
      simp [foldedArgs]
    rw [hcons, List.length_cons, List.length_append] at hfuel
    obtain ⟨fuel, rfl⟩ : ∃ rest, fuel = rest + 1 := ⟨fuel - 1, by omega⟩
    have hblank : splitArgs (fuel + 1) (32 :: (arg.folded ++ foldedArgs args)) =
        splitArgs fuel (arg.folded ++ foldedArgs args) := rfl
    rw [hcons, hblank, List.map_cons]
    rcases folded_cases hfirst with ⟨hfolded, hword⟩ | hfolded
    · obtain ⟨c, word, hvalue⟩ := List.exists_cons_of_ne_nil hword.1
      obtain ⟨htake, hdrop⟩ := takeWhile_word (fun c hc => (hword.2 c hc).1) blank_foldedArgs
      obtain ⟨hnotBlank, hnotQuote⟩ := hword.2 c (by rw [hvalue]; exact List.mem_cons_self)
      rw [hfolded] at hfuel ⊢
      rw [hvalue, List.cons_append] at htake hdrop ⊢
      rw [hvalue, List.length_cons] at hfuel
      obtain ⟨fuel, rfl⟩ : ∃ rest, fuel = rest + 1 := ⟨fuel - 1, by omega⟩
      rw [splitArgs, hnotBlank, if_neg (by decide), if_neg hnotQuote, htake, hdrop,
        ih htail (by omega)]
    · have hlength : (quoteMailbox arg.value).length ≥ 1 := by simp [quoteMailbox]
      rw [hfolded] at hfuel ⊢
      obtain ⟨fuel, rfl⟩ : ∃ rest, fuel = rest + 1 := ⟨fuel - 1, by omega⟩
      have hquoted : quoteMailbox arg.value ++ foldedArgs args =
          quote :: (arg.value.flatMap escapeQuoted ++ quote :: foldedArgs args) := by
        simp [quoteMailbox]
      rw [hquoted, splitArgs, if_neg (by decide), if_pos rfl, readQuoted_quoted, ih htail (by omega)]

theorem isBlank_of_word (h : isWord word = true) : ∀ c ∈ word, isBlank c = false := by
  intro c hc
  have hlow := ((isWord_iff.mp h).2 c hc).1
  refine Bool.eq_false_iff.mpr fun hblank => ?_
  simp only [isBlank, Bool.or_eq_true, decide_eq_true_eq] at hblank
  rcases hblank with rfl | rfl
  · exact absurd hlow (by decide)
  · exact absurd hlow (by decide)

theorem skipWord_word (hword : isWord word = true) (hrest : rest = [] ∨ ∃ tail, rest = 32 :: tail) :
    skipWord (word ++ rest) = rest := by
  obtain ⟨c, tail, hcons⟩ := List.exists_cons_of_ne_nil (isWord_iff.mp hword).1
  have hblank := isBlank_of_word hword
  have hstart : (word ++ rest).dropWhile isBlank = word ++ rest := by
    rw [hcons, List.cons_append, List.dropWhile_cons_of_neg]
    rw [hblank c (by rw [hcons]; exact List.mem_cons_self)]
    decide
  unfold skipWord
  rw [hstart]
  exact (takeWhile_word hblank hrest).2

theorem skipWords_command (htag : isWord tag = true) (hname : isWord name = true) :
    skipWords (tag ++ 32 :: name ++ foldedArgs args) 2 = foldedArgs args := by
  have hfirst : skipWord (tag ++ 32 :: name ++ foldedArgs args) = 32 :: (name ++ foldedArgs args) := by
    rw [List.append_assoc]
    exact skipWord_word htag (.inr ⟨_, rfl⟩)
  have hsecond : skipWord (32 :: (name ++ foldedArgs args)) = foldedArgs args := by
    have hblank : skipWord (32 :: (name ++ foldedArgs args)) = skipWord (name ++ foldedArgs args) := rfl
    exact skipWord_word hname blank_foldedArgs
  simp only [skipWords, hfirst, hsecond]

theorem spaces_not_word : ∀ space ∈ spaces, space ≠ [] ∧ (space.headD 0 < 33 ∨ 126 < space.headD 0) := by
  decide

theorem find_space_word (hlow : 33 ≤ c) (hhigh : c ≤ 126) (s : Bytes) :
    spaces.find? (·.isPrefixOf (c :: s)) = none := by
  rw [List.find?_eq_none]
  intro space hspace hprefix
  obtain ⟨hne, hhead⟩ := spaces_not_word space hspace
  rcases space with _ | ⟨d, tail⟩
  · exact hne rfl
  simp only [List.isPrefixOf, Bool.and_eq_true, beq_iff_eq] at hprefix
  obtain ⟨rfl, _⟩ := hprefix
  simp only [List.headD_cons, UInt8.le_iff_toNat_le, UInt8.lt_iff_toNat_lt] at hlow hhigh hhead
  omega

theorem fieldsLoop_word (hword : ∀ c ∈ word, 33 ≤ c ∧ c ≤ 126) (fuel : Nat) (start rest : Bytes) :
    fieldsLoop (fuel + word.length) start (word ++ rest) = fieldsLoop fuel (start ++ word) rest := by
  induction word generalizing start with
  | nil => simp
  | cons c word ih =>
    obtain ⟨hlow, hhigh⟩ := hword c List.mem_cons_self
    rw [List.length_cons, ← Nat.add_assoc, List.cons_append, fieldsLoop,
      find_space_word hlow hhigh]
    rw [ih (fun d hd => hword d (List.mem_cons_of_mem _ hd)), List.append_assoc,
      List.singleton_append]

theorem fields_command (htag : isWord tag = true) (hname : isWord name = true)
    (hrest : rest = [] ∨ ∃ tail, rest = 32 :: tail) :
    ∃ more, fields (tag ++ 32 :: name ++ rest) = tag :: name :: more := by
  have hspace : ∀ s, spaces.find? (·.isPrefixOf (32 :: s)) = some [32] := fun s => rfl
  have hplain : ∀ {word}, isWord word = true → ∀ c ∈ word, 33 ≤ c ∧ c ≤ 126 := fun h c hc =>
    ⟨((isWord_iff.mp h).2 c hc).1, ((isWord_iff.mp h).2 c hc).2.1⟩
  have hlength : (tag ++ 32 :: name ++ rest).length + 1 =
      ((rest.length + 1) + name.length + 1) + tag.length := by
    simp only [List.length_append, List.length_cons]
    omega
  unfold fields
  rw [hlength, List.append_assoc, fieldsLoop_word (hplain htag), List.nil_append, List.cons_append,
    fieldsLoop, hspace]
  simp only [if_neg (isWord_iff.mp htag).1, List.length_singleton, List.drop_succ_cons, List.drop_zero]
  rw [fieldsLoop_word (hplain hname), List.nil_append]
  rcases hrest with rfl | ⟨tail, rfl⟩
  · exact ⟨[], by simp [fieldsLoop, (isWord_iff.mp hname).1]⟩
  · exact ⟨_, by rw [fieldsLoop]; simp only [if_neg (isWord_iff.mp hname).1]; rfl⟩

theorem blank_firstLine : firstLine args = [] ∨ ∃ tail, firstLine args = 32 :: tail := by
  cases args with
  | nil => exact .inl rfl
  | cons arg args =>
    obtain ⟨value, form⟩ := arg
    cases form <;> exact .inr ⟨_, rfl⟩

theorem lineEnd_of_word (h : isWord word = true) : ∀ c ∈ word, isLineEnd c = false := by
  intro c hc
  have hlow := ((isWord_iff.mp h).2 c hc).1
  refine Bool.eq_false_iff.mpr fun hend => ?_
  simp only [isLineEnd, Bool.or_eq_true, decide_eq_true_eq] at hend
  rcases hend with rfl | rfl
  · exact absurd hlow (by decide)
  · exact absurd hlow (by decide)

theorem readLine_command (h : Sendable tag name args) (after : Bytes) :
    readLine (encodeCommand tag name args after) =
      .ok (tag ++ 32 :: name ++ firstLine args, restInput args after) := by
  have hencode : encodeCommand tag name args after =
      (tag ++ 32 :: name ++ firstLine args) ++ crlf ++ restInput args after := by
    simp [encodeCommand, encode_eq]
  have hfits := fitsLines_firstLine h.lines
  rw [hencode]
  refine readLine_crlf ?_ ?_
  · intro c hc
    simp only [List.mem_append, List.mem_cons] at hc
    rcases hc with (hc | rfl | hc) | hc
    · exact lineEnd_of_word h.tagWord c hc
    · decide
    · exact lineEnd_of_word h.nameWord c hc
    · exact lineEnd_firstLine h.valid c hc
  · simp only [List.length_append, List.length_cons]
    omega

theorem resolveLiterals_command (h : Sendable tag name args) {after : Bytes} :
    Resolves (resolveLiterals (tag ++ 32 :: name ++ firstLine args) (restInput args after))
      (tag ++ 32 :: name ++ foldedArgs args) after (Readable 0 args) := by
  obtain ⟨more, hfields⟩ := fields_command h.tagWord h.nameWord blank_firstLine
  have hclosed : trailingLiteral (tag ++ 32 :: name) = none :=
    trailingLiteral_blank (isWord_iff.mp h.nameWord).1
      fun hmem => ((isWord_iff.mp h.nameWord).2 _ hmem).2.2.2 rfl
  have hquotes : (tag ++ 32 :: name).count quote % 2 = 0 % 2 := by
    rw [List.count_append, List.count_cons_of_ne (by decide),
      List.count_eq_zero.mpr fun hmem => ((isWord_iff.mp h.tagWord).2 _ hmem).2.2.1 rfl,
      List.count_eq_zero.mpr fun hmem => ((isWord_iff.mp h.nameWord).2 _ hmem).2.2.1 rfl]
  unfold resolveLiterals
  rw [hfields]
  simp only [h.notAppend]
  exact resolveLoop_spec h.valid hclosed hquotes h.count (by rw [Nat.zero_add]; exact h.total) h.lines

-- A command is read as it was sent exactly when every literal in it is free of
-- line ends and comes after an even number of quotes in the arguments before.
theorem delivered_iff_even_quotes (tag name : Bytes) (args : List Argument) (after : Bytes)
    (h : Sendable tag name args) :
    Delivered tag name args after ↔ ∀ before value nonSync rest,
      args = before ++ ⟨value, .literal nonSync⟩ :: rest →
        (before.flatMap Argument.value).count quote % 2 = 0 ∧ ∀ c ∈ value, isLineEnd c = false := by
  have hreadable : Readable 0 args ↔ ∀ before value nonSync rest,
      args = before ++ ⟨value, .literal nonSync⟩ :: rest →
        (before.flatMap Argument.value).count quote % 2 = 0 ∧ ∀ c ∈ value, isLineEnd c = false := by
    refine Iff.trans (readable_iff h.valid) ?_
    simp only [Nat.zero_add]
  rw [← hreadable]
  unfold Delivered
  rw [readLine_command h]
  constructor
  · rintro ⟨line, input, out, hread, hout, hinput, _⟩
    cases hread
    rcases resolveLiterals_command h with ⟨hr, _⟩ | ⟨_, hmissed⟩
    · exact hr
    · exact absurd hinput (hmissed out hout)
  · intro hr
    rcases resolveLiterals_command h with ⟨_, hout, hinput⟩ | ⟨hnot, _⟩
    · refine ⟨_, _, _, rfl, hout, hinput, ?_⟩
      rw [skipWords_command h.tagWord h.nameWord]
      exact splitArgs_foldedArgs (fun arg harg _ => h.valid arg harg) le_rfl
    · exact absurd hr hnot

def literalWithQuotes : List Argument :=
  [⟨bytes "my \\ name", .quoted⟩, ⟨bytes "p\"w", .literal false⟩, ⟨bytes "x", .atom⟩]

theorem delivered_literal_with_quotes :
    Delivered (bytes "A1") (bytes "LOGIN") literalWithQuotes (bytes "A2 NOOP\r\n") := by
  refine (delivered_iff_even_quotes (bytes "A1") (bytes "LOGIN") literalWithQuotes _
    ⟨by decide, by decide, by decide, by decide, by decide, by decide, by decide⟩).mpr ?_
  intro before value nonSync rest heq
  rcases before with _ | ⟨x, _ | ⟨y, _ | ⟨z, before⟩⟩⟩
  · simp [literalWithQuotes] at heq
  · simp only [List.cons_append] at heq
    obtain ⟨rfl, ⟨rfl, _⟩, _⟩ := heq
    exact ⟨by decide +kernel, by decide +kernel⟩
  · simp [literalWithQuotes] at heq
  · simp [literalWithQuotes] at heq

end UMail.Imap
