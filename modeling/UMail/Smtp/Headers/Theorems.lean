import UMail.Smtp.Headers

namespace UMail.Smtp

open Lines (crlf cutBefore splitCRLF splitCRLF_ne_nil splitCRLF_of_cutBefore splitCRLF_of_cutBefore_none)
open Text (trimSpace spaces)
open UMail.Storage (Bytes bytes equalFold toUpper toUpperByte)

-- A line that CRLF ends and that holds nothing.
def HasEmptyLine (data : Bytes) : Prop := [] ∈ (splitCRLF data).dropLast

instance (data : Bytes) : Decidable (HasEmptyLine data) :=
  inferInstanceAs (Decidable ([] ∈ (splitCRLF data).dropLast))

def blockLines (data : Bytes) : List Bytes := (splitCRLF data).takeWhile (· ≠ [])

structure Field where
  first : Bytes
  folds : List Bytes
  deriving DecidableEq, Repr

-- The fields of a header section. A line that starts with white space goes on
-- with the field before it.
def headerFields : List Bytes → List Field
  | [] => []
  | line :: rest =>
    if isFolded line then headerFields rest else ⟨line, rest.takeWhile isFolded⟩ :: headerFields rest

def isWSP (c : UInt8) : Bool := c = 32 || c = 9

-- White space between the name and the colon is allowed, the case is not looked
-- at.
def Field.isFrom (field : Field) : Bool :=
  58 ∈ field.first && equalFold ((field.first.takeWhile (· ≠ 58)).rdropWhile isWSP) (bytes "From")

def Field.text (field : Field) : Bytes := (field.first.dropWhile (· ≠ 58)).drop 1

-- RFC 5322, 2.2.3: unfolding takes the line ends away and nothing else.
def Field.value (field : Field) : Bytes := field.text ++ field.folds.flatten

def fromAddresses (tools : AddressTools) (data : Bytes) : List Bytes :=
  ((headerFields (blockLines data)).filter Field.isFrom).flatMap fun field =>
    (tools.parseAddressList field.value).getD []

section Blanks

inductive Place where
  | text
  | quoted
  | comment (depth : Nat)
  | literal
  deriving DecidableEq

def Place.next : Place → UInt8 → Place
  | .text, c =>
    if c = 34 then .quoted else if c = 40 then .comment 0 else if c = 91 then .literal else .text
  | .quoted, c => if c = 34 then .text else .quoted
  | .comment depth, c =>
    if c = 40 then .comment (depth + 1)
    else if c = 41 then (match depth with | 0 => .text | depth + 1 => .comment depth)
    else .comment depth
  | .literal, c => if c = 93 then .text else .literal

-- Where a text ends: inside a quoted string, a comment or a domain literal, or
-- outside of all of them.
def place : Place → Bytes → Place
  | p, [] => p
  | .quoted, 92 :: _ :: s => place .quoted s
  | .comment depth, 92 :: _ :: s => place (.comment depth) s
  | p, c :: s => place (p.next c) s

-- An address list is read without regard to the blanks at its ends, and to how
-- many there are outside of quoted strings, comments and literals.
structure AddressTools.IgnoresBlanks (tools : AddressTools) : Prop where
  front : ∀ {ws : Bytes} (s : Bytes), (∀ c ∈ ws, isWSP c = true) →
    tools.parseAddressList (ws ++ s) = tools.parseAddressList s
  back : ∀ {ws : Bytes} (s : Bytes), (∀ c ∈ ws, isWSP c = true) →
    tools.parseAddressList (s ++ ws) = tools.parseAddressList s
  inner : ∀ {s ws : Bytes} (t : Bytes), place .text s = .text → (∀ c ∈ ws, isWSP c = true) →
    ws ≠ [] → tools.parseAddressList (s ++ ws ++ t) = tools.parseAddressList (s ++ 32 :: t)

def stripEnd (s : Bytes) : Bytes := s.rdropWhile isWSP

def strip (s : Bytes) : Bytes := (stripEnd s).dropWhile isWSP

-- The white space at the ends is of blanks.
def isPlainLine (line : Bytes) : Bool :=
  spaces.all fun space => !space.isPrefixOf (strip line) && !space.isSuffixOf (strip line)

-- Every fold is outside of what is quoted, and no line is of blanks only.
def plainFolds : Bytes → List Bytes → Bool
  | _, [] => true
  | text, line :: rest =>
    place .text (stripEnd text) = .text && strip line ≠ [] && isPlainLine line &&
      plainFolds (text ++ line) rest

def Field.isPlain (field : Field) : Bool := isPlainLine field.text && plainFolds field.text field.folds

variable {s ws : Bytes} {tools : AddressTools}

theorem isWSP_iff {c : UInt8} : isWSP c = true ↔ c = 32 ∨ c = 9 := by simp [isWSP]

theorem strip_split (s : Bytes) : ∃ before after, (∀ c ∈ before, isWSP c = true) ∧
    (∀ c ∈ after, isWSP c = true) ∧ stripEnd s = before ++ strip s ∧ s = stripEnd s ++ after :=
  ⟨(stripEnd s).takeWhile isWSP, s.rtakeWhile isWSP, fun _ hc => List.mem_takeWhile_imp hc,
    fun _ hc => List.mem_rtakeWhile_imp hc, List.takeWhile_append_dropWhile.symm,
    List.rdropWhile_append_rtakeWhile.symm⟩

theorem trimSpace_eq_strip (h : isPlainLine s = true) : trimSpace s = strip s := by
  obtain ⟨before, after, hbefore, hafter, hfront, hback⟩ := strip_split s
  have hends : ∀ space ∈ spaces, ¬ space <+: strip s ∧ ¬ space <:+ strip s := by
    simpa only [isPlainLine, List.all_eq_true, Bool.and_eq_true, Bool.not_eq_true', ← Bool.not_eq_true,
      List.isPrefixOf_iff_prefix, List.isSuffixOf_iff_suffix] using h
  conv_lhs => rw [hback, hfront]
  exact Text.trimSpace_append (Text.madeOf_blanks fun c hc => isWSP_iff.mp (hbefore c hc))
    (Text.madeOf_blanks fun c hc => isWSP_iff.mp (hafter c hc))
    (fun space hspace => (hends space hspace).1) fun space hspace => (hends space hspace).2

-- What the scan makes of a field: its lines without the white space at their
-- ends, with one blank between them.
def joinFolds (value : Bytes) (folds : List Bytes) : Bytes :=
  folds.foldl (fun value line => value ++ bytes " " ++ trimSpace line) value

def Field.joined (field : Field) : Bytes := joinFolds (trimSpace field.text) field.folds

-- Behind a text, a line that goes on with it starts with blanks.
theorem stripEnd_append {text line : Bytes} (hline : isFolded line = true) (hne : strip line ≠ []) :
    ∃ before, (∀ c ∈ before, isWSP c = true) ∧ before ≠ [] ∧
      stripEnd (text ++ line) = text ++ (before ++ strip line) := by
  obtain ⟨before, after, hbefore, -, hfront, hback⟩ := strip_split line
  refine ⟨before, hbefore, ?_, ?_⟩
  · rintro rfl
    obtain ⟨c, core, hcore⟩ := List.exists_cons_of_ne_nil hne
    have hhead := List.head?_dropWhile_not isWSP (stripEnd line)
    rw [← strip, hcore] at hhead
    rw [hback, hfront, hcore] at hline
    have hwsp : isWSP c = true := by simpa [isFolded, isWSP] using hline
    simp [hwsp] at hhead
  · have hlong : (line.reverse.dropWhile isWSP).isEmpty = false := by
      rw [List.isEmpty_eq_false_iff]
      intro hnil
      exact hne (by simp [strip, stripEnd, List.rdropWhile, hnil])
    rw [← hfront]
    simp [stripEnd, List.rdropWhile, List.dropWhile_append, hlong]

-- The text that is read so far, and what the scan has made of it, go on alike.
theorem parse_joinFolds (htools : tools.IgnoresBlanks) {folds : List Bytes} {text value : Bytes}
    (hfolds : ∀ line ∈ folds, isFolded line = true) (hplain : plainFolds text folds = true)
    (h : ∀ t, tools.parseAddressList (stripEnd text ++ t) = tools.parseAddressList (value ++ t)) :
    ∀ t, tools.parseAddressList (stripEnd (text ++ folds.flatten) ++ t) =
      tools.parseAddressList (joinFolds value folds ++ t) := by
  induction folds generalizing text value with
  | nil => simpa [joinFolds] using h
  | cons line folds ih =>
    obtain ⟨hline, hfolds⟩ := List.forall_mem_cons.mp hfolds
    simp only [plainFolds, Bool.and_eq_true, decide_eq_true_eq] at hplain
    obtain ⟨⟨⟨hplace, hne⟩, hends⟩, hrest⟩ := hplain
    rw [List.flatten_cons, ← List.append_assoc]
    refine ih hfolds hrest fun t => ?_
    obtain ⟨-, after, -, hafter, -, hback⟩ := strip_split text
    obtain ⟨before, hbefore, hsome, hsplit⟩ := stripEnd_append hline hne
    have hrun : stripEnd (text ++ line) = stripEnd text ++ (after ++ before) ++ strip line := by
      rw [hsplit]
      conv_lhs => rw [hback]
      simp only [List.append_assoc]
    have hspace : bytes " " = [32] := by decide
    rw [hrun, List.append_assoc, htools.inner _ hplace (List.forall_mem_append.mpr ⟨hafter, hbefore⟩)
      (fun hnil => hsome (List.append_eq_nil_iff.mp hnil).2), h]
    simp [trimSpace_eq_strip hends, hspace]

theorem parse_joined (htools : tools.IgnoresBlanks) {field : Field}
    (hfolds : ∀ line ∈ field.folds, isFolded line = true) (h : field.isPlain = true) :
    tools.parseAddressList field.value = tools.parseAddressList field.joined := by
  obtain ⟨hends, hplain⟩ := Bool.and_eq_true_iff.mp h
  have hstart : ∀ t, tools.parseAddressList (stripEnd field.text ++ t) =
      tools.parseAddressList (trimSpace field.text ++ t) := by
    obtain ⟨before, -, hbefore, -, hfront, -⟩ := strip_split field.text
    intro t
    rw [trimSpace_eq_strip hends, hfront, List.append_assoc, htools.front _ hbefore]
  obtain ⟨-, after, -, hafter, -, hback⟩ := strip_split field.value
  have hjoined := parse_joinFolds htools hfolds hplain hstart []
  rw [List.append_nil, List.append_nil] at hjoined
  rw [hback, htools.back _ hafter]
  exact hjoined

end Blanks

section Names

variable {name : Bytes}

theorem graphic_of_from (h : equalFold name (bytes "From") = true) :
    name ≠ [] ∧ ∀ c ∈ name, 32 < c ∧ c < 127 := by
  have hfrom : toUpper (bytes "From") = [70, 82, 79, 77] := by decide
  rw [equalFold, beq_iff_eq, hfrom] at h
  refine ⟨fun hnil => ?_, fun c hc => ?_⟩
  · rw [hnil] at h
    cases h
  have hletters : ∀ d ∈ toUpper name, 32 < d ∧ d < 127 := by rw [h]; decide +kernel
  have hd := hletters _ (List.mem_map_of_mem hc)
  unfold toUpperByte at hd
  split_ifs at hd with hlower
  · exact ⟨UInt8.lt_of_lt_of_le (by decide) hlower.1, UInt8.lt_of_le_of_lt hlower.2 (by decide)⟩
  · exact hd

theorem fieldName_from {field : Field} (h : field.isFrom = true) :
    isField field.first = true ∧ equalFold (fieldName field.first) (bytes "From") = true := by
  obtain ⟨hcolon, hname⟩ := Bool.and_eq_true_iff.mp h
  obtain ⟨hne, hgraphic⟩ := graphic_of_from hname
  have hkey : fieldName field.first = stripEnd (field.first.takeWhile (· ≠ 58)) := by
    obtain ⟨-, after, -, hafter, -, hback⟩ := strip_split (field.first.takeWhile (· ≠ 58))
    rw [fieldName]
    conv_lhs => rw [hback]
    exact Text.trimSpace_append .nil
      (Text.madeOf_blanks fun c hc => isWSP_iff.mp (hafter c hc))
      (Text.not_space_start fun c hc => hgraphic c (List.mem_of_mem_head? hc))
      (Text.not_space_end fun c hc => hgraphic c (List.mem_of_getLast? hc))
  refine ⟨?_, hkey ▸ hname⟩
  rw [isField, Bool.and_eq_true]
  refine ⟨hcolon, decide_eq_true fun hhead => hne ?_⟩
  obtain ⟨rest, hfirst⟩ := List.head?_eq_some_iff.mp hhead
  rw [hfirst]
  rfl

end Names

section Scan

variable {key value : Bytes}

theorem Headers.get_cons (name : Bytes) (values : List Bytes) (rest : Headers) (key : Bytes) :
    Headers.get ((name, values) :: rest) key = if name = key then values else rest.get key := by
  unfold Headers.get
  rw [List.lookup_cons]
  by_cases hname : name = key
  · simp [hname]
  · rw [beq_eq_false_iff_ne.mpr (Ne.symm hname), if_neg hname]

theorem Headers.get_set (h : Headers) (key name : Bytes) (values : List Bytes) :
    (h.set key values).get name = if key = name then values else h.get name := by
  induction h with
  | nil => rw [Headers.set, Headers.get_cons]
  | cons entry rest ih =>
    rw [Headers.set]
    split_ifs with hfirst hkey hkey
    · rw [Headers.get_cons, if_pos hkey]
    · rw [Headers.get_cons, Headers.get_cons, if_neg hkey, if_neg fun h => hkey (hfirst ▸ h)]
    · rw [Headers.get_cons, if_neg fun h => hfirst (h.trans hkey.symm), ih, if_pos hkey]
    · rw [Headers.get_cons, Headers.get_cons, ih, if_neg hkey]

theorem mem_fromHeaderValues {h : Headers} (hkey : equalFold key (bytes "From") = true)
    (hvalue : value ∈ h.get key) : value ∈ fromHeaderValues h := by
  induction h with
  | nil => cases hvalue
  | cons entry rest ih =>
    rw [fromHeaderValues, List.flatMap_cons, List.mem_append]
    rw [Headers.get_cons] at hvalue
    split_ifs at hvalue with hname
    · left
      rw [if_pos (hname ▸ hkey)]
      exact hvalue
    · exact .inr (ih hvalue)

-- The field that a line starts, with the lines that go on with it.
theorem extendLast_folds (values : List Bytes) (folds : List Bytes) :
    folds.foldl extendLast (values ++ [value]) =
      values ++ [joinFolds value folds] := by
  induction folds generalizing value with
  | nil => rfl
  | cons line folds ih =>
    have hextend : extendLast (values ++ [value]) line =
        values ++ [value ++ bytes " " ++ trimSpace line] := by
      rw [extendLast, List.dropLast_concat, List.getLastD_concat]
    rw [List.foldl_cons, hextend, ih, joinFolds, joinFolds, List.foldl_cons]

def Field.isNamed (key : Bytes) (field : Field) : Bool :=
  isField field.first && fieldName field.first = key

-- The last value of the last name is open: the continuation lines next belong to
-- it. Every other value of a name is complete.
def openValues (scan : HeaderScan) (key : Bytes) (lines : List Bytes) : List Bytes :=
  if scan.lastKey = key then (lines.takeWhile isFolded).foldl extendLast (scan.headers.get key)
  else scan.headers.get key

theorem get_scan (hkey : key ≠ []) (scan : HeaderScan) (lines : List Bytes) :
    (lines.foldl scanLine scan).headers.get key =
      openValues scan key lines ++ ((headerFields lines).filter (Field.isNamed key)).map Field.joined := by
  induction lines generalizing scan with
  | nil => simp [openValues, headerFields]
  | cons line lines ih =>
    rw [List.foldl_cons, ih, headerFields]
    cases hfold : isFolded line with
    | true =>
      unfold openValues scanLine
      rw [List.takeWhile_cons, hfold]
      by_cases hlast : scan.lastKey = key
      · subst hlast
        simp [hkey, Headers.get_set]
      · by_cases hnone : scan.lastKey = []
        · simp [hnone, Ne.symm hkey]
        · simp [hnone, hlast, Headers.get_set]
    | false =>
      have hclosed : openValues scan key (line :: lines) = scan.headers.get key := by
        simp [openValues, hfold]
      cases hfield : isField line with
      | false =>
        have hnot : Field.isNamed key ⟨line, lines.takeWhile isFolded⟩ = false := by
          rw [Field.isNamed, hfield, Bool.false_and]
        simp [hnot, openValues, scanLine, hfold, hfield, Ne.symm hkey]
      | true =>
        by_cases hname : fieldName line = key
        · have hnamed : Field.isNamed key ⟨line, lines.takeWhile isFolded⟩ = true := by
            rw [Field.isNamed, hfield, decide_eq_true hname, Bool.true_and]
          simp [hnamed, openValues, scanLine, hfold, hfield, hname, Headers.get_set, extendLast_folds]
          rfl
        · have hnot : Field.isNamed key ⟨line, lines.takeWhile isFolded⟩ = false := by
            rw [Field.isNamed, decide_eq_false hname, Bool.and_false]
          simp [hnot, openValues, scanLine, hfold, hfield, hname, Headers.get_set]

end Scan

section Submission

variable {data : Bytes}

-- With an empty line in it, the header section is what is scanned, unless it is
-- empty.
theorem blockLines_of_hasEmptyLine (h : HasEmptyLine data) :
    blockLines data = [] ∨ ∃ block after, cutBefore (crlf ++ crlf) data = some (block, after) ∧
      block ≠ [] ∧ blockLines data = splitCRLF block := by
  unfold HasEmptyLine at h
  cases hcut : cutBefore (crlf ++ crlf) data with
  | none =>
    have hfull := splitCRLF_of_cutBefore_none hcut
    obtain ⟨line, rest, hsplit⟩ := List.exists_cons_of_ne_nil (splitCRLF_ne_nil data)
    rw [blockLines, hsplit]
    rw [hsplit] at hfull
    by_cases hline : line = []
    · simp [hline]
    exfalso
    rw [hsplit] at h
    cases rest with
    | nil => cases h
    | cons next rest =>
      rw [List.dropLast_cons_of_ne_nil (List.cons_ne_nil next rest), List.mem_cons] at h
      exact h.elim (fun h => hline h.symm) fun h => hfull [] h rfl
  | some cut =>
    obtain ⟨block, after⟩ := cut
    obtain ⟨rest, -, hsplit, hfull⟩ := splitCRLF_of_cutBefore hcut
    obtain ⟨line, lines, hblock⟩ := List.exists_cons_of_ne_nil (splitCRLF_ne_nil block)
    rw [blockLines, hsplit]
    rw [hblock] at hfull
    by_cases hline : line = []
    · left
      simp [hblock, hline]
    right
    refine ⟨block, after, rfl, ?_, ?_⟩
    · rintro rfl
      cases hblock
      exact hline rfl
    · have hall : ∀ l ∈ splitCRLF block, decide (l ≠ []) = true := by
        rw [hblock, List.forall_mem_cons]
        exact ⟨decide_eq_true hline, fun l hl => decide_eq_true (hfull l hl)⟩
      rw [List.takeWhile_append_of_pos hall]
      simp

theorem cutBefore_of_not_hasEmptyLine (h : ¬ HasEmptyLine data) :
    cutBefore (crlf ++ crlf) data = none := by
  rw [← Option.not_isSome_iff_eq_none, Option.isSome_iff_exists]
  rintro ⟨⟨block, after⟩, hcut⟩
  obtain ⟨rest, hrest, hsplit, -⟩ := splitCRLF_of_cutBefore hcut
  refine h ?_
  rw [HasEmptyLine, hsplit, List.dropLast_append_of_ne_nil (List.cons_ne_nil _ _),
    List.dropLast_cons_of_ne_nil hrest]
  simp

theorem joined_mem_of_isFrom (h : HasEmptyLine data) {field : Field}
    (hfield : field ∈ headerFields (blockLines data)) (hfrom : field.isFrom = true) :
    field.joined ∈ fromHeaderValues (parseHeaderBlock data []) := by
  obtain hnone | ⟨block, after, hcut, hblock, hlines⟩ := blockLines_of_hasEmptyLine h
  · rw [hnone] at hfield
    cases hfield
  · obtain ⟨hisField, hname⟩ := fieldName_from hfrom
    have hkey : fieldName field.first ≠ [] := by
      intro hnil
      rw [hnil] at hname
      revert hname
      decide
    have hparse : parseHeaderBlock data [] = ((splitCRLF block).foldl scanLine ⟨[], []⟩).headers := by
      rw [parseHeaderBlock, hcut]
      exact if_neg fun hlen => hblock (List.length_eq_zero_iff.mp (Nat.le_zero.mp hlen))
    refine mem_fromHeaderValues hname ?_
    rw [hparse, get_scan hkey, ← hlines, List.mem_append]
    right
    refine List.mem_map.mpr ⟨field, List.mem_filter.mpr ⟨hfield, ?_⟩, rfl⟩
    rw [Field.isNamed, hisField, decide_eq_true rfl, Bool.true_and]

theorem isFolded_of_headerFields {field : Field} {lines : List Bytes} (h : field ∈ headerFields lines) :
    ∀ line ∈ field.folds, isFolded line = true := by
  induction lines with
  | nil => cases h
  | cons line rest ih =>
    rw [headerFields] at h
    split_ifs at h
    · exact ih h
    · rcases List.mem_cons.mp h with rfl | h
      · exact fun line hline => List.mem_takeWhile_imp hline
      · exact ih h

-- A parser that takes every value for one address, whatever blanks it has.
def oneAddress : AddressTools := ⟨fun value => some [value.filter fun c => !isWSP c], id⟩

theorem oneAddress_ignoresBlanks : oneAddress.IgnoresBlanks where
  front s hws := by simpa [oneAddress] using hws
  back s hws := by simpa [oneAddress] using hws
  inner t _ hws _ := by simpa [oneAddress, isWSP, or_iff_not_imp_left] using hws

def foldedAuthors : Bytes :=
  bytes "Subject: a\r\nfrom :\t\"Eve\" \r\n <eve@example.org>\r\nFROM: bob@example.org\r\n\r\nFrom: x\r\n"

end Submission

end UMail.Smtp
