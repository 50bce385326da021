import UMail.Smtp.Trace
import Mathlib.Data.FinEnum
import Mathlib.Data.List.Find
import Mathlib.Data.List.Flatten

namespace UMail.Smtp

open Lines (crlf cutHeader linesLF WellFormed WellEnded)
open Folded (groups keep places)
open Text (fields fieldsLoop spaces)
open UMail.Storage (Bytes bytes)

section Separators

variable {a : UInt8} {v : Bytes}

theorem dropWhile_ne_nil (h : a ∈ v) : v.dropWhile (· ≠ a) ≠ [] := by
  intro hnil
  rw [List.dropWhile_eq_nil_iff] at hnil
  simpa using hnil a h

theorem takeWhile_ne_append (h : a ∈ v) (x : Bytes) :
    (v ++ x).takeWhile (· ≠ a) = v.takeWhile (· ≠ a) := by
  rw [List.takeWhile_append, if_neg]
  intro hall
  have hself := List.takeWhile_append_dropWhile (p := (· ≠ a)) (l := v)
  exact dropWhile_ne_nil h
    (List.append_right_eq_self.mp ((List.takeWhile_prefix _).eq_of_length hall ▸ hself))

theorem dropWhile_ne_append (h : a ∈ v) (x : Bytes) :
    (v ++ x).dropWhile (· ≠ a) = v.dropWhile (· ≠ a) ++ x := by
  rw [List.dropWhile_append, if_neg (by simpa using dropWhile_ne_nil h)]

theorem afterColon_append (h : 58 ∈ v) (x : Bytes) : afterColon (v ++ x) = afterColon v ++ x := by
  rw [afterColon, dropWhile_ne_append h]
  exact List.drop_append_of_le_length (List.length_pos_of_ne_nil (dropWhile_ne_nil h))

end Separators

section Shapes

variable {ls rest : List Bytes} {line : Bytes}

theorem shape_of_mem (h : WellFormed ls) (hline : line ∈ ls) :
    (∃ s, Lines.Plain s ∧ line = s ++ crlf) ∨ Lines.Plain line ∧ line ≠ [] := by
  induction ls with
  | nil => cases hline
  | cons first rest ih =>
    rcases h with ⟨hfirst, hrest⟩ | ⟨hfirst, rfl⟩
    · rcases List.mem_cons.mp hline with rfl | hline
      · exact .inl hfirst
      · exact ih hrest hline
    · obtain rfl := List.mem_singleton.mp hline
      exact .inr hfirst

theorem isEmptyLine_iff (h : WellFormed ls) (hline : line ∈ ls) : isEmptyLine line = true ↔ line = crlf := by
  have hne : line ≠ [10] := by
    rintro rfl
    rcases shape_of_mem h hline with ⟨s, -, hs⟩ | ⟨hplain, -⟩
    · have hlen := congrArg List.length hs
      simp [crlf] at hlen
    · exact hplain.2 List.mem_cons_self
  rw [isEmptyLine, Bool.or_eq_true, decide_eq_true_eq, decide_eq_true_eq]
  exact or_iff_left hne

theorem span_congr {p q : Bytes → Bool} (h : ∀ l ∈ ls, p l = q l) :
    ls.takeWhile p = ls.takeWhile q ∧ ls.dropWhile p = ls.dropWhile q := by
  induction ls with
  | nil => exact ⟨rfl, rfl⟩
  | cons l ls ih =>
    obtain ⟨htake, hdrop⟩ := ih fun l hl => h l (List.mem_cons_of_mem _ hl)
    simp only [List.takeWhile_cons, List.dropWhile_cons, h l List.mem_cons_self, htake, hdrop]
    exact ⟨trivial, trivial⟩

theorem cutHeader_lines (h : WellFormed (line :: rest)) :
    cutHeader (line :: rest).flatten = ((line :: rest.takeWhile fun l => !isEmptyLine l).flatten,
      (rest.dropWhile fun l => !isEmptyLine l).flatten) := by
  have hsame : ∀ l ∈ rest, (!isEmptyLine l) = decide (l ≠ crlf) := by
    intro l hl
    rw [Bool.eq_iff_iff, Bool.not_eq_true', decide_eq_true_eq, ← Bool.not_eq_true, not_iff_not]
    exact isEmptyLine_iff h (List.mem_cons_of_mem _ hl)
  rw [Lines.cutHeader_flatten h, (span_congr hsame).1, (span_congr hsame).2]

end Shapes

section Lines

variable (ls : List Bytes)

def header : List Bytes := ls.takeWhile fun line => !isEmptyLine line

def body : List Bytes := ls.dropWhile fun line => !isEmptyLine line

def firstParagraph : List Bytes := header (body ls).tail

def stripLines (tools : CaseTools) (name : Bytes) : List Bytes → List Bytes
  | [] => []
  | first :: rest =>
    keep isFolded (fun line _ => hasName tools name line) false (first :: header rest) ++ body rest

def removeLines (removed : List Bytes → Bool) : List Bytes :=
  ((groups isFolded (header ls)).filter fun field => !removed field).flatten ++ body ls

end Lines

section Strip

variable {tools : CaseTools} {name : Bytes} {names : List Bytes} {ls rest : List Bytes}
  {line : Bytes}

theorem header_append_body (ls : List Bytes) : header ls ++ body ls = ls := List.takeWhile_append_dropWhile

theorem not_isEmptyLine_of_mem_header (h : line ∈ header ls) : isEmptyLine line = false := by
  have hline := List.mem_takeWhile_imp (p := fun line => !isEmptyLine line) h
  simpa using hline

theorem isEmptyLine_of_body (h : line ∈ (body ls).head?) : isEmptyLine line = true := by
  have hhead := List.head?_dropWhile_not (fun line => !isEmptyLine line) ls
  rw [show (ls.dropWhile fun line => !isEmptyLine line).head? = some line from h] at hhead
  simpa using hhead

theorem header_cons_eq_nil_iff : header (line :: rest) = [] ↔ isEmptyLine line = true := by simp [header]

theorem fields_sublist (p : List Bytes → Bool) : (((groups isFolded ls).filter p).flatten).Sublist ls := by
  have hsub := (List.filter_sublist (p := p) (l := groups isFolded ls)).flatten
  rwa [Folded.flatten_groups] at hsub

-- Lines without an empty one, in front of what is empty or starts with one.
theorem header_body_of {before after : List Bytes} (hbefore : ∀ line ∈ before, isEmptyLine line = false)
    (hafter : ∀ line ∈ after.head?, isEmptyLine line = true) :
    header (before ++ after) = before ∧ body (before ++ after) = after := by
  have hpos : ∀ line ∈ before, (!isEmptyLine line) = true := fun line hline => by rw [hbefore line hline]; rfl
  unfold header body
  rw [List.takeWhile_append_of_pos hpos, List.dropWhile_append_of_pos hpos]
  cases after with
  | nil => exact ⟨List.append_nil _, rfl⟩
  | cons line after =>
    simp [hafter line rfl]

theorem stripLines_sublist : (stripLines tools name ls).Sublist ls := by
  cases ls with
  | nil => exact .slnil
  | cons first rest =>
    refine ((Folded.keep_sublist false (first :: header rest)).append_right (body rest)).trans ?_
    rw [List.cons_append, header_append_body]

theorem stripHeaderFields_flatten (h : WellFormed ls) :
    stripHeaderFields tools ls.flatten name = (stripLines tools name ls).flatten := by
  rcases ls with _ | ⟨first, rest⟩
  · rfl
  have hscanned : WellFormed (first :: header rest) :=
    h.sublist ((List.takeWhile_sublist _).cons_cons _)
  rw [stripHeaderFields, cutHeader_lines h, stripLines, List.flatten_append]
  change (keep _ _ _ (linesLF (first :: header rest).flatten)).flatten ++ (body rest).flatten = _
  rw [Lines.linesLF_flatten hscanned.wellEnded]

theorem removeFields_flatten (h : WellFormed ls) (removed : List Bytes → Bool) :
    removeFields removed ls.flatten = (removeLines ls removed).flatten := by
  unfold removeFields messageFields messageHeader messageBody removeLines
  rw [Lines.linesLF_flatten h.wellEnded, List.flatten_append]
  rfl

theorem ascii_of_toLower {s : Bytes} (h : Ascii (Storage.toLower s)) : Ascii s := by
  intro c hc
  have hlower := h _ (List.mem_map_of_mem hc)
  unfold Storage.toLowerByte at hlower
  split_ifs at hlower with hupper
  · exact Nat.lt_of_le_of_lt (UInt8.le_iff_toNat_le.mp hupper.2) (by decide)
  · exact hlower

-- What is named in the code is named in other ways only by letters that ASCII
-- does not have.
theorem hasName_of_toLower (tools : CaseTools) (hname : Ascii name) (hfield : isField line = true)
    (h : Storage.toLower (lineName line) = name) : hasName tools name line = true := by
  have hascii : Ascii (lineName line) := ascii_of_toLower (by rw [h]; exact hname)
  rw [hasName, hfield, tools.toLower_ascii hascii, h]
  exact beq_self_eq_true name

-- No header field has the name but for letters outside ASCII, and no header is
-- left without lines while the body has a field to remove in front.
structure Unspoilt (tools : CaseTools) (names ls : List Bytes) : Prop where
  spelled : ∀ name ∈ names, ∀ line ∈ header ls, isFolded line = false → hasName tools name line = true →
    Storage.toLower (lineName line) = name
  hidden : ∀ before name after, names = before ++ name :: after →
    (∀ field ∈ groups isFolded (header ls), namedIn before field = true) →
      ∀ line ∈ firstParagraph ls, isFolded line = false → hasName tools name line = false

theorem stripLines_header (h : header ls ≠ []) :
    stripLines tools name ls =
      keep isFolded (fun line _ => hasName tools name line) false (header ls) ++ body ls := by
  cases ls with
  | nil => exact absurd rfl h
  | cons first rest =>
    have hfirst : isEmptyLine first = false := Bool.eq_false_iff.mpr (mt header_cons_eq_nil_iff.mpr h)
    simp [stripLines, header, body, hfirst]

theorem isFolded_of_isEmptyLine (h : isEmptyLine line = true) :
    isFolded line = false ∧ isField line = false := by
  rw [isEmptyLine, Bool.or_eq_true, decide_eq_true_eq, decide_eq_true_eq] at h
  rcases h with rfl | rfl <;> decide

theorem stripLines_blank (h : isEmptyLine line = true) :
    stripLines tools name (line :: rest) =
      line :: keep isFolded (fun line _ => hasName tools name line) false (header rest) ++ body rest := by
  obtain ⟨hfolded, hfield⟩ := isFolded_of_isEmptyLine h
  rw [stripLines, keep, if_neg]
  rw [hfolded, hasName, hfield]
  exact Bool.false_ne_true

-- In a message that starts with an empty line, the pass goes over the body.
theorem stripLines_blank_eq_self_iff (h : isEmptyLine line = true) :
    stripLines tools name (line :: rest) = line :: rest ↔
      ∀ line ∈ header rest, isFolded line = false → hasName tools name line = false := by
  rw [stripLines_blank h]
  constructor
  · intro heq l hl hfolded
    have hrest := (List.cons.inj heq).2.trans (header_append_body rest).symm
    have hkeep := List.append_cancel_right hrest
    rw [← hkeep] at hl
    exact Folded.mem_keep hl hfolded
  · intro hnone
    rw [Folded.keep_eq_self hnone, List.cons_append, header_append_body]

theorem namedIn_cons (field : List Bytes) :
    namedIn (name :: names) field = (isNamed name field || namedIn names field) := List.any_cons

theorem groups_eq_nil_iff : groups isFolded ls = [] ↔ ls = [] := by
  cases ls with
  | nil => exact ⟨fun _ => rfl, fun _ => rfl⟩
  | cons line rest =>
    rw [Folded.groups_cons]
    exact ⟨fun h => absurd h (List.cons_ne_nil _ _), fun h => absurd h (List.cons_ne_nil _ _)⟩

theorem removeLines_nil (h : header ls = []) (removed : List Bytes → Bool) : removeLines ls removed = ls := by
  have hbody := header_append_body ls
  rw [h] at hbody
  rw [removeLines, h]
  exact hbody

theorem header_removeLines (ls : List Bytes) (removed : List Bytes → Bool) :
    header (removeLines ls removed) =
        ((groups isFolded (header ls)).filter fun field => !removed field).flatten ∧
      body (removeLines ls removed) = body ls := by
  refine header_body_of (fun line hline => ?_) fun line => isEmptyLine_of_body
  exact not_isEmptyLine_of_mem_header ((fields_sublist _).subset hline)

theorem groups_removeLines (removed : List Bytes → Bool) :
    groups isFolded (header (removeLines ls removed)) =
      (groups isFolded (header ls)).filter fun field => !removed field := by
  rw [(header_removeLines ls removed).1]
  exact (Folded.grouped_groups.sublist List.filter_sublist).groups_flatten

theorem removeLines_sublist {removed : List Bytes → Bool} : (removeLines ls removed).Sublist ls := by
  refine ((fields_sublist _).append_right (body ls)).trans ?_
  rw [header_append_body]

theorem removeLines_removeLines :
    removeLines (removeLines ls (isNamed name)) (namedIn names) =
      removeLines ls (namedIn (name :: names)) := by
  rw [removeLines, groups_removeLines, (header_removeLines ls _).2, List.filter_filter]
  refine congrArg (fun fields : List (List Bytes) => fields.flatten ++ body ls) (List.filter_congr ?_)
  intro field _
  rw [namedIn_cons, Bool.not_or, Bool.and_comm]

theorem stripLines_eq_self_iff (h : header ls = []) :
    stripLines tools name ls = ls ↔
      ∀ line ∈ firstParagraph ls, isFolded line = false → hasName tools name line = false := by
  rcases ls with _ | ⟨first, rest⟩
  · exact ⟨fun _ => List.forall_mem_nil _, fun _ => rfl⟩
  have hfirst := header_cons_eq_nil_iff.mp h
  rw [stripLines_blank_eq_self_iff hfirst, firstParagraph, body,
    List.dropWhile_cons_of_neg (by simp [hfirst])]
  rfl

theorem unspoilt_cons_blank (h : header ls = []) :
    Unspoilt tools (name :: names) ls ↔ stripLines tools name ls = ls ∧ Unspoilt tools names ls := by
  have hnone : ∀ {P : Bytes → Prop}, ∀ line ∈ header ls, P line := by
    rw [h]
    exact List.forall_mem_nil _
  have hfields : ∀ before, ∀ field ∈ groups isFolded (header ls), namedIn before field = true := by
    rw [h]
    exact fun before => List.forall_mem_nil _
  constructor
  · rintro ⟨-, hhidden⟩
    refine ⟨(stripLines_eq_self_iff h).mpr (hhidden [] name names rfl (hfields _)),
      fun _ _ => hnone, fun before n after hsplit _ => ?_⟩
    exact hhidden (name :: before) n after (by rw [hsplit]; rfl) (hfields _)
  · rintro ⟨hself, -, hhidden⟩
    refine ⟨fun _ _ => hnone, fun before n after hsplit _ => ?_⟩
    cases before with
    | nil =>
      obtain ⟨rfl, -⟩ := List.cons.inj hsplit
      exact (stripLines_eq_self_iff h).mp hself
    | cons _ before => exact hhidden before n after (List.cons.inj hsplit).2 (hfields _)

theorem exists_field_of_mem (h : line ∈ ls) (hfolded : isFolded line = false) :
    ∃ more, line :: more ∈ groups isFolded ls := by
  rw [← @Folded.flatten_groups _ isFolded ls] at h
  obtain ⟨field, hfield, hline⟩ := List.mem_flatten.mp h
  obtain ⟨first, more, rfl, hmore⟩ := Folded.grouped_groups.shape field hfield
  rcases List.mem_cons.mp hline with rfl | hline
  · exact ⟨more, hfield⟩
  · rw [hmore line hline] at hfolded
    cases hfolded

theorem isNamed_cons {more : List Bytes} (h : isFolded line = false) :
    isNamed name (line :: more) = (isField line && Storage.toLower (lineName line) == name) := by
  rw [isNamed, List.head?_cons, Option.any_some, h]
  rfl

theorem stripLines_eq_removeLines (hname : Ascii name) (h : header ls ≠ [])
    (hspelled : ∀ line ∈ header ls, isFolded line = false → hasName tools name line = true →
      Storage.toLower (lineName line) = name) :
    stripLines tools name ls = removeLines ls (isNamed name) := by
  rw [stripLines_header h, Folded.keep_eq_filter]
  refine congrArg (fun fields : List (List Bytes) => fields.flatten ++ body ls)
    (List.filter_congr fun field hfield => congrArg _ ?_)
  obtain ⟨line, more, rfl, hline⟩ := Folded.exists_head_of_mem_groups hfield
  rw [List.head?_cons, Option.any_some]
  cases hfolded : isFolded line with
  | true => simp [isNamed, hfolded]
  | false =>
    rw [isNamed_cons hfolded, Bool.not_false, Bool.true_and, Bool.eq_iff_iff, Bool.and_eq_true,
      beq_iff_eq]
    constructor
    · intro hhas
      exact ⟨(Bool.and_eq_true_iff.mp hhas).1, hspelled line hline hfolded hhas⟩
    · rintro ⟨hfield, hlower⟩
      exact hasName_of_toLower tools hname hfield hlower

-- A name that is found twice is one name.
theorem toLower_eq_of_named {n : Bytes} (hn : Ascii n)
    (hlower : Storage.toLower (lineName line) = n) (hfield : isField line = true)
    (hhas : hasName tools name line = true) : n = name := by
  have hother := hasName_of_toLower tools hn hfield hlower
  rw [hasName, Bool.and_eq_true, beq_iff_eq] at hother hhas
  exact hother.2.symm.trans hhas.2

theorem unspoilt_cons_header (hnames : ∀ n ∈ name :: names, Ascii n) (h : header ls ≠ [])
    (hspelled : ∀ line ∈ header ls, isFolded line = false → hasName tools name line = true →
      Storage.toLower (lineName line) = name) :
    Unspoilt tools (name :: names) ls ↔ Unspoilt tools names (removeLines ls (isNamed name)) := by
  have hheader := header_removeLines ls (isNamed name)
  have hparagraph : firstParagraph (removeLines ls (isNamed name)) = firstParagraph ls := by
    rw [firstParagraph, hheader.2, firstParagraph]
  have hnamed : ∀ before, (∀ field ∈ groups isFolded (header (removeLines ls (isNamed name))),
      namedIn before field = true) ↔
      ∀ field ∈ groups isFolded (header ls), namedIn (name :: before) field = true := by
    intro before
    rw [groups_removeLines]
    simp only [List.mem_filter, namedIn_cons, Bool.or_eq_true, Bool.not_eq_true']
    constructor
    · intro hall field hfield
      cases hname : isNamed name field with
      | true => exact .inl rfl
      | false => exact .inr (hall field ⟨hfield, hname⟩)
    · rintro hall field ⟨hfield, hname⟩
      exact (hall field hfield).resolve_left (by rw [hname]; exact Bool.false_ne_true)
  constructor
  · rintro ⟨hspelled', hhidden⟩
    refine ⟨fun n hn line hline => ?_, fun before n after hsplit hall => ?_⟩
    · refine hspelled' n (List.mem_cons_of_mem _ hn) line ?_
      rw [hheader.1] at hline
      exact (fields_sublist _).subset hline
    · rw [hparagraph]
      exact hhidden (name :: before) n after (by rw [hsplit]; rfl) ((hnamed before).mp hall)
  · rintro ⟨hspelled', hhidden⟩
    refine ⟨fun n hn line hline hfolded hhas => ?_, fun before n after hsplit hall => ?_⟩
    · rcases List.mem_cons.mp hn with rfl | hn
      · exact hspelled line hline hfolded hhas
      · obtain ⟨more, hfield⟩ := exists_field_of_mem hline hfolded
        cases hname : isNamed name (line :: more) with
        | true =>
          rw [isNamed_cons hfolded, Bool.and_eq_true, beq_iff_eq] at hname
          rw [← toLower_eq_of_named (hnames name List.mem_cons_self) hname.2 hname.1 hhas]
          exact hname.2
        | false =>
          refine hspelled' n hn line ?_ hfolded hhas
          rw [hheader.1]
          exact List.mem_flatten.mpr ⟨_, List.mem_filter.mpr ⟨hfield, by rw [hname]; rfl⟩,
            List.mem_cons_self⟩
    · cases before with
      | nil =>
        obtain ⟨field, fields, hfields⟩ := List.exists_cons_of_ne_nil (mt groups_eq_nil_iff.mp h)
        have habsurd := hall field (by rw [hfields]; exact List.mem_cons_self)
        cases habsurd
      | cons _ before =>
        obtain ⟨rfl, hrest⟩ := List.cons.inj hsplit
        rw [← hparagraph]
        exact hhidden before n after hrest ((hnamed before).mpr hall)

-- A name that is only found by letters outside ASCII stays with the fields that
-- are removed in turn.
theorem spelled_of_eq (hnames : ∀ n ∈ name :: names, Ascii n) (hheader : header ls ≠ [])
    {out : List Bytes} (hout : out.Sublist (stripLines tools name ls))
    (h : out = removeLines ls (namedIn (name :: names))) :
    ∀ line ∈ header ls, isFolded line = false → hasName tools name line = true →
      Storage.toLower (lineName line) = name := by
  intro line hline hfolded hhas
  by_contra hlower
  obtain ⟨more, hfield⟩ := exists_field_of_mem hline hfolded
  have hkept : namedIn (name :: names) (line :: more) = false := by
    rw [namedIn, List.any_eq_false]
    intro n hn hnamed
    rw [isNamed_cons hfolded, Bool.and_eq_true, beq_iff_eq] at hnamed
    rw [← toLower_eq_of_named (hnames n hn) hnamed.2 hnamed.1 hhas] at hlower
    exact hlower hnamed.2
  -- Such lines are counted in what the pass keeps and in what should be kept.
  let odd : Bytes → Bool := fun line => !isFolded line && hasName tools name line
  have hnone : (keep isFolded (fun line _ => hasName tools name line) false (header ls)).countP odd = 0 := by
    rw [List.countP_eq_zero]
    intro line hline hodd
    rw [Bool.and_eq_true, Bool.not_eq_true'] at hodd
    rw [Folded.mem_keep hline hodd.1] at hodd
    exact absurd hodd.2 Bool.false_ne_true
  have hsome : 0 < (((groups isFolded (header ls)).filter fun field =>
      !namedIn (name :: names) field).flatten).countP odd := by
    refine List.countP_pos_iff.mpr ⟨line, ?_, by simp [odd, hfolded, hhas]⟩
    exact List.mem_flatten.mpr ⟨_, List.mem_filter.mpr ⟨hfield, by rw [hkept]; rfl⟩, List.mem_cons_self⟩
  have hle := hout.countP_le (p := odd)
  rw [h, removeLines, stripLines_header hheader, List.countP_append, List.countP_append] at hle
  omega

theorem foldl_stripLines_sublist :
    (names.foldl (fun ls name => stripLines tools name ls) ls).Sublist ls := by
  induction names generalizing ls with
  | nil => exact List.Sublist.refl ls
  | cons name names ih => exact ih.trans stripLines_sublist

-- The passes for some names remove the fields of those names.
theorem foldl_stripLines_eq_iff (hnames : ∀ n ∈ names, Ascii n) :
    names.foldl (fun ls name => stripLines tools name ls) ls = removeLines ls (namedIn names) ↔
      Unspoilt tools names ls := by
  induction names generalizing ls with
  | nil =>
    have hkept : ((groups isFolded (header ls)).filter fun field => !namedIn [] field) =
        groups isFolded (header ls) := List.filter_eq_self.mpr fun _ _ => rfl
    have hall : removeLines ls (namedIn []) = ls := by
      rw [removeLines, hkept, Folded.flatten_groups, header_append_body]
    rw [hall]
    exact ⟨fun _ => ⟨List.forall_mem_nil _, fun before n after h => by simp at h⟩, fun _ => rfl⟩
  | cons name names ih =>
    have hrest : ∀ n ∈ names, Ascii n := fun n hn => hnames n (List.mem_cons_of_mem _ hn)
    rw [List.foldl_cons]
    by_cases hheader : header ls = []
    · rw [unspoilt_cons_blank hheader, removeLines_nil hheader]
      constructor
      · intro heq
        have hself : stripLines tools name ls = ls := by
          refine stripLines_sublist.eq_of_length_le ?_
          have hle := (@foldl_stripLines_sublist tools names (stripLines tools name ls)).length_le
          rw [heq] at hle
          exact hle
        refine ⟨hself, (ih hrest).mp ?_⟩
        rw [hself] at heq
        rw [heq, removeLines_nil hheader]
      · rintro ⟨hself, hunspoilt⟩
        rw [hself, (ih hrest).mpr hunspoilt, removeLines_nil hheader]
    · constructor
      · intro heq
        have hspelled := spelled_of_eq hnames hheader foldl_stripLines_sublist heq
        rw [unspoilt_cons_header hnames hheader hspelled, ← ih hrest, removeLines_removeLines, ← heq,
          stripLines_eq_removeLines (hnames name List.mem_cons_self) hheader hspelled]
      · intro hunspoilt
        have hspelled := hunspoilt.spelled name List.mem_cons_self
        rw [unspoilt_cons_header hnames hheader hspelled, ← ih hrest, removeLines_removeLines] at hunspoilt
        rw [← hunspoilt, stripLines_eq_removeLines (hnames name List.mem_cons_self) hheader hspelled]

end Strip

section Words

variable {fuel : Nat} {word v x : Bytes} {s space : Bytes} {tools : CaseTools}

theorem length_pos_of_space (h : spaces.find? (·.isPrefixOf s) = some space) :
    0 < space.length ∧ space.length ≤ s.length := by
  have hmem := List.mem_of_find?_eq_some h
  have hprefix := List.find?_some h
  exact ⟨(by decide : ∀ space ∈ spaces, 0 < space.length) space hmem,
    (List.isPrefixOf_iff_prefix.mp hprefix).length_le⟩

theorem fieldsLoop_fuel (h : v.length ≤ fuel) :
    fieldsLoop fuel word v = fieldsLoop v.length word v := by
  induction hn : v.length using Nat.strongRecOn generalizing fuel word v with
  | _ n ih =>
    cases v with
    | nil =>
      subst hn
      cases fuel <;> rfl
    | cons c s =>
      obtain ⟨n, rfl⟩ : ∃ k, n = k + 1 := ⟨s.length, by rw [← hn, List.length_cons]⟩
      obtain ⟨fuel, rfl⟩ : ∃ k, fuel = k + 1 := ⟨fuel - 1, by rw [List.length_cons] at h; omega⟩
      rw [List.length_cons] at h hn
      rw [fieldsLoop, fieldsLoop]
      cases hspace : spaces.find? (·.isPrefixOf (c :: s)) with
      | none =>
        rw [ih n (by omega) (by omega) (by omega)]
      | some space =>
        have hlen := length_pos_of_space hspace
        have hdrop : ((c :: s).drop space.length).length = n + 1 - space.length := by
          rw [List.length_drop, List.length_cons, hn]
        have hsame : ∀ k, n + 1 - space.length ≤ k →
            fieldsLoop k [] ((c :: s).drop space.length) =
              fieldsLoop (n + 1 - space.length) [] ((c :: s).drop space.length) :=
          fun k hk => ih _ (by omega) (by rw [hdrop]; exact hk) hdrop
        dsimp only
        rw [hsame fuel (by omega), hsame n (by omega)]

theorem isPrefixOf_line_end {c : UInt8} (h : space ∈ spaces) :
    space.isPrefixOf (c :: s ++ 10 :: x) = space.isPrefixOf (c :: s) := by
  rw [Bool.eq_iff_iff, List.isPrefixOf_iff_prefix, List.isPrefixOf_iff_prefix]
  refine ⟨fun hfront => ?_, fun hfront => hfront.trans (List.prefix_append _ _)⟩
  rcases Nat.lt_or_ge (c :: s).length space.length with hlt | hle
  · obtain ⟨tail, htail⟩ :=
      List.prefix_of_prefix_length_le (List.prefix_append (c :: s) (10 :: x)) hfront hlt.le
    have hend : 10 ∈ space := by
      rw [← htail] at hfront hlt ⊢
      have hne : tail ≠ [] := by
        rintro rfl
        simp at hlt
      obtain ⟨d, tail, rfl⟩ := List.exists_cons_of_ne_nil hne
      have hd := (List.prefix_append_right_inj _).mp hfront
      rw [(List.cons_prefix_cons.mp hd).1]
      exact List.mem_append_right _ List.mem_cons_self
    have hspace := (by decide : ∀ space ∈ spaces, 10 ∈ space → space = [10]) space h hend
    rw [hspace] at hlt
    simp at hlt
  · exact List.prefix_of_prefix_length_le hfront (List.prefix_append _ _) hle

theorem fieldsLoop_line (word v x : Bytes) :
    fieldsLoop (v ++ 10 :: x).length word (v ++ 10 :: x) =
      fieldsLoop v.length word v ++ fieldsLoop x.length [] x := by
  induction hn : v.length using Nat.strongRecOn generalizing word v with
  | _ n ih =>
    cases v with
    | nil =>
      subst hn
      rfl
    | cons c s =>
      rw [List.length_cons] at hn
      obtain rfl := hn
      have hfind : spaces.find? (·.isPrefixOf (c :: s ++ 10 :: x)) =
          spaces.find? (·.isPrefixOf (c :: s)) :=
        List.find?_congr fun space hspace => isPrefixOf_line_end hspace
      rw [List.cons_append] at hfind
      rw [List.cons_append, List.length_cons, fieldsLoop, fieldsLoop, hfind]
      cases hspace : spaces.find? (·.isPrefixOf (c :: s)) with
      | none =>
        exact ih s.length (Nat.lt_succ_self _) _ s rfl
      | some space =>
        obtain ⟨hpos, hlen⟩ := length_pos_of_space hspace
        have hdrop : (c :: (s ++ 10 :: x)).drop space.length =
            (c :: s).drop space.length ++ 10 :: x := by
          rw [← List.cons_append, List.drop_append_of_le_length hlen]
        have hshort : ((c :: s).drop space.length).length ≤ s.length := by
          rw [List.length_drop, List.length_cons]
          omega
        dsimp only
        rw [hdrop, fieldsLoop_fuel (by simp only [List.length_append]; omega),
          ih _ (Nat.lt_succ_of_le hshort) [] _ rfl, ← fieldsLoop_fuel hshort, List.append_assoc]

theorem fields_line (v x : Bytes) : fields (v ++ 10 :: x) = fields v ++ fields x := by
  have hfuel : ∀ s, fields s = fieldsLoop s.length [] s := fun s => fieldsLoop_fuel (Nat.le_succ _)
  rw [hfuel, hfuel, hfuel, fieldsLoop_line]

def BlankText (v : Bytes) : Prop := semicolon ∉ v ∧ fields v = []

instance (v : Bytes) : Decidable (BlankText v) :=
  inferInstanceAs (Decidable (semicolon ∉ v ∧ fields v = []))

theorem takeWhile_no_semicolon (h : semicolon ∉ v) (x : Bytes) :
    (v ++ x).takeWhile (· ≠ semicolon) = v ++ x.takeWhile (· ≠ semicolon) :=
  List.takeWhile_append_of_pos fun _ hc => decide_eq_true fun hsame => h (hsame ▸ hc)

-- What follows a line of the value is looked at only when the line says nothing.
theorem authServID_line (h : ¬ BlankText (v ++ [10])) (x : Bytes) :
    authServID tools (v ++ [10] ++ x) = authServID tools (v ++ [10]) := by
  unfold authServID
  by_cases hsemi : semicolon ∈ v ++ [10]
  · rw [takeWhile_ne_append hsemi]
  have hwords : fields (v ++ [10]) ≠ [] := fun hnone => h ⟨hsemi, hnone⟩
  rw [fields_line] at hwords
  have hself := takeWhile_no_semicolon hsemi []
  rw [List.takeWhile_nil, List.append_nil] at hself
  rw [takeWhile_no_semicolon hsemi, hself, List.append_assoc, List.singleton_append, fields_line,
    fields_line]
  cases hv : fields v with
  | nil =>
    rw [hv] at hwords
    exact absurd rfl hwords
  | cons word words => rfl

theorem authServID_blank_line (h : BlankText (v ++ [10])) :
    authServID tools (v ++ [10] ++ x) = authServID tools x := by
  have hwords := h.2
  rw [fields_line, List.append_eq_nil_iff] at hwords
  unfold authServID
  rw [takeWhile_no_semicolon h.1, List.append_assoc, List.singleton_append, fields_line, hwords.1,
    List.nil_append]

end Words

section Own

variable {tools : CaseTools} {hostname line : Bytes} {ls rest field : List Bytes}
  {place : List Bytes × List (List Bytes)}

theorem rdropWhile_append_ends :
    ∃ ends, line = line.rdropWhile isLineEnd ++ ends ∧ ∀ c ∈ ends, isLineEnd c = true := by
  refine ⟨line.rtakeWhile isLineEnd, ?_, fun c hc => List.mem_rtakeWhile_imp hc⟩
  exact (List.rdropWhile_append_rtakeWhile ..).symm

theorem isFolded_content (h : line.rdropWhile isLineEnd ≠ []) :
    isFolded (line.rdropWhile isLineEnd) = isFolded line := by
  obtain ⟨ends, hline, -⟩ := rdropWhile_append_ends
  obtain ⟨c, content, hcontent⟩ := List.exists_cons_of_ne_nil h
  rw [hcontent] at hline ⊢
  rw [hline]
  rfl

theorem isField_content : isField (line.rdropWhile isLineEnd) = isField line := by
  obtain ⟨ends, hline, hends⟩ := rdropWhile_append_ends
  have hcolon : 58 ∉ ends := fun h => absurd (hends 58 h) (by decide)
  generalize line.rdropWhile isLineEnd = content at hline
  subst hline
  cases content with
  | nil =>
    have hno : isField ends = false := by simp [isField, hcolon]
    rw [List.nil_append, hno]
    rfl
  | cons c content => simp [isField, hcolon]

theorem lineName_content (h : isField line = true) :
    lineName (line.rdropWhile isLineEnd) = lineName line := by
  have hcontent : 58 ∈ line.rdropWhile isLineEnd := by
    rw [← isField_content, isField, Bool.and_eq_true, decide_eq_true_eq] at h
    exact h.1
  obtain ⟨ends, hline, -⟩ := rdropWhile_append_ends
  generalize line.rdropWhile isLineEnd = content at hline hcontent
  subst hline
  rw [lineName, lineName, takeWhile_ne_append hcontent]

theorem isAuthResults_content :
    isAuthResults tools (line.rdropWhile isLineEnd) = isAuthResults tools line := by
  rw [isAuthResults, isField_content, isAuthResults]
  cases hfield : isField line with
  | false => rfl
  | true => rw [lineName_content hfield]

def scanned (ls : List Bytes) : List Bytes := ls.takeWhile fun line => line.rdropWhile isLineEnd ≠ []

def unscanned (ls : List Bytes) : List Bytes := ls.dropWhile fun line => line.rdropWhile isLineEnd ≠ []

theorem scanned_blank (h : line.rdropWhile isLineEnd = []) :
    scanned (line :: rest) = [] ∧ unscanned (line :: rest) = line :: rest := by
  simp only [scanned, unscanned, List.takeWhile_cons, List.dropWhile_cons, h, ne_eq, not_true_eq_false,
    decide_false, Bool.false_eq_true, if_false, and_self]

theorem scanned_cons (h : line.rdropWhile isLineEnd ≠ []) :
    scanned (line :: rest) = line :: scanned rest ∧ unscanned (line :: rest) = unscanned rest := by
  simp only [scanned, unscanned, List.takeWhile_cons, List.dropWhile_cons, h, ne_eq, not_false_eq_true,
    decide_true, if_true, and_self]

theorem removeOwnLoop_eq (dropping : Bool) : removeOwnLoop tools hostname dropping ls =
      (keep isFolded (fun line rest => claimsHost tools hostname line (rest ++ unscanned ls)) dropping
        (scanned ls)).flatten ++ (unscanned ls).flatten := by
  induction ls generalizing dropping with
  | nil => rfl
  | cons line rest ih =>
    by_cases hblank : line.rdropWhile isLineEnd = []
    · obtain ⟨hscanned, hunscanned⟩ := scanned_blank hblank
      rw [removeOwnLoop, if_pos hblank, hscanned, hunscanned]
      rfl
    obtain ⟨hscanned, hunscanned⟩ := scanned_cons hblank
    have hrest : scanned rest ++ unscanned rest = rest := List.takeWhile_append_dropWhile
    rw [removeOwnLoop, if_neg hblank, hscanned, hunscanned, keep, hrest, isFolded_content hblank, ih, ih]
    by_cases hdrop : (if isFolded line then dropping else claimsHost tools hostname line rest) = true
    · rw [if_pos hdrop, if_pos hdrop]
    · rw [if_neg hdrop, if_neg hdrop, List.flatten_cons, List.append_assoc]

def startsResults (tools : CaseTools) (field : List Bytes) : Bool :=
  field.head?.any fun line => !isFolded line && isAuthResults tools line

theorem colon_of_startsResults (h : startsResults tools field = true) : 58 ∈ field.flatten := by
  rcases field with _ | ⟨line, more⟩
  · cases h
  rw [startsResults, List.head?_cons, Option.any_some, Bool.and_eq_true, isAuthResults,
    Bool.and_eq_true, isField, Bool.and_eq_true, decide_eq_true_eq] at h
  exact List.mem_append_left _ h.2.1.1

theorem dropped_own (tail : List Bytes) :
    Folded.dropped isFolded (fun line rest => claimsHost tools hostname line (rest ++ tail)) place =
      (startsResults tools place.1 &&
        authServID tools (fieldText place.1 ++ (place.2.flatten ++ tail).flatten) ==
          tools.toLower hostname) := by
  obtain ⟨field, after⟩ := place
  rcases field with _ | ⟨line, more⟩
  · rfl
  cases hstarts : startsResults tools (line :: more) with
  | false =>
    rw [startsResults, List.head?_cons, Option.any_some] at hstarts
    simp only [Folded.dropped, claimsHost, isAuthResults_content, ← Bool.and_assoc, hstarts,
      Bool.false_and]
  | true =>
    have htext : afterColon (line ++ (more ++ after.flatten ++ tail).flatten) =
        fieldText (line :: more) ++ (after.flatten ++ tail).flatten := by
      rw [fieldText, ← afterColon_append (colon_of_startsResults hstarts)]
      simp only [List.flatten_cons, List.flatten_append, List.append_assoc]
    rw [startsResults, List.head?_cons, Option.any_some] at hstarts
    simp only [Folded.dropped, claimsHost, isAuthResults_content, ← Bool.and_assoc, hstarts,
      htext]

theorem authServID_of_blank {v : Bytes} (h : BlankText v) : authServID tools v = [] := by
  have hself := takeWhile_no_semicolon h.1 []
  rw [List.takeWhile_nil, List.append_nil] at hself
  rw [authServID, hself, h.2]

-- The identifier that is found in what follows the name of a field.
theorem authServID_following {before field following : List Bytes}
    (h : WellEnded (before ++ (field ++ following))) (hcolon : 58 ∈ field.flatten) :
    authServID tools (fieldText field ++ following.flatten) =
      if BlankText (fieldText field) then authServID tools following.flatten
      else authServID tools (fieldText field) := by
  cases hfollowing : following with
  | nil =>
    rw [List.flatten_nil, List.append_nil]
    split_ifs with hblank
    · exact authServID_of_blank hblank
    · rfl
  | cons next more =>
    have hne : field ≠ [] := by
      rintro rfl
      cases hcolon
    obtain ⟨s, hs⟩ := h.of_append.ends hne (by rw [hfollowing]; exact List.cons_ne_nil _ _)
    have hmem : 58 ∈ s := by
      rw [hs] at hcolon
      exact (List.mem_append.mp hcolon).resolve_right (by decide)
    rw [fieldText, hs, afterColon_append hmem]
    split_ifs with hblank
    · exact authServID_blank_line hblank
    · exact authServID_line hblank _

theorem toUpper_toLower (s : Bytes) : Storage.toUpper (Storage.toLower s) = Storage.toUpper s := by
  have hbyte : ∀ c : UInt8, Storage.toUpperByte (Storage.toLowerByte c) = Storage.toUpperByte c := by
    decide +kernel
  rw [Storage.toUpper, Storage.toLower, List.map_map]
  exact List.map_congr_left fun c _ => hbyte c

theorem startsResults_of_isNamed (tools : CaseTools)
    (h : isNamed (bytes "authentication-results") field = true) : startsResults tools field = true := by
  rcases field with _ | ⟨line, more⟩
  · cases h
  rw [isNamed, List.head?_cons, Option.any_some, Bool.and_eq_true, Bool.and_eq_true, beq_iff_eq] at h
  have hascii : Ascii (lineName line) := ascii_of_toLower (by rw [h.2]; decide)
  have hfold : tools.equalFold (lineName line) authResultsName = true := by
    rw [tools.equalFold_ascii hascii (by decide), Storage.equalFold,
      ← toUpper_toLower, h.2]
    decide
  rw [startsResults, List.head?_cons, Option.any_some, h.1.1, isAuthResults, h.1.2, hfold]
  rfl

-- Every results field of the header says by itself whose it is, and has its name
-- in letters of ASCII.
structure OwnReadable (tools : CaseTools) (hostname : Bytes) (ls : List Bytes) : Prop where
  spelled : ∀ place ∈ places (groups isFolded (header ls)), startsResults tools place.1 = true →
    isNamed (bytes "authentication-results") place.1 = false →
      authServID tools (fieldText place.1 ++ (place.2.flatten ++ body ls).flatten) ≠ tools.toLower hostname
  valued : ∀ place ∈ places (groups isFolded (header ls)),
    isNamed (bytes "authentication-results") place.1 = true → BlankText (fieldText place.1) →
      (authServID tools (place.2.flatten ++ body ls).flatten = tools.toLower hostname ↔
        tools.toLower hostname = [])

theorem exists_before (hplace : place ∈ places (groups isFolded ls)) :
    ∃ before, before ++ (place.1 ++ (place.2.flatten ++ rest)) = ls ++ rest := by
  obtain ⟨before, hbefore⟩ := Folded.exists_of_mem_places hplace
  have hlines := @Folded.flatten_groups _ isFolded ls
  rw [hbefore, List.flatten_append, List.flatten_cons] at hlines
  refine ⟨before.flatten, ?_⟩
  simp only [← hlines, List.append_assoc]

-- What the pass finds in a field that has the name.
theorem authServID_place (h : WellEnded ls) (hplace : place ∈ places (groups isFolded (header ls)))
    (hstarts : startsResults tools place.1 = true) :
    authServID tools (fieldText place.1 ++ (place.2.flatten ++ body ls).flatten) =
      if BlankText (fieldText place.1) then authServID tools (place.2.flatten ++ body ls).flatten
      else authServID tools (fieldText place.1) := by
  obtain ⟨before, hlines⟩ := exists_before hplace
  refine @authServID_following _ before _ _ ?_ (colon_of_startsResults hstarts)
  rw [hlines, header_append_body]
  exact h

theorem content_eq_nil_iff (h : WellFormed ls) (hline : line ∈ ls) :
    line.rdropWhile isLineEnd = [] ↔ line = crlf := by
  constructor
  · intro hnil
    rw [List.rdropWhile_eq_nil_iff] at hnil
    have hnone : ∀ s, Lines.Plain s → (∀ c ∈ s, isLineEnd c = true) → s = [] := by
      intro s hs hends
      rcases s with _ | ⟨c, s⟩
      · rfl
      obtain ⟨hcr, hlf⟩ := hs.head
      have hend := hends c List.mem_cons_self
      simp [isLineEnd, hcr, hlf] at hend
    rcases shape_of_mem h hline with ⟨s, hs, rfl⟩ | ⟨hplain, hne⟩
    · rw [hnone s hs fun c hc => hnil c (List.mem_append_left _ hc)]
      rfl
    · exact absurd (hnone line hplain hnil) hne
  · rintro rfl
    decide

theorem scanned_eq (h : WellFormed ls) : scanned ls = header ls ∧ unscanned ls = body ls := by
  refine span_congr fun line hline => ?_
  rw [Bool.eq_iff_iff, decide_eq_true_eq, Bool.not_eq_true', ← Bool.not_eq_true,
    isEmptyLine_iff h hline, ne_eq, content_eq_nil_iff h hline]

theorem flatten_places_eq_iff (h : WellFormed ls) {p q : List Bytes × List (List Bytes) → Bool} :
    (((places (groups isFolded (header ls))).filter p).map Prod.fst).flatten.flatten =
        (((places (groups isFolded (header ls))).filter q).map Prod.fst).flatten.flatten ↔
      ((places (groups isFolded (header ls))).filter p).map Prod.fst =
        ((places (groups isFolded (header ls))).filter q).map Prod.fst := by
  refine ⟨fun heq => ?_, fun heq => by rw [heq]⟩
  have hfields : ∀ p : List Bytes × List (List Bytes) → Bool,
      groups isFolded
          (linesLF (((places (groups isFolded (header ls))).filter p).map Prod.fst).flatten.flatten) =
        ((places (groups isFolded (header ls))).filter p).map Prod.fst := by
    intro p
    have hsub : (((places (groups isFolded (header ls))).filter p).map Prod.fst).Sublist
        (groups isFolded (header ls)) := by
      have hsub := (List.filter_sublist (p := p) (l := places (groups isFolded (header ls)))).map Prod.fst
      rwa [Folded.map_fst_places] at hsub
    have hlines := hsub.flatten
    rw [Folded.flatten_groups] at hlines
    rw [Lines.linesLF_flatten (h.sublist (hlines.trans (List.takeWhile_sublist _))).wellEnded]
    exact (Folded.grouped_groups.sublist hsub).groups_flatten
  rw [← hfields p, ← hfields q, heq]

theorem dropped_eq_own_iff (h : WellEnded ls)
    (hplace : place ∈ places (groups isFolded (header ls))) :
    Folded.dropped isFolded (fun line rest => claimsHost tools hostname line (rest ++ body ls)) place =
        isOwnResult tools hostname place.1 ↔
      (startsResults tools place.1 = true → isNamed (bytes "authentication-results") place.1 = false →
        authServID tools (fieldText place.1 ++ (place.2.flatten ++ body ls).flatten) ≠
          tools.toLower hostname) ∧
      (isNamed (bytes "authentication-results") place.1 = true → BlankText (fieldText place.1) →
        (authServID tools (place.2.flatten ++ body ls).flatten = tools.toLower hostname ↔
          tools.toLower hostname = [])) := by
  rw [dropped_own, isOwnResult]
  cases hnamed : isNamed (bytes "authentication-results") place.1 with
  | false =>
    cases hstarts : startsResults tools place.1 with
    | false => simp
    | true => simp
  | true =>
    have hstarts := startsResults_of_isNamed tools hnamed
    rw [hstarts, Bool.true_and, Bool.true_and, authServID_place h hplace hstarts, Bool.eq_iff_iff,
      beq_iff_eq, beq_iff_eq]
    by_cases hblank : BlankText (fieldText place.1)
    · rw [if_pos hblank, authServID_of_blank hblank]
      constructor
      · exact fun hiff => ⟨fun _ hfalse => (by cases hfalse), fun _ _ => hiff.trans eq_comm⟩
      · exact fun hboth => (hboth.2 rfl hblank).trans eq_comm
    · rw [if_neg hblank]
      simp [hblank]

theorem ownReadable_iff (h : WellEnded ls) :
    OwnReadable tools hostname ls ↔ ∀ place ∈ places (groups isFolded (header ls)),
      Folded.dropped isFolded (fun line rest => claimsHost tools hostname line (rest ++ body ls)) place =
        isOwnResult tools hostname place.1 := by
  constructor
  · intro hreadable place hplace
    exact (dropped_eq_own_iff h hplace).mpr ⟨hreadable.spelled place hplace, hreadable.valued place hplace⟩
  · intro hsame
    exact ⟨fun place hplace => ((dropped_eq_own_iff h hplace).mp (hsame place hplace)).1,
      fun place hplace => ((dropped_eq_own_iff h hplace).mp (hsame place hplace)).2⟩

-- The pass removes the fields that are the server's own.
theorem removeOwnAuthResults_eq_iff (h : WellFormed ls) :
    removeOwnAuthResults tools ls.flatten hostname =
        removeFields (isOwnResult tools hostname) ls.flatten ↔ OwnReadable tools hostname ls := by
  rw [removeOwnAuthResults, Lines.linesLF_flatten h.wellEnded, removeOwnLoop_eq, (scanned_eq h).1,
    (scanned_eq h).2, Folded.keep_eq, removeFields_flatten h, removeLines, List.flatten_append,
    ← Folded.filter_places _ (groups isFolded (header ls)), List.append_left_inj, flatten_places_eq_iff h,
    ownReadable_iff h.wellEnded]
  constructor
  · intro heq place hplace
    -- A field that has the name is kept too often only when there is no host
    -- name, and any other is removed too often.
    have hsame := Folded.agree_of_filter Prod.fst
      (fun field => !isNamed (bytes "authentication-results") field || decide (tools.toLower hostname ≠ []))
      heq ?_ ?_ place hplace
    · simpa using hsame
    · intro place hplace hside hkept
      rw [dropped_own] at hkept
      cases hown : isOwnResult tools hostname place.1 with
      | false => rfl
      | true =>
        rw [isOwnResult, Bool.and_eq_true, beq_iff_eq] at hown
        have hstarts := startsResults_of_isNamed tools hown.1
        have hhost : tools.toLower hostname ≠ [] := by simpa [hown.1] using hside
        have hblank : ¬ BlankText (fieldText place.1) := fun hblank =>
          hhost (hown.2 ▸ authServID_of_blank hblank)
        rw [hstarts, authServID_place h.wellEnded hplace hstarts, if_neg hblank, hown.2] at hkept
        simp at hkept
    · intro place hplace hside hdue
      rw [Bool.or_eq_false_iff, Bool.not_eq_false', decide_eq_false_iff_not, not_not] at hside
      have hstarts := startsResults_of_isNamed tools hside.1
      rw [dropped_own, authServID_place h.wellEnded hplace hstarts]
      rw [isOwnResult, hside.1, hside.2, Bool.true_and, Bool.not_eq_true', beq_eq_false_iff_ne] at hdue
      have hblank : ¬ BlankText (fieldText place.1) := fun hblank => hdue (authServID_of_blank hblank)
      simp [if_neg hblank, hside.2, hdue]
  · intro hsame
    refine congrArg (List.map Prod.fst) (List.filter_congr fun place hplace => ?_)
    rw [hsame place hplace]

end Own

section Sanitize

variable {tools : CaseTools} {now : Bytes} {ls : List Bytes} {name : Bytes} {line : Bytes}

theorem foldl_sanitizeLine (lines : List Bytes) (st : Sanitizing) :
    (lines.foldl (sanitizeLine tools) st).out = st.out ++
        (keep isFolded (fun line _ => hasName tools (bytes "bcc") line) st.dropping lines).flatten ∧
      (lines.foldl (sanitizeLine tools) st).hasDate =
        (st.hasDate || lines.any fun line => !isFolded line && hasName tools (bytes "date") line) := by
  induction lines generalizing st with
  | nil => exact ⟨(List.append_nil _).symm, (Bool.or_false _).symm⟩
  | cons line lines ih =>
    have hdropping : (st.look tools line).dropping =
        if isFolded line then st.dropping else hasName tools (bytes "bcc") line := by
      unfold Sanitizing.look hasName
      split_ifs with hfolded hfield
      · rfl
      · rw [hfield]
        rfl
      · rw [eq_false_of_ne_true hfield]
        rfl
    have hdate : (st.look tools line).hasDate =
        (st.hasDate || (!isFolded line && hasName tools (bytes "date") line)) := by
      unfold Sanitizing.look hasName
      split_ifs with hfolded hfield
      · rw [hfolded]
        exact (Bool.or_false _).symm
      · rw [hfield, eq_false_of_ne_true hfolded]
        rfl
      · rw [eq_false_of_ne_true hfield, Bool.false_and, Bool.and_false, Bool.or_false]
    have hout : (st.look tools line).out = st.out := by
      unfold Sanitizing.look
      split_ifs <;> rfl
    obtain ⟨ihout, ihdate⟩ := ih (sanitizeLine tools st line)
    rw [List.foldl_cons, ihout, ihdate, keep, List.any_cons, ← Bool.or_assoc, ← hdate, ← hdropping]
    unfold sanitizeLine Sanitizing.take
    cases hdrop : (st.look tools line).dropping with
    | true =>
      rw [if_pos rfl, hdrop, hout]
      exact ⟨rfl, rfl⟩
    | false =>
      rw [if_neg Bool.false_ne_true, if_neg Bool.false_ne_true, hout, List.flatten_cons,
        ← List.append_assoc]
      exact ⟨rfl, rfl⟩

def hasDate (tools : CaseTools) (data : Bytes) : Bool :=
  (linesLF (cutHeader data).1).any fun line => !isFolded line && hasName tools (bytes "date") line

theorem sanitizeSubmissionHeaders_eq (now data : Bytes) :
    ∃ added, (added = [] ∨ added = dateField now ∧ hasDate tools data = false) ∧
      sanitizeSubmissionHeaders tools now data = added ++ stripHeaderFields tools data (bytes "bcc") := by
  obtain ⟨hout, hdate⟩ := @foldl_sanitizeLine tools (linesLF (cutHeader data).1) ⟨[], false, false, false⟩
  generalize hst : (linesLF (cutHeader data).1).foldl (sanitizeLine tools) ⟨[], false, false, false⟩ = st
    at hout hdate
  refine ⟨if st.sawHeader && !st.hasDate then dateField now else [], ?_, ?_⟩
  · rw [Bool.false_or] at hdate
    split_ifs with hadd
    · rw [Bool.and_eq_true, Bool.not_eq_true', hdate] at hadd
      exact .inr ⟨rfl, hadd.2⟩
    · exact .inl rfl
  · rw [sanitizeSubmissionHeaders, hst, hout, List.append_assoc]
    rfl

theorem stripLines_sublist_removeLines (hname : Ascii name) :
    (stripLines tools name ls).Sublist (removeLines ls (isNamed name)) := by
  by_cases hheader : header ls = []
  · rw [removeLines_nil hheader]
    exact stripLines_sublist
  rw [stripLines_header hheader, Folded.keep_eq_filter]
  refine (List.Sublist.flatten (List.monotone_filter_right _ fun field hkept => ?_)).append_right _
  cases hnamed : isNamed name field with
  | false => rfl
  | true =>
    rcases field with _ | ⟨line, more⟩
    · cases hnamed
    rw [isNamed, List.head?_cons, Option.any_some, Bool.and_eq_true, Bool.and_eq_true,
      beq_iff_eq] at hnamed
    rw [List.head?_cons, Option.any_some, hnamed.1.1,
      hasName_of_toLower tools hname hnamed.1.2 hnamed.2] at hkept
    cases hkept

theorem mem_scanned_of_mem_header (h : WellFormed ls) (hline : line ∈ header ls) :
    line ∈ linesLF (cutHeader ls.flatten).1 := by
  rcases ls with _ | ⟨first, rest⟩
  · cases hline
  have hscanned : WellFormed (first :: header rest) :=
    h.sublist ((List.takeWhile_sublist _).cons_cons _)
  have hfirst : isEmptyLine first = false :=
    Bool.eq_false_iff.mpr (mt header_cons_eq_nil_iff.mpr (List.ne_nil_of_mem hline))
  rw [cutHeader_lines h]
  change line ∈ linesLF (first :: header rest).flatten
  rw [Lines.linesLF_flatten hscanned.wellEnded]
  simpa [header, hfirst] using hline

-- A text of lines that starts with some characters starts with a line that does.
theorem prefix_of_lines {start text : Bytes} {rest : List Bytes} (h : WellEnded (line :: rest))
    (hstart : 10 ∉ start) (htext : start ++ text = (line :: rest).flatten) : start <+: line := by
  have hfront : start <+: line ++ rest.flatten := ⟨text, htext⟩
  rcases Nat.lt_or_ge line.length start.length with hlt | hle
  · have hline := List.prefix_of_prefix_length_le (List.prefix_append line rest.flatten) hfront hlt.le
    rcases h with ⟨⟨s, _, rfl⟩, _⟩ | ⟨_, rfl⟩
    · exact absurd (hline.subset (List.mem_append_right _ (List.mem_singleton_self 10))) hstart
    rw [List.flatten_singleton] at htext
    have hlen := congrArg List.length htext
    rw [List.length_append] at hlen
    omega
  · exact List.prefix_of_prefix_length_le hfront (List.prefix_append _ _) hle

theorem hasName_date (tools : CaseTools) (h : bytes "Date: " <+: line) :
    isFolded line = false ∧ hasName tools (bytes "date") line = true := by
  obtain ⟨rest, rfl⟩ := h
  have hname : lineName (bytes "Date: " ++ rest) = bytes "Date" := by
    rw [lineName, takeWhile_ne_append (by decide)]
    decide
  have hfield : isField (bytes "Date: " ++ rest) = true := rfl
  exact ⟨rfl, hasName_of_toLower tools (by decide) hfield (by rw [hname]; decide)⟩

-- A Date field is not added in front of the same text.
theorem hasDate_of_eq (h : WellFormed ls) {text : Bytes} {removed : List Bytes → Bool}
    (heq : dateField now ++ text = (removeLines ls removed).flatten) : hasDate tools ls.flatten = true := by
  obtain ⟨hheader, -⟩ := header_removeLines ls removed
  cases hlines : removeLines ls removed with
  | nil =>
    rw [hlines] at heq
    cases heq
  | cons line rest =>
    rw [hlines] at heq hheader
    have hended : WellEnded (line :: rest) := hlines ▸ (h.sublist removeLines_sublist).wellEnded
    have hdate : bytes "Date: " <+: line := by
      refine @prefix_of_lines line _ (now ++ crlf ++ text) rest hended (by decide) ?_
      rw [← heq, dateField]
      simp only [List.append_assoc]
    have hnotEmpty : isEmptyLine line = false := by
      obtain ⟨tail, rfl⟩ := hdate
      rfl
    have hmem : line ∈ header (line :: rest) := by simp [header, hnotEmpty]
    rw [hheader] at hmem
    rw [hasDate, List.any_eq_true]
    exact ⟨line, mem_scanned_of_mem_header h ((fields_sublist _).subset hmem),
      by simp [hasName_date tools hdate]⟩

theorem flatten_eq_iff {ls' : List Bytes} (h : WellFormed ls) (h' : WellFormed ls') :
    ls.flatten = ls'.flatten ↔ ls = ls' := by
  refine ⟨fun heq => ?_, fun heq => by rw [heq]⟩
  rw [← Lines.linesLF_flatten h.wellEnded, heq, Lines.linesLF_flatten h'.wellEnded]

theorem foldl_stripHeaderFields (h : WellFormed ls) (names : List Bytes) :
    names.foldl (stripHeaderFields tools) ls.flatten =
      (names.foldl (fun ls name => stripLines tools name ls) ls).flatten := by
  induction names generalizing ls with
  | nil => rfl
  | cons name names ih =>
    rw [List.foldl_cons, stripHeaderFields_flatten h]
    exact ih (h.sublist stripLines_sublist)

theorem foldl_stripHeaderFields_eq_iff (h : WellFormed ls) {names : List Bytes}
    (hnames : ∀ n ∈ names, Ascii n) :
    names.foldl (stripHeaderFields tools) ls.flatten = removeFields (namedIn names) ls.flatten ↔
      Unspoilt tools names ls := by
  rw [foldl_stripHeaderFields h, removeFields_flatten h, ← foldl_stripLines_eq_iff hnames]
  exact flatten_eq_iff (h.sublist foldl_stripLines_sublist) (h.sublist removeLines_sublist)

theorem namedIn_singleton : namedIn [name] = isNamed name := by
  funext field
  exact Bool.or_false _

theorem stripHeaderFields_eq_iff (h : WellFormed ls) (hname : Ascii name) :
    stripHeaderFields tools ls.flatten name = removeFields (isNamed name) ls.flatten ↔
      Unspoilt tools [name] ls := by
  rw [← namedIn_singleton, ← foldl_stripHeaderFields_eq_iff h (List.forall_mem_singleton.mpr hname)]
  rfl

theorem sanitizeSubmissionHeaders_eq_iff (h : WellFormed ls) :
    (∃ added, (added = [] ∨ added = dateField now) ∧ sanitizeSubmissionHeaders tools now ls.flatten =
        added ++ removeFields (isNamed (bytes "bcc")) ls.flatten) ↔
      Unspoilt tools [bytes "bcc"] ls := by
  have hbcc : Ascii (bytes "bcc") := by decide
  rw [← stripHeaderFields_eq_iff h hbcc]
  obtain ⟨front, hfront, hsanitized⟩ := sanitizeSubmissionHeaders_eq now ls.flatten
  constructor
  · rintro ⟨added, hadded, heq⟩
    rw [hsanitized] at heq
    rcases hfront with rfl | ⟨rfl, hdate⟩
    · rcases hadded with rfl | rfl
      · exact heq
      · -- What is kept is not longer than what should be.
        rw [List.nil_append, stripHeaderFields_flatten h, removeFields_flatten h] at heq
        have hle := (@stripLines_sublist_removeLines tools ls _ hbcc).flatten.length_le
        rw [heq, List.length_append, dateField, List.length_append, List.length_append] at hle
        have hpos : (bytes "Date: ").length = 6 := by decide
        omega
    · rcases hadded with rfl | rfl
      · rw [removeFields_flatten h] at heq
        rw [hasDate_of_eq h heq] at hdate
        cases hdate
      · exact List.append_cancel_left heq
  · intro heq
    refine ⟨front, ?_, by rw [hsanitized, heq]⟩
    exact hfront.imp id And.left

end Sanitize

-- Each of the passes removes what it is named for, and leaves the rest as it is,
-- exactly when nothing hides the header from it.
theorem header_passes_exact_iff (tools : CaseTools) (data hostname now : Bytes)
    (hdata : Lines.onlyCRLF data = true) :
    (∀ name, Ascii name → (stripHeaderFields tools data name = removeFields (isNamed name) data ↔
      Unspoilt tools [name] (linesLF data))) ∧
    (stripVerdictHeaders tools data = removeFields (namedIn verdictNames) data ↔
      Unspoilt tools verdictNames (linesLF data)) ∧
    (removeOwnAuthResults tools data hostname = removeFields (isOwnResult tools hostname) data ↔
      OwnReadable tools hostname (linesLF data)) ∧
    ((∃ added, (added = [] ∨ added = dateField now) ∧
      sanitizeSubmissionHeaders tools now data = added ++ removeFields (isNamed (bytes "bcc")) data) ↔
      Unspoilt tools [bytes "bcc"] (linesLF data)) := by
  obtain ⟨ls, h, rfl⟩ : ∃ ls, WellFormed ls ∧ ls.flatten = data :=
    ⟨_, Lines.wellFormed_lines data, Lines.flatten_lines hdata⟩
  rw [Lines.linesLF_flatten h.wellEnded]
  exact ⟨fun _ => stripHeaderFields_eq_iff h, foldl_stripHeaderFields_eq_iff h (by decide),
    removeOwnAuthResults_eq_iff h, sanitizeSubmissionHeaders_eq_iff h⟩

theorem header_passes_exact_folded :
    stripHeaderFields asciiCase (bytes "RECEIVED: by a\r\n\tfor b\r\nTo: c\r\n\r\nReceived: d\r\n")
      (bytes "received") = bytes "To: c\r\n\r\nReceived: d\r\n" ∧
    Unspoilt asciiCase [bytes "received"]
      (linesLF (bytes "RECEIVED: by a\r\n\tfor b\r\nTo: c\r\n\r\nReceived: d\r\n")) := by
  refine ⟨by decide, ?_⟩
  refine ((header_passes_exact_iff asciiCase _ [] [] (by decide)).1 _ (by decide)).mp ?_
  decide

end UMail.Smtp
