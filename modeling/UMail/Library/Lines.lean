import Mathlib.Data.List.Basic

-- Texts of lines that end in CRLF.
namespace Lines

def crlf : List UInt8 := [13, 10]

-- The lines of a text, each with its end. Any of CRLF, CR and LF ends a line;
-- what follows the last end is a line without one.
def lines : List UInt8 → List (List UInt8)
  | [] => []
  | 13 :: 10 :: s => crlf :: lines s
  | c :: s =>
    if c = 13 ∨ c = 10 then crlf :: lines s
    else match lines s with
      | [] => [[c]]
      | line :: rest => (c :: line) :: rest

-- The lines of a text when only LF ends one, each with its end.
def linesLF : List UInt8 → List (List UInt8)
  | [] => []
  | c :: s =>
    if c = 10 then [10] :: linesLF s
    else match linesLF s with
      | [] => [[c]]
      | line :: rest => (c :: line) :: rest

def splitCRLF : List UInt8 → List (List UInt8)
  | [] => [[]]
  | 13 :: 10 :: s => [] :: splitCRLF s
  | c :: s => match splitCRLF s with
    | [] => [[c]]
    | line :: rest => (c :: line) :: rest

def onlyCRLF : List UInt8 → Bool
  | [] => true
  | 13 :: 10 :: s => onlyCRLF s
  | c :: s => c ≠ 13 && c ≠ 10 && onlyCRLF s

def Plain (s : List UInt8) : Prop := 13 ∉ s ∧ 10 ∉ s

instance (s : List UInt8) : Decidable (Plain s) := inferInstanceAs (Decidable (13 ∉ s ∧ 10 ∉ s))

def Ended (line : List UInt8) : Prop := ∃ s, Plain s ∧ line = s ++ crlf

-- Lines with their ends. Only the last one may lack it.
def WellFormed : List (List UInt8) → Prop
  | [] => True
  | line :: rest => Ended line ∧ WellFormed rest ∨ (Plain line ∧ line ≠ []) ∧ rest = []

-- Lines that LF ends. Only the last one may lack it.
def EndedLF (line : List UInt8) : Prop := ∃ s, 10 ∉ s ∧ line = s ++ [10]

def WellEnded : List (List UInt8) → Prop
  | [] => True
  | line :: rest => EndedLF line ∧ WellEnded rest ∨ (10 ∉ line ∧ line ≠ []) ∧ rest = []

theorem flatten_linesLF (s : List UInt8) : (linesLF s).flatten = s := by
  induction s with
  | nil => rfl
  | cons c s ih =>
    rw [linesLF]
    split_ifs with hc
    · rw [List.flatten_cons, ih, hc, List.singleton_append]
    refine Eq.trans ?_ (congrArg (c :: ·) ih)
    cases linesLF s <;> rfl

variable {s line : List UInt8} {c : UInt8} {ls ls' : List (List UInt8)}

theorem plain_of_forall (h : ∀ c ∈ s, c ≠ 13 ∧ c ≠ 10) : Plain s :=
  ⟨fun hc => (h 13 hc).1 rfl, fun hc => (h 10 hc).2 rfl⟩

theorem Plain.ne (h : Plain s) (hc : c ∈ s) : c ≠ 13 ∧ c ≠ 10 :=
  ⟨fun hcr => h.1 (hcr ▸ hc), fun hlf => h.2 (hlf ▸ hc)⟩

theorem Plain.nil : Plain [] := ⟨List.not_mem_nil, List.not_mem_nil⟩

theorem Plain.cons (hc : ¬ (c = 13 ∨ c = 10)) (hs : Plain s) : Plain (c :: s) := by
  obtain ⟨hcr, hlf⟩ := not_or.mp hc
  exact ⟨fun h => (List.mem_cons.mp h).elim (fun h => hcr h.symm) hs.1,
    fun h => (List.mem_cons.mp h).elim (fun h => hlf h.symm) hs.2⟩

theorem Plain.head (h : Plain (c :: s)) : c ≠ 13 ∧ c ≠ 10 :=
  ⟨fun hc => h.1 (hc ▸ List.mem_cons_self), fun hc => h.2 (hc ▸ List.mem_cons_self)⟩

theorem Plain.tail (h : Plain (c :: s)) : Plain s :=
  ⟨fun hc => h.1 (List.mem_cons_of_mem _ hc), fun hc => h.2 (List.mem_cons_of_mem _ hc)⟩

theorem plain_append {t : List UInt8} : Plain (s ++ t) ↔ Plain s ∧ Plain t := by
  simp only [Plain, List.mem_append]
  tauto

theorem Ended.crlf : Ended crlf := ⟨[], .nil, rfl⟩

theorem Ended.ne_nil (h : Ended line) : line ≠ [] := by
  obtain ⟨s, _, rfl⟩ := h
  simp [Lines.crlf]

theorem wellFormed_lines (s : List UInt8) : WellFormed (lines s) := by
  fun_induction lines s with
  | case1 => trivial
  | case2 s ih => exact Or.inl ⟨.crlf, ih⟩
  | case3 c s _ hc ih => exact Or.inl ⟨.crlf, ih⟩
  | case4 c s _ hc hnone ih => exact Or.inr ⟨⟨.cons hc .nil, by simp⟩, rfl⟩
  | case5 c s _ hc line rest hlines ih =>
    rw [hlines] at ih
    rcases ih with ⟨⟨content, hplain, rfl⟩, hrest⟩ | ⟨⟨hplain, _⟩, rfl⟩
    · exact Or.inl ⟨⟨c :: content, .cons hc hplain, rfl⟩, hrest⟩
    · exact Or.inr ⟨⟨.cons hc hplain, by simp⟩, rfl⟩

theorem WellFormed.sublist (hsub : ls'.Sublist ls) (h : WellFormed ls) : WellFormed ls' := by
  induction hsub with
  | slnil => trivial
  | cons line _ ih =>
    rcases h with ⟨_, hrest⟩ | ⟨_, rfl⟩
    · exact ih hrest
    · exact ih trivial
  | cons_cons line hsub ih =>
    rcases h with ⟨hline, hrest⟩ | ⟨hline, rfl⟩
    · exact Or.inl ⟨hline, ih hrest⟩
    · exact Or.inr ⟨hline, List.sublist_nil.mp hsub⟩

theorem lines_plain_append (h : Plain s) {rest : List (List UInt8)} {text : List UInt8}
    (htext : lines text = line :: rest) : lines (s ++ text) = (s ++ line) :: rest := by
  induction s with
  | nil => exact htext
  | cons c s ih =>
    obtain ⟨hcr, hlf⟩ := h.head
    rw [List.cons_append, lines]
    · rw [if_neg (not_or.mpr ⟨hcr, hlf⟩), ih h.tail]
      rfl
    · rintro t rfl
      exact absurd rfl hcr

theorem lines_plain (h : Plain (c :: s)) : lines (c :: s) = [c :: s] := by
  induction s generalizing c with
  | nil => simp [lines, h.head]
  | cons d s ih =>
    obtain ⟨hcr, hlf⟩ := h.head
    rw [lines]
    · rw [if_neg (not_or.mpr ⟨hcr, hlf⟩), ih h.tail]
    · rintro t rfl
      exact absurd rfl hcr

theorem linesLF_line (h : 10 ∉ s) (text : List UInt8) :
    linesLF (s ++ 10 :: text) = (s ++ [10]) :: linesLF text := by
  induction s with
  | nil => rfl
  | cons c s ih =>
    rw [List.cons_append, linesLF, if_neg (List.ne_of_not_mem_cons h).symm,
      ih (List.not_mem_of_not_mem_cons h)]
    rfl

theorem linesLF_rest (h : 10 ∉ c :: s) : linesLF (c :: s) = [c :: s] := by
  induction s generalizing c with
  | nil => exact if_neg (List.ne_of_not_mem_cons h).symm
  | cons d s ih =>
    rw [linesLF, if_neg (List.ne_of_not_mem_cons h).symm, ih (List.not_mem_of_not_mem_cons h)]

theorem linesLF_flatten (h : WellEnded ls) : linesLF ls.flatten = ls := by
  induction ls with
  | nil => rfl
  | cons line rest ih =>
    rcases h with ⟨⟨s, hs, rfl⟩, hrest⟩ | ⟨⟨hline, hne⟩, rfl⟩
    · rw [List.flatten_cons, List.append_assoc, List.singleton_append, linesLF_line hs, ih hrest]
    · obtain ⟨c, s, rfl⟩ := List.exists_cons_of_ne_nil hne
      rw [List.flatten_singleton, linesLF_rest hline]

theorem WellEnded.sublist (hsub : ls'.Sublist ls) (h : WellEnded ls) : WellEnded ls' := by
  induction hsub with
  | slnil => trivial
  | cons line _ ih =>
    rcases h with ⟨_, hrest⟩ | ⟨_, rfl⟩
    · exact ih hrest
    · exact ih trivial
  | cons_cons line hsub ih =>
    rcases h with ⟨hline, hrest⟩ | ⟨hline, rfl⟩
    · exact .inl ⟨hline, ih hrest⟩
    · exact .inr ⟨hline, List.sublist_nil.mp hsub⟩

theorem WellEnded.of_append (h : WellEnded (ls ++ ls')) : WellEnded ls' :=
  .sublist (List.sublist_append_right ls ls') h

theorem WellEnded.ends (h : WellEnded (ls ++ ls')) (hne : ls ≠ []) (hmore : ls' ≠ []) :
    ∃ s, ls.flatten = s ++ [10] := by
  induction ls with
  | nil => exact absurd rfl hne
  | cons line rest ih =>
    rcases h with ⟨⟨s, _, rfl⟩, hrest⟩ | ⟨_, hnil⟩
    · cases rest with
      | nil => exact ⟨s, List.flatten_singleton⟩
      | cons next rest =>
        obtain ⟨t, ht⟩ := ih hrest (List.cons_ne_nil _ _)
        exact ⟨s ++ [10] ++ t, by rw [List.flatten_cons, ht, ← List.append_assoc]⟩
    · exact absurd (List.append_eq_nil_iff.mp hnil).2 hmore

theorem WellFormed.wellEnded (h : WellFormed ls) : WellEnded ls := by
  induction ls with
  | nil => trivial
  | cons line rest ih =>
    rcases h with ⟨⟨s, hs, rfl⟩, hrest⟩ | ⟨⟨hline, hne⟩, rfl⟩
    · refine .inl ⟨⟨s ++ [13], ?_, by rw [List.append_assoc]; rfl⟩, ih hrest⟩
      exact fun h => (List.mem_append.mp h).elim hs.2 (by decide)
    · exact .inr ⟨⟨hline.2, hne⟩, rfl⟩

-- Lines that are written one after another, in front of a text.
theorem lines_ended_append (h : ∀ line ∈ ls, Plain line) (text : List UInt8) :
    lines ((ls.map (· ++ crlf)).flatten ++ text) = ls.map (· ++ crlf) ++ lines text := by
  induction ls with
  | nil => rfl
  | cons line rest ih =>
    obtain ⟨hline, hrest⟩ := List.forall_mem_cons.mp h
    have hend : lines (crlf ++ ((rest.map (· ++ crlf)).flatten ++ text)) =
        crlf :: (rest.map (· ++ crlf) ++ lines text) := congrArg (crlf :: ·) (ih hrest)
    simpa using lines_plain_append hline hend

theorem lines_flatten (h : WellFormed ls) : lines ls.flatten = ls := by
  induction ls with
  | nil => rfl
  | cons line rest ih =>
    rcases h with ⟨⟨s, hplain, rfl⟩, hrest⟩ | ⟨⟨hplain, hne⟩, rfl⟩
    · rw [List.flatten_cons, List.append_assoc]
      refine lines_plain_append hplain ?_
      have hstart : lines (crlf ++ rest.flatten) = crlf :: lines rest.flatten := rfl
      rw [hstart, ih hrest]
    · obtain ⟨c, s, rfl⟩ := List.exists_cons_of_ne_nil hne
      simpa using lines_plain hplain

theorem flatten_lines (h : onlyCRLF s = true) : (lines s).flatten = s := by
  fun_induction onlyCRLF s with
  | case1 => rfl
  | case2 s ih => rw [lines, List.flatten_cons, ih h]; rfl
  | case3 c s hnot ih =>
    simp only [Bool.and_eq_true, decide_eq_true_eq] at h
    rw [lines, if_neg (not_or.mpr h.1)]
    · refine Eq.trans ?_ (congrArg (c :: ·) (ih h.2))
      cases lines s <;> rfl
    · exact hnot

theorem onlyCRLF_plain_append (h : Plain s) (text : List UInt8) :
    onlyCRLF (s ++ text) = onlyCRLF text := by
  induction s with
  | nil => rfl
  | cons c s ih =>
    obtain ⟨hcr, hlf⟩ := h.head
    rw [List.cons_append, onlyCRLF]
    · simpa [hcr, hlf] using ih h.tail
    · rintro t rfl
      exact absurd rfl hcr

theorem onlyCRLF_flatten (h : WellFormed ls) : onlyCRLF ls.flatten = true := by
  induction ls with
  | nil => rfl
  | cons line rest ih =>
    rcases h with ⟨⟨s, hplain, rfl⟩, hrest⟩ | ⟨⟨hplain, hne⟩, rfl⟩
    · rw [List.flatten_cons, List.append_assoc, onlyCRLF_plain_append hplain]
      exact ih hrest
    · have hline := onlyCRLF_plain_append hplain []
      simpa [onlyCRLF] using hline

section Cut

variable {α : Type} [BEq α] [LawfulBEq α] {separator s : List α} {cut : List α × List α} {a : α}

-- A text in front of the first occurrence of a separator, and from there on.
def cutBefore (separator : List α) : List α → Option (List α × List α)
  | [] => if separator.isPrefixOf [] then some ([], []) else none
  | c :: s =>
    if separator.isPrefixOf (c :: s) then some ([], c :: s)
    else (cutBefore separator s).map fun cut => (c :: cut.1, cut.2)

omit [LawfulBEq α] in
theorem cutBefore_parts (h : cutBefore separator s = some cut) : cut.1 ++ cut.2 = s := by
  induction s generalizing cut with
  | nil =>
    rw [cutBefore] at h
    split_ifs at h
    cases h
    rfl
  | cons c s ih =>
    rw [cutBefore] at h
    split_ifs at h
    · cases h
      rfl
    · obtain ⟨rest, hrest, rfl⟩ := Option.map_eq_some_iff.mp h
      exact congrArg (c :: ·) (ih hrest)

theorem cutBefore_append (h : a ∉ s) (text : List α) : cutBefore (a :: separator) (s ++ text) =
      (cutBefore (a :: separator) text).map fun cut => (s ++ cut.1, cut.2) := by
  induction s with
  | nil => simp
  | cons c s ih =>
    have hne : a ≠ c := fun hc => h (hc ▸ List.mem_cons_self)
    have hno : (a :: separator).isPrefixOf (c :: (s ++ text)) = false := by simp [List.isPrefixOf, hne]
    rw [List.cons_append, cutBefore, hno, ih fun hmem => h (List.mem_cons_of_mem c hmem)]
    simp [Function.comp_def]

theorem cutBefore_eq_none (h : a ∉ s) : cutBefore (a :: separator) s = none := by
  simpa [cutBefore] using cutBefore_append h []

end Cut

section Ends

variable {s : List UInt8} {ls : List (List UInt8)}

theorem cutBefore_crlf_ended (h : Plain s) (text : List UInt8) :
    cutBefore crlf (s ++ (crlf ++ text)) = some (s, crlf ++ text) := by
  have hend : cutBefore crlf (crlf ++ text) = some ([], crlf ++ text) := by
    simp [crlf, cutBefore]
  unfold crlf at hend ⊢
  rw [cutBefore_append h.1, hend]
  simp

theorem cutBefore_crlf_plain (h : Plain s) : cutBefore crlf s = none := cutBefore_eq_none h.1

-- Two line ends after another, the first of which ends a line.
theorem cutBefore_blank (h : Plain s) (text : List UInt8) :
    cutBefore (crlf ++ crlf) (s ++ (crlf ++ text)) =
      if crlf.isPrefixOf text then some (s, crlf ++ text)
      else (cutBefore (crlf ++ crlf) text).map fun cut => (s ++ (crlf ++ cut.1), cut.2) := by
  have hend : cutBefore (crlf ++ crlf) (crlf ++ text) =
      if crlf.isPrefixOf text then some ([], crlf ++ text)
      else (cutBefore (crlf ++ crlf) text).map fun cut => (crlf ++ cut.1, cut.2) := by
    simp [crlf, cutBefore, Function.comp_def]
  have hcut : cutBefore (crlf ++ crlf) (s ++ (crlf ++ text)) = _ := cutBefore_append h.1 (crlf ++ text)
  rw [hcut]
  refine (congrArg (Option.map _) hend).trans ?_
  split_ifs
  · simp
  · simp [Function.comp_def]

-- A text starts with a line end exactly when its first line is empty.
theorem isPrefixOf_flatten (h : WellFormed ls) :
    crlf.isPrefixOf ls.flatten = true ↔ ls.head? = some crlf := by
  rcases ls with _ | ⟨line, rest⟩
  · simp [crlf]
  rw [List.head?_cons, Option.some.injEq]
  constructor
  · intro hprefix
    rcases h with ⟨⟨_ | ⟨c, s⟩, hplain, rfl⟩, _⟩ | ⟨⟨hplain, hne⟩, rfl⟩
    · rfl
    · simp [crlf, hplain.head.1.symm] at hprefix
    · obtain ⟨c, s, rfl⟩ := List.exists_cons_of_ne_nil hne
      simp [crlf, hplain.head.1.symm] at hprefix
  · rintro rfl
    simp [crlf]

-- The text up to the end of the line in front of the first empty line, and what
-- follows. An empty line in front of everything is not seen.
def cutHeader (text : List UInt8) : List UInt8 × List UInt8 :=
  match cutBefore (crlf ++ crlf) text with
  | some cut => (cut.1 ++ cut.2.take 2, cut.2.drop 2)
  | none => (text, [])

theorem cutHeader_append {text : List UInt8} (h : Plain s) :
    cutHeader (s ++ (crlf ++ text)) =
      if crlf.isPrefixOf text then (s ++ crlf, text)
      else (s ++ crlf ++ (cutHeader text).1, (cutHeader text).2) := by
  unfold cutHeader
  rw [cutBefore_blank h]
  split_ifs
  · rfl
  · cases cutBefore (crlf ++ crlf) text <;> simp

theorem cutHeader_flatten {line : List UInt8} {rest : List (List UInt8)} (h : WellFormed (line :: rest)) :
    cutHeader (line :: rest).flatten =
      ((line :: rest.takeWhile (· ≠ crlf)).flatten, (rest.dropWhile (· ≠ crlf)).flatten) := by
  induction rest generalizing line with
  | nil =>
    rcases h with ⟨⟨s, hplain, rfl⟩, _⟩ | ⟨⟨hplain, _⟩, _⟩
    · have hcut : cutHeader (s ++ (crlf ++ [])) = _ := cutHeader_append hplain
      simpa [cutHeader, cutBefore, crlf] using hcut
    · have hcut : cutBefore (crlf ++ crlf) line = none := cutBefore_eq_none hplain.1
      simp [cutHeader, hcut]
  | cons next rest ih =>
    rcases h with ⟨⟨s, hplain, rfl⟩, hrest⟩ | ⟨_, habsurd⟩
    · rw [List.flatten_cons, List.append_assoc, cutHeader_append hplain, ih hrest]
      have hblank := isPrefixOf_flatten hrest
      rw [List.head?_cons, Option.some.injEq] at hblank
      by_cases hnext : next = crlf
      · rw [if_pos (hblank.mpr hnext)]
        simp [hnext]
      · rw [if_neg (hblank.not.mpr hnext)]
        simp [hnext]
    · cases habsurd

end Ends

section Split

variable {c : UInt8} {s before after : List UInt8}

theorem splitCRLF_ne_nil (s : List UInt8) : splitCRLF s ≠ [] := by
  fun_cases splitCRLF s <;> exact List.cons_ne_nil _ _

theorem head?_ne_of_forall (h : ∀ t, c = 13 → s = 10 :: t → False) (hc : c = 13) : s.head? ≠ some 10 := by
  rintro hlf
  obtain ⟨t, rfl⟩ := List.head?_eq_some_iff.mp hlf
  exact h t hc rfl

theorem splitCRLF_cons (h : c = 13 → s.head? ≠ some 10) :
    ∃ line rest, splitCRLF s = line :: rest ∧ splitCRLF (c :: s) = (c :: line) :: rest := by
  obtain ⟨line, rest, hcons⟩ := List.exists_cons_of_ne_nil (splitCRLF_ne_nil s)
  refine ⟨line, rest, hcons, ?_⟩
  rw [splitCRLF.eq_3 c s fun s' hc hs => h hc (by rw [hs, List.head?_cons]), hcons]

-- The first part is empty at the start of a line end only.
theorem splitCRLF_head (hne : s ≠ []) (h : crlf.isPrefixOf s = false) {rest : List (List UInt8)} :
    splitCRLF s ≠ [] :: rest := by
  obtain ⟨c, s, rfl⟩ := List.exists_cons_of_ne_nil hne
  have hcons : ∀ t, c = 13 → s = 10 :: t → False := by
    rintro t rfl rfl
    simp [crlf] at h
  obtain ⟨line, rest', -, hsplit⟩ := splitCRLF_cons (head?_ne_of_forall hcons)
  rw [hsplit]
  simp

theorem cutBefore_blank_cons (h : c = 13 → s.head? ≠ some 10) :
    cutBefore (crlf ++ crlf) (c :: s) =
      (cutBefore (crlf ++ crlf) s).map fun cut => (c :: cut.1, cut.2) := by
  have hno : (crlf ++ crlf).isPrefixOf (c :: s) = false := by
    rcases s with _ | ⟨d, s⟩
    · simp [crlf, List.isPrefixOf]
    by_cases hc : c = 13
    · have hd : d ≠ 10 := fun hd => h hc (by rw [hd, List.head?_cons])
      simp [crlf, List.isPrefixOf, Ne.symm hd]
    · simp [crlf, List.isPrefixOf, Ne.symm hc]
  rw [cutBefore, hno]
  rfl

theorem cutBefore_blank_crlf (s : List UInt8) :
    cutBefore (crlf ++ crlf) (crlf ++ s) = if crlf.isPrefixOf s then some ([], crlf ++ s)
      else (cutBefore (crlf ++ crlf) s).map fun cut => (crlf ++ cut.1, cut.2) :=
  cutBefore_blank Plain.nil s

theorem head?_of_cutBefore (h : cutBefore (crlf ++ crlf) s = some (before, after))
    (hs : s.head? ≠ some 10) : before.head? ≠ some 10 := by
  rw [← cutBefore_parts h] at hs
  cases before with
  | nil => simp
  | cons d before => exact hs

-- Before the first blank line stand the parts that are not empty, but for the
-- first one.
theorem splitCRLF_of_cutBefore (h : cutBefore (crlf ++ crlf) s = some (before, after)) :
    ∃ rest, rest ≠ [] ∧ splitCRLF s = splitCRLF before ++ [] :: rest ∧
      ∀ line ∈ (splitCRLF before).tail, line ≠ [] := by
  fun_induction splitCRLF s generalizing before with
  | case1 => cases h
  | case2 s ih =>
    have hcut := cutBefore_blank_crlf s
    rw [show (13 : UInt8) :: 10 :: s = crlf ++ s from rfl, hcut] at h
    split_ifs at h with hblank
    · cases h
      obtain ⟨s, rfl⟩ := List.isPrefixOf_iff_prefix.mp hblank
      exact ⟨splitCRLF s, splitCRLF_ne_nil s, rfl, by simp [splitCRLF]⟩
    obtain ⟨⟨b, a⟩, hb, heq⟩ := Option.map_eq_some_iff.mp h
    cases heq
    obtain ⟨rest, hne, hsplit, htail⟩ := ih hb
    refine ⟨rest, hne, congrArg ([] :: ·) hsplit, ?_⟩
    obtain ⟨line, lines, hcons⟩ := List.exists_cons_of_ne_nil (splitCRLF_ne_nil b)
    have hs : s ≠ [] := by
      rintro rfl
      cases hb
    change ∀ line ∈ splitCRLF b, line ≠ []
    rw [hcons] at hsplit htail ⊢
    refine List.forall_mem_cons.mpr ⟨?_, htail⟩
    rintro rfl
    exact splitCRLF_head hs (Bool.eq_false_iff.mpr hblank) hsplit
  | case3 c s hnot hnil ih => exact absurd hnil (splitCRLF_ne_nil s)
  | case4 c s hnot line lines hcons ih =>
    have hc := head?_ne_of_forall hnot
    rw [cutBefore_blank_cons hc] at h
    obtain ⟨⟨b, a⟩, hb, heq⟩ := Option.map_eq_some_iff.mp h
    cases heq
    obtain ⟨rest, hne, hsplit, htail⟩ := ih hb
    obtain ⟨line', lines', hb', hcb⟩ := splitCRLF_cons fun hcr => head?_of_cutBefore hb (hc hcr)
    rw [hcons, hb'] at hsplit
    obtain ⟨rfl, rfl⟩ := List.cons.inj hsplit
    rw [hb'] at htail
    rw [hcb]
    exact ⟨rest, hne, rfl, htail⟩

theorem splitCRLF_of_cutBefore_none (h : cutBefore (crlf ++ crlf) s = none) :
    ∀ line ∈ (splitCRLF s).tail.dropLast, line ≠ [] := by
  fun_induction splitCRLF s with
  | case1 => simp
  | case2 s ih =>
    have hcut := cutBefore_blank_crlf s
    rw [show (13 : UInt8) :: 10 :: s = crlf ++ s from rfl, hcut] at h
    split_ifs at h with hblank
    rw [Option.map_eq_none_iff] at h
    have htail := ih h
    obtain ⟨line, lines, hcons⟩ := List.exists_cons_of_ne_nil (splitCRLF_ne_nil s)
    rw [List.tail_cons]
    rw [hcons] at htail ⊢
    rcases lines with _ | ⟨line', lines⟩
    · simp
    refine List.forall_mem_cons.mpr ⟨?_, htail⟩
    rintro rfl
    have hs : s ≠ [] := by
      rintro rfl
      cases hcons
    exact splitCRLF_head hs (Bool.eq_false_iff.mpr hblank) hcons
  | case3 c s hnot hnil ih => exact absurd hnil (splitCRLF_ne_nil s)
  | case4 c s hnot line lines hcons ih =>
    have hc := head?_ne_of_forall hnot
    rw [cutBefore_blank_cons hc, Option.map_eq_none_iff] at h
    have htail := ih h
    rwa [hcons] at htail

end Split

end Lines
