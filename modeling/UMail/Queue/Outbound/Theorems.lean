import UMail.Queue.Outbound

namespace UMail.Queue

open Lines (crlf lines onlyCRLF cutBefore WellFormed Plain Ended)
open UMail.Storage

section Loops

variable {line : Bytes} {rest : List Bytes}

theorem normaliseLoop_eq {message : Bytes} : normaliseLoop message = (lines message).flatten := by
  fun_induction lines message with
  | case1 => rfl
  | case2 s ih => simp [normaliseLoop, ih, crlf]
  | case3 c s hnext hc ih =>
    rw [normaliseLoop, if_pos hc, ih]
    · rfl
    · exact hnext
  | case4 c s hnext hc hnone ih =>
    rw [normaliseLoop, if_neg hc, ih, hnone]
    · rfl
    · exact hnext
  | case5 c s hnext hc line rest hlines ih =>
    rw [normaliseLoop, if_neg hc, ih, hlines]
    · rfl
    · exact hnext

theorem normaliseLineEndings_eq (message : Bytes) :
    normaliseLineEndings message = (lines message).flatten := by
  unfold normaliseLineEndings
  split_ifs with hends
  · exact normaliseLoop_eq
  have hplain : Plain message := ⟨fun h => hends (Or.inr h), fun h => hends (Or.inl h)⟩
  cases message with
  | nil => rfl
  | cons c s => simp [Lines.lines_plain hplain]

theorem cutAfterLine_crlf (h : WellFormed (line :: rest)) :
    cutAfterLine crlf (line :: rest).flatten = (line, rest.flatten) := by
  unfold cutAfterLine
  rcases h with ⟨⟨s, hplain, rfl⟩, _⟩ | ⟨⟨hplain, _⟩, rfl⟩
  · rw [List.flatten_cons, List.append_assoc, Lines.cutBefore_crlf_ended hplain]
    rfl
  · rw [List.flatten_singleton, Lines.cutBefore_crlf_plain hplain]
    rfl

theorem headerLoop_eq {ls : List Bytes} (h : WellFormed ls) {fuel : Nat}
    (hfuel : ls.flatten.length ≤ fuel) (state : HeaderState) :
    headerLoop fuel ls.flatten state = ls.foldl headerStep state := by
  induction ls generalizing fuel state with
  | nil => cases fuel <;> simp [headerLoop]
  | cons line rest ih =>
    have hline : line ≠ [] := by
      rcases h with ⟨hended, _⟩ | ⟨⟨_, hne⟩, _⟩
      · exact hended.ne_nil
      · exact hne
    have hpos : 0 < line.length := List.length_pos_of_ne_nil hline
    have hrest : WellFormed rest := h.sublist (List.sublist_cons_self ..)
    rw [List.flatten_cons, List.length_append] at hfuel
    obtain ⟨fuel, rfl⟩ : ∃ n, fuel = n + 1 := ⟨fuel - 1, by omega⟩
    rw [headerLoop, cutAfterLine_crlf h, if_pos (by rw [List.flatten_cons, List.length_append]; omega)]
    exact ih hrest (by omega) _

-- The header ends before the first empty line that is not its first line.
theorem cutAfterLine_blank (h : WellFormed (line :: rest)) :
    cutAfterLine (crlf ++ crlf) (line :: rest).flatten =
      ((line :: rest.takeWhile (· ≠ crlf)).flatten, (rest.dropWhile (· ≠ crlf)).flatten) := by
  rw [← Lines.cutHeader_flatten h, cutAfterLine, Lines.cutHeader]
  cases cutBefore (crlf ++ crlf) (line :: rest).flatten <;> rfl

end Loops

section Header

abbrev dropLines (skipping : Bool) (ls : List Bytes) : List Bytes :=
  Folded.keep isContinuation (fun line _ => removedName line) skipping ls

def startsRemoved (line : Bytes) : Bool := !isContinuation line && removedName line

theorem foldl_headerStep (ls : List Bytes) (state : HeaderState) :
    (ls.foldl headerStep state).out = state.out ++ (dropLines state.skipping ls).flatten ∧
      (ls.foldl headerStep state).changed = (state.changed || ls.any startsRemoved) := by
  induction ls generalizing state with
  | nil => simp [Folded.keep]
  | cons line rest ih =>
    obtain ⟨hout, hchanged⟩ := ih (headerStep state line)
    rw [List.foldl_cons, hout, hchanged]
    obtain ⟨out, changed, skipping⟩ := state
    cases hcont : isContinuation line <;> cases hname : removedName line <;> cases skipping <;>
      simp [headerStep, Folded.keep, startsRemoved, hcont, hname]

theorem startsRemoved_eq_false_iff {line : Bytes} :
    startsRemoved line = false ↔ (isContinuation line = false → removedName line = false) := by
  cases hcont : isContinuation line <;> simp [startsRemoved, hcont]

theorem dropLines_eq_self {ls : List Bytes} (h : ls.any startsRemoved = false) :
    dropLines false ls = ls :=
  Folded.keep_eq_self fun line hline =>
    startsRemoved_eq_false_iff.mp (eq_false_of_ne_true (List.any_eq_false.mp h line hline))

theorem dropLines_sublist (ls : List Bytes) : (dropLines false ls).Sublist ls :=
  Folded.keep_sublist false ls

theorem dropLines_any (skipping : Bool) (ls : List Bytes) :
    (dropLines skipping ls).any startsRemoved = false := by
  refine List.any_eq_false.mpr fun line hline => Bool.eq_false_iff.mp ?_
  exact startsRemoved_eq_false_iff.mpr (Folded.mem_keep hline)

-- On its lines, a message is a header up to the first empty line after the
-- first line, and the rest.
def prepareLines : List Bytes → List Bytes
  | [] => []
  | line :: rest =>
    dropLines false (line :: rest.takeWhile (· ≠ crlf)) ++ rest.dropWhile (· ≠ crlf)

theorem prepareOutbound_eq (message : Bytes) :
    prepareOutbound message = (prepareLines (lines message)).flatten := by
  unfold prepareOutbound
  rw [normaliseLineEndings_eq]
  have hlines := Lines.wellFormed_lines message
  rcases hls : lines message with _ | ⟨line, rest⟩
  · rfl
  rw [hls] at hlines
  have hheader : WellFormed (line :: rest.takeWhile (· ≠ crlf)) :=
    hlines.sublist ((List.takeWhile_sublist _).cons_cons line)
  simp only [cutAfterLine_blank hlines, headerLoop_eq hheader (Nat.le_refl _)]
  obtain ⟨hout, hchanged⟩ :=
    foldl_headerStep (line :: rest.takeWhile (· ≠ crlf)) ⟨[], false, false⟩
  rw [hout, hchanged, prepareLines]
  cases hany : (line :: rest.takeWhile (· ≠ crlf)).any startsRemoved with
  | false =>
    rw [dropLines_eq_self hany, List.cons_append, List.takeWhile_append_dropWhile]
    rfl
  | true => simp

end Header

section Names

variable {line before name after rest : Bytes}

theorem graphic_of_removedNames (h : toLower name ∈ removedNames) :
    name ≠ [] ∧ ∀ c ∈ name, 32 < c ∧ c < 127 ∧ c ≠ 58 := by
  have hnames : ∀ word ∈ removedNames, word ≠ [] ∧ ∀ d ∈ word, 44 < d ∧ d < 123 ∧ d ≠ 58 := by
    decide +kernel
  obtain ⟨hne, hletters⟩ := hnames _ h
  refine ⟨fun hnil => hne (by rw [hnil]; rfl), fun c hc => ?_⟩
  have hd := hletters _ (List.mem_map_of_mem hc)
  unfold toLowerByte at hd
  split_ifs at hd with hupper
  · exact ⟨UInt8.lt_of_lt_of_le (by decide) hupper.1, UInt8.lt_of_le_of_lt hupper.2 (by decide),
      fun hcolon => by subst hcolon; exact absurd hupper (by decide)⟩
  · exact ⟨UInt8.lt_trans (by decide) hd.1, UInt8.lt_trans hd.2.1 (by decide), hd.2.2⟩

theorem removedName_iff : removedName line = true ↔ ∃ before name after rest,
      line = before ++ name ++ after ++ rest ∧ toLower name ∈ removedNames ∧
        Text.MadeOf Text.spaces before ∧ Text.MadeOf Text.spaces after ∧
          (rest = [] ∨ rest.head? = some 58) := by
  have hmem : ∀ s, removedName s = true ↔
      toLower (Text.trimSpace (s.takeWhile (· ≠ 58))) ∈ removedNames := by
    intro s
    simp [removedName, removedNames]
  rw [hmem]
  constructor
  · intro h
    obtain ⟨before, after, hbefore, hafter, hsplit⟩ :=
      Text.trimSpace_split (line.takeWhile (· ≠ 58))
    refine ⟨before, _, after, line.dropWhile (· ≠ 58), ?_, h, hbefore, hafter, ?_⟩
    · rw [← hsplit, List.takeWhile_append_dropWhile]
    · cases hrest : line.dropWhile (· ≠ 58) with
      | nil => exact .inl rfl
      | cons c rest =>
        have hhead := List.head?_dropWhile_not (· ≠ 58) line
        rw [hrest] at hhead
        exact .inr (by simpa using hhead)
  · rintro ⟨before, name, after, rest, rfl, hname, hbefore, hafter, hrest⟩
    obtain ⟨-, hgraphic⟩ := graphic_of_removedNames hname
    have hcolon : ∀ space ∈ Text.spaces, ∀ c ∈ space, c ≠ 58 := by
      decide +kernel
    have hspace : ∀ s, Text.MadeOf Text.spaces s → ∀ c ∈ s, decide (c ≠ 58) = true := by
      rintro _ ⟨parts, hparts, rfl⟩ c hc
      obtain ⟨part, hpart, hc⟩ := List.mem_flatten.mp hc
      exact decide_eq_true (hcolon part (hparts part hpart) c hc)
    have hcut : (before ++ name ++ after ++ rest).takeWhile (· ≠ 58) = before ++ name ++ after := by
      rw [List.takeWhile_append_of_pos]
      · rcases hrest with rfl | hcolon
        · simp
        · obtain ⟨rest, rfl⟩ := List.head?_eq_some_iff.mp hcolon
          simp
      · simp only [List.mem_append]
        rintro c ((hc | hc) | hc)
        · exact hspace before hbefore c hc
        · exact decide_eq_true (hgraphic c hc).2.2
        · exact hspace after hafter c hc
    have hends : ∀ c ∈ name, 32 < c ∧ c < 127 := fun c hc => ⟨(hgraphic c hc).1, (hgraphic c hc).2.1⟩
    rw [hcut, Text.trimSpace_append hbefore hafter
      (Text.not_space_start fun c hc => hends c (List.mem_of_mem_head? hc))
      (Text.not_space_end fun c hc => hends c (List.mem_of_getLast? hc))]
    exact hname

end Names

section Fields

variable (ls : List Bytes) {field : List Bytes}

theorem readAsRemoved_iff : ReadAsRemoved field ↔ field.head?.any startsRemoved = true := by
  cases field with
  | nil => simp [ReadAsRemoved]
  | cons line more =>
    rw [List.head?_cons, Option.any_some, startsRemoved, Bool.and_eq_true, removedName_iff,
      Bool.not_eq_true', ReadAsRemoved]
    simp only [List.head?_cons, Option.mem_some_iff, exists_eq_left']

theorem readAsRemoved_of_isRemoved (h : isRemoved field = true) : ReadAsRemoved field := by
  rcases field with _ | ⟨line, more⟩
  · cases h
  obtain ⟨word, hword, hstarts⟩ := List.any_eq_true.mp h
  rw [startsField, Bool.and_eq_true, beq_iff_eq, beq_iff_eq] at hstarts
  obtain ⟨hname, hcolon⟩ := hstarts
  have hmem : toLower (line.take word.length) ∈ removedNames := by rwa [hname]
  obtain ⟨hne, hgraphic⟩ := graphic_of_removedNames hmem
  refine ⟨line, rfl, ?_, [], line.take word.length,
    (line.drop word.length).takeWhile (fun c => c == 32 || c == 9), _, ?_, hmem, .nil, ?_,
    .inr hcolon⟩
  · obtain ⟨c, tail, htake⟩ := List.exists_cons_of_ne_nil hne
    have hhead : line.head? = some c := by
      rw [← List.take_append_drop word.length line, htake]
      rfl
    have hc := (hgraphic c (htake ▸ List.mem_cons_self)).1
    rw [isContinuation, hhead, Bool.or_eq_false_iff, beq_eq_false_iff_ne, beq_eq_false_iff_ne]
    constructor
    · rintro ⟨⟩
      exact absurd hc (by decide)
    · rintro ⟨⟩
      exact absurd hc (by decide)
  · rw [List.nil_append, List.append_assoc, List.takeWhile_append_dropWhile, List.take_append_drop]
  · refine Text.madeOf_blanks fun c hc => ?_
    have hblank := List.mem_takeWhile_imp hc
    rwa [Bool.or_eq_true, beq_iff_eq, beq_iff_eq] at hblank

theorem dropLines_eq_filter : dropLines false ls =
      ((fields ls).filter fun field => !field.head?.any startsRemoved).flatten :=
  Folded.keep_eq_filter removedName ls

-- The lines that are left are the right ones when nothing else is read as a field
-- to remove.
theorem dropLines_eq_keptLines_iff : dropLines false ls = keptLines ls ↔
      ∀ field ∈ fields ls, ReadAsRemoved field → isRemoved field = true := by
  rw [dropLines_eq_filter, keptLines]
  constructor
  · intro h field hfield hread
    have hgroups := congrArg (Folded.groups isContinuation) h
    have hfilter : ∀ p : List Bytes → Bool,
        Folded.groups isContinuation ((fields ls).filter p).flatten = (fields ls).filter p :=
      fun p => (Folded.grouped_groups.sublist List.filter_sublist).groups_flatten
    rw [hfilter, hfilter] at hgroups
    by_contra hnot
    have hmem : field ∈ (fields ls).filter fun field => !isRemoved field :=
      List.mem_filter.mpr ⟨hfield, by rw [eq_false_of_ne_true hnot]; rfl⟩
    rw [← hgroups, List.mem_filter, readAsRemoved_iff.mp hread] at hmem
    cases hmem.2
  · intro h
    refine congrArg List.flatten (List.filter_congr fun field hfield => congrArg not ?_)
    rw [Bool.eq_iff_iff, ← readAsRemoved_iff]
    exact ⟨h field hfield, readAsRemoved_of_isRemoved⟩

theorem dropLines_eq_self_iff :
    dropLines false ls = ls ↔ ∀ field ∈ fields ls, ¬ ReadAsRemoved field := by
  constructor
  · intro h field hfield hread
    have hany := dropLines_any false ls
    rw [h] at hany
    obtain ⟨line, more, rfl, hmem⟩ := Folded.exists_head_of_mem_groups hfield
    exact List.any_eq_false.mp hany line hmem (readAsRemoved_iff.mp hread)
  · intro h
    have hall : (fields ls).filter (fun field => !field.head?.any startsRemoved) = fields ls :=
      List.filter_eq_self.mpr fun field hfield => by simpa [readAsRemoved_iff] using h field hfield
    rw [dropLines_eq_filter, hall, Folded.flatten_groups]

end Fields

def firstBlock (message : Bytes) : List Bytes := (bodyLines message).tail.takeWhile (· ≠ crlf)

section Prepare

variable {ls rest : List Bytes}

theorem prepareLines_sublist (ls : List Bytes) : (prepareLines ls).Sublist ls := by
  rcases ls with _ | ⟨line, rest⟩
  · exact List.nil_sublist _
  have hsub := (dropLines_sublist (line :: rest.takeWhile (· ≠ crlf))).append
    (List.Sublist.refl (rest.dropWhile (· ≠ crlf)))
  rw [List.cons_append, List.takeWhile_append_dropWhile] at hsub
  exact hsub

theorem lines_prepareOutbound (message : Bytes) :
    lines (prepareOutbound message) = prepareLines (lines message) := by
  rw [prepareOutbound_eq]
  exact Lines.lines_flatten ((Lines.wellFormed_lines message).sublist (prepareLines_sublist _))

theorem prepareOutbound_stable_iff (message : Bytes) :
    prepareOutbound message = message ↔
      (lines message).flatten = message ∧ prepareLines (lines message) = lines message := by
  constructor
  · intro h
    have hlines := lines_prepareOutbound message
    rw [h] at hlines
    refine ⟨?_, hlines.symm⟩
    rw [prepareOutbound_eq, ← hlines] at h
    exact h
  · rintro ⟨htext, hlines⟩
    rw [prepareOutbound_eq, hlines, htext]

-- Two cases of a message: its first line is empty, or its header is seen.
theorem prepareLines_blank : prepareLines (crlf :: rest) =
      crlf :: (dropLines false (rest.takeWhile (· ≠ crlf)) ++ rest.dropWhile (· ≠ crlf)) := by
  have hblank : isContinuation crlf = false ∧ removedName crlf = false := by decide
  rw [prepareLines]
  simp [Folded.keep, hblank]

theorem prepareLines_header (h : ls.head? ≠ some crlf) :
    prepareLines ls = dropLines false (ls.takeWhile (· ≠ crlf)) ++ ls.dropWhile (· ≠ crlf) := by
  rcases ls with _ | ⟨line, rest⟩
  · rfl
  have hline : line ≠ crlf := fun he => h (congrArg some he)
  rw [prepareLines]
  simp [hline]

theorem prepareLines_blank_eq_self_iff :
    prepareLines (crlf :: rest) = crlf :: rest ↔
      ∀ field ∈ fields (rest.takeWhile (· ≠ crlf)), ¬ ReadAsRemoved field := by
  rw [prepareLines_blank, List.cons.injEq, ← dropLines_eq_self_iff]
  refine (and_iff_right rfl).trans ?_
  constructor
  · intro h
    refine List.append_cancel_right (h.trans ?_)
    exact List.takeWhile_append_dropWhile.symm
  · intro h
    rw [h, List.takeWhile_append_dropWhile]

theorem ne_crlf_of_mem_dropLines {line : Bytes} (h : line ∈ dropLines false (ls.takeWhile (· ≠ crlf))) :
    decide (line ≠ crlf) = true := by
  have hmem := (dropLines_sublist _).subset h
  exact List.mem_takeWhile_imp (p := fun line => decide (line ≠ crlf)) hmem

theorem takeWhile_dropWhile : (ls.dropWhile (· ≠ crlf)).takeWhile (· ≠ crlf) = [] := by
  induction ls with
  | nil => rfl
  | cons line rest ih =>
    by_cases hline : line = crlf
    · simp [hline]
    · simpa [hline] using ih

theorem dropWhile_head {line : Bytes} (h : ls.dropWhile (· ≠ crlf) = line :: rest) : line = crlf := by
  have hblank : (ls.dropWhile (· ≠ crlf)).takeWhile (· ≠ crlf) = [] := takeWhile_dropWhile
  rw [h] at hblank
  by_contra hline
  simp [hline] at hblank

theorem takeWhile_dropLines :
    (dropLines false (ls.takeWhile (· ≠ crlf)) ++ ls.dropWhile (· ≠ crlf)).takeWhile (· ≠ crlf) =
      dropLines false (ls.takeWhile (· ≠ crlf)) := by
  rw [List.takeWhile_append_of_pos fun line h => ne_crlf_of_mem_dropLines h, takeWhile_dropWhile,
    List.append_nil]

theorem dropWhile_dropLines :
    (dropLines false (ls.takeWhile (· ≠ crlf)) ++ ls.dropWhile (· ≠ crlf)).dropWhile (· ≠ crlf) =
      ls.dropWhile (· ≠ crlf) := by
  rw [List.dropWhile_append_of_pos fun line h => ne_crlf_of_mem_dropLines h, List.dropWhile_idempotent]

theorem dropLines_idempotent : dropLines false (dropLines false ls) = dropLines false ls :=
  dropLines_eq_self (dropLines_any false ls)

-- A header that is left with a line is not looked at again. Where nothing is
-- left of it, the result starts with the body.
theorem prepareLines_again_iff (h : ls.head? ≠ some crlf) :
    prepareLines (prepareLines ls) = prepareLines ls ↔
      dropLines false (ls.takeWhile (· ≠ crlf)) ≠ [] ∨
        ∀ field ∈ fields ((ls.dropWhile (· ≠ crlf)).tail.takeWhile (· ≠ crlf)),
          ¬ ReadAsRemoved field := by
  rw [prepareLines_header h]
  by_cases hkept : dropLines false (ls.takeWhile (· ≠ crlf)) = []
  · rw [hkept, List.nil_append]
    refine Iff.trans ?_ (or_iff_right (not_not.mpr rfl)).symm
    cases hblank : ls.dropWhile (· ≠ crlf) with
    | nil => simp [prepareLines, Folded.groups]
    | cons line rest =>
      rw [dropWhile_head hblank]
      exact prepareLines_blank_eq_self_iff
  · refine iff_of_true ?_ (.inl hkept)
    rw [prepareLines_header, takeWhile_dropLines, dropWhile_dropLines, dropLines_idempotent]
    intro hhead
    obtain ⟨line, more, hcons⟩ := List.exists_cons_of_ne_nil hkept
    rw [hcons, List.cons_append, List.head?_cons] at hhead
    have hmem : line ∈ dropLines false (ls.takeWhile (· ≠ crlf)) := hcons ▸ List.mem_cons_self
    exact absurd hhead (by simpa using ne_crlf_of_mem_dropLines hmem)

end Prepare

section Prepared

variable {message : Bytes}

theorem onlyCRLF_prepareOutbound (message : Bytes) : onlyCRLF (prepareOutbound message) = true := by
  rw [prepareOutbound_eq]
  exact Lines.onlyCRLF_flatten ((Lines.wellFormed_lines message).sublist (prepareLines_sublist _))

theorem prepareOutbound_again_iff (message : Bytes) :
    prepareOutbound (prepareOutbound message) = prepareOutbound message ↔
      prepareLines (prepareLines (lines message)) = prepareLines (lines message) := by
  rw [prepareOutbound_stable_iff, lines_prepareOutbound, prepareOutbound_eq]
  exact and_iff_right rfl

theorem headerLines_prepareOutbound (hhead : (lines message).head? ≠ some crlf) :
    headerLines (prepareOutbound message) = dropLines false (headerLines message) := by
  rw [headerLines, lines_prepareOutbound, prepareLines_header hhead, takeWhile_dropLines]
  rfl

theorem bodyLines_prepareOutbound (hhead : (lines message).head? ≠ some crlf) :
    bodyLines (prepareOutbound message) = bodyLines message := by
  rw [bodyLines, lines_prepareOutbound, prepareLines_header hhead, dropWhile_dropLines]
  rfl

end Prepared

-- The result is right exactly when nothing else in the header is read as a field
-- to remove and a header line is left, or nothing in the first lines of the body
-- is read as such a field.
theorem prepared_iff (message : Bytes) :
    Prepared message (prepareOutbound message) ↔
      (∀ field ∈ fields (headerLines message), ReadAsRemoved field → isRemoved field = true) ∧
        (keptLines (headerLines message) ≠ [] ∨
          ∀ field ∈ fields (firstBlock message), ¬ ReadAsRemoved field) := by
  have hends := onlyCRLF_prepareOutbound message
  have hstable := prepareOutbound_again_iff message
  unfold firstBlock
  by_cases hhead : (lines message).head? = some crlf
  · -- The header has no lines, and the body is read as one.
    obtain ⟨rest, hrest⟩ := List.head?_eq_some_iff.mp hhead
    have hlines := lines_prepareOutbound message
    have hheader : headerLines message = [] := by simp [headerLines, hrest]
    have hbody : bodyLines message = crlf :: rest := by simp [bodyLines, hrest]
    rw [hheader, hbody, List.tail_cons, ← prepareLines_blank_eq_self_iff]
    rw [hrest] at hlines hstable
    constructor
    · intro h
      have hkept := h.body
      rw [bodyLines, hlines, hbody, prepareLines_blank] at hkept
      rw [prepareLines_blank]
      refine ⟨nofun, Or.inr (Eq.trans ?_ hkept)⟩
      simp
    · rintro ⟨-, habsurd | hself⟩
      · exact absurd rfl habsurd
      · rw [hself] at hlines hstable
        have hnone : headerLines (prepareOutbound message) = [] := by simp [headerLines, hlines]
        refine ⟨hends, ?_, ?_, ?_, hstable.mpr hself⟩
        · rw [hnone]
          intro field hfield
          cases hfield
        · rw [hnone, hheader]
          rfl
        · rw [hbody, bodyLines, hlines]
          simp
  · have hheader := headerLines_prepareOutbound hhead
    rw [prepareLines_again_iff hhead] at hstable
    rw [← dropLines_eq_keptLines_iff]
    constructor
    · intro h
      have hkept := hheader.symm.trans h.header
      exact ⟨hkept, hkept ▸ hstable.mp h.stable⟩
    · rintro ⟨hkept, hleft⟩
      refine ⟨hends, ?_, hheader.trans hkept, bodyLines_prepareOutbound hhead, hstable.mpr (hkept ▸ hleft)⟩
      rw [hheader]
      intro field hfield
      have hnot := (dropLines_eq_self_iff _).mp dropLines_idempotent field hfield
      exact eq_false_of_ne_true fun hremoved => hnot (readAsRemoved_of_isRemoved hremoved)

end UMail.Queue
