import UMail.Imap.FetchBody

namespace UMail.Imap

open Lines (linesLF flatten_linesLF)
open Text (isDigit)
open UMail.Storage (Bytes bytes)

structure PartNumber where
  value : Nat
  pos : 0 < value
  bounded : value < 2 ^ 63

def PartNumber.one : PartNumber := ⟨1, by decide, by decide⟩

theorem PartNumber.value_one : PartNumber.one.value = 1 := rfl

def PartNumber.text (n : PartNumber) : Bytes := formatLoop 20 n.value []

def pathText : List PartNumber → Bytes
  | [] => []
  | n :: rest => n.text ++ if rest.isEmpty then [] else 46 :: pathText rest

-- What the depth bound keeps out of a description.
inductive Hidden
  | nothing | parts | message
  deriving DecidableEq, Repr

inductive Described (Header : Type)
  | part (mh : Header) (media : Bytes × Params) (body : Bytes) (hidden : Hidden)
  | message (mh : Header) (media : Bytes × Params) (body : Bytes) (inner : Described Header)
  | multipart (mh : Header) (media : Bytes × Params) (parts : List (Described Header))

inductive Lookup (Header : Type)
  | found (node : Described Header)
  | missing
  | beyond

namespace Described

variable {Header : Type}

mutual

def text (tools : MimeTools Header) (ext : Bool) : Described Header → Bytes
  | .part mh media body _ => leafText tools ext mh media body none
  | .message mh media body inner => leafText tools ext mh media body (some (inner.text tools ext))
  | .multipart mh media parts => multipartText tools ext mh media (textAll tools ext parts)

def textAll (tools : MimeTools Header) (ext : Bool) : List (Described Header) → Bytes
  | [] => []
  | node :: rest => node.text tools ext ++ textAll tools ext rest

end

def octets : Described Header → Option Nat
  | .part _ _ body _ | .message _ _ body _ => some body.length
  | .multipart _ _ _ => none

def hidesParts : Described Header → Bool
  | .part _ _ _ .parts => true
  | _ => false

def messageParts : Described Header → Option (List (Described Header))
  | .multipart _ _ parts => some parts
  | .part _ _ _ .parts => none
  | node => some [node]

def subparts : Described Header → Option (List (Described Header))
  | .multipart _ _ parts => some parts
  | .message _ _ _ inner => inner.messageParts
  | .part _ _ _ .nothing => some []
  | .part _ _ _ _ => none

def numbered (isMessage : Bool) (node : Described Header) : Option (List (Described Header)) :=
  if isMessage then node.messageParts else node.subparts

def lookup (isMessage : Bool) (node : Described Header) : List PartNumber → Lookup Header
  | [] => .found node
  | n :: rest => (node.numbered isMessage).elim .beyond fun nodes =>
    (nodes[n.value - 1]?).elim .missing fun child => child.lookup false rest

end Described

section Describing

variable {Header : Type} (tools : MimeTools Header)

def hiddenBelow (entity : Bytes) : Hidden :=
  if (describedBoundary tools entity).isSome then .parts
  else if isRFC822 (leafType tools entity).1 then .message
  else .nothing

def describe : Nat → Bytes → Described Header
  | 0, entity =>
    .part (partHeader tools entity) (leafType tools entity) (entityBody entity) (hiddenBelow tools entity)
  | levels + 1, entity =>
    let mh := partHeader tools entity
    match describedBoundary tools entity with
    | some boundary =>
      .multipart mh (describedType tools entity)
        ((describedParts (entityBody entity) boundary).map (describe levels))
    | none =>
      if isRFC822 (leafType tools entity).1 then
        .message mh (leafType tools entity) (entityBody entity) (describe levels (entityBody entity))
      else .part mh (leafType tools entity) (entityBody entity) .nothing

def resolvePath (isMessage : Bool) (part : Bytes) : List PartNumber → Option Bytes
  | [] => some part
  | n :: rest => (subpart tools isMessage part n.value).bind fun part => resolvePath false part rest

end Describing

section Texts

variable {Header : Type} {tools : MimeTools Header}

theorem textAll_map (ext : Bool) (f : Bytes → Described Header) (entities : List Bytes) :
    Described.textAll tools ext (entities.map f) = entities.flatMap fun e => (f e).text tools ext := by
  induction entities with
  | nil => rfl
  | cons e entities ih => rw [List.map_cons, Described.textAll, ih, List.flatMap_cons]

theorem text_describe (ext : Bool) (levels : Nat) (entity : Bytes) :
    (describe tools levels entity).text tools ext = bodyStructureDepth tools ext levels entity := by
  induction levels generalizing entity with
  | zero => rfl
  | succ levels ih =>
    have hsame : (fun e => (describe tools levels e).text tools ext) =
        bodyStructureDepth tools ext levels := funext ih
    rw [describe, bodyStructureDepth]
    cases describedBoundary tools entity with
    | some boundary => rw [Described.text, textAll_map, hsame]
    | none =>
      split_ifs
      · rw [Described.text, ih]
      · rw [Described.text]

variable (n : PartNumber) {path : List PartNumber}

theorem PartNumber.digits : ∀ c ∈ n.text, isDigit c = true :=
  formatLoop_digits 20 n.value [] (by simp)

theorem PartNumber.parseDigits_text : parseDigits 0 n.text = some n.value :=
  parseDigits_formatLoop 20 n.value [] (Nat.lt_trans n.bounded (by decide))

theorem PartNumber.text_ne_nil : n.text ≠ [] := by
  intro hnil
  have hparse := n.parseDigits_text
  rw [hnil, parseDigits, Option.some.injEq] at hparse
  exact absurd hparse n.pos.ne

theorem PartNumber.parseInt64_text : parseInt64 n.text = some (n.value : Int) := by
  have hsign : ∀ c, isDigit c = false → n.text.head? ≠ some c := by
    intro c hc hhead
    have hdigit := n.digits c (List.mem_of_mem_head? hhead)
    rw [hc] at hdigit
    cases hdigit
  have hminus := hsign 45 (by decide)
  have hplus := hsign plus (by decide)
  unfold parseInt64
  simp only [hminus, hplus, n.text_ne_nil, n.parseDigits_text, n.bounded, decide_false, Bool.or_self,
    Bool.false_eq_true, if_false, if_true]

theorem PartNumber.cut_text (rest : List PartNumber) :
    (pathText (n :: rest)).takeWhile (· ≠ 46) = n.text ∧
      ((pathText (n :: rest)).dropWhile (· ≠ 46)).drop 1 = pathText rest := by
  have hplain : ∀ c ∈ n.text, decide (c ≠ 46) = true := by
    intro c hc
    refine decide_eq_true fun hdot => ?_
    have hdigit := n.digits c hc
    rw [hdot] at hdigit
    exact absurd hdigit (by decide)
  rw [pathText, List.takeWhile_append_of_pos hplain, List.dropWhile_append_of_pos hplain]
  cases rest with
  | nil => simp [pathText]
  | cons m rest => simp

theorem pathText_ne_nil (h : path ≠ []) : pathText path ≠ [] := by
  obtain ⟨n, rest, rfl⟩ := List.exists_cons_of_ne_nil h
  exact fun hnil => n.text_ne_nil (List.append_eq_nil_iff.mp hnil).1

theorem resolveFrom_pathText {fuel : Nat} (h : (pathText path).length ≤ fuel)
    (isMessage : Bool) (part : Bytes) :
    resolveFrom tools fuel ⟨part, isMessage, pathText path⟩ =
      (resolvePath tools isMessage part path).map fun p => ⟨p, isMessage && path.isEmpty, []⟩ := by
  induction path generalizing fuel isMessage part with
  | nil => cases fuel <;> simp [resolveFrom, resolvePath, pathText]
  | cons n rest ih =>
    have hne := pathText_ne_nil (List.cons_ne_nil n rest)
    obtain ⟨hhead, htail⟩ := n.cut_text rest
    cases fuel with
    | zero => exact absurd (List.length_eq_zero_iff.mp (Nat.le_zero.mp h)) hne
    | succ fuel =>
      have hshort : (pathText rest).length ≤ fuel := by
        rw [pathText, List.length_append] at h
        cases rest with
        | nil => exact Nat.zero_le _
        | cons m rest =>
          rw [List.isEmpty_cons, if_neg Bool.false_ne_true, List.length_cons] at h
          omega
      have hpos : ¬ (n.value : Int) ≤ 0 := by
        have := n.pos
        omega
      rw [resolveFrom, if_neg hne]
      rw [hhead, htail, n.parseInt64_text]
      dsimp only
      rw [if_neg hpos, Int.toNat_natCast, resolvePath]
      cases subpart tools isMessage part n.value with
      | none => rfl
      | some sub => simp [ih hshort]

theorem resolvePart_pathText (data : Bytes) (path : List PartNumber) :
    resolvePart tools data (pathText path) =
      (resolvePath tools true data path).map fun p => ⟨p, path.isEmpty, []⟩ := by
  rw [resolvePart, resolveFrom_pathText le_rfl]
  simp

end Texts

section Lengths

theorem length_entityBody_le (entity : Bytes) : (entityBody entity).length ≤ entity.length := by
  unfold entityBody splitHeaderBody
  split_ifs
  · simp
  · simp
  · split
    · rename_i cut hcut
      rw [← Lines.cutBefore_parts hcut, List.length_drop, List.length_append]
      omega
    · split
      · rename_i cut hcut
        rw [← Lines.cutBefore_parts hcut, List.length_drop, List.length_append]
        omega
      · exact Nat.zero_le _

theorem length_trimBreak_le (part : Bytes) : (trimBreak part).length ≤ part.length := by
  unfold trimBreak
  split_ifs
  · rw [List.length_dropLast, List.length_dropLast]
    omega
  · rw [List.length_dropLast]
    omega
  · exact le_rfl

theorem ne_nil_of_delimiter {delim line : Bytes} (hdelim : delim ≠ [])
    (h : delimiterOf delim line ≠ .none) : line ≠ [] := by
  rintro rfl
  refine h ?_
  have hno : delim.isPrefixOf [] = false := by
    cases delim with
    | nil => exact absurd rfl hdelim
    | cons c delim => rfl
  simp [delimiterOf, hno]

theorem length_mem_splitLoop {delim : Bytes} (hdelim : delim ≠ []) {part : Option Bytes}
    {lines : List Bytes} {p : Bytes} (h : p ∈ splitLoop delim part lines) :
    p.length + (if part.isSome then 0 else 1) ≤ (part.getD []).length + lines.flatten.length := by
  induction lines generalizing part with
  | nil =>
    rw [splitLoop, Option.mem_toList] at h
    rw [h]
    simp
  | cons line rest ih =>
    rw [splitLoop] at h
    cases hline : delimiterOf delim line with
    | none =>
      rw [hline] at h
      have hrest := ih h
      cases part with
      | none =>
        simp only [Option.map_none, Option.isSome_none, Option.getD_none, List.length_nil] at hrest
        simp only [Option.isSome_none, List.flatten_cons, List.length_append]
        omega
      | some part =>
        simp only [Option.map_some, Option.getD_some, List.length_append] at hrest
        simp only [Option.isSome_some, Option.getD_some, List.flatten_cons, List.length_append,
          if_true]
        omega
    | next =>
      have hpos := List.length_pos_iff.mpr (ne_nil_of_delimiter hdelim (by rw [hline]; decide))
      rw [hline] at h
      rcases List.mem_append.mp h with htrim | htail
      · rw [Option.mem_toList, Option.map_eq_some_iff] at htrim
        obtain ⟨open_, rfl, rfl⟩ := htrim
        have hshort := length_trimBreak_le open_
        simp only [Option.isSome_some, Option.getD_some, if_true]
        omega
      · have hrest := ih htail
        simp only [Option.getD_some, List.length_nil] at hrest
        rw [List.flatten_cons, List.length_append]
        split_ifs <;> omega
    | closing =>
      rw [hline, Option.mem_toList, Option.map_eq_some_iff] at h
      obtain ⟨open_, rfl, rfl⟩ := h
      have hshort := length_trimBreak_le open_
      simp only [Option.isSome_some, Option.getD_some, if_true]
      omega

theorem length_mem_splitMultipart {body boundary p : Bytes} (h : p ∈ splitMultipart body boundary) :
    p.length < body.length := by
  have hlong := length_mem_splitLoop (List.append_ne_nil_of_left_ne_nil (by decide) _) h
  rw [flatten_linesLF] at hlong
  simpa [Nat.succ_le_iff] using hlong

end Lengths

section Kinds

variable {Header : Type} {tools : MimeTools Header} {entity boundary : Bytes} {mediaType : Bytes}

def Bare (tools : MimeTools Header) (entity boundary : Bytes) : Prop :=
  boundary ≠ [] ∧ ∃ params, contentType tools entity = some (bytes "multipart", params) ∧
    boundaryParam params = boundary

theorem majorType_append (minor : Bytes) : majorType (bytes "multipart/" ++ minor) = bytes "multipart" := by
  have hsplit : bytes "multipart/" ++ minor = bytes "multipart" ++ 47 :: minor := by
    rfl
  rw [majorType, hsplit, List.takeWhile_append_of_pos (by decide +kernel)]
  simp

theorem multipartBoundary_eq_some_iff :
    multipartBoundary tools entity = some boundary ↔ boundary ≠ [] ∧ ∃ minor params,
      contentType tools entity = some (bytes "multipart/" ++ minor, params) ∧
        boundaryParam params = boundary := by
  unfold multipartBoundary
  rcases hmedia : contentType tools entity with _ | media
  · simp
  obtain ⟨mediaType, params⟩ := media
  simp only [Bool.and_eq_true, decide_eq_true_eq, List.isPrefixOf_iff_prefix,
    Option.ite_none_right_eq_some, Option.some.injEq, Prod.mk.injEq]
  constructor
  · rintro ⟨⟨⟨minor, rfl⟩, hne⟩, rfl⟩
    exact ⟨hne, minor, params, ⟨rfl, rfl⟩, rfl⟩
  · rintro ⟨hne, minor, _, ⟨rfl, rfl⟩, rfl⟩
    exact ⟨⟨⟨minor, rfl⟩, hne⟩, rfl⟩

theorem describedType_some {media : Bytes × Params} (hne : media.1 ≠ [])
    (h : contentType tools entity = some media) : describedType tools entity = media := by
  rw [describedType, h]
  exact if_neg hne

theorem describedType_plain (h : ∀ media, contentType tools entity = some media → media.1 = []) :
    describedType tools entity = plainText := by
  rw [describedType]
  cases hmedia : contentType tools entity with
  | none => rfl
  | some media => exact if_pos (h media hmedia)

theorem describedBoundary_of_contentType {params : Params} (hne : mediaType ≠ [])
    (h : contentType tools entity = some (mediaType, params)) :
    describedBoundary tools entity =
      if majorType mediaType = bytes "multipart" && boundaryParam params ≠ [] then
        some (boundaryParam params) else none := by
  rw [describedBoundary, describedType_some hne h]

theorem describedBoundary_of_multipart (h : multipartBoundary tools entity = some boundary) :
    describedBoundary tools entity = some boundary := by
  obtain ⟨hne, minor, params, hmedia, rfl⟩ := multipartBoundary_eq_some_iff.mp h
  have hsome : bytes "multipart/" ++ minor ≠ [] := List.append_ne_nil_of_left_ne_nil (by decide) _
  rw [describedBoundary_of_contentType hsome hmedia, majorType_append]
  simp [hne]

theorem Bare.describedBoundary (h : Bare tools entity boundary) :
    describedBoundary tools entity = some boundary := by
  obtain ⟨hne, params, hmedia, rfl⟩ := h
  rw [describedBoundary_of_contentType (by decide) hmedia, if_pos]
  rw [Bool.and_eq_true]
  exact ⟨by decide, decide_eq_true hne⟩

theorem Bare.multipartBoundary (h : Bare tools entity boundary) :
    multipartBoundary tools entity = none := by
  obtain ⟨-, params, hmedia, -⟩ := h
  rw [UMail.Imap.multipartBoundary, hmedia]
  have hno : (bytes "multipart/").isPrefixOf (bytes "multipart") = false := by decide
  exact if_neg fun hsome => by simp [hno] at hsome

-- The two sides differ only where a type has no subtype.
theorem describedBoundary_cases (h : describedBoundary tools entity = some boundary) :
    multipartBoundary tools entity = some boundary ∨ Bare tools entity boundary := by
  by_cases hplain : ∀ media, contentType tools entity = some media → media.1 = []
  · rw [describedBoundary, describedType_plain hplain] at h
    cases h
  push Not at hplain
  obtain ⟨⟨mediaType, params⟩, hmedia, hempty⟩ := hplain
  rw [describedBoundary_of_contentType hempty hmedia, Option.ite_none_right_eq_some,
    Bool.and_eq_true, decide_eq_true_eq, decide_eq_true_eq, Option.some.injEq] at h
  obtain ⟨⟨hmajor, hne⟩, rfl⟩ := h
  have hsplit := List.takeWhile_append_dropWhile (p := (· ≠ 47)) (l := mediaType)
  rw [majorType] at hmajor
  rw [hmajor] at hsplit
  cases hrest : mediaType.dropWhile (· ≠ 47) with
  | nil =>
    rw [hrest, List.append_nil] at hsplit
    exact .inr ⟨hne, params, by rw [hsplit, hmedia], rfl⟩
  | cons c minor =>
    have hc : c = 47 := by
      have hhead := List.head?_dropWhile_not (p := (· ≠ 47)) (l := mediaType)
      rw [hrest] at hhead
      simpa using hhead
    rw [hrest, hc] at hsplit
    refine .inl (multipartBoundary_eq_some_iff.mpr ⟨hne, minor, params, ?_, rfl⟩)
    rw [hmedia, ← hsplit, show bytes "multipart/" = bytes "multipart" ++ [47] by decide]
    rfl

theorem multipartBoundary_eq_none (h : describedBoundary tools entity = none) :
    multipartBoundary tools entity = none := by
  cases hboundary : multipartBoundary tools entity with
  | none => rfl
  | some boundary =>
    rw [describedBoundary_of_multipart hboundary] at h
    cases h

theorem not_multipart_of_isRFC822 (h : isRFC822 mediaType = true) :
    majorType mediaType ≠ bytes "multipart" := by
  rw [isRFC822, Bool.or_eq_true, decide_eq_true_eq, decide_eq_true_eq] at h
  rcases h with rfl | rfl <;> decide

theorem isRFC822_leafType : isRFC822 (leafType tools entity).1 = isRFC822Part tools entity := by
  have hplain : isRFC822 plainText.1 = false := by decide
  rw [leafType, isRFC822Part]
  by_cases hempty : ∀ media, contentType tools entity = some media → media.1 = []
  · rw [describedType_plain hempty, if_neg (by decide)]
    cases hmedia : contentType tools entity with
    | none => rfl
    | some media =>
      rw [Option.any_some, hempty media hmedia]
      decide
  · push Not at hempty
    obtain ⟨media, hmedia, hne⟩ := hempty
    rw [describedType_some hne hmedia, hmedia]
    split_ifs with hmajor
    · rw [hplain]
      exact (Bool.eq_false_iff.mpr fun hkind => not_multipart_of_isRFC822 hkind hmajor).symm
    · rfl

theorem not_isRFC822Part (h : (describedBoundary tools entity).isSome = true) :
    isRFC822Part tools entity = false := by
  have hmajor : majorType (describedType tools entity).1 = bytes "multipart" := by
    by_contra hno
    rw [describedBoundary] at h
    simp [hno] at h
  rw [← isRFC822_leafType, leafType, if_pos hmajor]
  decide

theorem describedBoundary_of_isRFC822Part (h : isRFC822Part tools entity = true) :
    describedBoundary tools entity = none := by
  by_contra hsome
  rw [not_isRFC822Part (Option.isSome_iff_ne_none.mpr hsome)] at h
  cases h

theorem contentType_blank (body : Bytes) : contentType tools (crlf ++ body) = none := tools.blank

theorem multipartBoundary_blank (body : Bytes) : multipartBoundary tools (crlf ++ body) = none := by
  rw [multipartBoundary, contentType_blank]

theorem isRFC822Part_blank {body : Bytes} : isRFC822Part tools (crlf ++ body) = false := by
  rw [isRFC822Part, contentType_blank]
  rfl

end Kinds

section Steps

variable {Header : Type} {tools : MimeTools Header} {entity boundary : Bytes} {levels : Nat}
  {isMessage : Bool} {n : PartNumber} {rest : List PartNumber}

theorem describe_multipart (h : describedBoundary tools entity = some boundary) :
    describe tools (levels + 1) entity =
      .multipart (partHeader tools entity) (describedType tools entity)
        ((describedParts (entityBody entity) boundary).map (describe tools levels)) := by
  rw [describe, h]

theorem describe_message (h : isRFC822Part tools entity = true) :
    describe tools (levels + 1) entity =
      .message (partHeader tools entity) (leafType tools entity) (entityBody entity)
        (describe tools levels (entityBody entity)) := by
  rw [describe, describedBoundary_of_isRFC822Part h]
  rw [isRFC822_leafType, if_pos h]

theorem describe_leaf (h : describedBoundary tools entity = none)
    (hkind : isRFC822Part tools entity = false) :
    describe tools levels entity =
      .part (partHeader tools entity) (leafType tools entity) (entityBody entity) .nothing := by
  cases levels with
  | zero => rw [describe, hiddenBelow, h, isRFC822_leafType, hkind]; rfl
  | succ levels =>
    rw [describe, h]
    rw [isRFC822_leafType, hkind, if_neg Bool.false_ne_true]

theorem subpart_multipart (h : multipartBoundary tools entity = some boundary) :
    subpart tools isMessage entity n.value = (splitMultipart (entityBody entity) boundary)[n.value - 1]? := by
  have hkind := not_isRFC822Part (by rw [describedBoundary_of_multipart h]; rfl)
  have hmulti : isMultipartEntity tools entity = true := by rw [isMultipartEntity, h]; rfl
  rw [subpart, hkind, hmulti]
  simp [mimeSubpart, h]

theorem subpart_message (h : isRFC822Part tools entity = true) :
    subpart tools false entity n.value = subpart tools true (entityBody entity) n.value := by
  simp [subpart, h]

theorem subpart_leaf (h : multipartBoundary tools entity = none) (hkind : isRFC822Part tools entity = false) :
    subpart tools false entity n.value = none := by
  simp [subpart, hkind, isMultipartEntity, h]

theorem subpart_body (h : multipartBoundary tools entity = none) :
    subpart tools true entity n.value = if n.value = 1 then some (crlf ++ entityBody entity) else none := by
  simp [subpart, mimeSubpart, h]

theorem resolvePath_blank (body : Bytes) :
    resolvePath tools false (crlf ++ body) (n :: rest) = none := by
  rw [resolvePath, subpart_leaf (multipartBoundary_blank body) isRFC822Part_blank]
  rfl

theorem resolvePath_message (h : isRFC822Part tools entity = true) :
    resolvePath tools false entity (n :: rest) = resolvePath tools true (entityBody entity) (n :: rest) := by
  rw [resolvePath, subpart_message h, resolvePath]

theorem lookup_cons {node : Described Header} {nodes : List (Described Header)}
    (h : node.numbered isMessage = some nodes) :
    node.lookup isMessage (n :: rest) =
      (nodes[n.value - 1]?).elim .missing fun child => child.lookup false rest := by
  rw [Described.lookup, h]
  rfl

theorem PartNumber.eq_or (n : PartNumber) : n.value = 1 ∨ ∃ k, n.value - 1 = k + 1 := by
  have hpos := n.pos
  by_cases hone : n.value = 1
  · exact .inl hone
  · exact .inr ⟨n.value - 2, by omega⟩

end Steps

section Agreement

variable {Header : Type} (tools : MimeTools Header)

structure Fits (node : Described Header) (part : Bytes) : Prop where
  octets : ∀ count, node.octets = some count → count = (entityBody part).length
  leaf : node.hidesParts = false → (node.octets.isSome = true ↔ isMultipartEntity tools part = false)

def AgreeAt (isMessage : Bool) (node : Described Header) (entity : Bytes) (path : List PartNumber) : Prop :=
  match node.lookup isMessage path with
  | .beyond => True
  | .missing => resolvePath tools isMessage entity path = none
  | .found found => ∃ part, resolvePath tools isMessage entity path = some part ∧ Fits tools found part

structure EntityAt where
  levels : Nat
  isMessage : Bool
  entity : Bytes

inductive Opens : EntityAt → EntityAt → Prop
  | part {levels : Nat} {isMessage : Bool} {entity boundary part : Bytes} (n : PartNumber)
      (h : multipartBoundary tools entity = some boundary)
      (hpart : (splitMultipart (entityBody entity) boundary)[n.value - 1]? = some part) :
      Opens ⟨levels + 1, isMessage, entity⟩ ⟨levels, false, part⟩
  | message {levels : Nat} {entity : Bytes} (h : isRFC822Part tools entity = true) :
      Opens ⟨levels + 1, false, entity⟩ ⟨levels, true, entityBody entity⟩

-- A multipart without parts, a type "multipart" without a subtype, or a message
-- that is nothing but another message.
inductive Irregular (levels : Nat) (isMessage : Bool) (entity : Bytes) : Prop
  | empty {boundary : Bytes} (h : multipartBoundary tools entity = some boundary)
      (hempty : splitMultipart (entityBody entity) boundary = [])
  | bare {boundary : Bytes} (h : Bare tools entity boundary)
      (hbody : isMessage = true → entityBody entity ≠ [])
  | wrapped (hmessage : isMessage = true) (h : isRFC822Part tools entity = true)
      (hshown : levels = 0 → describedBoundary tools (entityBody entity) = none)

def Regular (place : EntityAt) : Prop :=
  ∀ levels isMessage entity, Relation.ReflTransGen (Opens tools) place ⟨levels + 1, isMessage, entity⟩ →
    ¬ Irregular tools levels isMessage entity

variable {tools} {entity boundary : Bytes} {levels : Nat} {isMessage : Bool} {path rest : List PartNumber}
  {n : PartNumber}

variable {place next : EntityAt} {node : Described Header} {found : Described Header}

theorem Regular.opens (h : Regular tools place) (hopens : Opens tools place next) :
    Regular tools next :=
  fun levels isMessage entity hreach => h levels isMessage entity (.head hopens hreach)

theorem Regular.here (h : Regular tools ⟨levels + 1, isMessage, entity⟩) :
    ¬ Irregular tools levels isMessage entity :=
  h levels isMessage entity .refl

theorem agreeAt_found {part : Bytes} (h : node.lookup isMessage path = .found found)
    (h' : resolvePath tools isMessage entity path = some part) (hfits : Fits tools found part) :
    AgreeAt tools isMessage node entity path := by
  rw [AgreeAt, h]
  exact ⟨part, h', hfits⟩

theorem agreeAt_missing (h : node.lookup isMessage path = .missing)
    (h' : resolvePath tools isMessage entity path = none) :
    AgreeAt tools isMessage node entity path := by
  rw [AgreeAt, h]
  exact h'

theorem agreeAt_beyond (h : node.lookup isMessage path = .beyond) :
    AgreeAt tools isMessage node entity path := by
  rw [AgreeAt, h]
  trivial

theorem agreeAt_congr {isMessage' : Bool} {node' : Described Header} {entity' : Bytes}
    {path' : List PartNumber} (h : node.lookup isMessage path = node'.lookup isMessage' path')
    (h' : resolvePath tools isMessage entity path = resolvePath tools isMessage' entity' path') :
    AgreeAt tools isMessage node entity path ↔ AgreeAt tools isMessage' node' entity' path' := by
  rw [AgreeAt, AgreeAt, h, h']

theorem agreeAt_self (hoctets : node.octets = some (entityBody entity).length)
    (hmulti : node.hidesParts = false → multipartBoundary tools entity = none) :
    AgreeAt tools false node entity [] := by
  refine agreeAt_found rfl rfl ⟨fun count hcount => ?_, fun hshown => ?_⟩
  · exact Option.some.inj (hcount.symm.trans hoctets)
  · rw [hoctets, isMultipartEntity, hmulti hshown]
    exact iff_of_true rfl rfl

-- A message that is no multipart is its own part 1, and has no part below it.
theorem agreeAt_single {child : Described Header} (hnode : node.messageParts = some [child])
    (hmulti : multipartBoundary tools entity = none)
    (hoctets : child.octets = some (entityBody entity).length)
    (hbelow : ∀ n rest, child.lookup false (n :: rest) = .missing ∨ child.lookup false (n :: rest) = .beyond)
    (hpath : path ≠ []) : AgreeAt tools true node entity path := by
  rcases path with _ | ⟨n, rest⟩
  · exact absurd rfl hpath
  have hlookup := @lookup_cons _ true n rest _ _ hnode
  rcases n.eq_or with hone | ⟨k, hk⟩
  · rw [hone] at hlookup
    have hresolve : resolvePath tools true entity (n :: rest) =
        resolvePath tools false (crlf ++ entityBody entity) rest := by
      rw [resolvePath, subpart_body hmulti, if_pos hone]
      rfl
    rw [agreeAt_congr hlookup hresolve]
    cases rest with
    | nil => exact agreeAt_self hoctets fun _ => multipartBoundary_blank _
    | cons m rest =>
      rcases hbelow m rest with hmissing | hbeyond
      · exact agreeAt_missing hmissing (resolvePath_blank _)
      · exact agreeAt_beyond hbeyond
  · rw [hk] at hlookup
    refine agreeAt_missing hlookup ?_
    rw [resolvePath, subpart_body hmulti, if_neg (by omega)]
    rfl

theorem agreeAt_leaf (h : describedBoundary tools entity = none) (hkind : isRFC822Part tools entity = false)
    (hpath : isMessage = true → path ≠ []) :
    AgreeAt tools isMessage (describe tools levels entity) entity path := by
  have hmulti := multipartBoundary_eq_none h
  rw [describe_leaf h hkind]
  cases isMessage with
  | true => exact agreeAt_single rfl hmulti rfl (fun _ _ => .inl rfl) (hpath rfl)
  | false =>
    cases path with
    | nil => exact agreeAt_self rfl fun _ => hmulti
    | cons n rest =>
      refine agreeAt_missing rfl ?_
      rw [resolvePath, subpart_leaf hmulti hkind]
      rfl

-- At the depth bound nothing is described below an entity.
theorem agreeAt_bottom (hpath : isMessage = true → path ≠ []) :
    AgreeAt tools isMessage (describe tools 0 entity) entity path := by
  cases hboundary : describedBoundary tools entity with
  | some boundary =>
    have hnode : describe tools 0 entity =
        .part (partHeader tools entity) (leafType tools entity) (entityBody entity) .parts := by
      rw [describe, hiddenBelow, hboundary]
      rfl
    rw [hnode]
    cases path with
    | nil =>
      cases isMessage with
      | true => exact absurd rfl (hpath rfl)
      | false => exact agreeAt_self rfl fun hshown => nomatch hshown
    | cons n rest => cases isMessage <;> exact agreeAt_beyond rfl
  | none =>
    cases hkind : isRFC822Part tools entity with
    | false => exact agreeAt_leaf hboundary hkind hpath
    | true =>
      have hmulti := multipartBoundary_eq_none hboundary
      have hnode : describe tools 0 entity =
          .part (partHeader tools entity) (leafType tools entity) (entityBody entity) .message := by
        rw [describe, hiddenBelow, hboundary, isRFC822_leafType, hkind]
        rfl
      rw [hnode]
      cases isMessage with
      | true => exact agreeAt_single rfl hmulti rfl (fun _ _ => .inr rfl) (hpath rfl)
      | false =>
        cases path with
        | nil => exact agreeAt_self rfl fun _ => hmulti
        | cons n rest => exact agreeAt_beyond rfl

theorem describedParts_of_ne_nil {body : Bytes} (h : splitMultipart body boundary ≠ []) :
    describedParts body boundary = splitMultipart body boundary := if_neg h

theorem lookup_described (h : describedBoundary tools entity = some boundary) :
    (describe tools (levels + 1) entity).lookup isMessage (n :: rest) =
      ((describedParts (entityBody entity) boundary)[n.value - 1]?).elim .missing fun part =>
        (describe tools levels part).lookup false rest := by
  rw [describe_multipart h]
  have hnumbered : ∀ parts : List (Described Header),
      (Described.multipart (partHeader tools entity) (describedType tools entity) parts).numbered isMessage =
        some parts := by
    intro parts
    cases isMessage <;> rfl
  rw [lookup_cons (hnumbered _), List.getElem?_map]
  cases (describedParts (entityBody entity) boundary)[n.value - 1]? <;> rfl

theorem agreeAt_multipart (h : multipartBoundary tools entity = some boundary)
    (hne : splitMultipart (entityBody entity) boundary ≠ [])
    (hparts : ∀ (n : PartNumber) part,
      (splitMultipart (entityBody entity) boundary)[n.value - 1]? = some part →
        ∀ path, AgreeAt tools false (describe tools levels part) part path)
    (hpath : isMessage = true → path ≠ []) :
    AgreeAt tools isMessage (describe tools (levels + 1) entity) entity path := by
  cases path with
  | nil =>
    cases isMessage with
    | true => exact absurd rfl (hpath rfl)
    | false =>
      rw [describe_multipart (describedBoundary_of_multipart h)]
      refine agreeAt_found rfl rfl ⟨fun _ hcount => absurd hcount (by simp [Described.octets]), fun _ => ?_⟩
      rw [isMultipartEntity, h]
      exact iff_of_false Bool.false_ne_true (by simp)
  | cons n rest =>
    have hlookup := @lookup_described _ tools entity boundary levels isMessage rest n
      (describedBoundary_of_multipart h)
    rw [describedParts_of_ne_nil hne] at hlookup
    have hresolve := @subpart_multipart _ tools entity boundary isMessage n h
    cases hpart : (splitMultipart (entityBody entity) boundary)[n.value - 1]? with
    | none =>
      rw [hpart] at hlookup hresolve
      exact agreeAt_missing hlookup (by rw [resolvePath, hresolve]; rfl)
    | some part =>
      rw [hpart] at hlookup hresolve
      refine (agreeAt_congr hlookup ?_).mpr (hparts n part hpart rest)
      rw [resolvePath, hresolve]
      rfl

theorem splitMultipart_nil : splitMultipart [] boundary = [] := rfl

theorem describe_blank (body : Bytes) :
    describe tools levels (crlf ++ body) =
      .part (partHeader tools (crlf ++ body)) (leafType tools (crlf ++ body)) body .nothing := by
  have hnone : describedBoundary tools (crlf ++ body) = none := by
    rw [describedBoundary, describedType_plain (by simp [contentType_blank])]
    decide
  rw [describe_leaf hnone isRFC822Part_blank]
  rfl

theorem agreeAt_bare (h : Bare tools entity boundary) (hbody : entityBody entity = []) (hpath : path ≠ []) :
    AgreeAt tools true (describe tools (levels + 1) entity) entity path := by
  have hchild := @describe_blank _ tools levels []
  rw [List.append_nil] at hchild
  rw [describe_multipart h.describedBoundary, hbody, describedParts, splitMultipart_nil, if_pos rfl]
  refine agreeAt_single rfl h.multipartBoundary ?_ (fun n rest => .inl ?_) hpath
  · rw [hchild, hbody]
    rfl
  · rw [hchild]
    rfl

-- By the levels that are left: a step down keeps the entities regular.
theorem agreeAt_of_regular (h : Regular tools ⟨levels, isMessage, entity⟩)
    (hpath : isMessage = true → path ≠ []) :
    AgreeAt tools isMessage (describe tools levels entity) entity path := by
  induction levels generalizing isMessage entity path with
  | zero => exact agreeAt_bottom hpath
  | succ levels ih =>
    cases hboundary : describedBoundary tools entity with
    | some boundary =>
      rcases describedBoundary_cases hboundary with hmulti | hbare
      · refine agreeAt_multipart hmulti (fun hempty => h.here (.empty hmulti hempty)) ?_ hpath
        intro n part hpart path
        exact ih (h.opens (.part n hmulti hpart)) (fun hfalse => absurd hfalse Bool.false_ne_true)
      cases isMessage with
      | false => exact absurd (.bare hbare fun hfalse => absurd hfalse Bool.false_ne_true) h.here
      | true =>
        refine agreeAt_bare hbare (by_contra fun hbody => ?_) (hpath rfl)
        exact h.here (.bare hbare fun _ => hbody)
    | none =>
      cases hkind : isRFC822Part tools entity with
      | false => exact agreeAt_leaf hboundary hkind hpath
      | true =>
        have hmulti := multipartBoundary_eq_none hboundary
        rw [describe_message hkind]
        cases isMessage with
        | true =>
          -- the message inside is at the depth bound, and is hidden
          have hhidden : levels = 0 ∧ describedBoundary tools (entityBody entity) ≠ none := by
            by_contra hshown
            exact h.here (.wrapped rfl hkind fun hzero => by_contra fun hsome => hshown ⟨hzero, hsome⟩)
          obtain ⟨rfl, hsome⟩ := hhidden
          refine agreeAt_single rfl hmulti rfl (fun n rest => .inr ?_) (hpath rfl)
          rw [describe, hiddenBelow, if_pos (Option.isSome_iff_ne_none.mpr hsome)]
          rfl
        | false =>
          cases path with
          | nil => exact agreeAt_self rfl fun _ => hmulti
          | cons n rest =>
            have hinner := @ih (entityBody entity) true (n :: rest) (h.opens (.message hkind))
              (fun _ => List.cons_ne_nil n rest)
            rw [AgreeAt, resolvePath_message hkind]
            exact hinner

theorem not_agreeAt_of_unresolved (h : node.lookup isMessage path = .found found)
    (h' : resolvePath tools isMessage entity path = none) :
    ¬ AgreeAt tools isMessage node entity path := by
  rw [AgreeAt, h, h']
  rintro ⟨part, hsome, -⟩
  cases hsome

theorem describedParts_head (body : Bytes) :
    ∃ part, (describedParts body boundary)[PartNumber.one.value - 1]? = some part ∧
      (body ≠ [] → (entityBody part).length < body.length) := by
  unfold describedParts
  dsimp only
  split_ifs with hempty
  · exact ⟨crlf, rfl, fun hne => List.length_pos_iff.mpr hne⟩
  obtain ⟨part, rest, hparts⟩ := List.exists_cons_of_ne_nil hempty
  have hmem : part ∈ splitMultipart body boundary := by
    rw [hparts]
    exact List.mem_cons_self
  refine ⟨part, by rw [hparts]; rfl, fun _ => ?_⟩
  exact Nat.lt_of_le_of_lt (length_entityBody_le part) (length_mem_splitMultipart hmem)

theorem octets_describe :
    (describe tools levels entity).octets = some (entityBody entity).length ∨
      (describe tools levels entity).octets = none ∧
        (describe tools levels entity).hidesParts = false := by
  cases levels with
  | zero => exact .inl rfl
  | succ levels =>
    cases hboundary : describedBoundary tools entity with
    | some boundary =>
      rw [describe_multipart hboundary]
      exact .inr ⟨rfl, rfl⟩
    | none =>
      cases hkind : isRFC822Part tools entity with
      | true =>
        rw [describe_message hkind]
        exact .inl rfl
      | false =>
        rw [describe_leaf hboundary hkind]
        exact .inl rfl

theorem messageParts_head (h : levels = 0 → describedBoundary tools entity = none) :
    ∃ nodes found, (describe tools levels entity).messageParts = some nodes ∧
      nodes[PartNumber.one.value - 1]? = some found := by
  cases hboundary : describedBoundary tools entity with
  | some boundary =>
    cases levels with
    | zero =>
      rw [h rfl] at hboundary
      cases hboundary
    | succ levels =>
      obtain ⟨part, hpart, -⟩ := @describedParts_head boundary (entityBody entity)
      rw [describe_multipart hboundary]
      exact ⟨_, describe tools levels part, rfl, by rw [List.getElem?_map, hpart]; rfl⟩
  | none =>
    cases hkind : isRFC822Part tools entity with
    | false =>
      rw [describe_leaf hboundary hkind]
      exact ⟨_, _, rfl, rfl⟩
    | true =>
      cases levels with
      | zero =>
        rw [describe, hiddenBelow, hboundary, isRFC822_leafType, hkind]
        exact ⟨_, _, rfl, rfl⟩
      | succ levels =>
        rw [describe_message hkind]
        exact ⟨_, _, rfl, rfl⟩

-- Each of the three is described with a part that is not there, or is another.
theorem Irregular.not_agreeAt (h : Irregular tools levels isMessage entity) :
    ∃ path, path ≠ [] ∧ ¬ AgreeAt tools isMessage (describe tools (levels + 1) entity) entity path := by
  cases h with
  | @empty boundary h hempty =>
    have hlookup := @lookup_described _ tools entity boundary levels isMessage [] .one
      (describedBoundary_of_multipart h)
    rw [describedParts, hempty] at hlookup
    refine ⟨[.one], List.cons_ne_nil _ _, not_agreeAt_of_unresolved hlookup ?_⟩
    rw [resolvePath, subpart_multipart h, hempty]
    rfl
  | @bare boundary h hbody =>
    have hlookup := @lookup_described _ tools entity boundary levels isMessage [] .one h.describedBoundary
    obtain ⟨part, hpart, hshort⟩ := @describedParts_head boundary (entityBody entity)
    rw [hpart] at hlookup
    refine ⟨[.one], List.cons_ne_nil _ _, ?_⟩
    cases isMessage with
    | false =>
      refine not_agreeAt_of_unresolved hlookup ?_
      have hkind := not_isRFC822Part (by rw [h.describedBoundary]; rfl)
      rw [resolvePath, subpart_leaf h.multipartBoundary hkind]
      rfl
    | true =>
      have hresolve : resolvePath tools true entity [.one] = some (crlf ++ entityBody entity) := by
        rw [resolvePath, subpart_body h.multipartBoundary, if_pos PartNumber.value_one]
        rfl
      rw [AgreeAt, hlookup, hresolve]
      rintro ⟨found, hfound, hfits⟩
      cases hfound
      rcases @octets_describe _ tools part levels with hoctets | ⟨hoctets, hshown⟩
      · have hcount := hfits.octets _ hoctets
        exact absurd hcount (hshort (hbody rfl)).ne
      · have hleaf := (hfits.leaf hshown).mpr (by rw [isMultipartEntity, multipartBoundary_blank]; rfl)
        rw [hoctets] at hleaf
        cases hleaf
  | wrapped hmessage h hshown =>
    subst hmessage
    obtain ⟨nodes, found, hnodes, hfound⟩ := messageParts_head hshown
    have hlookup : (describe tools (levels + 1) entity).lookup true [.one, .one] = .found found := by
      have hself : (describe tools (levels + 1) entity).numbered true =
          some [describe tools (levels + 1) entity] := by
        rw [describe_message h]
        rfl
      have hinner : (describe tools (levels + 1) entity).numbered false = some nodes := by
        rw [describe_message h]
        exact hnodes
      rw [lookup_cons hself]
      change Described.lookup false _ [.one] = _
      rw [lookup_cons hinner, hfound]
      rfl
    have hmulti := multipartBoundary_eq_none (describedBoundary_of_isRFC822Part h)
    refine ⟨[.one, .one], List.cons_ne_nil _ _, not_agreeAt_of_unresolved hlookup ?_⟩
    rw [resolvePath, subpart_body hmulti]
    exact resolvePath_blank _

-- Both walks go on from an entity as they went to it.
theorem Opens.agreeAt_iff (h : Opens tools place next) :
    ∃ front : List PartNumber, ∀ path, path ≠ [] →
      (AgreeAt tools place.isMessage (describe tools place.levels place.entity) place.entity (front ++ path) ↔
        AgreeAt tools next.isMessage (describe tools next.levels next.entity) next.entity path) := by
  cases h with
  | @part levels isMessage entity boundary part n h hpart =>
    refine ⟨[n], fun path _ => ?_⟩
    have hne : splitMultipart (entityBody entity) boundary ≠ [] := by
      intro hempty
      rw [hempty] at hpart
      cases hpart
    have hlookup := @lookup_described _ tools entity boundary levels isMessage path n
      (describedBoundary_of_multipart h)
    rw [describedParts_of_ne_nil hne, hpart] at hlookup
    refine agreeAt_congr hlookup ?_
    rw [List.singleton_append, resolvePath, subpart_multipart h, hpart]
    rfl
  | @message levels entity h =>
    refine ⟨[], fun path hpath => ?_⟩
    obtain ⟨n, rest, rfl⟩ := List.exists_cons_of_ne_nil hpath
    rw [List.nil_append, AgreeAt, describe_message h, resolvePath_message h]
    rfl

theorem agreeAt_iff_of_reach (h : Relation.ReflTransGen (Opens tools) place next) :
    ∃ front : List PartNumber, ∀ path, path ≠ [] →
      (AgreeAt tools place.isMessage (describe tools place.levels place.entity) place.entity (front ++ path) ↔
        AgreeAt tools next.isMessage (describe tools next.levels next.entity) next.entity path) := by
  induction h with
  | refl => exact ⟨[], fun _ _ => Iff.rfl⟩
  | tail _ hopens ih =>
    obtain ⟨front, hfront⟩ := ih
    obtain ⟨step, hstep⟩ := hopens.agreeAt_iff
    refine ⟨front ++ step, fun path hpath => ?_⟩
    rw [List.append_assoc, hfront _ (List.append_ne_nil_of_right_ne_nil _ hpath), hstep path hpath]

theorem agreeAt_iff_regular {data : Bytes} :
    (∀ path, path ≠ [] → AgreeAt tools true (describe tools levels data) data path) ↔
      Regular tools ⟨levels, true, data⟩ := by
  constructor
  · intro hagree levels' isMessage entity hreach hirregular
    obtain ⟨path, hpath, hno⟩ := hirregular.not_agreeAt
    obtain ⟨front, hfront⟩ := agreeAt_iff_of_reach hreach
    exact hno ((hfront path hpath).mp (hagree _ (List.append_ne_nil_of_right_ne_nil _ hpath)))
  · exact fun h path hpath => agreeAt_of_regular h fun _ => hpath

end Agreement

-- What FETCH describes at a path and what it answers for that path.
def SectionAgrees {Header : Type} (tools : MimeTools Header) (data : Bytes) (path : List PartNumber) : Prop :=
  match (describe tools maxBodyStructureDepth data).lookup true path with
  | .beyond => True
  | .missing => bodySectionExists tools data (pathText path) = false
  | .found node => ∃ part, resolvePart tools data (pathText path) = some ⟨part, false, []⟩ ∧
      (∀ count, node.octets = some count → count = (bodySection tools data (pathText path)).length) ∧
      (node.hidesParts = false → (node.octets.isSome = true ↔ isMultipartEntity tools part = false))

theorem bodySection_of_resolvePart {Header : Type} {tools : MimeTools Header} {data spec part : Bytes}
    (hspec : spec ≠ []) (h : resolvePart tools data spec = some ⟨part, false, []⟩) :
    bodySection tools data spec = entityBody part := by
  rw [bodySection, if_neg hspec, h]
  rfl

theorem sectionAgrees_iff {Header : Type} {tools : MimeTools Header} {data : Bytes} {path : List PartNumber}
    (hpath : path ≠ []) :
    SectionAgrees tools data path ↔
      AgreeAt tools true (describe tools maxBodyStructureDepth data) data path := by
  have hresolve := @resolvePart_pathText _ tools data path
  have hempty : path.isEmpty = false := by simpa using hpath
  rw [hempty] at hresolve
  rw [SectionAgrees, AgreeAt]
  cases hlookup : (describe tools maxBodyStructureDepth data).lookup true path with
  | beyond => exact Iff.rfl
  | missing =>
    rw [bodySectionExists, hresolve, Option.isSome_map, Option.isSome_eq_false_iff, Option.isNone_iff_eq_none]
  | found node =>
    cases hpart : resolvePath tools true data path with
    | none =>
      rw [hresolve, hpart]
      exact iff_of_false (by rintro ⟨_, hsome, _⟩; cases hsome) (by rintro ⟨_, hsome, _⟩; cases hsome)
    | some part =>
      have hfound : resolvePart tools data (pathText path) = some ⟨part, false, []⟩ := by
        rw [hresolve, hpart]
        rfl
      rw [bodySection_of_resolvePart (pathText_ne_nil hpath) hfound, hfound]
      constructor
      · rintro ⟨_, hsome, hoctets, hleaf⟩
        cases hsome
        exact ⟨part, rfl, hoctets, hleaf⟩
      · rintro ⟨_, hsome, hoctets, hleaf⟩
        cases hsome
        exact ⟨part, rfl, hoctets, hleaf⟩

-- The description and the sections agree exactly on messages in which every
-- entity above the depth bound is regular.
theorem sections_agree_iff {Header : Type} (tools : MimeTools Header) (data : Bytes) :
    (∀ path, path ≠ [] → SectionAgrees tools data path) ↔
      Regular tools ⟨maxBodyStructureDepth, true, data⟩ := by
  rw [← agreeAt_iff_regular]
  constructor
  · exact fun h path hpath => (sectionAgrees_iff hpath).mp (h path hpath)
  · exact fun h path hpath => (sectionAgrees_iff hpath).mpr (h path hpath)

def contentTypeOnly : MimeTools Bytes where
  toUpper := UMail.Storage.toUpper
  readMIMEHeader := id
  get header key :=
    if (key ++ bytes ": ").isPrefixOf header then
      (header.drop (key.length + 2)).takeWhile (· ≠ 13)
    else []
  parseMediaType v := if v = [] then none else some (v, [])
  imapEnvelope _ := []
  blank := by decide

def forwarded : Bytes := bytes "Content-Type: message/rfc822\r\n\r\nSubject: x\r\n\r\nhello"

-- Part 1.1 is described, and is not there.
theorem sections_disagree_forwarded :
    ¬ ∀ (tools : MimeTools Bytes) (data : Bytes) (path : List PartNumber),
      path ≠ [] → SectionAgrees tools data path := by
  intro h
  have hregular := agreeAt_iff_regular.mp fun path hpath =>
    (sectionAgrees_iff hpath).mp (h contentTypeOnly forwarded path hpath)
  have hkind : isRFC822Part contentTypeOnly forwarded = true := by decide
  exact hregular.here (.wrapped rfl hkind fun hzero => absurd hzero (by decide))

end UMail.Imap
