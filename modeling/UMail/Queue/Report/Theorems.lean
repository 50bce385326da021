import UMail.Queue.Report
import Mathlib.Data.FinEnum
import Mathlib.Data.Nat.Digits.Lemmas
import Mathlib.Tactic.IntervalCases

namespace UMail.Queue

open Lines (crlf lines Plain plain_append plain_of_forall)
open UMail.Storage
open Text (isDigit)
open Utf8 (validText)

section Spec

structure ReportField where
  name : Bytes
  value : Bytes

def ReportField.line (field : ReportField) : Bytes := field.name ++ bytes ": " ++ field.value

def endLine (line : Bytes) : Bytes := line ++ crlf

def fieldLines (fields : List ReportField) : List Bytes := fields.map fun field => endLine field.line

def isDelimiter (boundary line : Bytes) : Bool := (bytes "--" ++ boundary).isPrefixOf line

def parts (boundary report : Bytes) : List (List Bytes) :=
  (lines report).splitOnP (isDelimiter boundary)

def reportFields (env : ReportEnv) (dsn : DSN) : List ReportField :=
  [⟨bytes "From", bytes "MAILER-DAEMON@" ++ dsn.reportedDomain⟩,
    ⟨bytes "To", dsn.originalFrom⟩,
    ⟨bytes "Subject", bytes "Delivery Status Notification"⟩,
    ⟨bytes "Content-Type",
      bytes "multipart/report; report-type=delivery-status; boundary=" ++ env.boundary⟩,
    ⟨bytes "Date", env.now.text⟩,
    ⟨bytes "Message-ID", dsn.messageID⟩,
    ⟨bytes "MIME-Version", bytes "1.0"⟩,
    ⟨bytes "Auto-Submitted", bytes "auto-generated"⟩]

def textLines (dsn : DSN) : List Bytes :=
  [bytes "Content-Type: text/plain",
    [],
    bytes "Delivery to the following recipient " ++ dsn.action ++ bytes ":",
    bytes "    " ++ dsn.originalTo,
    [],
    bytes "Action: " ++ dsn.action,
    bytes "Status: " ++ dsn.status,
    []]

def statusType : ReportField := ⟨bytes "Content-Type", bytes "message/delivery-status"⟩

def fieldIf (present : Prop) [Decidable present] (field : ReportField) : List ReportField :=
  if present then [field] else []

def messageFields (dsn : DSN) : List ReportField :=
  fieldIf (dsn.envID ≠ []) ⟨bytes "Original-Envelope-Id", dsn.envID⟩ ++
    [⟨bytes "Reporting-MTA", bytes "dns; " ++ dsn.reportedDomain⟩,
      ⟨bytes "Arrival-Date", dsn.arrivalDate.text⟩]

def originalRecipientField (orcpt : Bytes) : List ReportField :=
  ((cutORCPT orcpt).map fun cut =>
    ⟨bytes "Original-Recipient",
      sanitizeDSNField cut.1 ++ bytes "; " ++ sanitizeDSNField (xtextDecode cut.2)⟩).toList

def recipientFields (dsn : DSN) : List ReportField :=
  originalRecipientField dsn.recipient.originalRecipient ++
    [⟨bytes "Final-Recipient", bytes "rfc822; " ++ dsn.recipient.original⟩,
      ⟨bytes "Action", dsn.action⟩,
      ⟨bytes "Status", dsn.status⟩] ++
    fieldIf (dsn.remoteMTA ≠ [] ∧ dsn.remoteMTA ≠ bytes "unknown")
      ⟨bytes "Remote-MTA", bytes "dns; " ++ dsn.remoteMTA⟩ ++
    fieldIf (dsn.diagnosticCode ≠ []) ⟨bytes "Diagnostic-Code", bytes "smtp; " ++ dsn.diagnosticCode⟩ ++
    fieldIf (dsn.recipient.dsnAddress ≠ [] ∧ dsn.recipient.dsnAddress ≠ dsn.recipient.original)
      ⟨bytes "X-Actual-Recipient", bytes "rfc822; " ++ dsn.recipient.dsnAddress⟩

-- The header, the text and the two blocks of the delivery status hold the fields
-- that are meant and nothing else.
structure SoundReport (env : ReportEnv) (dsn : DSN) (originalMessage : Bytes) (ret : Nat) : Prop where
  header : headerLines (generateDSN env dsn originalMessage ret) =
    fieldLines (reportFields env (dsn.sanitized env))
  front : (parts env.boundary (generateDSN env dsn originalMessage ret))[0]? =
    some (fieldLines (reportFields env (dsn.sanitized env)) ++ [crlf])
  text : (parts env.boundary (generateDSN env dsn originalMessage ret))[1]? =
    some ((textLines (dsn.sanitized env)).map endLine)
  status : (parts env.boundary (generateDSN env dsn originalMessage ret))[2]?.map (List.splitOn crlf) =
    some [fieldLines [statusType], fieldLines (messageFields (dsn.sanitized env)),
      fieldLines (recipientFields (dsn.sanitized env)), []]
  returned : (parts env.boundary (generateDSN env dsn originalMessage ret)).drop 3 =
    parts env.boundary ((originalPart originalMessage ret).text env)

structure DSN.PlainCodes (dsn : DSN) : Prop where
  action : Plain dsn.action
  status : Plain dsn.status
  messageID : Plain dsn.messageID

end Spec

section Values

variable {s : Bytes}

theorem plain_sanitizeDSNField : Plain (sanitizeDSNField s) := by
  refine plain_of_forall fun c hc => ?_
  obtain ⟨d, _, rfl⟩ := List.mem_map.mp hc
  split_ifs with hd
  · decide
  constructor
  · rintro rfl
    exact hd (by decide)
  · rintro rfl
    exact hd (by decide)

theorem mem_fieldsLoop {fuel : Nat} {field word : Bytes} {c : UInt8}
    (hword : word ∈ Text.fieldsLoop fuel field s) (hc : c ∈ word) : c ∈ field ∨ c ∈ s := by
  have hflush : ∀ {field : Bytes}, word ∈ (if field = [] then [] else [field]) → c ∈ field := by
    intro field hmem
    split_ifs at hmem
    · simp at hmem
    · exact List.mem_singleton.mp hmem ▸ hc
  induction fuel generalizing field s with
  | zero => exact Or.inl (hflush hword)
  | succ fuel ih =>
    rcases s with _ | ⟨d, s⟩
    · exact Or.inl (hflush hword)
    rw [Text.fieldsLoop] at hword
    split at hword
    next space _ =>
      rcases List.mem_append.mp hword with hmem | hmem
      · exact Or.inl (hflush hmem)
      · exact Or.inr (List.mem_of_mem_drop ((ih hmem).resolve_left List.not_mem_nil))
    next =>
      rcases ih hword with hmem | hmem
      · rcases List.mem_append.mp hmem with hmem | hmem
        · exact Or.inl hmem
        · exact Or.inr (List.mem_singleton.mp hmem ▸ List.mem_cons_self)
      · exact Or.inr (List.mem_cons_of_mem d hmem)

theorem plain_intercalate {words : List Bytes} (h : ∀ word ∈ words, Plain word) :
    Plain ([32].intercalate words) := by
  induction words with
  | nil => exact .nil
  | cons word rest ih =>
    obtain ⟨hword, hrest⟩ := List.forall_mem_cons.mp h
    cases rest with
    | nil => simpa using hword
    | cons next rest =>
      rw [List.intercalate_cons_cons, plain_append, plain_append]
      exact ⟨⟨hword, by decide⟩, ih hrest⟩

theorem plain_diagnosticText {unquote : Bytes → Option Bytes} :
    Plain (diagnosticText unquote s) := by
  have hcollapse : ∀ {text : Bytes}, Plain text → Plain (collapseSpace text) := fun htext =>
    plain_intercalate fun _ hword => plain_of_forall fun _ hc =>
      htext.ne ((mem_fieldsLoop hword hc).resolve_left List.not_mem_nil)
  exact plain_of_forall fun _ hc =>
    (hcollapse plain_sanitizeDSNField).ne (List.mem_of_mem_take hc)

theorem plain_hexDigits (c : UInt8) : Plain [hexDigit (c / 16), hexDigit (c % 16)] := by
  revert c
  decide +kernel

theorem plain_hexEncode (s : Bytes) : Plain (hexEncode s) := by
  refine plain_of_forall fun c hc => ?_
  obtain ⟨d, _, hc⟩ := List.mem_flatMap.mp hc
  exact (plain_hexDigits d).ne hc

theorem plain_decimal (n : Nat) : Plain (decimal n) := by
  unfold decimal
  split_ifs
  · decide
  refine plain_of_forall fun c hc => ?_
  obtain ⟨d, hd, rfl⟩ := List.mem_map.mp hc
  have hlt : d < 10 := Nat.digits_lt_base (by decide) (List.mem_reverse.mp hd)
  interval_cases d <;> decide

end Values

section Layout

def delimiter (env : ReportEnv) : Bytes := bytes "--" ++ env.boundary

def headerBlock (env : ReportEnv) (dsn : DSN) : List Bytes :=
  (reportFields env dsn).map ReportField.line ++ [[]]

def statusLines (dsn : DSN) : List Bytes :=
  statusType.line :: [] :: ((messageFields dsn).map ReportField.line ++
    [] :: ((recipientFields dsn).map ReportField.line ++ [[]]))

theorem bytes_append (s t : String) : bytes (s ++ t) = bytes s ++ bytes t := by
  simp [bytes]

theorem bytes_append_append (s t : String) (u : Bytes) :
    bytes s ++ (bytes t ++ u) = bytes (s ++ t) ++ u := by
  rw [bytes_append, List.append_assoc]

theorem flatten_fieldIf {present : Prop} [Decidable present] {field : ReportField} {text : Bytes}
    (h : text = endLine field.line) :
    ((fieldIf present field).map (endLine ∘ ReportField.line)).flatten = if present then text else [] := by
  subst h
  by_cases h : present
  · simp [fieldIf, h]
  · simp [fieldIf, h]

theorem flatten_originalRecipientField (orcpt : Bytes) :
    ((originalRecipientField orcpt).map (endLine ∘ ReportField.line)).flatten =
      dsnOriginalRecipient orcpt := by
  unfold originalRecipientField dsnOriginalRecipient
  cases cutORCPT orcpt with
  | none => rfl
  | some cut => simp [endLine, ReportField.line, bytes_append_append]

theorem headerText_eq (env : ReportEnv) (dsn : DSN) :
    dsn.headerText env = ((headerBlock env dsn).map endLine).flatten := by
  delta DSN.headerText headerBlock
  simp only [reportFields, endLine, ReportField.line, List.map_append, List.map_cons, List.map_nil,
    List.flatten_append, List.flatten_cons, List.flatten_nil, List.append_assoc, List.nil_append,
    List.append_nil, bytes_append_append, String.reduceAppend]

theorem plainText_eq (dsn : DSN) : dsn.plainText = ((textLines dsn).map endLine).flatten := by
  simp [DSN.plainText, textLines, endLine]

theorem flatten_envIDField (envID : Bytes) :
    ((fieldIf (envID ≠ []) ⟨bytes "Original-Envelope-Id", envID⟩).map
        (endLine ∘ ReportField.line)).flatten =
      envIDField envID := by
  rw [flatten_fieldIf rfl]
  simp [envIDField, endLine, ReportField.line, bytes_append_append]

theorem flatten_remoteMTAField (remoteMTA : Bytes) :
    ((fieldIf (remoteMTA ≠ [] ∧ remoteMTA ≠ bytes "unknown")
      ⟨bytes "Remote-MTA", bytes "dns; " ++ remoteMTA⟩).map (endLine ∘ ReportField.line)).flatten =
      remoteMTAField remoteMTA :=
  flatten_fieldIf (by simp [endLine, ReportField.line, bytes_append_append])

theorem flatten_diagnosticField (diag : Bytes) :
    ((fieldIf (diag ≠ []) ⟨bytes "Diagnostic-Code", bytes "smtp; " ++ diag⟩).map
      (endLine ∘ ReportField.line)).flatten = diagnosticField diag :=
  flatten_fieldIf (by simp [endLine, ReportField.line, bytes_append_append])

theorem flatten_actualRecipientField (recipient : DSNRecipient) :
    ((fieldIf (recipient.dsnAddress ≠ [] ∧ recipient.dsnAddress ≠ recipient.original)
      ⟨bytes "X-Actual-Recipient", bytes "rfc822; " ++ recipient.dsnAddress⟩).map
      (endLine ∘ ReportField.line)).flatten = actualRecipientField recipient :=
  flatten_fieldIf (by simp [endLine, ReportField.line, bytes_append_append])

theorem statusText_eq (dsn : DSN) : dsn.statusText = ((statusLines dsn).map endLine).flatten := by
  delta DSN.statusText statusLines statusType messageFields recipientFields
  simp only [List.map_append, List.map_map, List.map_cons, List.map_nil, List.flatten_append,
    List.flatten_cons, List.flatten_nil, flatten_envIDField, flatten_remoteMTAField,
    flatten_diagnosticField, flatten_actualRecipientField, flatten_originalRecipientField]
  simp only [endLine, ReportField.line, List.append_assoc, List.nil_append, List.append_nil,
    bytes_append_append, String.reduceAppend]

def frontLines (env : ReportEnv) (dsn : DSN) : List Bytes :=
  headerBlock env dsn ++
    delimiter env :: (textLines dsn ++ delimiter env :: (statusLines dsn ++ [delimiter env]))

theorem generateDSN_eq (env : ReportEnv) (dsn : DSN) (originalMessage : Bytes) (ret : Nat) :
    generateDSN env dsn originalMessage ret =
      ((frontLines env (dsn.sanitized env)).map endLine).flatten ++
        (originalPart originalMessage ret).text env := by
  simp only [generateDSN, frontLines, headerText_eq, plainText_eq, statusText_eq]
  simp [delimiter, endLine]

end Layout

section Lines

variable {field : ReportField}

def QuietLine (line : Bytes) : Prop := Plain line ∧ line.head? ≠ some 45

def isName (name : Bytes) : Bool := decide (Plain name) && name.head?.any (· ≠ 45)

structure ReportField.Sound (field : ReportField) : Prop where
  name : isName field.name = true
  value : Plain field.value

theorem ReportField.Sound.of_name {name value : Bytes} (hname : isName name = true) (hvalue : Plain value) :
    ReportField.Sound ⟨name, value⟩ :=
  ⟨hname, hvalue⟩

theorem ReportField.Sound.line (h : field.Sound) : QuietLine field.line ∧ field.line ≠ [] := by
  obtain ⟨name, value⟩ := field
  obtain ⟨hplain, hhead⟩ := Bool.and_eq_true_iff.mp h.name
  cases name with
  | nil => simp at hhead
  | cons c name =>
    refine ⟨⟨?_, by simpa [ReportField.line] using hhead⟩, by simp [ReportField.line]⟩
    exact plain_append.mpr ⟨plain_append.mpr ⟨of_decide_eq_true hplain, by decide⟩, h.value⟩

structure DSN.PlainValues (dsn : DSN) : Prop extends dsn.PlainCodes where
  reportedDomain : Plain dsn.reportedDomain
  originalFrom : Plain dsn.originalFrom
  originalTo : Plain dsn.originalTo
  original : Plain dsn.recipient.original
  dsnAddress : Plain dsn.recipient.dsnAddress
  diagnosticCode : Plain dsn.diagnosticCode
  remoteMTA : Plain dsn.remoteMTA
  envID : Plain dsn.envID

variable {env : ReportEnv} {dsn : DSN} {fields : List ReportField} {originalMessage : Bytes}

theorem plain_generateMessageID : Plain env.generateMessageID := by
  simp only [ReportEnv.generateMessageID, plain_append]
  exact ⟨⟨⟨⟨by decide, plain_decimal _⟩, by decide⟩, plain_hexEncode _⟩, by decide⟩

theorem plain_boundary : Plain env.boundary :=
  plain_append.mpr ⟨by decide, plain_hexEncode _⟩

theorem DSN.PlainCodes.sanitized (h : dsn.PlainCodes) (env : ReportEnv) :
    (dsn.sanitized env).PlainValues := by
  unfold DSN.sanitized
  refine ⟨⟨h.action, h.status, ?_⟩, plain_sanitizeDSNField, plain_sanitizeDSNField,
    plain_sanitizeDSNField, plain_sanitizeDSNField, plain_sanitizeDSNField,
    ?_, plain_sanitizeDSNField, plain_sanitizeDSNField⟩
  · dsimp only
    split_ifs
    · exact plain_generateMessageID
    · exact h.messageID
  · dsimp only
    exact plain_diagnosticText

theorem sound_reportFields (env : ReportEnv) (h : dsn.PlainValues) :
    ∀ field ∈ reportFields env dsn, field.Sound := by
  simp only [reportFields, List.forall_mem_cons]
  refine ⟨.of_name (by decide) ?_, .of_name (by decide) h.originalFrom, .of_name (by decide) (by decide),
    .of_name (by decide) ?_, .of_name (by decide) env.now.plain, .of_name (by decide) h.messageID,
    .of_name (by decide) (by decide), .of_name (by decide) (by decide), by simp⟩
  · exact plain_append.mpr ⟨by decide, h.reportedDomain⟩
  · exact plain_append.mpr ⟨by decide, plain_boundary⟩

theorem sound_fieldIf {present : Prop} [Decidable present] (h : field.Sound) :
    ∀ other ∈ fieldIf present field, other.Sound := by
  intro other hmem
  unfold fieldIf at hmem
  split_ifs at hmem
  · exact List.mem_singleton.mp hmem ▸ h
  · simp at hmem

theorem sound_messageFields (h : dsn.PlainValues) : ∀ field ∈ messageFields dsn, field.Sound := by
  simp only [messageFields, List.forall_mem_append, List.forall_mem_cons]
  refine ⟨sound_fieldIf (.of_name (by decide) h.envID), .of_name (by decide) ?_,
    .of_name (by decide) dsn.arrivalDate.plain, by simp⟩
  exact plain_append.mpr ⟨by decide, h.reportedDomain⟩

theorem sound_originalRecipientField (orcpt : Bytes) :
    ∀ field ∈ originalRecipientField orcpt, field.Sound := by
  intro field hmem
  obtain ⟨cut, _, rfl⟩ := Option.map_eq_some_iff.mp (Option.mem_toList.mp hmem)
  refine .of_name (by decide) ?_
  exact plain_append.mpr ⟨plain_append.mpr ⟨plain_sanitizeDSNField, by decide⟩,
    plain_sanitizeDSNField⟩

theorem sound_recipientFields (h : dsn.PlainValues) : ∀ field ∈ recipientFields dsn, field.Sound := by
  simp only [recipientFields, List.forall_mem_append, List.forall_mem_cons]
  refine ⟨⟨⟨⟨sound_originalRecipientField _, .of_name (by decide) ?_, .of_name (by decide) h.action,
    .of_name (by decide) h.status, by simp⟩, sound_fieldIf (.of_name (by decide) ?_)⟩,
    sound_fieldIf (.of_name (by decide) ?_)⟩, sound_fieldIf (.of_name (by decide) ?_)⟩
  · exact plain_append.mpr ⟨by decide, h.original⟩
  · exact plain_append.mpr ⟨by decide, h.remoteMTA⟩
  · exact plain_append.mpr ⟨by decide, h.diagnosticCode⟩
  · exact plain_append.mpr ⟨by decide, h.dsnAddress⟩

theorem quiet_textLines (h : dsn.PlainValues) : ∀ line ∈ textLines dsn, QuietLine line := by
  have hquiet : ∀ {start value : Bytes}, isName start = true → Plain value → QuietLine (start ++ value) := by
    intro start value hstart hvalue
    obtain ⟨hplain, hhead⟩ := Bool.and_eq_true_iff.mp hstart
    refine ⟨plain_append.mpr ⟨of_decide_eq_true hplain, hvalue⟩, ?_⟩
    cases start with
    | nil => simp at hhead
    | cons c start => simpa using hhead
  simp only [textLines, List.forall_mem_cons]
  refine ⟨⟨by decide, by decide⟩, ⟨.nil, by simp⟩, ?_, hquiet (by decide) h.originalTo,
    ⟨.nil, by simp⟩, hquiet (by decide) h.action, hquiet (by decide) h.status, ⟨.nil, by simp⟩, by simp⟩
  rw [List.append_assoc]
  exact hquiet (by decide) (plain_append.mpr ⟨h.action, by decide⟩)

theorem quiet_fields (h : ∀ field ∈ fields, field.Sound) :
    ∀ line ∈ fields.map ReportField.line, QuietLine line := by
  intro line hline
  obtain ⟨field, hfield, rfl⟩ := List.mem_map.mp hline
  exact (h field hfield).line.1

theorem quiet_headerBlock (h : dsn.PlainValues) : ∀ line ∈ headerBlock env dsn, QuietLine line := by
  rw [headerBlock, List.forall_mem_append]
  exact ⟨quiet_fields (sound_reportFields env h), by simp [QuietLine, Plain]⟩

theorem quiet_statusLines (h : dsn.PlainValues) : ∀ line ∈ statusLines dsn, QuietLine line := by
  simp only [statusLines, List.forall_mem_append, List.forall_mem_cons]
  have hempty : QuietLine [] := ⟨.nil, by simp⟩
  exact ⟨(ReportField.Sound.of_name (by decide) (by decide)).line.1, hempty,
    quiet_fields (sound_messageFields h),
    hempty, quiet_fields (sound_recipientFields h), hempty, by simp⟩

theorem plain_delimiter : Plain (delimiter env) :=
  plain_append.mpr ⟨by decide, plain_boundary⟩

theorem plain_frontLines (h : dsn.PlainValues) : ∀ line ∈ frontLines env dsn, Plain line := by
  simp only [frontLines, List.forall_mem_append, List.forall_mem_cons]
  exact ⟨fun line hline => (quiet_headerBlock h line hline).1, plain_delimiter,
    fun line hline => (quiet_textLines h line hline).1, plain_delimiter,
    fun line hline => (quiet_statusLines h line hline).1, plain_delimiter, by simp⟩

theorem lines_generateDSN (h : dsn.PlainCodes) (originalMessage : Bytes) (ret : Nat) :
    lines (generateDSN env dsn originalMessage ret) =
      (frontLines env (dsn.sanitized env)).map endLine ++
        lines ((originalPart originalMessage ret).text env) := by
  rw [generateDSN_eq]
  exact Lines.lines_ended_append (plain_frontLines (h.sanitized env)) _

theorem isDelimiter_delimiter (env : ReportEnv) :
    isDelimiter env.boundary (endLine (delimiter env)) = true :=
  List.isPrefixOf_iff_prefix.mpr (List.prefix_append _ _)

theorem QuietLine.isDelimiter {line : Bytes} (h : QuietLine line) (boundary : Bytes) :
    isDelimiter boundary (endLine line) = false := by
  have hstart : bytes "--" = [45, 45] := by decide
  unfold UMail.Queue.isDelimiter
  rw [hstart]
  cases line with
  | nil => rfl
  | cons c line =>
    have hc : c ≠ 45 := fun hc => h.2 (congrArg some hc)
    simp [endLine, List.isPrefixOf, Ne.symm hc]

theorem quiet_map_endLine {ls : List Bytes} (h : ∀ line ∈ ls, QuietLine line) {boundary : Bytes} :
    ∀ line ∈ ls.map endLine, isDelimiter boundary line = false := by
  intro line hline
  obtain ⟨text, htext, rfl⟩ := List.mem_map.mp hline
  exact (h text htext).isDelimiter boundary

theorem parts_generateDSN (env : ReportEnv) (h : dsn.PlainCodes) (originalMessage : Bytes) (ret : Nat) :
    parts env.boundary (generateDSN env dsn originalMessage ret) =
      (headerBlock env (dsn.sanitized env)).map endLine ::
        (textLines (dsn.sanitized env)).map endLine :: (statusLines (dsn.sanitized env)).map endLine ::
          parts env.boundary ((originalPart originalMessage ret).text env) := by
  have hvalues := h.sanitized env
  have hdelimiter := isDelimiter_delimiter env
  unfold parts
  rw [lines_generateDSN h, frontLines, List.map_append, List.map_cons, List.map_append, List.map_cons,
    List.map_append, List.map_singleton]
  simp only [List.append_assoc, List.cons_append, List.nil_append]
  rw [List.splitOnP_append_cons_of_forall_mem
      (quiet_map_endLine (quiet_headerBlock hvalues)) _ hdelimiter,
    List.splitOnP_append_cons_of_forall_mem
      (quiet_map_endLine (quiet_textLines hvalues)) _ hdelimiter,
    List.splitOnP_append_cons_of_forall_mem
      (quiet_map_endLine (quiet_statusLines hvalues)) _ hdelimiter]

theorem fieldLines_eq : fieldLines fields = (fields.map ReportField.line).map endLine := by
  simp [fieldLines]

theorem crlf_notMem_fieldLines (h : ∀ field ∈ fields, field.Sound) : crlf ∉ fieldLines fields := by
  intro hmem
  obtain ⟨field, hfield, hline⟩ := List.mem_map.mp hmem
  exact (h field hfield).line.2 (List.append_left_eq_self.mp hline)

theorem splitOn_statusLines (h : dsn.PlainValues) :
    ((statusLines dsn).map endLine).splitOn crlf =
      [fieldLines [statusType], fieldLines (messageFields dsn), fieldLines (recipientFields dsn), []] := by
  have hblocks : (statusLines dsn).map endLine = [crlf].intercalate
      [fieldLines [statusType], fieldLines (messageFields dsn), fieldLines (recipientFields dsn), []] := by
    simp [statusLines, fieldLines_eq, endLine, List.intercalate_singleton]
  rw [hblocks]
  refine List.splitOn_intercalate crlf ?_ (by simp)
  have htype : ∀ field ∈ [statusType], field.Sound :=
    List.forall_mem_singleton.mpr (.of_name (by decide) (by decide))
  simp only [List.forall_mem_cons]
  exact ⟨crlf_notMem_fieldLines htype, crlf_notMem_fieldLines (sound_messageFields h),
    crlf_notMem_fieldLines (sound_recipientFields h), by simp⟩

theorem headerLines_generateDSN (h : dsn.PlainCodes) (ret : Nat) :
    headerLines (generateDSN env dsn originalMessage ret) =
      fieldLines (reportFields env (dsn.sanitized env)) := by
  have hno := crlf_notMem_fieldLines (sound_reportFields env (h.sanitized env))
  unfold headerLines
  rw [lines_generateDSN h, frontLines, List.map_append, headerBlock, List.map_append, ← fieldLines_eq,
    List.append_assoc, List.append_assoc, List.takeWhile_append_of_pos]
  · simp [endLine]
  · intro line hline
    simpa using fun hcrlf : line = crlf => hno (hcrlf ▸ hline)

theorem soundReport (h : dsn.PlainCodes) (ret : Nat) : SoundReport env dsn originalMessage ret := by
  have hparts := parts_generateDSN env h originalMessage ret
  refine ⟨headerLines_generateDSN h ret, ?_, ?_, ?_, ?_⟩ <;> rw [hparts]
  · simp [headerBlock, fieldLines_eq, endLine]
  · simp only [List.getElem?_cons_succ, List.getElem?_cons_zero]
  · simp only [List.getElem?_cons_succ, List.getElem?_cons_zero, Option.map_some,
      splitOn_statusLines (h.sanitized env)]
  · simp only [List.drop_succ_cons, List.drop_zero]

end Lines

section Callers

theorem plain_statusNumber {s digits rest : Bytes} (h : statusNumber s = some (digits, rest)) :
    Plain digits := by
  unfold statusNumber at h
  dsimp only at h
  split_ifs at h
  obtain ⟨rfl, _⟩ := Prod.mk.inj (Option.some.inj h)
  refine plain_of_forall fun c hc => ?_
  have hdigit : isDigit c = true := List.mem_takeWhile_imp hc
  constructor
  · rintro rfl
    exact absurd hdigit (by decide)
  · rintro rfl
    exact absurd hdigit (by decide)

theorem plain_statusDetail {subject s code : Bytes} (hsubject : Plain subject)
    (h : statusDetail subject s = some code) : Plain code := by
  unfold statusDetail at h
  split at h
  next =>
    split at h
    next detail rest hnumber =>
      split_ifs at h
      cases h
      simp only [plain_append]
      exact ⟨⟨⟨by decide, hsubject⟩, by decide⟩, plain_statusNumber hnumber⟩
    next => cases h
  next => cases h

theorem plain_statusCode {s code : Bytes} (h : statusCode s = some code) : Plain code := by
  unfold statusCode at h
  split at h
  next =>
    split at h
    next subject rest hnumber => exact plain_statusDetail (plain_statusNumber hnumber) h
    next => cases h
  next => cases h

theorem plain_bounceStatus (lastError : Bytes) : Plain (bounceStatus lastError) := by
  unfold bounceStatus
  rcases hstatus : enhancedStatus lastError with _ | code
  · decide
  unfold enhancedStatus at hstatus
  split at hstatus
  next =>
    split_ifs at hstatus
    · exact plain_statusCode hstatus
    · exact plain_statusCode hstatus
  next => cases hstatus

theorem plainCodes_entryDSN {env : ReportEnv} {entry : UMail.Db.QueueEntry} {createdAt : Stamp}
    {action status diagnosticCode remoteMTA : Bytes} (haction : Plain action) (hstatus : Plain status) :
    (entryDSN env entry createdAt action status diagnosticCode remoteMTA).PlainCodes :=
  ⟨haction, hstatus, plain_generateMessageID⟩

theorem plainCodes_dsn (env : ReportEnv) (call : ReportCall) : (call.dsn env).PlainCodes := by
  have hfailed : Plain (bytes "failed") := by decide
  cases call with
  | sendSuccessDSN | sendDelayDSN => exact plainCodes_entryDSN (by decide) (by decide)
  | enqueueBounce entry createdAt => exact plainCodes_entryDSN hfailed (plain_bounceStatus _)
  | bounceFailedRecipients sender rcpt orcpt envID diag =>
    have hstatus : Plain (bytes "5.0.0") := by decide
    exact ⟨hfailed, hstatus, plain_generateMessageID⟩

end Callers

section Report

def noonEnv : ReportEnv where
  now := ⟨bytes "Mon, 02 Jan 2006 12:00:00 +0000", by decide⟩
  unixNano := 1136203200
  idBytes := [1, 2, 3, 4, 5, 6, 7, 8]
  boundaryBytes := [8, 7, 6, 5, 4, 3, 2, 1]
  unquote _ := none

def hostileEntry : UMail.Db.QueueEntry where
  fromAddr := bytes "eve@a.example\r\nBcc: all@a.example"
  toAddr := bytes "bob@b.example\r\n\r\n--boundary_0807060504030201"
  createdAt := 0
  nextRetry := 0
  retryCount := 1
  lastError := bytes "550 5.1.1\r\nAction: delivered\r\n\r\n (mx: mx.b.example)"
  claimedAt := none
  status := .pending
  notify := 0
  ret := 0
  envID := bytes "1+0D+0AStatus: 2.0.0"
  orcpt := bytes "rfc822;bob+0D+0A+0D+0A--boundary_0807060504030201"

-- Everything in a report is on the line it is meant for, as long as the action,
-- the status and the identifier are, which every caller in the server sees to.
theorem report_sound (env : ReportEnv) (originalMessage : Bytes) (ret : Nat) :
    (∀ dsn : DSN, dsn.PlainCodes → SoundReport env dsn originalMessage ret) ∧
      ∀ call : ReportCall, (call.dsn env).PlainCodes :=
  ⟨fun _ h => soundReport h ret, plainCodes_dsn env⟩

theorem report_sound_hostile :
    SoundReport noonEnv ((ReportCall.enqueueBounce hostileEntry noonEnv.now).dsn noonEnv)
      (bytes "Subject: hello\r\n\r\nhello\r\n") dsnRetFull :=
  have h := report_sound noonEnv (bytes "Subject: hello\r\n\r\nhello\r\n") dsnRetFull
  h.1 _ (h.2 (.enqueueBounce hostileEntry noonEnv.now))

-- The status is not sanitised: one with a line end of its own adds a field.
theorem report_sound_fails_status :
    ¬ ∀ (env : ReportEnv) (dsn : DSN) (originalMessage : Bytes) (ret : Nat),
      SoundReport env dsn originalMessage ret := by
  intro h
  have hstatus := (h noonEnv (entryDSN noonEnv hostileEntry noonEnv.now (bytes "failed")
    (bytes "5.0.0\r\nX-Field: y") [] []) [] dsnRetHeaders).status
  revert hstatus
  decide

end Report

end UMail.Queue
