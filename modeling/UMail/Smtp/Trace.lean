import UMail.Imap.Literals
import UMail.Library.Folded
import UMail.Smtp.Headers

namespace UMail.Smtp

open Lines (crlf cutHeader linesLF)
open Folded (groups keep)
open Text (fields)
open UMail.Imap (isBlank)
open UMail.Storage (Bytes bytes)

def Ascii (s : Bytes) : Prop := ∀ c ∈ s, c.toNat < 128

instance (s : Bytes) : Decidable (Ascii s) :=
  decidable_of_iff ((s.all fun c => decide (c.toNat < 128)) = true)
    (List.all_eq_true.trans (forall₂_congr fun _ _ => decide_eq_true_iff))

-- strings.ToLower and strings.EqualFold. What they do to a text with characters
-- outside ASCII is not said.
structure CaseTools where
  toLower : Bytes → Bytes
  equalFold : Bytes → Bytes → Bool
  toLower_ascii : ∀ {s}, Ascii s → toLower s = Storage.toLower s
  equalFold_ascii : ∀ {s t}, Ascii s → Ascii t → equalFold s t = Storage.equalFold s t

-- The letters of ASCII alone.
def asciiCase : CaseTools := ⟨Storage.toLower, Storage.equalFold, fun _ => rfl, fun _ _ => rfl⟩

def lineName (line : Bytes) : Bytes := (line.takeWhile (· ≠ 58)).rdropWhile isBlank

def afterColon (text : Bytes) : Bytes := (text.dropWhile (· ≠ 58)).drop 1

section Strip

variable (tools : CaseTools)

def hasName (name line : Bytes) : Bool := isField line && tools.toLower (lineName line) == name

def stripHeaderFields (data name : Bytes) : Bytes :=
  (keep isFolded (fun line _ => hasName tools name line) false (linesLF (cutHeader data).1)).flatten ++
    (cutHeader data).2

def verdictNames : List Bytes :=
  [bytes "x-spam-status", bytes "x-spam-score", bytes "x-spam-flag", bytes "x-spam-level",
    bytes "x-spam-result", bytes "x-virus-scan", bytes "x-virus", bytes "x-virus-status"]

def stripVerdictHeaders (data : Bytes) : Bytes := verdictNames.foldl (stripHeaderFields tools) data

structure Sanitizing where
  out : Bytes
  hasDate : Bool
  dropping : Bool
  sawHeader : Bool
  deriving DecidableEq, Repr

variable (st : Sanitizing) (line : Bytes)

-- What the first line of a field is taken for.
def Sanitizing.look : Sanitizing :=
  if isFolded line then st
  else if isField line then
    { st with
      sawHeader := true
      dropping := tools.toLower (lineName line) == bytes "bcc"
      hasDate := st.hasDate || tools.toLower (lineName line) == bytes "date" }
  else { st with dropping := false }

def Sanitizing.take : Sanitizing :=
  if st.dropping then st else { st with out := st.out ++ line }

def sanitizeLine : Sanitizing := (st.look tools line).take line

def dateField (now : Bytes) : Bytes := bytes "Date: " ++ now ++ crlf

def sanitizeSubmissionHeaders (now data : Bytes) : Bytes :=
  let st := (linesLF (cutHeader data).1).foldl (sanitizeLine tools) ⟨[], false, false, false⟩
  (if st.sawHeader && !st.hasDate then dateField now else []) ++ st.out ++ (cutHeader data).2

def isLineEnd (c : UInt8) : Bool := c = 13 || c = 10

def semicolon : UInt8 := 59

-- The first word in front of a semicolon.
def authServID (value : Bytes) : Bytes :=
  match fields (value.takeWhile (· ≠ semicolon)) with
  | [] => []
  | word :: _ => tools.toLower word

def authResultsName : Bytes := bytes "Authentication-Results"

def isAuthResults : Bool := isField line && tools.equalFold (lineName line) authResultsName

-- The identifier is looked for in all that follows the name, not in the field
-- alone.
def claimsHost (hostname line : Bytes) (rest : List Bytes) : Bool :=
  isAuthResults tools (line.rdropWhile isLineEnd) &&
    authServID tools (afterColon (line ++ rest.flatten)) == tools.toLower hostname

def removeOwnLoop (hostname : Bytes) : Bool → List Bytes → Bytes
  | _, [] => []
  | dropping, line :: rest =>
    if line.rdropWhile isLineEnd = [] then (line :: rest).flatten
    else if (if isFolded (line.rdropWhile isLineEnd) then dropping else claimsHost tools hostname line rest)
      then removeOwnLoop hostname true rest
      else line ++ removeOwnLoop hostname false rest

-- The source makes a copy at the first removal only, which the result does not
-- show.
def removeOwnAuthResults (data hostname : Bytes) : Bytes :=
  removeOwnLoop tools hostname false (linesLF data)

end Strip

section Spec

def isEmptyLine (line : Bytes) : Bool := line = crlf || line = [10]

def messageHeader (data : Bytes) : List Bytes := (linesLF data).takeWhile fun line => !isEmptyLine line

def messageBody (data : Bytes) : List Bytes := (linesLF data).dropWhile fun line => !isEmptyLine line

def messageFields (data : Bytes) : List (List Bytes) := groups isFolded (messageHeader data)

def isNamed (name : Bytes) (field : List Bytes) : Bool :=
  field.head?.any fun line => !isFolded line && isField line && Storage.toLower (lineName line) == name

def fieldText (field : List Bytes) : Bytes := afterColon field.flatten

def isOwnResult (tools : CaseTools) (hostname : Bytes) (field : List Bytes) : Bool :=
  isNamed (bytes "authentication-results") field &&
    authServID tools (fieldText field) == tools.toLower hostname

def removeFields (removed : List Bytes → Bool) (data : Bytes) : Bytes :=
  ((messageFields data).filter fun field => !removed field).flatten.flatten ++ (messageBody data).flatten

def namedIn (names : List Bytes) (field : List Bytes) : Bool := names.any fun name => isNamed name field

end Spec

theorem stripHeaderFields_fails_empty_header : ¬ ∀ (tools : CaseTools) (data name : Bytes),
    Lines.onlyCRLF data = true → Ascii name →
      stripHeaderFields tools data name = removeFields (isNamed name) data := by
  intro h
  have hbody := h asciiCase (bytes "\r\nReceived: by hand\r\n") (bytes "received")
    (by decide) (by decide)
  revert hbody
  decide

end UMail.Smtp
