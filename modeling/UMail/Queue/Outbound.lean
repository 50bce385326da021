import UMail.Library.Folded
import UMail.Library.Lines
import UMail.Library.Text
import UMail.Storage.Metadata

namespace UMail.Queue

open Lines (crlf lines onlyCRLF cutBefore)
open Text (trimSpace)
open UMail.Storage

section Model

def normaliseLoop : Bytes → Bytes
  | [] => []
  | 13 :: 10 :: s => 13 :: 10 :: normaliseLoop s
  | c :: s => (if c = 13 ∨ c = 10 then [13, 10] else [c]) ++ normaliseLoop s

def normaliseLineEndings (message : Bytes) : Bytes :=
  if 10 ∈ message ∨ 13 ∈ message then normaliseLoop message else message

-- The text in front of an occurrence and what follows, where the first line
-- end of the occurrence stays in front.
def cutAfterLine (separator text : Bytes) : Bytes × Bytes :=
  match cutBefore separator text with
  | some (before, after) => (before ++ after.take 2, after.drop 2)
  | none => (text, [])

-- No letter outside ASCII has a lower case in these names.
def removedName (line : Bytes) : Bool :=
  let name := toLower (trimSpace (line.takeWhile (· ≠ 58)))
  name == bytes "bcc" || name == bytes "return-path"

def isContinuation (line : Bytes) : Bool := line.head? == some 32 || line.head? == some 9

structure HeaderState where
  out : Bytes
  changed : Bool
  skipping : Bool
  deriving DecidableEq, Repr

def headerStep (state : HeaderState) (line : Bytes) : HeaderState :=
  if isContinuation line then
    if state.skipping then state else { state with out := state.out ++ line }
  else if removedName line then { state with changed := true, skipping := true }
  else { state with out := state.out ++ line, skipping := false }

def headerLoop : Nat → Bytes → HeaderState → HeaderState
  | 0, _, state => state
  | fuel + 1, hdr, state =>
    if hdr.length > 0 then
      let cut := cutAfterLine crlf hdr
      headerLoop fuel cut.2 (headerStep state cut.1)
    else state

def prepareOutbound (message : Bytes) : Bytes :=
  let message := normaliseLineEndings message
  let parts := cutAfterLine (crlf ++ crlf) message
  let state := headerLoop parts.1.length parts.1 ⟨[], false, false⟩
  if !state.changed then message else state.out ++ parts.2

end Model

section Spec

def headerLines (message : Bytes) : List Bytes := (lines message).takeWhile (· ≠ crlf)

def bodyLines (message : Bytes) : List Bytes := (lines message).dropWhile (· ≠ crlf)

abbrev fields (ls : List Bytes) : List (List Bytes) := Folded.groups isContinuation ls

def removedNames : List Bytes := [bytes "bcc", bytes "return-path"]

-- The name in either case, then blanks, then a colon.
def startsField (name line : Bytes) : Bool :=
  toLower (line.take name.length) == name &&
    ((line.drop name.length).dropWhile fun c => c == 32 || c == 9).head? == some 58

def isRemoved (field : List Bytes) : Bool :=
  field.head?.any fun line => removedNames.any fun name => startsField name line

def keptLines (header : List Bytes) : List Bytes :=
  ((fields header).filter fun field => !isRemoved field).flatten

-- What passes for such a field: the colon may be missing, and any white space may
-- stand around the name.
def ReadAsRemoved (field : List Bytes) : Prop :=
  ∃ line ∈ field.head?, isContinuation line = false ∧ ∃ before name after rest,
    line = before ++ name ++ after ++ rest ∧ toLower name ∈ removedNames ∧
      Text.MadeOf Text.spaces before ∧ Text.MadeOf Text.spaces after ∧
        (rest = [] ∨ rest.head? = some 58)

structure Prepared (message out : Bytes) : Prop where
  lineEnds : onlyCRLF out = true
  removed : ∀ field ∈ fields (headerLines out), isRemoved field = false
  header : headerLines out = keptLines (headerLines message)
  body : bodyLines out = bodyLines message
  stable : prepareOutbound out = out

-- A header without lines is not seen, and the first lines of the body are taken
-- for it.
theorem prepared_fails_empty_header : ¬ ∀ message, Prepared message (prepareOutbound message) := by
  intro h
  have hbody := (h (bytes "\r\nBcc: all of you\r\n")).body
  revert hbody
  decide

end Spec

end UMail.Queue
