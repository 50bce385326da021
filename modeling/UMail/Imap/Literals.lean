import UMail.Imap.SequenceSet
import UMail.Storage.Metadata

namespace UMail.Imap

open Text (fields)
open UMail.Storage
open Separator (cutLast)

def maxArgLiteral : Nat := 64 * 1024

def maxArgLiteralTotal : Nat := 256 * 1024

def maxArgLiteralCount : Nat := 32

def maxCommandLineLength : Nat := 64 * 1024

def quote : UInt8 := 34

def backslash : UInt8 := 92

def openBrace : UInt8 := 123

def closeBrace : UInt8 := 125

def plus : UInt8 := 43

def isBlank (c : UInt8) : Bool := c = 32 || c = 9

def isLineEnd (c : UInt8) : Bool := c = 13 || c = 10

def crlf : Bytes := [13, 10]

def escapeQuoted (c : UInt8) : Bytes := if c = quote || c = backslash then [backslash, c] else [c]

def quoteMailbox (name : Bytes) : Bytes := quote :: name.flatMap escapeQuoted ++ [quote]

def parseLiteralSize (spec : Bytes) : Option (Nat × Bool) :=
  if spec.getLast? = some plus then (parseUint32 spec.dropLast).map fun n => (n, true)
  else (parseUint32 spec).map fun n => (n, false)

def trailingLiteral (line : Bytes) : Option (Bytes × Nat × Bool) :=
  if line.getLast? = some closeBrace then
    match cutLast openBrace line with
    | none => none
    | some (before, spec) =>
      (parseLiteralSize spec.dropLast).map fun size => (before, size.1, size.2)
  else none

-- A marker after an odd number of quotes is not taken for one.
def literalOf (line : Bytes) : Option (Bytes × Nat × Bool) :=
  (trailingLiteral line).filter fun found => found.1.count quote % 2 != 1

inductive Reply
  | continuation (text : Bytes)
  | data (text : Bytes)
  | response (tag text : Bytes)
  deriving DecidableEq, Repr

inductive ReadError
  | eof
  | lineTooLong
  | literalFatal
  deriving DecidableEq, Repr

def readLine (input : Bytes) : Except ReadError (Bytes × Bytes) :=
  match input.span (· ≠ 10) with
  | (line, []) => if line.length > maxCommandLineLength then .error .lineTooLong else .error .eof
  | (line, _ :: rest) =>
    if line.length + 1 > maxCommandLineLength then .error .lineTooLong
    else .ok (line.rdropWhile isLineEnd, rest)

inductive Outcome
  | folded (line : Bytes)
  | refused
  | failed (e : ReadError)
  deriving DecidableEq, Repr

structure Resolution where
  outcome : Outcome
  input : Bytes
  replies : List Reply
  deriving DecidableEq, Repr

def tooLarge (tag input : Bytes) (replies : List Reply) (nonSync : Bool) : Resolution :=
  if nonSync then
    ⟨.failed .literalFatal, input, replies ++ [.data (bytes "BYE Literal too large")]⟩
  else ⟨.refused, input, replies ++ [.response tag (bytes "BAD [TOOBIG] Literal too large")]⟩

-- The rounds of the loop. The number counts down from the bound.
def resolveLoop (tag : Bytes) : Nat → Nat → Bytes → Bytes → List Reply → Resolution
  | 0, _, line, input, replies =>
    match literalOf line with
    | none => ⟨.folded line, input, replies⟩
    | some (_, _, nonSync) => tooLarge tag input replies nonSync
  | left + 1, total, line, input, replies =>
    match literalOf line with
    | none => ⟨.folded line, input, replies⟩
    | some (before, n, nonSync) =>
      if n > maxArgLiteral || total + n > maxArgLiteralTotal then
        tooLarge tag input replies nonSync
      else
        let replies := if nonSync then replies
          else replies ++ [.continuation (bytes "Ready for literal data")]
        if input.length < n then ⟨.failed .eof, [], replies⟩
        else match readLine (input.drop n) with
          | .error e => ⟨.failed e, [], replies⟩
          | .ok (rest, input') =>
            if (input.take n).any fun c => c = 13 || c = 10 || c = 0 then
              ⟨.refused, input', replies ++ [.response tag
                (bytes "BAD Literal with CR, LF or NUL is not supported here")]⟩
            else resolveLoop tag left (total + n)
              (before ++ quoteMailbox (input.take n) ++ rest) input' replies

def resolveLiterals (line input : Bytes) : Resolution :=
  match fields line with
  | tag :: command :: _ =>
    if equalFold command (bytes "APPEND") then ⟨.folded line, input, []⟩
    else resolveLoop tag maxArgLiteralCount 0 line input []
  | _ => ⟨.folded line, input, []⟩

def skipWord (line : Bytes) : Bytes := (line.dropWhile isBlank).dropWhile fun c => !isBlank c

def skipWords (line : Bytes) : Nat → Bytes
  | 0 => line
  | n + 1 => skipWords (skipWord line) n

def readQuoted : Bytes → Bytes × Bytes
  | [] => ([], [])
  | [c] => if c = quote then ([], []) else ([c], [])
  | c :: d :: s =>
    if c = quote then ([], d :: s)
    else if c = backslash then (d :: (readQuoted s).1, (readQuoted s).2)
    else (c :: (readQuoted (d :: s)).1, (readQuoted (d :: s)).2)

def splitArgs : Nat → Bytes → List Bytes
  | 0, _ | _ + 1, [] => []
  | fuel + 1, c :: s =>
    if isBlank c then splitArgs fuel s
    else if c = quote then (readQuoted s).1 :: splitArgs fuel (readQuoted s).2
    else (c :: s).takeWhile (fun c => !isBlank c) ::
      splitArgs fuel ((c :: s).dropWhile fun c => !isBlank c)

def splitQuotedArgs (rest : Bytes) : List Bytes := splitArgs rest.length rest

inductive Form
  | atom
  | quoted
  | literal (nonSync : Bool)
  deriving DecidableEq, Repr

structure Argument where
  value : Bytes
  form : Form
  deriving DecidableEq, Repr

def marker (n : Nat) (nonSync : Bool) : Bytes :=
  openBrace :: formatLoop 20 n [] ++ (if nonSync then [plus] else []) ++ [closeBrace]

def encode : List Argument → Bytes → Bytes
  | [], after => after
  | ⟨value, .atom⟩ :: args, after => 32 :: value ++ encode args after
  | ⟨value, .quoted⟩ :: args, after => 32 :: quoteMailbox value ++ encode args after
  | ⟨value, .literal nonSync⟩ :: args, after =>
    32 :: marker value.length nonSync ++ crlf ++ value ++ encode args after

def encodeCommand (tag name : Bytes) (args : List Argument) (after : Bytes) : Bytes :=
  tag ++ 32 :: name ++ encode args (crlf ++ after)

def isWord (s : Bytes) : Bool :=
  s ≠ [] && s.all fun c => 33 ≤ c && c ≤ 126 && c ≠ quote && c ≠ openBrace

-- An atom has no blanks and no special characters, and a quoted string no line
-- ends. A literal can have both, and is bounded in its size.
def Argument.valid (arg : Argument) : Bool :=
  match arg.form with
  | .atom => arg.value ≠ [] && arg.value.all fun c =>
    c ≠ 0 && !isBlank c && !isLineEnd c && c ≠ quote && c ≠ openBrace
  | .quoted => arg.value.all fun c => c ≠ 0 && !isLineEnd c
  | .literal _ => arg.value.all (· ≠ 0) && decide (arg.value.length ≤ maxArgLiteral)

def Argument.literalSize (arg : Argument) : Option Nat :=
  match arg.form with
  | .literal _ => some arg.value.length
  | _ => none

-- The lines between the literals are no longer than the server reads. The number
-- is what the current line has already.
def fitsLines : Nat → List Argument → Bool
  | used, [] => used + 2 ≤ maxCommandLineLength
  | used, ⟨value, .atom⟩ :: args => fitsLines (used + 1 + value.length) args
  | used, ⟨value, .quoted⟩ :: args => fitsLines (used + 1 + (quoteMailbox value).length) args
  | used, ⟨value, .literal nonSync⟩ :: args =>
    used + 1 + (marker value.length nonSync).length + 2 ≤ maxCommandLineLength && fitsLines 0 args

-- A command that a client may send, within the limits of the server.
structure Sendable (tag name : Bytes) (args : List Argument) : Prop where
  tagWord : isWord tag = true
  nameWord : isWord name = true
  notAppend : equalFold name (bytes "APPEND") = false
  valid : ∀ arg ∈ args, arg.valid = true
  count : (args.filterMap Argument.literalSize).length ≤ maxArgLiteralCount
  total : (args.filterMap Argument.literalSize).sum ≤ maxArgLiteralTotal
  lines : fitsLines (tag.length + 1 + name.length) args = true

-- The server has read the command and no more, and finds its arguments in it.
def Delivered (tag name : Bytes) (args : List Argument) (after : Bytes) : Prop :=
  ∃ line input out, readLine (encodeCommand tag name args after) = .ok (line, input) ∧
    (resolveLiterals line input).outcome = .folded out ∧
    (resolveLiterals line input).input = after ∧
    splitQuotedArgs (skipWords out 2) = args.map Argument.value

def quoteThenLiteral : List Argument :=
  [⟨bytes "a\"b", .quoted⟩, ⟨bytes "pw", .literal true⟩]

theorem delivered_fails_after_quote :
    ¬ ∀ (tag name : Bytes) (args : List Argument) (after : Bytes), Sendable tag name args →
      Delivered tag name args after := by
  intro h
  obtain ⟨line, input, out, hread, _, hinput, _⟩ := h (bytes "A1") (bytes "LOGIN") quoteThenLiteral []
    ⟨by decide, by decide, by decide, by decide, by decide, by decide, by decide⟩
  have hline : readLine (encodeCommand (bytes "A1") (bytes "LOGIN") quoteThenLiteral []) =
      .ok (bytes "A1 LOGIN \"a\\\"b\" \x7b2+\x7d", bytes "pw\r\n") := by decide
  cases hread
  revert hinput
  decide

end UMail.Imap
