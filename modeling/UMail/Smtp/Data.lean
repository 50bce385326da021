import UMail.Library.Buffered
import UMail.Library.Lines
import UMail.Storage.Keys

namespace UMail.Smtp

open Buffered (Reader readSlice)
open Lines (crlf)
open UMail.Storage (Bytes)

structure Limits where
  maxMessageSize : Nat
  maxSessionBytes : Nat
  deriving DecidableEq, Repr

structure BoundedLine where
  line : Bytes
  total : Nat
  endsCRLF : Bool
  deriving DecidableEq, Repr

-- Every slice holds at least one byte, so what is left to read is enough fuel.
def boundedLoop (keep : Nat) :
    Nat → Reader UInt8 → Bytes → Nat → UInt8 → Option (BoundedLine × Reader UInt8)
  | 0, _, _, _, _ => none
  | fuel + 1, r, line, total, prev =>
    (readSlice 10 r).bind fun slice =>
      let n := slice.chunk.length
      let kept := line ++ slice.chunk.take (keep - line.length)
      if slice.complete then
        some (⟨kept, total + n, (2 ≤ n && slice.chunk.getD (n - 2) 0 = 13) || (n = 1 && prev = 13)⟩,
          slice.reader)
      else boundedLoop keep fuel slice.reader kept (total + n) (slice.chunk.getLastD 0)

def readBoundedLine (keep : Nat) (r : Reader UInt8) : Option (BoundedLine × Reader UInt8) :=
  boundedLoop keep (r.stream.length + 1) r [] 0 0

def maxLineLength : Nat := 1000

inductive ContentError
  | lineTooLong
  | nullByte
  | bareCR
  | messageTooLarge
  deriving DecidableEq, Repr

inductive Failure
  | connection
  | sessionBytes
  deriving DecidableEq, Repr

def hasBareCR : Bytes → Bool
  | [] => false
  | [c] => c = 13
  | c :: d :: s => (c = 13 && d ≠ 10) || hasBareCR (d :: s)

-- A bare LF at the end of a line becomes CRLF.
def normalizeLine (line : Bytes) : Bytes :=
  if line.getLast? = some 10 ∧ line.dropLast.getLast? ≠ some 13 then line.dropLast ++ crlf else line

structure DataState where
  data : Bytes
  contentErr : Option ContentError
  atLineStart : Bool
  deriving DecidableEq, Repr

def DataState.start : DataState := ⟨[], none, true⟩

variable (state : DataState) (data : Bytes) (read : BoundedLine)

def DataState.result : Except ContentError Bytes :=
  match state.contentErr with
  | some e => .error e
  | none => .ok state.data

def isDotLine : Bool :=
  state.atLineStart && read.line.head? = some 46

def isEndOfData : Bool :=
  isDotLine state read && read.total = 3 && read.line[1]? = some 13 && read.line[2]? = some 10

def lineError (lineLength : Nat) (line : Bytes) : Option ContentError :=
  if maxLineLength < lineLength then some .lineTooLong
  else if 0 ∈ line then some .nullByte
  else if hasBareCR line then some .bareCR
  else none

def appendLine (maxMessageSize : Nat) (data line : Bytes) (atLineStart : Bool) : DataState :=
  if maxMessageSize < (data ++ normalizeLine line).length then ⟨[], some .messageTooLarge, atLineStart⟩
  else ⟨data ++ normalizeLine line, none, atLineStart⟩

def dataLineLength : Nat :=
  if isDotLine state read then read.total - 1 else read.total

def dataLineText : Bytes :=
  if isDotLine state read then read.line.drop 1 else read.line

def dataLine (maxMessageSize : Nat) (state : DataState) (read : BoundedLine) : DataState :=
  match state.contentErr with
  | some e => ⟨state.data, some e, read.endsCRLF⟩
  | none => match lineError (dataLineLength state read) read.line with
    | some e => ⟨state.data, some e, read.endsCRLF⟩
    | none => appendLine maxMessageSize state.data (dataLineText state read) read.endsCRLF

def dataLoop (limits : Limits) : Nat → Reader UInt8 → DataState →
    Except Failure (Except ContentError Bytes × Reader UInt8)
  | 0, _, _ => .error .connection
  | fuel + 1, r, state =>
    match readBoundedLine (maxLineLength + 1) r with
    | none => .error .connection
    | some (read, r) =>
      if limits.maxSessionBytes < r.taken then .error .sessionBytes
      else if isEndOfData state read then .ok (state.result, r)
      else dataLoop limits fuel r (dataLine limits.maxMessageSize state read)

def readData (limits : Limits) (r : Reader UInt8) :
    Except Failure (Except ContentError Bytes × Reader UInt8) :=
  dataLoop limits (r.stream.length + 1) r .start

def lineLength : Nat := if 10 ∈ data then data.idxOf 10 + 1 else data.length

def overlongLoop : Nat → Bytes → Bool
  | 0, _ | _ + 1, [] => false
  | fuel + 1, c :: data =>
    lineLength (c :: data) > 1000 || overlongLoop fuel ((c :: data).drop (lineLength (c :: data)))

def hasOverlongLine : Bool := overlongLoop data.length data

def normalizeLoop : Bool → Bytes → Bytes
  | _, [] => []
  | afterCR, c :: s => (if c = 10 && !afterCR then [13, 10] else [c]) ++ normalizeLoop (c = 13) s

def normalizeBareLF : Bytes := normalizeLoop false data

end UMail.Smtp
