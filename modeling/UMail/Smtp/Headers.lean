import UMail.Imap.SequenceSet
import UMail.Library.Lines
import UMail.Storage.Metadata

namespace UMail.Smtp

open Lines (crlf cutBefore splitCRLF)
open Text (trimSpace)
open UMail.Storage (Bytes bytes equalFold)

-- The map of fields. A name is in it once, with all values in their order.
abbrev Headers := List (Bytes × List Bytes)

def Headers.get (h : Headers) (key : Bytes) : List Bytes := (h.lookup key).getD []

def Headers.set (h : Headers) (key : Bytes) (values : List Bytes) : Headers :=
  match h with
  | [] => [(key, values)]
  | (name, old) :: rest =>
    if name = key then (key, values) :: rest else (name, old) :: Headers.set rest key values

variable (line : Bytes) (tools : AddressTools)

def isFolded : Bool := line.head? = some 32 || line.head? = some 9

def extendLast (values : List Bytes) (line : Bytes) : List Bytes :=
  values.dropLast ++ [values.getLastD [] ++ bytes " " ++ trimSpace line]

-- A colon that is not the first character ends a name.
def isField : Bool := 58 ∈ line && line.head? ≠ some 58

def fieldName : Bytes := trimSpace (line.takeWhile (· ≠ 58))

def fieldValue : Bytes := trimSpace ((line.dropWhile (· ≠ 58)).drop 1)

structure HeaderScan where
  headers : Headers
  lastKey : Bytes
  deriving DecidableEq, Repr

def scanLine (scan : HeaderScan) (line : Bytes) : HeaderScan :=
  let h := scan.headers
  if isFolded line then
    if scan.lastKey ≠ [] then ⟨h.set scan.lastKey (extendLast (h.get scan.lastKey) line), scan.lastKey⟩
    else scan
  else if isField line then
    ⟨h.set (fieldName line) (h.get (fieldName line) ++ [fieldValue line]), fieldName line⟩
  else ⟨h, []⟩

def parseHeaderBlock (data : Bytes) (h : Headers) : Headers :=
  match cutBefore (crlf ++ crlf) data with
  | none => h
  | some (block, _) =>
    if block.length ≤ 0 then h else ((splitCRLF block).foldl scanLine ⟨h, []⟩).headers

def fromHeaderValues (h : Headers) : List Bytes :=
  h.flatMap fun entry => if equalFold entry.1 (bytes "From") then entry.2 else []

-- What is used of other packages: the parser of address lists, which gives the
-- bare addresses, and the lower case.
structure AddressTools where
  parseAddressList : Bytes → Option (List Bytes)
  toLower : Bytes → Bytes

def AddressTools.normalizeAddr (a : Bytes) : Bytes := tools.toLower a

def valueAllowed (allowed : Bytes → Bool) (value : Bytes) : Bool :=
  match tools.parseAddressList value with
  | none => false
  | some list => list.all fun a => allowed (tools.normalizeAddr a)

def submissionFromAllowed (isAuth : Bool)
    (onSenderAllowed : Option (Bytes → Bytes → Bool)) (username data : Bytes) : Bool :=
  match onSenderAllowed with
  | none => true
  | some handler =>
    if !isAuth then true
    else (fromHeaderValues (parseHeaderBlock data [])).all (valueAllowed tools (handler username))

end UMail.Smtp
