import UMail.Imap.Search
import UMail.Library.Lines

namespace UMail.Imap

open Lines (cutBefore linesLF)
open Text (fields trimSpace)
open UMail.Storage (Bytes bytes)

abbrev Params := List (Bytes × Bytes)

-- What the parsers of other packages read: the fields of a header block, one
-- of them, and a media type with its parameters. A header without fields has
-- no media type.
structure MimeTools (Header : Type) where
  toUpper : Bytes → Bytes
  readMIMEHeader : Bytes → Header
  get : Header → Bytes → Bytes
  parseMediaType : Bytes → Option (Bytes × Params)
  imapEnvelope : Header → Bytes
  blank : parseMediaType (get (readMIMEHeader crlf) (bytes "Content-Type")) = none

def splitHeaderBody (data : Bytes) : Bytes × Bytes :=
  if crlf.isPrefixOf data then (data.take 2, data.drop 2)
  else if [10].isPrefixOf data then (data.take 1, data.drop 1)
  else match cutBefore (crlf ++ crlf) data with
    | some cut => (cut.1 ++ cut.2.take 4, cut.2.drop 4)
    | none => match cutBefore [10, 10] data with
      | some cut => (cut.1 ++ cut.2.take 2, cut.2.drop 2)
      | none => (data, [])

def entityBody (entity : Bytes) : Bytes := (splitHeaderBody entity).2

inductive Delimiter
  | none | next | closing
  deriving DecidableEq, Repr

def isPadding (c : UInt8) : Bool := c = 32 || c = 9

def delimiterOf (delim line : Bytes) : Delimiter :=
  let line := (line.rdropWhile (· = 10)).rdropWhile (· = 13)
  if delim.isPrefixOf line then
    let rest := line.drop delim.length
    let closing := (bytes "--").isPrefixOf rest
    let rest := if closing then rest.drop 2 else rest
    if rest.all isPadding then if closing then .closing else .next else .none
  else .none

def trimBreak (part : Bytes) : Bytes :=
  if crlf.isSuffixOf part then part.dropLast.dropLast
  else if [10].isSuffixOf part then part.dropLast
  else part

def splitLoop (delim : Bytes) : Option Bytes → List Bytes → List Bytes
  | part, [] => part.toList
  | part, line :: rest => match delimiterOf delim line with
    | .none => splitLoop delim (part.map (· ++ line)) rest
    | .next => (part.map trimBreak).toList ++ splitLoop delim (some []) rest
    | .closing => (part.map trimBreak).toList

def splitMultipart (body boundary : Bytes) : List Bytes :=
  splitLoop (bytes "--" ++ boundary) none (linesLF body)

section Parts

variable {Header : Type} (tools : MimeTools Header) (data spec : Bytes) (entity : Bytes)
  (mediaType : Bytes)

def partHeader : Header := tools.readMIMEHeader (splitHeaderBody entity).1

def contentType : Option (Bytes × Params) :=
  tools.parseMediaType (tools.get (partHeader tools entity) (bytes "Content-Type"))

def boundaryParam (params : Params) : Bytes := (params.lookup (bytes "boundary")).getD []

def multipartBoundary : Option Bytes :=
  match contentType tools entity with
  | none => none
  | some media =>
    if (bytes "multipart/").isPrefixOf media.1 && boundaryParam media.2 ≠ [] then
      some (boundaryParam media.2)
    else none

def isMultipartEntity : Bool := (multipartBoundary tools entity).isSome

def isRFC822 : Bool :=
  mediaType = bytes "message/rfc822" || mediaType = bytes "message/global"

def isRFC822Part (part : Bytes) : Bool := (contentType tools part).any fun media => isRFC822 media.1

-- The body of what is no multipart is its part 1, without a header.
def mimeSubpart (n : Nat) : Option Bytes :=
  match multipartBoundary tools entity with
  | none => if n = 1 then some (crlf ++ entityBody entity) else none
  | some boundary => (splitMultipart (entityBody entity) boundary)[n - 1]?

-- One number of a section: a part of an entity, which may be a whole message.
def subpart (isMessage : Bool) (part : Bytes) (n : Nat) : Option Bytes :=
  if !isMessage && isRFC822Part tools part then mimeSubpart tools (entityBody part) n
  else if !isMessage && !isMultipartEntity tools part then none
  else mimeSubpart tools part n

structure Resolved where
  part : Bytes
  isMessage : Bool
  rest : Bytes
  deriving DecidableEq, Repr

-- Every turn takes at least one byte of the section.
def resolveFrom : Nat → Resolved → Option Resolved
  | 0, here => some here
  | fuel + 1, here =>
    if here.rest = [] then some here
    else match parseInt64 (here.rest.takeWhile (· ≠ 46)) with
      | none => some here
      | some n =>
        if n ≤ 0 then some here
        else (subpart tools here.isMessage here.part n.toNat).bind fun part =>
          resolveFrom fuel ⟨part, false, (here.rest.dropWhile (· ≠ 46)).drop 1⟩

def resolvePart : Option Resolved := resolveFrom tools spec.length ⟨data, true, spec⟩

def bodySectionExists : Bool := (resolvePart tools data spec).isSome

def trimBytes (cut : Bytes) (s : Bytes) : Bytes := (s.dropWhile (· ∈ cut)).rdropWhile (· ∈ cut)

-- Whether a field is kept goes for the lines that continue it.
def filterLines (names : List Bytes) (keeps : Bool) : Bool → List Bytes → Bytes
  | _, [] => []
  | keep, line :: rest =>
    let trimmed := line.rdropWhile isLineEnd
    if trimmed = [] then filterLines names keeps keep rest
    else
      let name := tools.toUpper (trimSpace (trimmed.takeWhile (· ≠ 58)))
      let keep := if line.head?.any isPadding then keep else (name ∈ names) = keeps
      (if keep then trimmed ++ crlf else []) ++ filterLines names keeps keep rest

def filterHeader (header list : Bytes) (keeps : Bool) : Bytes :=
  let names := (fields (trimBytes (bytes "()") (trimSpace list))).map fun f =>
    tools.toUpper (trimBytes (bytes "\"") f)
  filterLines tools names keeps false (linesLF header) ++ crlf

-- What a section is cut from: a part, or the message that it holds.
def sectionSource (found : Resolved) : Bytes × Bytes :=
  if !found.isMessage && found.rest ≠ [] && found.rest ≠ bytes "MIME" && isRFC822Part tools found.part then
    splitHeaderBody (entityBody found.part)
  else splitHeaderBody found.part

def bodySection : Bytes :=
  if spec = [] then data
  else match resolvePart tools data spec with
    | none => []
    | some found =>
      let source := sectionSource tools found
      if found.rest = [] then if found.isMessage then found.part else source.2
      else if found.rest = bytes "HEADER" || found.rest = bytes "MIME" then source.1
      else if found.rest = bytes "TEXT" then source.2
      else if (bytes "HEADER.FIELDS.NOT").isPrefixOf found.rest then
        filterHeader tools source.1 (found.rest.drop (bytes "HEADER.FIELDS.NOT").length) false
      else if (bytes "HEADER.FIELDS").isPrefixOf found.rest then
        filterHeader tools source.1 (found.rest.drop (bytes "HEADER.FIELDS").length) true
      else []

def maxBodyStructureDepth : Nat := 32

def quotable (c : UInt8) : Bool := c < 128 && c ≠ 13 && c ≠ 10 && c ≠ 0

def imapNString (s : Bytes) : Bytes :=
  if s = [] then bytes "NIL"
  else if s.all quotable then quote :: s.flatMap escapeQuoted ++ [quote]
  else openBrace :: formatLoop 20 s.length [] ++ closeBrace :: crlf ++ s

def imapParamList (params : Params) : Bytes :=
  if params = [] then bytes "NIL"
  else
    let parts := params.flatMap fun p => [imapNString (tools.toUpper p.1), imapNString p.2]
    bytes "(" ++ [32].intercalate parts ++ bytes ")"

def imapDisposition (mh : Header) : Bytes :=
  let v := tools.get mh (bytes "Content-Disposition")
  if v = [] then bytes "NIL"
  else match tools.parseMediaType v with
    | none => bytes "NIL"
    | some disp =>
      bytes "(" ++ imapNString (tools.toUpper disp.1) ++ bytes " " ++ imapParamList tools disp.2 ++ bytes ")"

def plainText : Bytes × Params := (bytes "text/plain", [(bytes "charset", bytes "us-ascii")])

def describedType : Bytes × Params :=
  match contentType tools entity with
  | none => plainText
  | some media => if media.1 = [] then plainText else media

def majorType : Bytes := mediaType.takeWhile (· ≠ 47)

def minorType : Bytes := (mediaType.dropWhile (· ≠ 47)).drop 1

-- A multipart that cannot be split is described as text.
def leafType : Bytes × Params :=
  let media := describedType tools entity
  if majorType media.1 = bytes "multipart" then plainText else media

def describedBoundary : Option Bytes :=
  let media := describedType tools entity
  if majorType media.1 = bytes "multipart" && boundaryParam media.2 ≠ [] then some (boundaryParam media.2)
  else none

def describedParts (body boundary : Bytes) : List Bytes :=
  let parts := splitMultipart body boundary
  if parts = [] then [crlf] else parts

def extensions (mh : Header) : Bytes :=
  imapDisposition tools mh ++ bytes " " ++ imapNString (tools.get mh (bytes "Content-Language")) ++
    bytes " " ++ imapNString (tools.get mh (bytes "Content-Location"))

def multipartText (ext : Bool) (mh : Header) (media : Bytes × Params) (parts : Bytes) : Bytes :=
  bytes "(" ++ parts ++ bytes " " ++ imapNString (tools.toUpper (minorType media.1)) ++
    (if ext then bytes " " ++ imapParamList tools media.2 ++ bytes " " ++ extensions tools mh else []) ++
    bytes ")"

def transferEncoding (mh : Header) : Bytes :=
  let enc := tools.toUpper (trimSpace (tools.get mh (bytes "Content-Transfer-Encoding")))
  if enc = [] then bytes "7BIT" else enc

def leafDetail (media : Bytes × Params) (body : Bytes) : Option Bytes → Bytes
  | some inner =>
    bytes " " ++ tools.imapEnvelope (partHeader tools body) ++ bytes " " ++ inner ++ bytes " " ++
      formatLoop 20 (body.count 10) []
  | none =>
    if majorType media.1 = bytes "text" then bytes " " ++ formatLoop 20 (body.count 10) [] else []

def leafText (ext : Bool) (mh : Header) (media : Bytes × Params) (body : Bytes) (inner : Option Bytes) :
    Bytes :=
  bytes "(" ++ [32].intercalate [imapNString (tools.toUpper (majorType media.1)),
      imapNString (tools.toUpper (minorType media.1)), imapParamList tools media.2,
      imapNString (tools.get mh (bytes "Content-Id")),
      imapNString (tools.get mh (bytes "Content-Description")),
      imapNString (transferEncoding tools mh), formatLoop 20 body.length []] ++
    leafDetail tools media body inner ++
    (if ext then bytes " " ++ imapNString (tools.get mh (bytes "Content-Md5")) ++ bytes " " ++
      extensions tools mh else []) ++
    bytes ")"

-- The first argument is the number of levels to the depth bound.
def bodyStructureDepth (ext : Bool) : Nat → Bytes → Bytes
  | 0, entity =>
    leafText tools ext (partHeader tools entity) (leafType tools entity) (entityBody entity) none
  | levels + 1, entity =>
    let mh := partHeader tools entity
    let body := entityBody entity
    match describedBoundary tools entity with
    | some boundary =>
      multipartText tools ext mh (describedType tools entity)
        ((describedParts body boundary).flatMap (bodyStructureDepth ext levels))
    | none =>
      leafText tools ext mh (leafType tools entity) body
        (if isRFC822 (leafType tools entity).1 then some (bodyStructureDepth ext levels body) else none)

def bodyStructure (ext : Bool) : Bytes :=
  bodyStructureDepth tools ext maxBodyStructureDepth entity

end Parts

end UMail.Imap
