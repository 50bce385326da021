import UMail.Imap.Literals
import UMail.Library.Utf8
import UMail.Smtp.Headers

namespace UMail.Smtp

open Separator (cutLast)
open Text (fields isDigit trimSpace)
open UMail.Imap (parseDigits)
open UMail.Storage (Bytes bytes)

structure Reply where
  code : Nat
  text : Bytes
  deriving DecidableEq, Repr

structure Tools extends AddressTools where
  toUpper : Bytes → Bytes
  equalFold : Bytes → Bytes → Bool
  parseAddress : Bytes → Option Bytes

variable (tools : Tools) (maxMessageSize : Nat) (arg : Bytes)

def parseCommand (line : Bytes) : Bytes × Bytes :=
  let line := trimSpace line
  if line = [] then ([], [])
  else (tools.toUpper (line.takeWhile (· ≠ 32)), trimSpace ((line.dropWhile (· ≠ 32)).drop 1))

def validHelloArg : Bool :=
  arg.all fun c => 32 < c && c ≠ 127 && c ∉ bytes ";()<>"

-- strconv.ParseInt in base 10 with 64 bits.
def parseMagnitude (limit : Nat) (s : Bytes) : Option Nat :=
  if s = [] then none else (parseDigits 0 s).filter (· < limit)

def parseInt64 : Bytes → Option Int
  | 43 :: s => (parseMagnitude (2 ^ 63) s).map fun n => (n : Int)
  | 45 :: s => (parseMagnitude (2 ^ 63 + 1) s).map fun n => -(n : Int)
  | s => (parseMagnitude (2 ^ 63) s).map fun n => (n : Int)

def isASCII (s : Bytes) : Bool := s.all (· < 128)

def receivedForm (a : Bytes) : Bytes :=
  match cutLast 64 a with
  | some (name, domain) => name ++ 64 :: tools.toLower domain
  | none => a

def isControlOrSpace (r : Nat) : Bool :=
  r < 33 || (127 ≤ r && r < 161) || r = 0x1680 || (0x2000 ≤ r && r ≤ 0x200a) ||
    r ∈ [0x2028, 0x2029, 0x202f, 0x205f, 0x3000]

def validUTF8Address (email : Bytes) : Bool :=
  let runes := Utf8.runes email
  !(runes.any fun r => isControlOrSpace r || r ∈ (bytes "<>(),;:\\\"[]").map UInt8.toNat) &&
    (runes.any fun r => 127 < r) && email.count 64 = 1 &&
    0 < email.idxOf 64 && email.idxOf 64 < email.length - 1

-- A local part that needs quotes is not supported.
def validateEmail (email : Bytes) : Option Bytes :=
  match tools.parseAddress email with
  | none => if validUTF8Address email then some email else none
  | some address => match cutLast 64 address with
    | none => none
    | some (name, _) =>
      if name = [] || name.any (· ∈ bytes "@\"\\ \t,;:<>()[]") then none else some address

def checkAddrLength (addr : Bytes) : Bool :=
  match cutLast 64 addr with
  | none => true
  | some (name, domain) => !(64 < name.length || 255 < domain.length || 256 < addr.length + 2)

def paramKey (field : Bytes) : Bytes := field.takeWhile (· ≠ 61)

def paramText (field : Bytes) : Bytes := (field.dropWhile (· ≠ 61)).drop 1

def mailParamFields : List Bytes :=
  (fields (if 58 ∈ arg then (arg.dropWhile (· ≠ 58)).drop 1 else arg)).drop 1

def paramValue (arg key : Bytes) : Bytes :=
  match (mailParamFields arg).find? fun field => tools.equalFold (paramKey field) key with
  | some field => paramText field
  | none => []

def firstToken : Bytes :=
  if arg.head? = some 32 then arg else arg.takeWhile (· ≠ 32)

def stripBrackets (path : Bytes) : Option Bytes :=
  if path.head? = some 60 then
    if path.getLast? = some 62 then some (path.drop 1).dropLast else none
  else some path

def pathToken : Option Bytes :=
  (stripBrackets (firstToken arg)).filter fun path => 60 ∉ path && 62 ∉ path

def upperParam (name arg : Bytes) : Bytes :=
  match ((fields arg).drop 1).find? fun part => name.isPrefixOf (tools.toUpper part) with
  | some part => (tools.toUpper part).drop name.length
  | none => []

def parsePath (verb name arg : Bytes) : Option (Bytes × Bytes) :=
  if verb.isPrefixOf (tools.toUpper arg) then
    let arg := trimSpace (arg.drop verb.length)
    (pathToken arg).map fun path => (path, upperParam tools name arg)
  else none

def parseMailFromWithRet : Option (Bytes × Bytes) :=
  parsePath tools (bytes "FROM:") (bytes "RET=") arg

def parseRcptToWithNotify : Option (Bytes × Bytes) :=
  parsePath tools (bytes "TO:") (bytes "NOTIFY=") arg

def isUpperHex (c : UInt8) : Bool := (48 ≤ c && c ≤ 57) || (65 ≤ c && c ≤ 70)

def validXtext : Bytes → Bool
  | [] => true
  | 43 :: a :: b :: v => isUpperHex a && isUpperHex b && validXtext v
  | c :: v => c ≠ 43 && 33 ≤ c && c ≤ 126 && c ≠ 61 && validXtext v

structure MailParams where
  binary : Bool
  utf8 : Bool
  deriving DecidableEq, Repr

def invalidParameter (name : Bytes) : Reply :=
  ⟨501, bytes "5.5.4 Invalid " ++ name ++ bytes " parameter"⟩

def checkSize (val : Bytes) : Option Reply :=
  match parseInt64 val with
  | none => some (invalidParameter (bytes "SIZE"))
  | some n =>
    if n < 0 then some (invalidParameter (bytes "SIZE"))
    else if n > maxMessageSize then
      some ⟨552, bytes "5.3.4 Message size exceeds fixed maximum message size"⟩
    else none

-- The value is xtext, AUTH takes <> as well, and ENVID has a limit.
def badEnvelopeParam (key val : Bytes) : Bool :=
  val = [] || (!(tools.equalFold key (bytes "AUTH") && val = bytes "<>") && !validXtext val) ||
    (tools.equalFold key (bytes "ENVID") && 100 < val.length)

def checkMailParam (mp : MailParams) (key val : Bytes) : Except Reply MailParams :=
  let name := tools.toUpper key
  if name = bytes "SIZE" then
    match checkSize maxMessageSize val with
    | some reply => .error reply
    | none => .ok mp
  else if name = bytes "BODY" then
    if tools.toUpper val = bytes "7BIT" || tools.toUpper val = bytes "8BITMIME" then .ok mp
    else if tools.toUpper val = bytes "BINARYMIME" then .ok { mp with binary := true }
    else .error (invalidParameter (bytes "BODY"))
  else if name = bytes "RET" then
    if tools.toUpper val = bytes "FULL" || tools.toUpper val = bytes "HDRS" then .ok mp
    else .error (invalidParameter (bytes "RET"))
  else if name = bytes "ENVID" || name = bytes "AUTH" then
    if badEnvelopeParam tools key val then .error (invalidParameter name) else .ok mp
  else if name = bytes "SMTPUTF8" then
    if val = [] then .ok { mp with utf8 := true } else .error (invalidParameter (bytes "SMTPUTF8"))
  else .error ⟨555, bytes "5.5.4 Unsupported MAIL FROM parameter"⟩

def checkMailParams : Except Reply MailParams :=
  (mailParamFields arg).foldlM
    (fun mp field => checkMailParam tools maxMessageSize mp (paramKey field) (paramText field))
    ⟨false, false⟩

def notifyItemReply (items : List Bytes) (item : Bytes) : Option Reply :=
  if item ≠ bytes "NEVER" && item ≠ bytes "SUCCESS" && item ≠ bytes "FAILURE" && item ≠ bytes "DELAY" then
    some (invalidParameter (bytes "NOTIFY"))
  else if item = bytes "NEVER" && 1 < items.length then
    some ⟨501, bytes "5.5.4 NOTIFY=NEVER cannot be combined with other values"⟩
  else none

def checkNotify (items : List Bytes) : Option Reply := items.findSome? (notifyItemReply items)

def badOrcpt (val : Bytes) : Bool :=
  let kind := val.takeWhile (· ≠ 59)
  let address := (val.dropWhile (· ≠ 59)).drop 1
  59 ∉ val || kind = [] || address = [] || !validXtext address

def checkRcptParam (key val : Bytes) : Option Reply :=
  let name := tools.toUpper key
  if name = bytes "NOTIFY" then checkNotify ((tools.toUpper val).splitOn 44)
  else if name = bytes "ORCPT" then
    if badOrcpt val then some (invalidParameter (bytes "ORCPT")) else none
  else some ⟨555, bytes "5.5.4 Unsupported RCPT TO parameter"⟩

def checkRcptParams : Option Reply :=
  (mailParamFields arg).findSome? fun field => checkRcptParam tools (paramKey field) (paramText field)

def recipientDomain (addr : Bytes) : Bytes :=
  let domain := match cutLast 64 addr with
    | some (_, domain) => domain
    | none => addr
  tools.toLower (if domain.getLast? = some 46 then domain.dropLast else domain)

def statusPart (s : Bytes) : Option Bytes :=
  match s with
  | 46 :: s =>
    if 1 ≤ (s.takeWhile isDigit).length && (s.takeWhile isDigit).length ≤ 3 then
      some (s.dropWhile isDigit)
    else none
  | _ => none

def hasEnhancedStatus (msg : Bytes) : Bool :=
  match msg with
  | c :: s => (c = 50 || c = 52 || c = 53) && match (statusPart s).bind statusPart with
    | some rest => rest = [] || rest.head? = some 32
    | none => false
  | [] => false

def stageCode (code : Nat) : Nat :=
  if code = 421 then 451 else if code < 400 || 599 < code then 550 else code

-- The reply of a stage that refuses a message is made a valid one.
def stageReply (code : Nat) (msg : Bytes) : Reply :=
  let code := stageCode code
  if hasEnhancedStatus msg then ⟨code, msg⟩
  else ⟨code, (if code < 500 then bytes "4.7.1" else bytes "5.7.1") ++ bytes " " ++ msg⟩

end UMail.Smtp
