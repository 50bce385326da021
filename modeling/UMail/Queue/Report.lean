import UMail.Db.Queue
import UMail.Library.Utf8
import UMail.Queue.Outbound
import Mathlib.Data.Nat.Digits.Defs

namespace UMail.Queue

open Lines (crlf lines cutBefore Plain)
open UMail.Storage
open UMail.Db (QueueEntry)
open Text (isDigit trimSpace)
open Utf8 (validText)

section Fields

-- Invalid UTF-8 is replaced before control characters become blanks.
def sanitizeDSNField (s : Bytes) : Bytes :=
  (validText s).map fun c => if c < 0x20 ∨ c = 0x7f then 0x20 else c

def hexValue (c : UInt8) : Option UInt8 :=
  if 48 ≤ c ∧ c ≤ 57 then some (c - 48)
  else if 65 ≤ c ∧ c ≤ 70 then some (c - 55)
  else if 97 ≤ c ∧ c ≤ 102 then some (c - 87)
  else none

def hexByte (high low : UInt8) : Option UInt8 :=
  match hexValue high, hexValue low with
  | some high, some low => some (16 * high + low)
  | _, _ => none

def xtextLoop : Bytes → Bytes
  | [] => []
  | [c] => [c]
  | [c, d] => [c, d]
  | c :: d :: e :: s => match if c = 43 then hexByte d e else none with
    | some value => value :: xtextLoop s
    | none => c :: xtextLoop (d :: e :: s)

def xtextDecode (v : Bytes) : Bytes := if 43 ∈ v then xtextLoop v else v

def envIDField (envID : Bytes) : Bytes :=
  if envID = [] then [] else bytes "Original-Envelope-Id: " ++ envID ++ crlf

def cutORCPT (orcpt : Bytes) : Option (Bytes × Bytes) :=
  let typ := orcpt.takeWhile (· ≠ 59)
  let addr := (orcpt.dropWhile (· ≠ 59)).drop 1
  if 59 ∉ orcpt ∨ typ = [] ∨ addr = [] then none else some (typ, addr)

def dsnOriginalRecipient (orcpt : Bytes) : Bytes :=
  match cutORCPT orcpt with
  | none => []
  | some (typ, addr) =>
    bytes "Original-Recipient: " ++ sanitizeDSNField typ ++ bytes "; " ++
      sanitizeDSNField (xtextDecode addr) ++ crlf

-- The rest of a quoted text, which ends with its closing quote.
def quotedRest : Bytes → Bool
  | [] => false
  | [c] => c == 34
  | c :: d :: s =>
    if c = 34 then false
    else if c = 92 then d ≠ 10 && quotedRest s
    else quotedRest (d :: s)

def quotedReply : Bytes → Option (Bytes × Bytes)
  | a :: b :: c :: space :: quote :: s =>
    if isDigit a && isDigit b && isDigit c && space == 32 && quote == 34 && quotedRest s then
      some ([a, b, c], quote :: s)
    else none
  | _ => none

def collapseSpace (s : Bytes) : Bytes := [32].intercalate (Text.fields s)

def maxDiagnosticLen : Nat := 500

-- strconv.Unquote is a parameter: whatever it gives is treated as text.
def unquoteReply (unquote : Bytes → Option Bytes) (s : Bytes) : Bytes :=
  match quotedReply s with
  | none => s
  | some (code, quoted) => match unquote quoted with
    | none => s
    | some text => code ++ [32] ++ text

def diagnosticText (unquote : Bytes → Option Bytes) (s : Bytes) : Bytes :=
  let s := trimSpace (unquoteReply unquote s)
  let s := if equalFold (s.take 5) (bytes "smtp;") then trimSpace (s.drop 5) else s
  (collapseSpace (sanitizeDSNField s)).take maxDiagnosticLen

end Fields

section Generate

structure Stamp where
  text : Bytes
  plain : Plain text

structure DSNRecipient where
  original : Bytes
  dsnAddress : Bytes
  originalRecipient : Bytes

structure DSN where
  reportedDomain : Bytes
  arrivalDate : Stamp
  originalFrom : Bytes
  originalTo : Bytes
  recipient : DSNRecipient
  action : Bytes
  status : Bytes
  diagnosticCode : Bytes
  remoteMTA : Bytes
  messageID : Bytes
  envID : Bytes

structure ReportEnv where
  now : Stamp
  unixNano : Nat
  idBytes : Bytes
  boundaryBytes : Bytes
  unquote : Bytes → Option Bytes

def hexDigit (n : UInt8) : UInt8 := if n < 10 then 48 + n else 87 + n

def hexEncode (s : Bytes) : Bytes := s.flatMap fun c => [hexDigit (c / 16), hexDigit (c % 16)]

def decimal (n : Nat) : Bytes :=
  if n = 0 then [48] else (Nat.digits 10 n).reverse.map fun d => 48 + d.toUInt8

variable (env : ReportEnv) (dsn : DSN)

def ReportEnv.generateMessageID : Bytes :=
  bytes "<" ++ decimal env.unixNano ++ bytes "." ++ hexEncode env.idBytes ++ bytes "@umailserver>"

def ReportEnv.boundary : Bytes := bytes "boundary_" ++ hexEncode env.boundaryBytes

def earlier : Option Nat → Option Nat → Option Nat
  | some lf, some i => some (if lf < i then lf else i)
  | some lf, none => some lf
  | none, i => i

def extractHeaders (msg : Bytes) : Bytes :=
  let idx := (cutBefore (crlf ++ crlf) msg).map fun cut => cut.1.length
  let lfIdx := (cutBefore [10, 10] msg).map fun cut => cut.1.length
  (earlier lfIdx idx).elim msg fun i => msg.take i

def maxDSNOriginalSize : Nat := 128 * 1024

def dsnRetFull : Nat := 0
def dsnRetHeaders : Nat := 1

def cutLastLine (s : Bytes) : Bytes :=
  if 10 ∈ s then ((s.reverse.dropWhile (· ≠ 10)).drop 1).reverse else s

structure OriginalPart where
  part : Bytes
  type : Bytes

def originalPart (originalMessage : Bytes) (ret : Nat) : OriginalPart :=
  if ret = dsnRetFull ∧ originalMessage.length ≤ maxDSNOriginalSize then
    ⟨originalMessage, bytes "message/rfc822"⟩
  else
    let part := extractHeaders originalMessage
    let part :=
      if part.length > maxDSNOriginalSize then cutLastLine (part.take maxDSNOriginalSize) else part
    ⟨part, bytes "text/rfc822-headers"⟩

-- The values as they are written. The action and the status stay as they are.
def DSN.sanitized : DSN :=
  { dsn with
    messageID := if dsn.messageID = [] then env.generateMessageID else dsn.messageID
    reportedDomain := sanitizeDSNField dsn.reportedDomain
    originalFrom := sanitizeDSNField dsn.originalFrom
    originalTo := sanitizeDSNField dsn.originalTo
    remoteMTA := sanitizeDSNField dsn.remoteMTA
    recipient :=
      { dsn.recipient with
        original := sanitizeDSNField dsn.recipient.original
        dsnAddress := sanitizeDSNField dsn.recipient.dsnAddress }
    envID := sanitizeDSNField (xtextDecode dsn.envID)
    diagnosticCode := diagnosticText env.unquote dsn.diagnosticCode }

def remoteMTAField (remoteMTA : Bytes) : Bytes :=
  if remoteMTA ≠ [] ∧ remoteMTA ≠ bytes "unknown" then
    bytes "Remote-MTA: dns; " ++ remoteMTA ++ crlf
  else []

def diagnosticField (diag : Bytes) : Bytes :=
  if diag ≠ [] then bytes "Diagnostic-Code: smtp; " ++ diag ++ crlf else []

def actualRecipientField (recipient : DSNRecipient) : Bytes :=
  if recipient.dsnAddress ≠ [] ∧ recipient.dsnAddress ≠ recipient.original then
    bytes "X-Actual-Recipient: rfc822; " ++ recipient.dsnAddress ++ crlf
  else []

-- The text is written in one piece. It is cut here at the ends of its parts.
def DSN.headerText : Bytes :=
  bytes "From: MAILER-DAEMON@" ++ dsn.reportedDomain ++ crlf ++
  bytes "To: " ++ dsn.originalFrom ++ crlf ++
  bytes "Subject: Delivery Status Notification" ++ crlf ++
  bytes "Content-Type: multipart/report; report-type=delivery-status; boundary=" ++ env.boundary ++
    crlf ++
  bytes "Date: " ++ env.now.text ++ crlf ++
  bytes "Message-ID: " ++ dsn.messageID ++ crlf ++
  bytes "MIME-Version: 1.0" ++ crlf ++
  bytes "Auto-Submitted: auto-generated" ++ crlf ++
  crlf

def DSN.plainText : Bytes :=
  bytes "Content-Type: text/plain" ++ crlf ++
  crlf ++
  bytes "Delivery to the following recipient " ++ dsn.action ++ bytes ":" ++ crlf ++
  bytes "    " ++ dsn.originalTo ++ crlf ++ crlf ++
  bytes "Action: " ++ dsn.action ++ crlf ++
  bytes "Status: " ++ dsn.status ++ crlf ++
  crlf

def DSN.statusText : Bytes :=
  bytes "Content-Type: message/delivery-status" ++ crlf ++
  crlf ++
  envIDField dsn.envID ++ bytes "Reporting-MTA: dns; " ++ dsn.reportedDomain ++ crlf ++
  bytes "Arrival-Date: " ++ dsn.arrivalDate.text ++ crlf ++
  crlf ++
  dsnOriginalRecipient dsn.recipient.originalRecipient ++
  bytes "Final-Recipient: rfc822; " ++ dsn.recipient.original ++ crlf ++
  bytes "Action: " ++ dsn.action ++ crlf ++
  bytes "Status: " ++ dsn.status ++ crlf ++
  remoteMTAField dsn.remoteMTA ++
  diagnosticField dsn.diagnosticCode ++
  actualRecipientField dsn.recipient ++
  crlf

def OriginalPart.text (original : OriginalPart) : Bytes :=
  bytes "Content-Type: " ++ original.type ++ crlf ++
  crlf ++
  original.part ++ crlf ++
  crlf ++ bytes "--" ++ env.boundary ++ bytes "--" ++ crlf

def generateDSN (originalMessage : Bytes) (ret : Nat) : Bytes :=
  let original := originalPart originalMessage ret
  let dsn := dsn.sanitized env
  dsn.headerText env ++
  bytes "--" ++ env.boundary ++ crlf ++
  dsn.plainText ++
  bytes "--" ++ env.boundary ++ crlf ++
  dsn.statusText ++
  bytes "--" ++ env.boundary ++ crlf ++
  original.text env

end Generate

section Callers

def statusNumber (s : Bytes) : Option (Bytes × Bytes) :=
  let digits := s.takeWhile isDigit
  if 1 ≤ digits.length ∧ digits.length ≤ 3 then some (digits, s.drop digits.length) else none

def endsStatus (s : Bytes) : Bool := s.head?.all fun c => c ∈ ([9, 10, 12, 13, 32, 34] : Bytes)

def statusDetail (subject s : Bytes) : Option Bytes :=
  match s with
  | 46 :: s => match statusNumber s with
    | some (detail, rest) =>
      if endsStatus rest then some (bytes "5." ++ subject ++ bytes "." ++ detail) else none
    | none => none
  | _ => none

def statusCode : Bytes → Option Bytes
  | 53 :: 46 :: s => match statusNumber s with
    | some (subject, rest) => statusDetail subject rest
    | none => none
  | _ => none

-- enhancedStatusRe
def enhancedStatus : Bytes → Option Bytes
  | 53 :: a :: b :: separator :: s =>
    if isDigit a && isDigit b && (separator == 32 || separator == 45) then
      statusCode (if s.head? = some 34 then s.drop 1 else s)
    else none
  | _ => none

def bounceStatus (lastError : Bytes) : Bytes := (enhancedStatus lastError).getD (bytes "5.0.0")

def mxTag : Bytes := bytes " (mx: "

def isHostByte (c : UInt8) : Bool := c ∉ ([9, 10, 12, 13, 32, 40, 41] : Bytes)

-- mxTagRe: the host has neither a blank nor a parenthesis, so that it is found
-- from the end of the text.
def splitMXTag (lastError : Bytes) : Bytes × Bytes :=
  match lastError.reverse with
  | 41 :: s =>
    let host := s.takeWhile isHostByte
    let front := s.drop host.length
    if host ≠ [] ∧ mxTag.reverse.isPrefixOf front then
      ((front.drop mxTag.length).reverse, host.reverse)
    else (lastError, [])
  | _ => (lastError, [])

-- Where the server asks for a report, with the formatted date of the entry.
inductive ReportCall
  | sendSuccessDSN (entry : QueueEntry) (createdAt : Stamp)
  | sendDelayDSN (entry : QueueEntry) (createdAt : Stamp)
  | enqueueBounce (entry : QueueEntry) (createdAt : Stamp)
  | bounceFailedRecipients (sender rcpt orcpt envID diag : Bytes)

def entryDSN (env : ReportEnv) (entry : QueueEntry) (createdAt : Stamp)
    (action status diagnosticCode remoteMTA : Bytes) : DSN where
  reportedDomain := bytes "umailserver"
  arrivalDate := createdAt
  originalFrom := entry.fromAddr
  originalTo := entry.toAddr
  recipient := ⟨entry.toAddr, [], entry.orcpt⟩
  action := action
  status := status
  diagnosticCode := diagnosticCode
  remoteMTA := remoteMTA
  messageID := env.generateMessageID
  envID := entry.envID

def ReportCall.dsn (env : ReportEnv) : ReportCall → DSN
  | .sendSuccessDSN entry createdAt =>
    entryDSN env entry createdAt (bytes "delivered") (bytes "2.0.0") [] (bytes "unknown")
  | .sendDelayDSN entry createdAt =>
    let split := splitMXTag entry.lastError
    entryDSN env entry createdAt (bytes "delayed") (bytes "4.0.0") split.1 split.2
  | .enqueueBounce entry createdAt =>
    let split := splitMXTag entry.lastError
    entryDSN env entry createdAt (bytes "failed") (bounceStatus entry.lastError) split.1 split.2
  | .bounceFailedRecipients sender rcpt orcpt envID diag =>
    { reportedDomain := bytes "umailserver"
      arrivalDate := env.now
      originalFrom := sender
      originalTo := rcpt
      recipient := ⟨rcpt, [], orcpt⟩
      action := bytes "failed"
      status := bytes "5.0.0"
      diagnosticCode := diag
      remoteMTA := bytes "umailserver"
      messageID := env.generateMessageID
      envID := envID }

end Callers

end UMail.Queue
