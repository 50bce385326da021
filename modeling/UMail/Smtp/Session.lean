import UMail.Smtp.Command
import UMail.Smtp.Data

namespace UMail.Smtp

open Buffered (Reader)
open Text (fields trimSpace)
open UMail.Storage (Bytes bytes)

inductive SessionState
  | new
  | greeted
  | mailFrom
  | rcptTo
  | data
  deriving DecidableEq, Repr

structure Session where
  clientIP : Bytes
  state : SessionState
  helloDomain : Bytes
  isTLS : Bool
  isAuth : Bool
  username : Bytes
  mailFrom : Bytes
  mailFromRet : Bytes
  rcptTo : List Bytes
  rcptToNotify : List Bytes
  mailEnvID : Bytes
  rcptOrcpt : List Bytes
  data : Bytes
  bdatBuffer : Option Bytes
  sieveActions : List Bytes
  rcptRaw : List Bytes
  mailBinary : Bool
  smtputf8 : Bool
  deriving DecidableEq, Repr

-- A connection with TLS from its start is marked before the greeting.
def newSession (clientIP : Bytes) (isTLS : Bool) : Session where
  clientIP := clientIP
  state := .new
  helloDomain := []
  isTLS := isTLS
  isAuth := false
  username := []
  mailFrom := []
  mailFromRet := []
  rcptTo := []
  rcptToNotify := []
  mailEnvID := []
  rcptOrcpt := []
  data := []
  bdatBuffer := none
  sieveActions := []
  rcptRaw := []
  mailBinary := false
  smtputf8 := false

def SessionState.afterReset : SessionState → SessionState
  | .new => .new
  | _ => .greeted

def Session.resetTransaction (s : Session) : Session :=
  { s with
    mailFrom := []
    rcptTo := []
    rcptRaw := []
    mailBinary := false
    smtputf8 := false
    rcptToNotify := []
    rcptOrcpt := []
    mailEnvID := []
    mailFromRet := []
    data := []
    bdatBuffer := none
    state := s.state.afterReset }

structure Config where
  hostname : Bytes
  limits : Limits
  maxRecipients : Nat
  requireAuth : Bool
  isSubmission : Bool
  allowInsecure : Bool
  tlsAvailable : Bool
  scramAvailable : Bool
  deriving DecidableEq, Repr

def Config.host (config : Config) : Bytes :=
  if config.hostname = [] then bytes "localhost" else config.hostname

structure MessageContext where
  remoteIP : Bytes
  remoteHost : Bytes
  tls : Bool
  authenticated : Bool
  username : Bytes
  sender : Bytes
  recipients : List Bytes
  data : Bytes
  headers : Headers
  deriving DecidableEq, Repr

-- What the stages left in the context. The score is there as it is printed; what
-- only the trace fields and the delivery read is one value.
structure Verdict (ρ : Type) where
  reasons : List Bytes
  rejectionCode : Int
  rejectionMessage : Bytes
  isJunk : Bool
  score : Bytes
  results : ρ
  deriving DecidableEq, Repr

inductive PipelineResult (ρ : Type)
  | timedOut
  | failed
  | rejected (verdict : Verdict ρ)
  | quarantined (verdict : Verdict ρ)
  | accepted (verdict : Verdict ρ)
  deriving DecidableEq, Repr

-- What the trace fields are made of, besides the message.
structure TraceInfo where
  clientIP : Bytes
  helloDomain : Bytes
  isTLS : Bool
  isAuth : Bool
  rcptTo : List Bytes
  rcptRaw : List Bytes
  deriving DecidableEq, Repr

inductive Delivery (ρ : Type)
  | withAuth (sender : Bytes) (recipients notify : List Bytes) (data : Bytes)
      (sieveActions : List Bytes) (verdict : Option (Verdict ρ))
  | withDSN (sender : Bytes) (recipients notify : List Bytes) (ret envID : Bytes)
      (orcpt : List Bytes) (data : Bytes)
  | withNotify (sender : Bytes) (recipients notify : List Bytes) (data : Bytes)
  | withSieve (sender : Bytes) (recipients : List Bytes) (data : Bytes) (sieveActions : List Bytes)
  | plain (sender : Bytes) (recipients : List Bytes) (data : Bytes)
  deriving DecidableEq, Repr

inductive DeliveryHandler
  | withAuth
  | withDSN
  | withNotify
  | withSieve
  | plain
  deriving DecidableEq, Repr

inductive DeliveryFailure
  | mailboxFull
  | other
  deriving DecidableEq, Repr

-- The handlers may answer differently at every command: what they depend on is
-- the state of the world then.
structure Server (World ρ : Type) where
  tools : Tools
  config : Config
  onSenderAllowed : Option (World → Bytes → Bytes → Bool)
  onLocalDomain : Option (World → Bytes → Bool)
  onRecipientExists : Option (World → Bytes → Bool)
  onValidate : Option (World → Bytes → List Bytes → Bool)
  allowUserRecipient : World → Bytes → Bool
  isAuthLockedOut : World → Bytes → Bool
  pipeline : Option (World → MessageContext → PipelineResult ρ)
  stripVerdictHeaders : Bytes → Bytes
  addTraceHeaders : World → TraceInfo → Option (Verdict ρ) → Bytes → Bytes
  isSet : DeliveryHandler → Bool
  onDeliver : World → Delivery ρ → Option DeliveryFailure

inductive AuthResult
  | authenticated (username : Bytes) (reply : Reply)
  | refused (reply : Reply)
  | aborted
  deriving DecidableEq, Repr

-- What one command meets besides the session: whether its first reply can be
-- written, whether reading failed by a timeout, how the handshake and the
-- exchange end and what comes over the connection then. The room for a chunk
-- grows with it, and some reads of the connection return before the deadline.
structure Env (World : Type) where
  world : World
  written : Bool
  timedOut : Bool
  handshake : Option (Reader UInt8)
  exchange : AuthResult × Reader UInt8
  room : Nat → Nat
  reads : Nat

inductive Effect (ρ : Type)
  | reply (code : Nat) (text : Bytes)
  | capabilities (lines : List Bytes)
  | secured
  | pipeline (ctx : MessageContext)
  | deliver (session : Session) (delivery : Option (Delivery ρ))
  deriving DecidableEq, Repr

structure Turn (ρ : Type) where
  session : Session
  reader : Reader UInt8
  effects : List (Effect ρ)
  quit : Bool
  deriving DecidableEq, Repr

section Handlers

variable {World ρ : Type} (server : Server World ρ) (env : Env World) (w : World) (s : Session)
  (r : Reader UInt8)

-- A line break in the text would start another reply.
def writeResponse (code : Nat) (message : Bytes) : Effect ρ :=
  .reply code (message.filter fun c => c ≠ 13 && c ≠ 10)

def answer (code : Nat) (message : Bytes) : Turn ρ :=
  ⟨s, r, [writeResponse code message], false⟩

def closing (code : Nat) (message : Bytes) : Turn ρ :=
  ⟨s, r, [writeResponse code message], true⟩

variable (tools : Tools) (replies : MessageReplies) (config : Config) (verdict : Option (Verdict ρ))
  (arg : Bytes) (line : Bytes)

def capabilities (s : Session) : List Bytes :=
  [config.hostname, bytes "SIZE " ++ bytes (toString config.limits.maxMessageSize), bytes "8BITMIME",
    bytes "BINARYMIME", bytes "PIPELINING", bytes "ENHANCEDSTATUSCODES", bytes "SMTPUTF8",
    bytes "CHUNKING", bytes "DSN", bytes "DELIVERYSTATUS"] ++
  (if config.tlsAvailable && !s.isTLS then [bytes "STARTTLS"] else []) ++
  (if s.isTLS || (config.isSubmission && config.allowInsecure) then
    [bytes "AUTH PLAIN LOGIN" ++ (if config.scramAvailable then bytes " SCRAM-SHA-256" else [])]
  else [])

def Session.greet : Session :=
  ({ s with helloDomain := arg, state := .greeted } : Session).resetTransaction

def syntaxErrorText : Bytes := bytes "5.5.4 Syntax error in parameters or arguments"

def badSequenceText : Bytes := bytes "5.5.1 Bad sequence of commands"

def handleEHLO : Turn ρ :=
  if arg = [] || !validHelloArg arg then answer s r 501 syntaxErrorText
  else ⟨s.greet arg, r, [.capabilities (capabilities server.config (s.greet arg))], false⟩

def handleHELO : Turn ρ :=
  if arg = [] || !validHelloArg arg then answer s r 501 syntaxErrorText
  else answer (s.greet arg) r 250 server.config.hostname

structure MailCommand where
  sender : Bytes
  ret : Bytes
  envID : Bytes
  params : MailParams
  deriving DecidableEq, Repr

def validateSender (sender : Bytes) : Except Reply Bytes :=
  if sender = [] then .ok []
  else match validateEmail tools sender with
    | none => .error ⟨501, syntaxErrorText⟩
    | some validated =>
      if checkAddrLength validated then .ok validated
      else .error ⟨501, bytes "5.1.3 Address too long"⟩

def needsUTF8 : Reply := ⟨553, bytes "5.6.7 Non-ASCII address requires SMTPUTF8"⟩

def parseMail : Except Reply MailCommand :=
  match parseMailFromWithRet tools arg with
  | none => .error ⟨501, syntaxErrorText⟩
  | some (path, ret) => do
    let sender ← validateSender tools path
    let mp ← checkMailParams tools config.limits.maxMessageSize arg
    if !isASCII sender && !mp.utf8 then .error needsUTF8
    else .ok ⟨tools.normalizeAddr sender, ret, paramValue tools arg (bytes "ENVID"), mp⟩

-- A user may send as the owner of the address only.
def senderAllowed (sender : Bytes) : Bool :=
  match server.onSenderAllowed with
  | some handler => !s.isAuth || handler w s.username sender
  | none => true

def Session.startTransaction (mail : MailCommand) : Session :=
  { s.resetTransaction with
    mailFrom := mail.sender
    mailFromRet := mail.ret
    mailEnvID := mail.envID
    mailBinary := mail.params.binary
    smtputf8 := mail.params.utf8
    state := .mailFrom }

def handleMAIL : Turn ρ :=
  if s.state = .new then answer s r 503 badSequenceText
  else if s.state ≠ .greeted then answer s r 503 (bytes "5.5.1 Nested MAIL command")
  else if (server.config.requireAuth || server.config.isSubmission) && !s.isAuth then
    answer s r 530 (bytes "5.7.0 Authentication required")
  else match parseMail server.tools server.config arg with
    | .error reply => answer s r reply.code reply.text
    | .ok mail =>
      if !senderAllowed server env.world s mail.sender then
        answer s r 553 (bytes "5.7.1 Sender address rejected: not owned by user")
      else answer (s.startTransaction mail) r 250 (bytes "OK")

structure RcptCommand where
  recipient : Bytes
  raw : Bytes
  notify : Bytes
  orcpt : Bytes
  deriving DecidableEq, Repr

-- The postmaster needs no domain.
def expandPostmaster (path : Bytes) : Bytes :=
  if tools.equalFold path (bytes "postmaster") then bytes "postmaster@" ++ config.host else path

def parseRcpt (smtputf8 : Bool) (arg : Bytes) : Except Reply RcptCommand :=
  match parseRcptToWithNotify tools arg with
  | none => .error ⟨501, syntaxErrorText⟩
  | some (path, notify) => match validateEmail tools (expandPostmaster tools config path) with
    | none => .error ⟨501, syntaxErrorText⟩
    | some validated =>
      if !checkAddrLength validated then .error ⟨501, bytes "5.1.3 Address too long"⟩
      else match checkRcptParams tools arg with
        | some reply => .error reply
        | none =>
          if !isASCII validated && !smtputf8 then .error needsUTF8
          else .ok ⟨tools.normalizeAddr validated, receivedForm tools validated, notify,
            paramValue tools arg (bytes "ORCPT")⟩

-- Without authentication only local domains are taken.
def relayAllowed (recipient : Bytes) : Bool :=
  match server.onLocalDomain with
  | some handler =>
    let domain := recipientDomain server.tools recipient
    s.isAuth || (domain ≠ [] && handler w domain)
  | none => true

def recipientReply (recipient : Bytes) : Option Reply :=
  if server.config.maxRecipients ≤ s.rcptTo.length then
    some ⟨452, bytes "4.5.3 Too many recipients"⟩
  else if !relayAllowed server w s recipient then some ⟨554, bytes "5.7.1 Relay access denied"⟩
  else if !(server.onRecipientExists.elim true fun handler => handler w recipient) then
    some ⟨550, bytes "5.1.1 Recipient address rejected: user unknown"⟩
  else if !(server.onValidate.elim true fun handler => handler w s.mailFrom [recipient]) then
    some ⟨550, bytes "5.7.1 Recipient rejected"⟩
  else if s.isAuth && !server.allowUserRecipient w s.username then
    some ⟨452, bytes "4.5.3 Hourly recipient limit exceeded"⟩
  else none

def Session.addRecipient (rcpt : RcptCommand) : Session :=
  { s with
    rcptTo := s.rcptTo ++ [rcpt.recipient]
    rcptRaw := s.rcptRaw ++ [rcpt.raw]
    rcptToNotify := s.rcptToNotify ++ [rcpt.notify]
    rcptOrcpt := s.rcptOrcpt ++ [rcpt.orcpt]
    state := .rcptTo }

def handleRCPT : Turn ρ :=
  if s.state ≠ .mailFrom ∧ s.state ≠ .rcptTo then answer s r 503 badSequenceText
  else match parseRcpt server.tools server.config s.smtputf8 arg with
    | .error reply => answer s r reply.code reply.text
    | .ok rcpt => match recipientReply server env.world s rcpt.recipient with
      | some reply => answer s r reply.code reply.text
      | none => answer (s.addRecipient rcpt) r 250 (bytes "OK")

def messageContext (data : Bytes) : MessageContext :=
  ⟨s.clientIP, s.helloDomain, s.isTLS, s.isAuth, s.username, s.mailFrom, s.rcptTo, data,
    parseHeaderBlock data []⟩

def Session.traceInfo : TraceInfo :=
  ⟨s.clientIP, s.helloDomain, s.isTLS, s.isAuth, s.rcptTo, s.rcptRaw⟩

-- The most capable handler that is set gets the message.
def deliveryOf : Option (Delivery ρ) :=
  if server.isSet .withAuth then
    some (.withAuth s.mailFrom s.rcptTo s.rcptToNotify s.data s.sieveActions verdict)
  else if server.isSet .withDSN then
    some (.withDSN s.mailFrom s.rcptTo s.rcptToNotify s.mailFromRet s.mailEnvID s.rcptOrcpt s.data)
  else if server.isSet .withNotify then some (.withNotify s.mailFrom s.rcptTo s.rcptToNotify s.data)
  else if server.isSet .withSieve then some (.withSieve s.mailFrom s.rcptTo s.data s.sieveActions)
  else if server.isSet .plain then some (.plain s.mailFrom s.rcptTo s.data)
  else none

def deliver : Option DeliveryFailure :=
  (deliveryOf server s verdict).bind (server.onDeliver w)

def deliveryReply : DeliveryFailure → Reply
  | .mailboxFull => ⟨452, bytes "4.2.2 Mailbox full, try again later"⟩
  | .other => ⟨451, bytes "4.3.0 Requested action aborted: local error in processing"⟩

def spamStatusHeader (score : Bytes) : Bytes :=
  bytes "X-Spam-Status: Yes, score=" ++ score ++ Lines.crlf

-- A message that is junk is marked once, and filed unless a rule filed it.
def junkData (verdict : Verdict ρ) (data : Bytes) : Bytes :=
  if verdict.isJunk then spamStatusHeader verdict.score ++ data else data

def junkActions (verdict : Verdict ρ) : List Bytes :=
  if verdict.isJunk && !verdict.reasons.any (bytes "fileinto:").isPrefixOf then
    verdict.reasons ++ [bytes "fileinto:Junk"]
  else verdict.reasons

def tooLargeText : Bytes := bytes "5.2.3 Message exceeds fixed maximum message size"

def localErrorText : Bytes := bytes "4.4.0 Requested action aborted: local error in processing"

structure MessageReplies where
  rejected : Bytes
  delivered : Bytes
  deriving DecidableEq, Repr

def deliverMessage (s : Session)
    (verdict : Option (Verdict ρ)) (data : Bytes) : Session × List (Effect ρ) :=
  let s := { s with data := server.addTraceHeaders w s.traceInfo verdict data }
  (s.resetTransaction, [.deliver s (deliveryOf server s verdict),
    match deliver server w s verdict with
    | some failure => writeResponse (deliveryReply failure).code (deliveryReply failure).text
    | none => writeResponse 250 replies.delivered])

def rejectedReply (verdict : Verdict ρ) : Reply :=
  stageReply (if 0 < verdict.rejectionCode then verdict.rejectionCode.toNat else 550)
    (if verdict.rejectionMessage ≠ [] then verdict.rejectionMessage else replies.rejected)

def afterPipeline (s : Session) (data : Bytes) : PipelineResult ρ → Session × List (Effect ρ)
  | .timedOut =>
    (s.resetTransaction, [writeResponse 451 (bytes "4.4.7 Message processing timed out, try again later")])
  | .failed => (s.resetTransaction, [writeResponse 451 localErrorText])
  | .rejected verdict =>
    ({ s with sieveActions := verdict.reasons }.resetTransaction,
      [writeResponse (rejectedReply replies verdict).code (rejectedReply replies verdict).text])
  | .quarantined verdict =>
    deliverMessage server w replies { s with sieveActions := junkActions verdict } (some verdict)
      (spamStatusHeader verdict.score ++ server.stripVerdictHeaders data)
  | .accepted verdict =>
    deliverMessage server w replies { s with sieveActions := junkActions verdict } (some verdict)
      (junkData verdict (server.stripVerdictHeaders data))

-- What is done with a message that was read, the same for DATA and BDAT.
def processMessage (s : Session) (data : Bytes) : Session × List (Effect ρ) :=
  if server.config.limits.maxMessageSize < data.length then
    (s.resetTransaction, [writeResponse 552 tooLargeText])
  else if !submissionFromAllowed server.tools.toAddressTools s.isAuth
      (server.onSenderAllowed.map (· w)) s.username data then
    (s.resetTransaction,
      [writeResponse 553 (bytes "5.7.1 Sender address in From header not owned by user")])
  else match server.pipeline with
    | none =>
      deliverMessage server w replies { s with data := data } none (server.stripVerdictHeaders data)
    | some process =>
      let ctx := messageContext s data
      let processed := afterPipeline server w replies { s with data := data } data (process w ctx)
      (processed.1, .pipeline ctx :: processed.2)

def contentReply : ContentError → Reply
  | .messageTooLarge => ⟨552, tooLargeText⟩
  | .bareCR => ⟨554, bytes "5.6.0 Message contains bare CR"⟩
  | .lineTooLong => ⟨554, bytes "5.6.0 Message contains a line over 1000 octets"⟩
  | .nullByte => ⟨554, bytes "5.6.0 Message contains NUL byte"⟩

def sessionLimitText : Bytes := bytes "4.7.0 Session data limit exceeded, closing connection"

def dataReplies : MessageReplies := ⟨bytes "Message rejected", bytes "OK"⟩

def startMailInput : Effect ρ := writeResponse 354 (bytes "Start mail input; end with <CRLF>.<CRLF>")

-- What follows on the end of the input. A connection that failed brings nothing
-- more.
def endDATA : Except Failure (Except ContentError Bytes × Reader UInt8) → Turn ρ
  | .error .sessionBytes =>
    ⟨s.resetTransaction, r, [startMailInput, writeResponse 421 sessionLimitText], true⟩
  | .error .connection =>
    if env.timedOut then
      ⟨s.resetTransaction, { r with buffered := [], arrivals := [] },
        [startMailInput, writeResponse 421 (bytes "4.4.2 Timeout waiting for message data")], true⟩
    else
      ⟨s.resetTransaction, { r with buffered := [], arrivals := [] },
        [startMailInput, writeResponse 451 localErrorText], false⟩
  | .ok (.error e, r) =>
    ⟨s.resetTransaction, r,
      [startMailInput, writeResponse (contentReply e).code (contentReply e).text], false⟩
  | .ok (.ok data, r) =>
    let processed := processMessage server env.world dataReplies s data
    ⟨processed.1, r, startMailInput :: processed.2, false⟩

def handleDATA : Turn ρ :=
  if s.state ≠ .rcptTo ∨ s.bdatBuffer ≠ none ∨ s.mailBinary = true then answer s r 503 badSequenceText
  else if !env.written then ⟨{ s with state := .data }, r, [startMailInput], false⟩
  else endDATA server env { s with state := .data } r (readData server.config.limits r)

-- The octets of a chunk that was refused are content, not commands. A chunk
-- beyond what the session may still send ends it.
def discardBDATChunk (size : Int) (turn : Turn ρ) : Turn ρ :=
  if size ≤ 0 then turn
  else if size > (server.config.limits.maxSessionBytes : Int) - turn.reader.taken then
    ⟨turn.session.resetTransaction, turn.reader, turn.effects ++ [writeResponse 421 sessionLimitText], true⟩
  else { turn with reader := (Buffered.copyN (fun _ => 8192) env.reads size.toNat turn.reader).reader }

def bdatReplies : MessageReplies := ⟨bytes "5.7.1 Message rejected", bytes "2.0.0 OK"⟩

def bdatContentReply (raw : Bytes) : Option Reply :=
  if s.mailBinary then none
  else if hasBareCR raw then some ⟨554, bytes "5.6.0 Message contains bare CR"⟩
  else if 0 ∈ raw || hasOverlongLine raw then
    some ⟨554, bytes "5.6.0 Message contains NUL byte or line over 1000 octets"⟩
  else none

def finishBDAT (raw : Bytes) : Session × List (Effect ρ) :=
  let s := { s with bdatBuffer := none }
  match bdatContentReply s raw with
  | some reply => (s.resetTransaction, [writeResponse reply.code reply.text])
  | none =>
    processMessage server w bdatReplies s (if s.mailBinary then raw else normalizeBareLF raw)

def readChunk (size : Nat) (r : Reader UInt8) : Buffered.Copied UInt8 :=
  if size = 0 then ⟨[], true, r⟩ else Buffered.copyN env.room env.reads size r

def storeChunk (size : Nat) (isLast : Bool) : Turn ρ :=
  let copied := readChunk env size r
  let s := { s with bdatBuffer := some (s.bdatBuffer.getD [] ++ copied.done) }
  if !copied.finished then ⟨s, copied.reader, [], false⟩
  else if 0 < size ∧ server.config.limits.maxSessionBytes < copied.reader.taken then
    closing s.resetTransaction copied.reader 421 sessionLimitText
  else if isLast then
    let processed := finishBDAT server env.world s (s.bdatBuffer.getD [])
    ⟨processed.1, copied.reader, processed.2, false⟩
  else answer s copied.reader 250 (bytes "2.0.0 OK")

def handleChunk (size : Int) (rest : List Bytes) : Turn ρ :=
  if size < 0 then answer s r 501 (bytes "5.5.4 Syntax error in BDAT size parameter")
  else if rest ≠ [] ∧ rest.map server.tools.toUpper ≠ [bytes "LAST"] then
    discardBDATChunk server env size (answer s r 501 (bytes "5.5.4 Syntax error in BDAT parameters"))
  else if size > (server.config.limits.maxMessageSize : Int) - (s.bdatBuffer.getD []).length then
    if !env.written then answer s.resetTransaction r 552 tooLargeText
    else discardBDATChunk server env size (answer s.resetTransaction r 552 tooLargeText)
  else storeChunk server env s r size.toNat (rest ≠ [])

def handleBDAT : Turn ρ :=
  if s.state ≠ .rcptTo then
    match (fields arg).head?.bind parseInt64 with
    | some size => discardBDATChunk server env size (answer s r 503 badSequenceText)
    | none => answer s r 503 badSequenceText
  else match fields arg with
    | [] => answer s r 501 (bytes "5.5.4 Syntax error in BDAT parameters")
    | first :: rest => match parseInt64 first with
      | none => answer s r 501 (bytes "5.5.4 Syntax error in BDAT size parameter")
      | some size => handleChunk server env s r size rest

def handleRSET : Turn ρ := answer s.resetTransaction r 250 (bytes "OK")

def handleVRFY : Turn ρ :=
  if trimSpace arg = [] then answer s r 501 syntaxErrorText
  else answer s r 252 (bytes "2.5.0 Cannot VRFY user, but will accept message and attempt delivery")

def handleQUIT : Turn ρ :=
  closing s r 221 (server.config.hostname ++ bytes " closing connection")

-- Every mechanism ends in a reply, with or without a user, or in the middle.
def runExchange : Turn ρ :=
  match env.exchange with
  | (.authenticated username reply, r) =>
    answer { s with isAuth := true, username := username } r reply.code reply.text
  | (.refused reply, r) => answer s r reply.code reply.text
  | (.aborted, r) => ⟨s, r, [], false⟩

def handleAUTH : Turn ρ :=
  let mechanism := server.tools.toUpper (arg.takeWhile (· ≠ 32))
  if !s.isTLS && (!server.config.isSubmission || !server.config.allowInsecure) then
    answer s r 538 (bytes "5.7.10 Encryption required for requested authentication mechanism")
  else if s.state ≠ .greeted then answer s r 503 badSequenceText
  else if s.isAuth then answer s r 503 (bytes "5.5.1 Already authenticated")
  else if server.isAuthLockedOut env.world s.clientIP then
    answer s r 535 (bytes "5.7.8 Too many failed authentication attempts")
  else if mechanism = bytes "PLAIN" ∨ mechanism = bytes "LOGIN" then runExchange env s
  else if mechanism = bytes "CRAM-MD5" then
    answer s r 504 (bytes "CRAM-MD5 authentication mechanism is disabled")
  else if mechanism = bytes "SCRAM-SHA-256" then
    if server.config.scramAvailable then runExchange env s
    else answer s r 504 (bytes "5.5.4 Unrecognized authentication type")
  else answer s r 504 (bytes "Unrecognized authentication type")

-- Nothing of what was said before the handshake is kept.
def Session.secure : Session :=
  { ({ s with isTLS := true, state := .new } : Session).resetTransaction with
    isAuth := false
    username := []
    helloDomain := [] }

def readyToStart : Effect ρ := writeResponse 220 (bytes "Ready to start TLS")

def handleSTARTTLS : Turn ρ :=
  if s.isTLS then answer s r 503 badSequenceText
  else if !server.config.tlsAvailable then answer s r 454 (bytes "4.7.0 TLS not available")
  else if !env.written then ⟨s, r, [readyToStart], false⟩
  else match env.handshake with
    | none => ⟨s, r, [readyToStart], false⟩
    | some r => ⟨s.secure, r, [readyToStart, .secured], false⟩

inductive Verb
  | ehlo
  | helo
  | mail
  | rcpt
  | data
  | bdat
  | rset
  | vrfy
  | expn
  | help
  | noop
  | quit
  | auth
  | starttls
  | unrecognized
  deriving DecidableEq, Repr

def Verb.ofBytes (cmd : Bytes) : Verb :=
  if cmd = bytes "EHLO" then .ehlo
  else if cmd = bytes "HELO" then .helo
  else if cmd = bytes "MAIL" then .mail
  else if cmd = bytes "RCPT" then .rcpt
  else if cmd = bytes "DATA" then .data
  else if cmd = bytes "BDAT" then .bdat
  else if cmd = bytes "RSET" then .rset
  else if cmd = bytes "VRFY" then .vrfy
  else if cmd = bytes "EXPN" then .expn
  else if cmd = bytes "HELP" then .help
  else if cmd = bytes "NOOP" then .noop
  else if cmd = bytes "QUIT" then .quit
  else if cmd = bytes "AUTH" then .auth
  else if cmd = bytes "STARTTLS" then .starttls
  else .unrecognized

def verbOf : Verb := .ofBytes (tools.toUpper (parseCommand tools line).1)

def argOf : Bytes := (parseCommand tools line).2

def handleVerb (verb : Verb) (arg : Bytes) : Turn ρ :=
  match verb with
  | .ehlo => handleEHLO server s r arg
  | .helo => handleHELO server s r arg
  | .mail => handleMAIL server env s r arg
  | .rcpt => handleRCPT server env s r arg
  | .data => handleDATA server env s r
  | .bdat => handleBDAT server env s r arg
  | .rset => handleRSET s r
  | .vrfy => handleVRFY s r arg
  | .expn => answer s r 502 (bytes "5.5.1 EXPN not implemented")
  | .help => answer s r 214 (bytes "See https://tools.ietf.org/html/rfc5321")
  | .noop => answer s r 250 (bytes "OK")
  | .quit => handleQUIT server s r
  | .auth => handleAUTH server env s r arg
  | .starttls =>
    if trimSpace arg ≠ [] then answer s r 501 (bytes "5.5.4 Syntax error (no parameters allowed)")
    else handleSTARTTLS server env s r
  | .unrecognized => answer s r 500 (bytes "5.5.2 Syntax error, command unrecognized")

def handleCommand : Turn ρ :=
  handleVerb server env s r (verbOf server.tools line) (argOf server.tools line)

structure Event (World : Type) where
  line : Bytes
  env : Env World
  reader : Reader UInt8

structure Handled (World ρ : Type) where
  event : Event World
  turn : Turn ρ

def handleEvent (event : Event World) : Turn ρ :=
  handleCommand server event.env s event.reader event.line

structure Served (World ρ : Type) where
  past : List (Handled World ρ)
  session : Session
  closed : Bool

def Served.next (served : Served World ρ) (event : Event World) : Served World ρ :=
  if served.closed then served
  else
    let turn := handleEvent server served.session event
    ⟨served.past ++ [⟨event, turn⟩], turn.session, turn.quit⟩

def serve (events : List (Event World)) : Served World ρ :=
  events.foldl (Served.next server) ⟨[], s, false⟩

end Handlers

end UMail.Smtp
