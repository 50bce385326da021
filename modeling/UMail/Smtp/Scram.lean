import UMail.Auth.Scram
import UMail.Smtp.Session

namespace UMail.Smtp

open Auth (Crypto encodeToString decodeString parseClientFirstMessage parseClientFinalMessage
  buildServerFirstMessage buildServerFinalMessage newSCRAMSHA256 clientProof serverSignature xorBytes)
open Buffered (Reader)
open Text (trimSpace)
open UMail.Storage (Bytes bytes)

structure AuthServer where
  crypto : Crypto
  toLower : Bytes → Bytes
  isUserLockedOut : Bytes → Bool
  onGetPassword : Bytes → Option Bytes

-- What an exchange meets: whether the two challenges can be written, and what
-- the source of random bytes gives.
structure ScramEnv where
  asked : Bool
  serverNonce : Option Bytes
  salt : Option Bytes
  challenged : Bool

inductive AuthEffect
  | reply (reply : Reply)
  | authFailure
  | userFailure (username : Bytes)
  | userCleared (username : Bytes)
  | loginResult (username : Bytes) (ok : Bool) (reason : Bytes)
  deriving DecidableEq, Repr

structure Exchanged where
  result : AuthResult
  reader : Reader UInt8
  effects : List AuthEffect
  deriving DecidableEq, Repr

def Exchanged.after (effects : List AuthEffect) (e : Exchanged) : Exchanged :=
  { e with effects := effects ++ e.effects }

structure Refusal where
  code : Nat
  text : Bytes
  effects : List AuthEffect
  deriving DecidableEq, Repr

def Refusal.exchanged (refusal : Refusal) (r : Reader UInt8) : Exchanged :=
  ⟨.refused ⟨refusal.code, refusal.text⟩, r, refusal.effects⟩

def maxAuthLine : Nat := 12288

-- A response that is not taken has its reply already.
def readAuthLine (r : Reader UInt8) : Except Exchanged (Bytes × Reader UInt8) :=
  match readBoundedLine (maxAuthLine + 1) r with
  | none => .error ⟨.aborted, r, []⟩
  | some (read, r) =>
    if maxAuthLine < read.total then
      .error ⟨.aborted, r, [.authFailure, .reply ⟨501, bytes "5.5.4 Authentication response too long"⟩]⟩
    else if trimSpace read.line = bytes "*" then
      .error ⟨.aborted, r, [.reply ⟨501, bytes "5.0.0 Authentication cancelled"⟩]⟩
    else .ok (trimSpace read.line, r)

def askClient (challenge : Bytes) (written : Bool) (r : Reader UInt8)
    (next : Bytes → Reader UInt8 → Exchanged) : Exchanged :=
  Exchanged.after [.reply ⟨334, challenge⟩]
    (if !written then ⟨.aborted, r, []⟩
    else match readAuthLine r with
      | .error e => e
      | .ok (line, r) => next (trimSpace line) r)

-- strings.SplitN at the first two commas.
def splitGS2 (clientFirst : Bytes) : Option (Bytes × Bytes × Bytes) :=
  let rest := (clientFirst.dropWhile (· ≠ 44)).drop 1
  if 44 ∈ clientFirst ∧ 44 ∈ rest then
    some (clientFirst.takeWhile (· ≠ 44), rest.takeWhile (· ≠ 44), (rest.dropWhile (· ≠ 44)).drop 1)
  else none

def lastIndex (text : Bytes) : Bytes → Option Nat
  | [] => none
  | c :: s => match lastIndex text s with
    | some i => some (i + 1)
    | none => if text.isPrefixOf (c :: s) then some 0 else none

def trimPrefixOf (start s : Bytes) : Bytes := if start.isPrefixOf s then s.drop start.length else s

def invalidFirst : Refusal :=
  ⟨501, bytes "5.5.4 Invalid SCRAM-SHA-256 client-first message", [.authFailure]⟩

def invalidFinal : Refusal :=
  ⟨501, bytes "5.5.4 Invalid SCRAM-SHA-256 client-final message", [.authFailure]⟩

structure ScramFirst where
  username : Bytes
  nonce : Bytes
  bare : Bytes
  deriving DecidableEq, Repr

def checkFlag (flag : Bytes) : Except Refusal Unit :=
  if flag = bytes "n" ∨ flag = bytes "y" then .ok ()
  else if (bytes "p=").isPrefixOf flag then
    .error ⟨501, bytes "5.5.4 Channel binding not supported", [.authFailure]⟩
  else .error invalidFirst

variable (server : AuthServer) (env : ScramEnv) (first : ScramFirst)

-- No one may act as someone else.
def checkAuthzid (username authz : Bytes) : Except Refusal Unit :=
  let authzid := trimPrefixOf (bytes "a=") authz
  if authzid ≠ [] ∧ server.toLower authzid ≠ username then
    .error ⟨535, bytes "5.7.8 Authorization identity not permitted", [.authFailure, .userFailure username]⟩
  else .ok ()

def checkLockout (username : Bytes) : Except Refusal Unit :=
  if server.isUserLockedOut username then
    .error ⟨535, bytes "5.7.8 Too many failed authentication attempts", []⟩
  else .ok ()

def checkUsername (name : Bytes) : Except Refusal Unit :=
  if name = [] then .error ⟨501, bytes "5.5.4 Missing username in SCRAM-SHA-256", [.authFailure]⟩ else .ok ()

def checkFirst (clientFirst : Bytes) : Except Refusal ScramFirst :=
  match parseClientFirstMessage clientFirst, splitGS2 clientFirst with
  | some msg, some (flag, authz, bare) => do
    checkFlag flag
    checkUsername msg.authCID
    checkLockout server (server.toLower msg.authCID)
    checkAuthzid server (server.toLower msg.authCID) authz
    return ⟨server.toLower msg.authCID, msg.nonce, bare⟩
  | _, _ => .error invalidFirst

def iterations : Nat := 4096

-- The server recovers the key of the client and compares what it stores of it.
def proofOK (crypto : Crypto) (storedKey proof clientSig : Bytes) : Bool :=
  proof.length = clientSig.length && crypto.sha256 (xorBytes proof clientSig) = storedKey

def checkFinal (serverNonce salt clientFinal : Bytes) : Except Refusal Bytes :=
  let serverFirst := buildServerFirstMessage (first.nonce ++ serverNonce) salt iterations
  match parseClientFinalMessage clientFinal with
  | none => .error invalidFinal
  | some msg =>
    if msg.nonce ≠ first.nonce ++ serverNonce then
      .error ⟨501, bytes "5.5.4 Nonce mismatch in SCRAM-SHA-256", [.authFailure]⟩
    else match server.onGetPassword first.username with
      | none =>
        .error ⟨535, bytes "5.5.4 Authentication failed", [.authFailure, .userFailure first.username]⟩
      | some password =>
        let scram := newSCRAMSHA256 server.crypto password salt iterations
        match lastIndex (bytes ",p=") clientFinal with
        | none => .error invalidFinal
        | some proofAt =>
          let withoutProof := clientFinal.take proofAt
          if proofOK server.crypto scram.storedKey msg.clientProof
              (clientProof server.crypto scram.storedKey first.bare serverFirst withoutProof) then
            .ok (serverSignature server.crypto scram.serverKey first.bare serverFirst withoutProof)
          else
            .error ⟨535, bytes "5.5.4 Authentication credentials invalid", [.authFailure,
              .userFailure first.username,
              .loginResult first.username false (bytes "invalid_credentials")]⟩

def finishSCRAM (serverNonce salt text : Bytes) (r : Reader UInt8) : Exchanged :=
  match decodeString text with
  | none =>
    Refusal.exchanged
      ⟨501, bytes "5.5.4 Invalid base64 in SCRAM-SHA-256 final response", [.authFailure]⟩ r
  | some clientFinal => match checkFinal server first serverNonce salt clientFinal with
    | .error refusal => refusal.exchanged r
    | .ok signature =>
      ⟨.authenticated first.username ⟨235, buildServerFinalMessage signature⟩, r,
        [.userCleared first.username, .loginResult first.username true []]⟩

def challengeSCRAM (r : Reader UInt8) : Exchanged :=
  match env.serverNonce, env.salt with
  | some serverNonce, some salt =>
    askClient (encodeToString (buildServerFirstMessage (first.nonce ++ serverNonce) salt iterations))
      env.challenged r fun text r => finishSCRAM server first serverNonce salt text r
  | _, _ => Refusal.exchanged ⟨501, bytes "5.5.4 Server error", []⟩ r

def startSCRAM (text : Bytes) (r : Reader UInt8) : Exchanged :=
  match decodeString text with
  | none =>
    Refusal.exchanged
      ⟨501, bytes "5.5.4 Invalid base64 in SCRAM-SHA-256 initial response", [.authFailure]⟩ r
  | some clientFirst => match checkFirst server clientFirst with
    | .error refusal => refusal.exchanged r
    | .ok first => challengeSCRAM server env first r

-- The first message comes with the command, or after an empty challenge.
def handleAuthSCRAMSHA256 (initial : Option Bytes) (r : Reader UInt8) : Exchanged :=
  match initial with
  | some text => startSCRAM server env text r
  | none => askClient (bytes " ") env.asked r fun text r => startSCRAM server env text r

end UMail.Smtp
