import UMail.Library.Base64
import UMail.Storage.Keys

namespace UMail.Auth

open Base64 (standard encodePadded decodePadded)
open UMail.Storage (Bytes bytes)

def encodeToString (s : Bytes) : Bytes := encodePadded standard 61 s

def decodeString (s : Bytes) : Option Bytes := decodePadded standard 61 s

structure Crypto where
  hmac : Bytes → Bytes → Bytes
  sha256 : Bytes → Bytes
  hi : Bytes → Bytes → Nat → Bytes

def addAttribute (parts : List (UInt8 × Bytes)) : Bytes → Option (List (UInt8 × Bytes))
  | key :: 61 :: val => some ((key, val) :: parts)
  | _ :: _ :: _ => none
  | _ => some parts

def parseAttributes (msg : Bytes) : Option (List (UInt8 × Bytes)) :=
  (msg.splitOn 44).foldlM addAttribute []

structure SCRAMClientInitialMessage where
  authzID : Bytes
  authCID : Bytes
  channelBind : Bytes
  nonce : Bytes
  deriving DecidableEq, Repr

def parseClientFirstMessage (msg : Bytes) : Option SCRAMClientInitialMessage :=
  (parseAttributes msg).map fun parts =>
    ⟨(parts.lookup 97).getD [], (parts.lookup 110).getD [], (parts.lookup 99).getD [],
      (parts.lookup 114).getD []⟩

structure SCRAMClientFinalMessage where
  channelBind : Bytes
  nonce : Bytes
  clientProof : Bytes
  deriving DecidableEq, Repr

def parseClientFinalMessage (msg : Bytes) : Option SCRAMClientFinalMessage := do
  let parts ← parseAttributes msg
  let c ← parts.lookup 99
  let r ← parts.lookup 114
  let p ← parts.lookup 112
  let proof ← decodeString p
  return ⟨c, r, proof⟩

def buildServerFirstMessage (nonce salt : Bytes) (iterations : Nat) : Bytes :=
  bytes "r=" ++ nonce ++ bytes ",s=" ++ encodeToString salt ++ bytes ",i=" ++ bytes (toString iterations)

def buildServerFinalMessage (serverSignature : Bytes) : Bytes :=
  bytes "v=" ++ encodeToString serverSignature

def scramAuthMessage (clientFirstBare serverFirst clientFinalWithoutProof : Bytes) : Bytes :=
  clientFirstBare ++ bytes "," ++ serverFirst ++ bytes "," ++ clientFinalWithoutProof

structure SCRAMSHA256 where
  saltedPassword : Bytes
  storedKey : Bytes
  serverKey : Bytes
  deriving DecidableEq, Repr

def newSCRAMSHA256 (crypto : Crypto) (password salt : Bytes) (iterations : Nat) : SCRAMSHA256 :=
  let saltedPassword := crypto.hi password salt iterations
  ⟨saltedPassword, crypto.sha256 (crypto.hmac saltedPassword (bytes "Client Key")),
    crypto.hmac saltedPassword (bytes "Server Key")⟩

-- The signature of the client, in spite of its name.
def clientProof (crypto : Crypto) (storedKey clientFirstBare serverFirst clientFinal : Bytes) : Bytes :=
  crypto.hmac storedKey (scramAuthMessage clientFirstBare serverFirst clientFinal)

def serverSignature (crypto : Crypto) (serverKey clientFirstBare serverFirst clientFinal : Bytes) :
    Bytes :=
  crypto.hmac serverKey (scramAuthMessage clientFirstBare serverFirst clientFinal)

-- It is called with texts of one length.
def xorBytes (a b : Bytes) : Bytes := List.zipWith (· ^^^ ·) a b

end UMail.Auth
