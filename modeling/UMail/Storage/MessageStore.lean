import UMail.Library.Text
import UMail.Storage.Keys
import Mathlib.Algebra.Order.Ring.Int
import Mathlib.Tactic.Common

namespace UMail.Storage

open Std (ExtTreeMap)
open Text (isDigit)

structure Blob where
  data : Bytes
  mtime : Int
  deriving DecidableEq, Repr

def Blob.size (blob : Blob) : Int := blob.data.length

abbrev Blobs := ExtTreeMap Bytes Blob

inductive BlobError
  | fault
  | invalidMessageID
  | notFound
  | messageTooLarge
  | quotaExceeded (used need limit : Int)
  deriving DecidableEq, Repr

variable (env : DiskEnv) (blobs : Blobs) (c : UInt8) (id : Bytes)

def isLowerHexByte : Bool := isDigit c || (97 ≤ c && c ≤ 102)

def isLowerHex (s : Bytes) : Bool := s.all isLowerHexByte

def isHexByte : Bool := isLowerHexByte c || (65 ≤ c && c ≤ 70)

def underscore : UInt8 := 95

def isBase64URLByte : Bool :=
  isDigit c || (97 ≤ c && c ≤ 122) || (65 ≤ c && c ≤ 90) || c == 45 || c == underscore

-- The part of a copy-qualified ID after the hash: a UID and a mailbox.
def isQualifier (rest : Bytes) : Bool :=
  let uid := rest.takeWhile (· ≠ underscore)
  let mailbox := (rest.dropWhile (· ≠ underscore)).drop 1
  rest.contains underscore && uid ≠ [] && mailbox ≠ [] && uid.all isDigit &&
    mailbox.all isBase64URLByte

def isValidMessageID (messageID : Bytes) : Bool :=
  if messageID.length < 64 || messageID.length > 256 then false
  else if !(messageID.take 64).all isHexByte then false
  else match messageID.drop 64 with
    | [] => true
    | c :: rest => c == underscore && isQualifier rest

def maxMessageSize : Nat := 100 * 1024 * 1024

def Blobs.usage : Int :=
  (blobs.toList.map fun entry => entry.2.size).sum

-- What one call finds on the disk: whether it fails, the clock, and whether
-- the time of a file could be set.
structure DiskEnv where
  fault : Bool
  now : Int
  touched : Bool
  deriving DecidableEq, Repr

def DiskEnv.touch (blob : Blob) : Blob :=
  if env.touched then { blob with mtime := env.now } else blob

-- A file under the right name with the right size is taken to be the message.
-- One of another size is replaced.
def Blobs.storeMessage (hash : Bytes → Bytes) (env : DiskEnv) (blobs : Blobs) (data : Bytes) :
    Except BlobError Bytes × Blobs :=
  if data.length > maxMessageSize then (.error .messageTooLarge, blobs)
  else if env.fault then (.error .fault, blobs)
  else
    let id := hash data
    match blobs[id]? with
    | none => (.ok id, blobs.insert id ⟨data, env.now⟩)
    | some blob =>
      if blob.data.length = data.length then (.ok id, blobs.insert id (env.touch blob))
      else (.ok id, blobs.insert id ⟨data, env.now⟩)

def Blobs.storeMessageWithQuota (hash : Bytes → Bytes) (env : DiskEnv) (blobs : Blobs)
    (data : Bytes) (limit : Int) : Except BlobError Bytes × Blobs :=
  if limit ≤ 0 then blobs.storeMessage hash env data
  else
    let id := hash data
    match blobs[id]?.filter (fun blob => !env.fault && blob.data.length = data.length) with
    | some blob => (.ok id, blobs.insert id (env.touch blob))
    | none =>
      if env.fault then (.error .fault, blobs)
      else if blobs.usage + data.length > limit then
        (.error (.quotaExceeded blobs.usage data.length limit), blobs)
      else blobs.storeMessage hash env data

def Blobs.readMessage : Except BlobError Bytes :=
  if !isValidMessageID id then .error .invalidMessageID
  else if env.fault then .error .fault
  else match blobs[id]? with
    | none => .error .notFound
    | some blob =>
      if blob.data.length > maxMessageSize then .error .messageTooLarge else .ok blob.data

def Blobs.messageExists : Bool :=
  isValidMessageID id && !env.fault && blobs[id]?.isSome

def Blobs.remove : Except BlobError Unit × Blobs :=
  if env.fault then (.error .fault, blobs)
  else match blobs[id]? with
    | none => (.error .notFound, blobs)
    | some _ => (.ok (), blobs.erase id)

def Blobs.deleteMessageUnchecked : Except BlobError Unit × Blobs :=
  if !isValidMessageID id then (.error .invalidMessageID, blobs) else blobs.remove env id

def orphanGCGrace : Int := 3600 * 1000000000

def Blobs.orphanCandidates : Except BlobError (List Bytes) :=
  if env.fault then .error .fault
  else .ok ((blobs.toList.filter fun entry => entry.1.length = 64 && isLowerHex entry.1 &&
    !(entry.2.mtime > env.now - orphanGCGrace)).map Prod.fst)

end UMail.Storage
