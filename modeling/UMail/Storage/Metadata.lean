import UMail.Storage.Keys
import Mathlib.Algebra.Order.Ring.Int
import Mathlib.Tactic.Common

namespace UMail.Storage

-- Flags and the reserved mailbox name are compared without regard to case.
-- They are ASCII, so only the ASCII letters are mapped.
def toUpperByte (c : UInt8) : UInt8 := if 97 ≤ c ∧ c ≤ 122 then c - 32 else c

def toUpper (s : Bytes) : Bytes := s.map toUpperByte

def toLowerByte (c : UInt8) : UInt8 := if 65 ≤ c ∧ c ≤ 90 then c + 32 else c

def toLower (s : Bytes) : Bytes := s.map toLowerByte

def equalFold (s t : Bytes) : Bool := toUpper s == toUpper t

def isINBOX (name : Bytes) : Bool := equalFold name (bytes "INBOX")

structure MessageMetadata where
  messageID : Bytes
  uid : UInt32
  flags : List Bytes
  internalDate : Int
  size : Int
  modSeq : UInt64
  subject : Bytes
  date : Bytes
  fromAddr : Bytes
  toAddr : Bytes
  inReplyTo : Bytes
  references : List Bytes
  threadID : Bytes
  isThreadRoot : Bool
  deriving DecidableEq, Repr

-- What GetMessageMetadata answers for a row that is not there.
def MessageMetadata.empty : MessageMetadata where
  messageID := []
  uid := 0
  flags := []
  internalDate := 0
  size := 0
  modSeq := 0
  subject := []
  date := []
  fromAddr := []
  toAddr := []
  inReplyTo := []
  references := []
  threadID := []
  isThreadRoot := false

def maxStoredReferences : Nat := 100

-- Drops empty flags and repeated ones, keeping the first spelling of each.
def normalizeFlagsFrom (seen : List Bytes) : List Bytes → List Bytes
  | [] => []
  | f :: rest =>
    if f = [] then normalizeFlagsFrom seen rest
    else if toLower f ∈ seen then normalizeFlagsFrom seen rest
    else f :: normalizeFlagsFrom (toLower f :: seen) rest

def normalizeFlags (flags : List Bytes) : List Bytes := normalizeFlagsFrom [] flags

def hasFlag (flags : List Bytes) (flag : Bytes) : Bool :=
  flags.any fun f => toUpper f == toUpper flag

-- The newest references are the closest ancestors, so the last ones are kept.
def boundReferences (references : List Bytes) : List Bytes :=
  if references.length > maxStoredReferences
    then references.drop (references.length - maxStoredReferences) else references

variable (metadata : MessageMetadata)

def MessageMetadata.normalize : MessageMetadata :=
  { metadata with flags := normalizeFlags metadata.flags, references := boundReferences metadata.references }

@[simp] theorem MessageMetadata.modSeq_normalize : metadata.normalize.modSeq = metadata.modSeq := rfl

end UMail.Storage
