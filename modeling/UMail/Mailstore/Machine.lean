import UMail.Concurrency.Program
import UMail.Db.Account
import UMail.Storage.MessageStore
import UMail.Storage.Messages

namespace UMail.Mailstore

open Concurrency UMail.Storage UMail.Db

structure Headers where
  subject : Bytes
  fromAddr : Bytes
  toAddr : Bytes
  date : Bytes
  inReplyTo : Bytes
  references : List Bytes
  deriving DecidableEq, Repr

-- What the server makes of a message apart from storing it: its content hash,
-- and the headers that APPEND and delivery read from it.
structure Setup where
  user : Bytes
  hash : Bytes → Bytes
  headers : Bytes → Headers
  deliveryHeaders : Bytes → Headers
  hash_valid : ∀ data, isValidMessageID (hash data) = true

-- UserGuard, the delivery lock, the expunge lock and the blob lock of the user.
inductive Lock
  | guard
  | delivery
  | expunge
  | blobs
  deriving DecidableEq, Repr

inductive MailError
  | storage (e : StorageError)
  | blob (e : BlobError)
  | account (e : AccountError)
  | sequenceSet
  | tooManyMessages
  | tooManyKeywords
  | mailboxFull
  | noSuchUser
  | noSuchMailbox
  deriving DecidableEq, Repr

-- The atomic steps: one lock operation, one transaction, or one call of the
-- blob store.
inductive Call
  | lock (l : Lock)
  | unlock (l : Lock)
  | getAccount
  | quotaLimit
  | incrementQuota (delta : Int)
  | messageExists (id : Bytes)
  | storeMessage (data : Bytes)
  | storeMessageWithQuota (data : Bytes) (limit : Int)
  | readMessage (id : Bytes)
  | deleteMessageUnchecked (id : Bytes)
  | orphanCandidates
  | removeOrphan (id : Bytes)
  | blobReferenced (ids : List Bytes)
  | mapOrder (ids : List Bytes)
  | listedMailbox (mailbox : Bytes)
  | getMailbox (mailbox : Bytes)
  | getMessageUIDs (mailbox : Bytes)
  | getMessageMetadata (mailbox : Bytes) (uid : UInt32)
  | createMailbox (mailbox : Bytes)
  | deleteMailbox (mailbox : Bytes)
  | getNextUID (mailbox : Bytes)
  | storeMessageMetadata (mailbox : Bytes) (uid : UInt32) (metadata : MessageMetadata)
  | updateMessageMetadata (mailbox : Bytes) (uid : UInt32) (metadata : MessageMetadata)
  | updateMessageMetadataFunc (mailbox : Bytes) (uid : UInt32)
      (fn : MessageMetadata → Option MessageMetadata)
  | deleteMessage (mailbox : Bytes) (uid : UInt32)
  | getOrCreateThreadID
  | getThreadMessages
  | now

abbrev Call.Result : Call → Type
  | .lock _ | .unlock _ => Unit
  | .getAccount => Bool
  | .quotaLimit => Int
  | .incrementQuota _ => Except AccountError Unit
  | .messageExists _ => Bool
  | .storeMessage _ | .storeMessageWithQuota _ _ => Except BlobError Bytes
  | .readMessage _ => Except BlobError Bytes
  | .deleteMessageUnchecked _ | .removeOrphan _ => Except BlobError Unit
  | .orphanCandidates => Except BlobError (List Bytes)
  | .blobReferenced _ => Except StorageError (List Bytes)
  | .mapOrder _ => List Bytes
  | .listedMailbox _ => Except StorageError Bool
  | .getMailbox _ => Except StorageError UInt32
  | .getMessageUIDs _ => Except StorageError (List UInt32)
  | .getMessageMetadata _ _ => Except StorageError MessageMetadata
  | .createMailbox _ | .deleteMailbox _ => Except StorageError Unit
  | .getNextUID _ => Except StorageError UInt32
  | .storeMessageMetadata _ _ _ | .updateMessageMetadata _ _ _
  | .updateMessageMetadataFunc _ _ _ | .deleteMessage _ _ => Except StorageError Unit
  | .getOrCreateThreadID => Bytes
  | .getThreadMessages => Bool
  | .now => Int

abbrev sig : Signature := ⟨Call, Call.Result⟩

structure State where
  db : Database
  blobs : Blobs
  account : AccountData
  held : Lock → Option Nat

-- Everything the environment decides at one step: faults, the clock, whether a
-- file could be touched, the iteration order of a map, and the answers of the
-- thread index, which is not part of the model.
structure Choice where
  fault : Bool
  clock : Int
  touched : Bool
  cleanupFault : Bool
  order : List Bytes
  threadID : Bytes
  threadSeen : Bool
  deriving DecidableEq, Repr

def Choice.env (choice : Choice) : Env :=
  ⟨choice.clock / 1000000000, choice.fault, choice.cleanupFault⟩

def Choice.disk (choice : Choice) : DiskEnv := ⟨choice.fault, choice.clock, choice.touched⟩

def State.setLock (s : State) (l : Lock) (holder : Option Nat) : State :=
  { s with held := fun other => if other = l then holder else s.held other }

def view {α : Type} (choice : Choice) (value : α) : Except StorageError α :=
  if choice.fault then .error .fault else .ok value

-- GetMailbox answers a default for a mailbox without a record.
def Database.uidValidityOf (db : Database) (user mailbox : Bytes) : UInt32 :=
  match db.record user mailbox with
  | none => 1
  | some record => record.uidValidity.getD 0

-- Whether ListMailboxes names the mailbox. A user without any has an INBOX.
def Database.listed (db : Database) (user mailbox : Bytes) : Bool :=
  (db.record user mailbox).isSome ||
    (mailbox == bytes "INBOX" &&
      !db.mailboxes.keys.any (mailboxPrefix user).isPrefixOf)

section Exec

variable (setup : Setup) (thread : Nat) (choice : Choice) (s : State)

def State.transact {α : Type} (call : Env → Database → Except StorageError α × Database) :
    Except StorageError α × State :=
  let out := call choice.env s.db
  (out.1, { s with db := out.2 })

def State.blobCall {α : Type} (call : DiskEnv → Blobs → α × Blobs) : Option (α × State) :=
  if s.held .blobs = none then
    let out := call choice.disk s.blobs
    some (out.1, { s with blobs := out.2 })
  else none

def State.sweepCall {α : Type} (call : DiskEnv → Blobs → α × Blobs) : Option (α × State) :=
  if s.held .blobs = some thread then
    let out := call choice.disk s.blobs
    some (out.1, { s with blobs := out.2 })
  else none

def State.incrementQuota (delta : Int) : Except AccountError Unit × State :=
  if choice.fault then (.error .fault, s)
  else match s.account.incrementQuota delta with
    | .ok account => (.ok (), { s with account := account })
    | .error e => (.error e, s)

def exec : (c : Call) → Option (c.Result × State)
  | .lock l => if s.held l = none then some ((), s.setLock l (some thread)) else none
  | .unlock l => if s.held l = some thread then some ((), s.setLock l none) else none
  | .getAccount => some (!choice.fault && s.account.isActive, s)
  | .quotaLimit => some (if choice.fault then 0 else s.account.quotaLimit, s)
  | .incrementQuota delta => some (s.incrementQuota choice delta)
  -- MessageExists looks at the file without any lock.
  | .messageExists id => some (s.blobs.messageExists choice.disk id, s)
  | .readMessage id => some (s.blobs.readMessage choice.disk id, s)
  | .storeMessage data => s.blobCall choice fun env blobs => blobs.storeMessage setup.hash env data
  | .storeMessageWithQuota data limit =>
    s.blobCall choice fun env blobs => blobs.storeMessageWithQuota setup.hash env data limit
  | .deleteMessageUnchecked id =>
    s.blobCall choice fun env blobs => blobs.deleteMessageUnchecked env id
  | .orphanCandidates =>
    s.sweepCall thread choice fun env blobs => (blobs.orphanCandidates env, blobs)
  | .removeOrphan id => s.sweepCall thread choice fun env blobs => blobs.remove env id
  | .blobReferenced ids =>
    some (view choice (ids.filter (s.db.blobReferenced setup.user)), s)
  | .mapOrder ids => if choice.order.isPerm ids then some (choice.order, s) else none
  | .listedMailbox mailbox => some (view choice (Database.listed s.db setup.user mailbox), s)
  | .getMailbox mailbox => some (view choice (Database.uidValidityOf s.db setup.user mailbox), s)
  | .getMessageUIDs mailbox => some (view choice (s.db.getMessageUIDs setup.user mailbox), s)
  | .getMessageMetadata mailbox uid =>
    some (view choice (s.db.getMessageMetadata setup.user mailbox uid), s)
  | .createMailbox mailbox =>
    some (s.transact choice fun env db => db.createMailbox env setup.user mailbox)
  | .deleteMailbox mailbox =>
    some (s.transact choice fun env db => db.deleteMailbox env setup.user mailbox)
  | .getNextUID mailbox =>
    some (s.transact choice fun env db => db.getNextUID env setup.user mailbox)
  | .storeMessageMetadata mailbox uid metadata =>
    some (s.transact choice fun env db =>
      db.storeMessageMetadata env setup.user mailbox uid (some metadata))
  | .updateMessageMetadata mailbox uid metadata =>
    some (s.transact choice fun env db =>
      db.updateMessageMetadata env setup.user mailbox uid (some metadata))
  | .updateMessageMetadataFunc mailbox uid fn =>
    some (s.transact choice fun env db =>
      db.updateMessageMetadataFunc env setup.user mailbox uid fn)
  | .deleteMessage mailbox uid =>
    some (s.transact choice fun env db => db.deleteMessage env setup.user mailbox uid)
  | .getOrCreateThreadID => some (if choice.fault then [] else choice.threadID, s)
  | .getThreadMessages => some (choice.threadSeen, s)
  | .now => some (choice.clock, s)

end Exec

abbrev Prog := Program sig

abbrev invoke (c : Call) : Prog c.Result := Program.perform (S := sig) c

def machine (setup : Setup) : Machine sig State Choice where
  exec thread c choice s := exec setup thread choice s c

-- A setup for concrete runs: the hash is the first byte of the message in
-- front of 63 zeros.
def demoSetup : Setup where
  user := bytes "ann@example.org"
  hash data := (if data.headD 48 = 49 then 49 else 48) :: List.replicate 63 48
  headers _ := ⟨[], [], [], [], [], []⟩
  deliveryHeaders _ := ⟨[], [], [], [], [], []⟩
  hash_valid data := by split_ifs <;> decide

def demoChoice : Choice := ⟨false, 1700000000000000000, true, false, [], [], false⟩

def emptyState : State := ⟨.empty, ∅, ⟨true, 0, 0⟩, fun _ => none⟩

end UMail.Mailstore
