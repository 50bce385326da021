import UMail.Storage.Metadata

namespace UMail.Storage

open Std (ExtTreeMap ExtTreeSet)

-- The counters of one mailbox bucket. A counter call can create the bucket
-- with some of them still absent.
structure MailboxRecord where
  uidValidity : Option UInt32
  uidNext : Option UInt32
  highestModSeq : Option UInt64
  deriving DecidableEq, Repr

def MailboxRecord.empty : MailboxRecord := ⟨none, none, none⟩

structure ACLEntry where
  grantee : Bytes
  rights : UInt8
  grantedAt : Int
  grantedBy : Bytes
  deriving DecidableEq, Repr

-- The buckets of the store. Mailbox and message buckets are keyed by their
-- full names, and the floor bucket is absent until a mailbox is retired.
structure Database where
  mailboxes : ExtTreeMap Bytes MailboxRecord
  messages : ExtTreeMap Bytes (ExtTreeMap UInt32 MessageMetadata)
  uidValidityFloor : Option (ExtTreeMap Bytes UInt32)
  acl : ExtTreeMap Bytes ACLEntry
  pendingUploads : ExtTreeSet Bytes

def Database.empty : Database := ⟨∅, ∅, none, ∅, ∅⟩

inductive StorageError
  | fault
  | timestampOutOfRange
  | cannotDeleteINBOX
  | destinationExists (name : Bytes)
  | uidSpaceExhausted
  | nilMetadata
  | callback
  deriving DecidableEq, Repr

def StorageError.text : StorageError → Bytes
  | .fault => bytes "database error"
  | .timestampOutOfRange => bytes "timestamp out of range for uidvalidity"
  | .cannotDeleteINBOX => bytes "cannot delete INBOX"
  | .destinationExists name => bytes "destination mailbox already exists: " ++ name
  | .uidSpaceExhausted => bytes "mailbox UID space exhausted"
  | .nilMetadata => bytes "nil message metadata"
  | .callback => bytes "callback error"

-- What one call finds outside the database: the clock, whether its
-- transaction fails, and whether the clean-up transaction after it fails.
structure Env where
  now : Int
  fault : Bool
  cleanupFault : Bool
  deriving DecidableEq, Repr

-- db.bolt.Update: an error of any kind rolls the whole transaction back.
def Database.update {α : Type} (env : Env) (db : Database)
    (tx : Database → Except StorageError (α × Database)) : Except StorageError α × Database :=
  if env.fault then (.error .fault, db)
  else match tx db with
    | .ok (value, db') => (.ok value, db')
    | .error e => (.error e, db)

variable (now : Int) (db : Database) (key : Bytes) (user mailbox : Bytes)

def Database.putMailbox (record : MailboxRecord) : Database :=
  { db with mailboxes := db.mailboxes.insert (mailboxKey user mailbox) record }

def Database.putMessages (rows : ExtTreeMap UInt32 MessageMetadata) : Database :=
  { db with messages := db.messages.insert (messagesBucket user mailbox) rows }

def Database.record : Option MailboxRecord :=
  db.mailboxes[mailboxKey user mailbox]?

def Database.messagesOf : Option (ExtTreeMap UInt32 MessageMetadata) :=
  db.messages[messagesBucket user mailbox]?

def Database.row (uid : UInt32) : Option MessageMetadata :=
  (db.messagesOf user mailbox).bind fun rows => rows[uid]?

def Database.floor : Option UInt32 :=
  db.uidValidityFloor.bind fun floors => floors[mailboxKey user mailbox]?

-- CreateBucketIfNotExists on the mailbox bucket.
def Database.recordOrNew : MailboxRecord :=
  (db.record user mailbox).getD .empty

def recordUIDValidityFloorTx : Database :=
  match db.mailboxes[key]?.bind MailboxRecord.uidValidity with
  | none => db
  | some uv =>
    let floors := db.uidValidityFloor.getD ∅
    match floors[key]? with
    | some cur =>
      if cur ≥ uv then { db with uidValidityFloor := some floors }
      else { db with uidValidityFloor := some (floors.insert key uv) }
    | none => { db with uidValidityFloor := some (floors.insert key uv) }

-- The clock in seconds, lifted above the floor of the key. Adding one wraps.
def nextUIDValidityTx : Except StorageError UInt32 :=
  if now < 0 ∨ now > 0x7FFFFFFF then .error .timestampOutOfRange
  else
    let uv := UInt32.ofNat now.toNat
    match db.uidValidityFloor with
    | none => .ok uv
    | some floors =>
      let floor := floors[key]?.getD 0
      .ok (if floor ≥ uv then floor + 1 else uv)

def ensureUIDValidityTx (b : MailboxRecord) : Except StorageError MailboxRecord :=
  match b.uidValidity with
  | some _ => .ok b
  | none => (nextUIDValidityTx now db key).map fun uv => { b with uidValidity := some uv }

def createMailboxTx (db : Database) : Except StorageError (Unit × Database) := do
  let b ← ensureUIDValidityTx now db (mailboxKey user mailbox) (db.recordOrNew user mailbox)
  let b := { b with uidNext := some (b.uidNext.getD 1)
                    highestModSeq := some (b.highestModSeq.getD 0) }
  let db := db.putMailbox user mailbox b
  .ok ((), db.putMessages user mailbox ((db.messagesOf user mailbox).getD ∅))

def Database.createMailbox (env : Env) (db : Database) (user mailbox : Bytes) :
    Except StorageError Unit × Database :=
  db.update env (createMailboxTx env.now user mailbox)

def aclKeyBelongsTo (owner mailbox key : Bytes) (entry : ACLEntry) : Bool :=
  key == aclKey owner mailbox entry.grantee

-- The entries a prefix scan of the mailbox finds, without those of a mailbox
-- whose name only starts with this one's.
def Database.aclEntries (owner mailbox : Bytes) : List (Bytes × ACLEntry) :=
  db.acl.toList.filter fun kv =>
    (aclOwnerMailboxPrefix owner mailbox).isPrefixOf kv.1 && aclKeyBelongsTo owner mailbox kv.1 kv.2

def deleteACLTx (owner mailbox : Bytes) (db : Database) : Database :=
  { db with acl := (db.aclEntries owner mailbox).foldl (fun acl kv => acl.erase kv.1) db.acl }

def Database.dropMailbox : Database :=
  { db with mailboxes := db.mailboxes.erase (mailboxKey user mailbox)
            messages := db.messages.erase (messagesBucket user mailbox) }

def deleteMailboxTx (db : Database) : Database :=
  (recordUIDValidityFloorTx db (mailboxKey user mailbox)).dropMailbox user mailbox

-- The access entries are removed in a transaction of their own, whose failure
-- is ignored, and only when there was a mailbox record.
def Database.deleteMailbox (env : Env) (db : Database) (user mailbox : Bytes) :
    Except StorageError Unit × Database :=
  if isINBOX mailbox then (.error .cannotDeleteINBOX, db)
  else if env.fault then (.error .fault, db)
  else
    let db' := deleteMailboxTx user mailbox db
    (.ok (), if (db.record user mailbox).isSome && !env.cleanupFault
      then deleteACLTx user mailbox db' else db')

def moveACLTx (user oldName newName : Bytes) (db : Database) : Database :=
  let from_ := aclOwnerMailboxPrefix user oldName
  { db with acl := (db.aclEntries user oldName).foldl (fun acl kv =>
      (acl.insert (aclKey user newName (kv.1.drop from_.length)) kv.2).erase kv.1) db.acl }

-- The copied UIDVALIDITY, lifted above a retired mailbox of the new name.
def renamedUIDValidity (uidValidity : Option UInt32) : Option UInt32 :=
  match db.uidValidityFloor with
  | none => uidValidity
  | some floors =>
    let floor := floors[key]?.getD 0
    if floor ≥ uidValidity.getD 0 then some (floor + 1) else uidValidity

def renameMailboxTx (user oldName newName : Bytes) (db : Database) :
    Except StorageError (Unit × Database) :=
  if (db.record user newName).isSome || (db.messagesOf user newName).isSome then
    .error (.destinationExists newName)
  else match db.record user oldName with
    | none => do
      let uv ← nextUIDValidityTx now db (mailboxKey user newName)
      .ok ((), (db.putMailbox user newName ⟨some uv, some 1, none⟩).putMessages user newName ∅)
    | some old =>
      let uv := renamedUIDValidity db (mailboxKey user newName) old.uidValidity
      let db₁ := db.putMailbox user newName { old with uidValidity := uv }
      let db₂ := match db.messagesOf user oldName with
        | none => db₁
        | some rows => db₁.putMessages user newName rows
      let db₃ := recordUIDValidityFloorTx db₂ (mailboxKey user oldName)
      .ok ((), moveACLTx user oldName newName (db₃.dropMailbox user oldName))

def Database.renameMailbox (env : Env) (db : Database) (user oldName newName : Bytes) :
    Except StorageError Unit × Database :=
  if oldName = newName then (.ok (), db)
  else db.update env (renameMailboxTx env.now user oldName newName)

end UMail.Storage
