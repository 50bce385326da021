import UMail.Storage.Database

namespace UMail.Storage

open Std (ExtTreeMap ExtTreeSet)

def maxUint32 : UInt32 := 4294967295

def getNextUIDTx (now : Int) (user mailbox : Bytes) (db : Database) :
    Except StorageError (UInt32 × Database) := do
  let b ← ensureUIDValidityTx now db (mailboxKey user mailbox) (db.recordOrNew user mailbox)
  let cur := b.uidNext.getD 0
  let uid := if cur = 0 then 1 else cur
  -- One more would wrap to 0, and the next call would issue 1 again.
  if uid = maxUint32 then .error .uidSpaceExhausted
  else .ok (uid, db.putMailbox user mailbox { b with uidNext := some (uid + 1) })

variable (env : Env) (user mailbox : Bytes) (db : Database) (uid : UInt32)

def Database.getNextUID (user mailbox : Bytes) : Except StorageError UInt32 × Database :=
  db.update env (getNextUIDTx env.now user mailbox)

-- The counter wraps at the end of its range.
def MailboxRecord.bumpModSeq (b : MailboxRecord) : UInt64 × MailboxRecord :=
  let modSeq := b.highestModSeq.getD 0 + 1
  (modSeq, { b with highestModSeq := some modSeq })

def Database.getNextModSeq (user mailbox : Bytes) : Except StorageError UInt64 × Database :=
  db.update env fun db => do
    let b ← ensureUIDValidityTx env.now db (mailboxKey user mailbox) (db.recordOrNew user mailbox)
    .ok (b.bumpModSeq.1, db.putMailbox user mailbox b.bumpModSeq.2)

-- The same inside another transaction. It creates a missing mailbox record
-- without giving it a UIDVALIDITY.
def getNextModSeqTx : UInt64 × Database :=
  let b := (db.recordOrNew user mailbox).bumpModSeq
  (b.1, db.putMailbox user mailbox b.2)

def raiseHighestModSeqTx (v : UInt64) (db : Database) : Database :=
  if v = 0 then db
  else match db.record user mailbox with
    | none => db
    | some b =>
      if b.highestModSeq.getD 0 ≥ v then db
      else db.putMailbox user mailbox { b with highestModSeq := some v }

def raiseUIDNextTx (db : Database) : Database :=
  match db.record user mailbox with
  | none => db
  | some b =>
    if uid ≠ maxUint32 ∧ b.uidNext.getD 0 ≤ uid
      then db.putMailbox user mailbox { b with uidNext := some (uid + 1) } else db

-- A row that replaces another one must not lower its ModSeq: a stale one is
-- exchanged for a fresh one.
def replaceModSeqTx (previous : Option MessageMetadata) (modSeq : UInt64)
    (db : Database) : UInt64 × Database :=
  match previous with
  | none => (modSeq, db)
  | some prev =>
    if modSeq ≤ prev.modSeq
      then getNextModSeqTx user mailbox (raiseHighestModSeqTx user mailbox prev.modSeq db)
      else (modSeq, db)

def storeMessageMetadataTx (metadata : MessageMetadata) (db : Database) : Database :=
  let rows := (db.messagesOf user mailbox).getD ∅
  let fresh := replaceModSeqTx user mailbox rows[uid]? metadata.modSeq db
  let db₁ := raiseUIDNextTx user mailbox uid (raiseHighestModSeqTx user mailbox fresh.1 fresh.2)
  db₁.putMessages user mailbox (rows.insert uid { metadata with modSeq := fresh.1 })

def Database.storeMessageMetadata (user mailbox : Bytes) (uid : UInt32)
    (metadata : Option MessageMetadata) : Except StorageError Unit × Database :=
  match metadata with
  | none => (.error .nilMetadata, db)
  | some metadata =>
    db.update env fun db => .ok ((), storeMessageMetadataTx user mailbox uid metadata.normalize db)

def Database.updateMessageMetadata (user mailbox : Bytes) (uid : UInt32)
    (metadata : Option MessageMetadata) : Except StorageError Unit × Database :=
  db.storeMessageMetadata env user mailbox uid metadata

-- The callback answers the changed metadata, or nothing when it fails. An
-- absent row is not an error and is not created.
def updateMessageMetadataFuncTx (fn : MessageMetadata → Option MessageMetadata) (db : Database) :
    Except StorageError (Unit × Database) :=
  match db.messagesOf user mailbox with
  | none => .ok ((), db)
  | some rows =>
    match rows[uid]? with
    | none => .ok ((), db)
    | some metadata =>
      match fn metadata with
      | none => .error .callback
      | some changed =>
        let next := getNextModSeqTx user mailbox db
        .ok ((), next.2.putMessages user mailbox
          (rows.insert uid { changed with flags := normalizeFlags changed.flags
                                          modSeq := next.1 }))

def Database.updateMessageMetadataFunc (user mailbox : Bytes)
    (uid : UInt32) (fn : MessageMetadata → Option MessageMetadata) :
    Except StorageError Unit × Database :=
  db.update env (updateMessageMetadataFuncTx user mailbox uid fn)

def deleteMessageTx (db : Database) : Database :=
  match db.messagesOf user mailbox with
  | none => db
  | some rows => db.putMessages user mailbox (rows.erase uid)

def Database.deleteMessage (user mailbox : Bytes) (uid : UInt32) :
    Except StorageError Unit × Database :=
  db.update env fun db => .ok ((), deleteMessageTx user mailbox uid db)

def purgeMailboxTx (key : Bytes) : Database :=
  let db := recordUIDValidityFloorTx db key
  { db with mailboxes := db.mailboxes.erase key }

def purgeUserTx (user : Bytes) (db : Database) : Database :=
  let db := (db.mailboxes.keys.filter (mailboxPrefix user).isPrefixOf).foldl purgeMailboxTx db
  let owned := bytes "acl:" ++ keyUser user ++ [colon]
  { db with
    messages := db.messages.filter fun key _ => !(messagesPrefix user).isPrefixOf key
    acl := db.acl.filter fun key entry => !(owned.isPrefixOf key || entry.grantee == user)
    pendingUploads := db.pendingUploads.filter fun key => !(user ++ [0]).isPrefixOf key }

def Database.purgeUser (user : Bytes) : Except StorageError Unit × Database :=
  db.update env fun db => .ok ((), purgeUserTx user db)

def Database.getMessageUIDs (user mailbox : Bytes) : List UInt32 :=
  ((db.messagesOf user mailbox).getD ∅).keys

-- A missing row reads as an empty one, without an error.
def Database.getMessageMetadata (user mailbox : Bytes) (uid : UInt32) : MessageMetadata :=
  (db.row user mailbox uid).getD .empty

def Database.getHighestModSeq (user mailbox : Bytes) : UInt64 :=
  ((db.record user mailbox).bind MailboxRecord.highestModSeq).getD 0

-- Whether the user has a message row in any mailbox, or a pending upload, that
-- holds the blob.
def Database.blobReferenced (user id : Bytes) : Bool :=
  (user ++ 0 :: id) ∈ db.pendingUploads ||
    db.messages.toList.any fun bucket =>
      (messagesPrefix user).isPrefixOf bucket.1 &&
        bucket.2.toList.any fun entry => entry.2.messageID == id

end UMail.Storage
