import UMail.Storage.Access
import UMail.Storage.Changes

namespace UMail.Storage

open Std (ExtTreeMap ExtTreeSet)

section Model

-- The mailbox store with the subscriptions and the change journals, each by
-- the names of their buckets.
structure Store where
  db : Database
  subscribed : ExtTreeMap Bytes (ExtTreeSet Bytes)
  changes : Changes

def Store.empty : Store := ⟨.empty, ∅, ∅⟩

def subscribedBucket (user : Bytes) : Bytes := bytes "subscribed:" ++ keyUser user

def Store.setSubscribed (env : Env) (store : Store) (user mailbox : Bytes) (subscribed : Bool) : Store :=
  if env.fault then store
  else
    let bucket := store.subscribed[subscribedBucket user]?.getD ∅
    let bucket := if subscribed then bucket.insert mailbox else bucket.erase mailbox
    { store with subscribed := store.subscribed.insert (subscribedBucket user) bucket }

def succeeded {α : Type} : Except StorageError α → Bool
  | .ok _ => true
  | .error _ => false

def storedChanges (preexisting : Bool) (metadata : MessageMetadata) (mailbox : Bytes) : List Change :=
  if metadata.messageID = [] then []
  else ⟨.email, if preexisting then .updated else .created, metadata.messageID, mailbox⟩ ::
    if metadata.threadID = [] then []
    else [⟨.thread, if !preexisting && metadata.isThreadRoot then .created else .updated,
      metadata.threadID, []⟩]

def deletedChanges (deleted : Option MessageMetadata) (mailbox : Bytes) : List Change :=
  let metadata := deleted.getD .empty
  if metadata.messageID = [] then []
  else ⟨.email, .destroyed, metadata.messageID, mailbox⟩ ::
    if metadata.threadID = [] then [] else [⟨.thread, .updated, metadata.threadID, []⟩]

def Op.changes (env : Env) (db : Database) : Op → List Change
  | .createMailbox user mailbox =>
    if succeeded (db.createMailbox env user mailbox).1 &&
        ((db.record user mailbox).bind MailboxRecord.uidValidity).isNone
      then [⟨.mailbox, .created, mailbox, []⟩] else []
  | .deleteMailbox user mailbox =>
    if succeeded (db.deleteMailbox env user mailbox).1 && (db.record user mailbox).isSome
      then [⟨.mailbox, .destroyed, mailbox, []⟩] else []
  | .renameMailbox user oldName newName =>
    if oldName ≠ newName && succeeded (db.renameMailbox env user oldName newName).1
      then [⟨.mailbox, .destroyed, oldName, []⟩, ⟨.mailbox, .created, newName, []⟩] else []
  | .storeMessageMetadata user mailbox uid (some metadata) =>
    if succeeded (db.storeMessageMetadata env user mailbox uid (some metadata)).1
      then storedChanges (db.row user mailbox uid).isSome metadata mailbox else []
  | .deleteMessage user mailbox uid =>
    if succeeded (db.deleteMessage env user mailbox uid).1
      then deletedChanges (db.row user mailbox uid) mailbox else []
  | _ => []

def Op.user : Op → Bytes
  | .createMailbox user _ | .deleteMailbox user _ | .renameMailbox user _ _ | .getNextUID user _
  | .getNextModSeq user _ | .storeMessageMetadata user _ _ _ | .updateMessageMetadataFunc user _ _ _
  | .deleteMessage user _ _ | .purgeUser user => user

-- Each journal write is a transaction of its own, and its failure is ignored.
def recordAll (user : Bytes) : List ChangeEnv → List Change → Changes → Changes
  | env :: envs, change :: rest, changes =>
    recordAll user envs rest (changes.recordChange env user change)
  | _, _, changes => changes

structure CallEnv where
  env : Env
  first : ChangeEnv
  second : ChangeEnv
  deriving DecidableEq, Repr

inductive Call
  | database (op : Op)
  | setSubscribed (user mailbox : Bytes) (subscribed : Bool)

def Call.user : Call → Bytes
  | .database op => op.user
  | .setSubscribed user _ _ => user

-- The buckets that PurgeUser drops besides those of the mailboxes.
def Store.dropUser (store : Store) (user : Bytes) : Store :=
  { store with
    subscribed := store.subscribed.erase (subscribedBucket user)
    changes := store.changes.erase (changesBucket user) }

def Store.apply (env : CallEnv) (store : Store) : Call → Store
  | .setSubscribed user mailbox subscribed => store.setSubscribed env.env user mailbox subscribed
  | .database (.purgeUser user) =>
    if env.env.fault then store
    else { store.dropUser user with db := (Op.purgeUser user).apply env.env store.db }
  | .database op =>
    { store with
      db := op.apply env.env store.db
      changes := recordAll op.user [env.first, env.second] (op.changes env.env store.db)
        store.changes }

def afterColon : Bytes → Option Bytes
  | [] => none
  | c :: s => if c = colon then some s else afterColon s

-- The third part of strings.SplitN(key, ":", 3).
def thirdPart (key : Bytes) : Option Bytes := (afterColon key).bind afterColon

def Database.mailboxNames (db : Database) (user : Bytes) : List Bytes :=
  (Scan.scanPrefix (mailboxPrefix user) db.mailboxes).filterMap fun row => thirdPart row.1

def Database.listMailboxes (db : Database) (user : Bytes) : List Bytes :=
  let result := db.mailboxNames user
  if result.length = 0 then [bytes "INBOX"] else result

end Model

-- What the store holds of a user is the same, but for access entries the call
-- takes away.
structure Store.SameFor (user : Bytes) (revoked : ACLEntry → Bool) (store store' : Store) : Prop where
  record : ∀ mailbox, store'.db.record user mailbox = store.db.record user mailbox
  rows : ∀ mailbox, store'.db.messagesOf user mailbox = store.db.messagesOf user mailbox
  subscribed : store'.subscribed[subscribedBucket user]? = store.subscribed[subscribedBucket user]?
  changes : store'.changes[changesBucket user]? = store.changes[changesBucket user]?
  grants : ∀ mailbox grantee, store'.db.acl[aclKey user mailbox grantee]? =
    store.db.acl[aclKey user mailbox grantee]?.filter fun entry => !revoked entry

def Call.revokes (env : CallEnv) : Call → ACLEntry → Bool
  | .database (.purgeUser user), entry => !env.env.fault && entry.grantee == user
  | _, _ => false

section Names

-- The mailboxes a call makes: the one it names as new, and one whose counters
-- it needs.
def Op.makes (env : Env) (db : Database) (op : Op) (user name : Bytes) : Prop :=
  match op with
  | .createMailbox u mailbox =>
    succeeded (db.createMailbox env u mailbox).1 = true ∧ u = user ∧ mailbox = name
  | .renameMailbox u oldName newName =>
    succeeded (db.renameMailbox env u oldName newName).1 = true ∧ oldName ≠ newName ∧
      u = user ∧ newName = name
  | .getNextUID u mailbox =>
    succeeded (db.getNextUID env u mailbox).1 = true ∧ u = user ∧ mailbox = name
  | .getNextModSeq u mailbox =>
    succeeded (db.getNextModSeq env u mailbox).1 = true ∧ u = user ∧ mailbox = name
  | .storeMessageMetadata u mailbox uid (some metadata) =>
    env.fault = false ∧ u = user ∧ mailbox = name ∧
      ∃ previous, db.row u mailbox uid = some previous ∧ metadata.modSeq ≤ previous.modSeq
  | .updateMessageMetadataFunc u mailbox uid fn =>
    env.fault = false ∧ u = user ∧ mailbox = name ∧
      ∃ previous, db.row u mailbox uid = some previous ∧ (fn previous).isSome
  | _ => False

def Op.drops (env : Env) (db : Database) (op : Op) (user name : Bytes) : Prop :=
  match op with
  | .deleteMailbox u mailbox =>
    succeeded (db.deleteMailbox env u mailbox).1 = true ∧ u = user ∧ mailbox = name
  | .renameMailbox u oldName newName =>
    succeeded (db.renameMailbox env u oldName newName).1 = true ∧ oldName ≠ newName ∧
      u = user ∧ oldName = name
  | .purgeUser u => env.fault = false ∧ u = user
  | _ => False

def madeNames (db : Database) (names : Bytes → Bytes → Prop) : List Step → Bytes → Bytes → Prop
  | [] => names
  | step :: steps => madeNames (step.apply db) (fun user name => step.op.makes step.env db user name ∨
      names user name ∧ ¬ step.op.drops step.env db user name) steps

end Names

-- The purge of u takes away an entry of v, and a user without mailboxes is
-- shown one.
theorem isolation_fails_purge_and_default :
    ¬ (∀ env store (call : Call) user, call.user ≠ user →
      Store.SameFor user (fun _ => false) store (store.apply env call)) ∧
    ¬ (∀ steps user name, name ∈ (run steps .empty).listMailboxes user ↔
      madeNames .empty (fun _ _ => False) steps user name) := by
  refine ⟨fun h => ?_, fun h => ?_⟩
  · let shared : Database :=
      (Database.empty.setACL ⟨0, false, false⟩ (bytes "v") (bytes "m") (bytes "u") 1 (bytes "v")).2
    have hgrant := (h ⟨⟨0, false, false⟩, ⟨0, false⟩, ⟨0, false⟩⟩ ⟨shared, ∅, ∅⟩
      (.database (.purgeUser (bytes "u"))) (bytes "v") (by decide)).grants (bytes "m") (bytes "u")
    revert hgrant
    decide +kernel
  · exact (h [] [] (bytes "INBOX")).mp (by decide)

end UMail.Storage
