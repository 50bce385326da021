import UMail.Imap.SequenceSet
import UMail.Mailstore.Machine

namespace UMail.Mailstore

open Concurrency UMail.Storage UMail.Db UMail.Imap

structure BlobRef where
  id : Bytes
  size : Int
  deriving DecidableEq, Repr

def deletedFlag : Bytes := bytes "\\Deleted"

def recentFlag : Bytes := bytes "\\Recent"

def adjustQuota (delta : Int) : Prog (Except AccountError Unit) :=
  if delta = 0 then pure (.ok ()) else invoke (.incrementQuota delta)

section Blobs

variable (setup : Setup)

-- The limit is looked up once to decide and once more to be applied.
def storeWithinLimit (data : Bytes) : Prog (Except BlobError Bytes) := do
  let limit ← invoke .quotaLimit
  if limit > 0 then
    let limit ← invoke .quotaLimit
    invoke (.storeMessageWithQuota data limit)
  else invoke (.storeMessage data)

-- Reserves the bytes the message adds to the store, then stores it.
def storeBlob (data : Bytes) : Prog (Except MailError Bytes) := do
  let known ← invoke (.messageExists (setup.hash data))
  let reserved : Int := if known then 0 else data.length
  match ← adjustQuota reserved with
  | .error e => pure (.error (.account e))
  | .ok () =>
    match ← storeWithinLimit data with
    | .error e =>
      let _ ← adjustQuota (-reserved)
      pure (.error (.blob e))
    | .ok id => pure (.ok id)

variable (refs : List BlobRef)

def distinctIDs : List Bytes :=
  (refs.map BlobRef.id).foldl (fun ids id => if id ∈ ids then ids else ids ++ [id]) []

-- The size recorded last for an ID is the one that counts.
def candidateSize (id : Bytes) : Int :=
  ((refs.reverse.find? (·.id = id)).map BlobRef.size).getD 0

-- A file of unknown size is read before it is removed.
def releaseSize (id : Bytes) (size : Int) : Prog Int :=
  if size ≤ 0 then do
    match ← invoke (.readMessage id) with
    | .ok data => pure data.length
    | .error _ => pure size
  else pure size

def releaseOne (id : Bytes) (size : Int) : Prog Unit := do
  let size ← releaseSize id size
  match ← invoke (.deleteMessageUnchecked id) with
  | .ok () => do
    let _ ← adjustQuota (-size)
    pure ()
  | .error _ => pure ()

def releaseUnreferenced (referenced : List Bytes) (refs : List BlobRef) (id : Bytes) : Prog Unit :=
  if id ∈ referenced then pure () else releaseOne id (candidateSize refs id)

def releaseEach (referenced : List Bytes) (refs : List BlobRef) : List Bytes → Prog Unit
  | [] => pure ()
  | id :: rest => do
    releaseUnreferenced referenced refs id
    releaseEach referenced refs rest

-- The candidates are a Go map, so they are gone through in any order.
def releaseBlobsLocked : Prog Unit :=
  if refs = [] then pure ()
  else do
    match ← invoke (.blobReferenced (distinctIDs refs)) with
    | .error _ => pure ()
    | .ok referenced =>
      let order ← invoke (.mapOrder (distinctIDs refs))
      releaseEach referenced refs order

def releaseBlobs : Prog Unit :=
  if refs = [] then pure ()
  else do
    invoke (.lock .guard)
    releaseBlobsLocked refs
    invoke (.unlock .guard)

end Blobs

section Append

variable (setup : Setup)

def threadOf (headers : Headers) : Prog (Bytes × Bool) := do
  let threadID ← invoke .getOrCreateThreadID
  let alone := headers.inReplyTo = [] ∧ headers.references = []
  if ¬ alone ∧ threadID ≠ [] then
    let seen ← invoke .getThreadMessages
    pure (threadID, !seen)
  else pure (threadID, decide alone)

def appendFlags (flags : List Bytes) : List Bytes :=
  if hasFlag flags recentFlag then flags else flags ++ [recentFlag]

def appendMetadata (data messageID : Bytes) (uid : UInt32) (flags : List Bytes) (date : Int)
    (thread : Bytes × Bool) : MessageMetadata :=
  let headers := setup.headers data
  { messageID := messageID
    uid := uid
    flags := appendFlags flags
    internalDate := date
    size := data.length
    modSeq := 0
    subject := headers.subject
    date := headers.date
    fromAddr := headers.fromAddr
    toAddr := headers.toAddr
    inReplyTo := headers.inReplyTo
    references := headers.references
    threadID := thread.1
    isThreadRoot := thread.2 }

-- The part under the user guard: blob, UID and row.
def appendLocked (mailbox : Bytes) (flags : List Bytes) (date : Int) (data : Bytes) :
    Prog (Except MailError UInt32) := do
  match ← storeBlob setup data with
  | .error e => pure (.error e)
  | .ok messageID =>
    match ← invoke (.getNextUID mailbox) with
    | .error e =>
      releaseBlobsLocked [⟨messageID, data.length⟩]
      pure (.error (.storage e))
    | .ok uid =>
      let thread ← threadOf (setup.headers data)
      match ← invoke (.storeMessageMetadata mailbox uid
          (appendMetadata setup data messageID uid flags date thread)) with
      | .error e =>
        releaseBlobsLocked [⟨messageID, data.length⟩]
        pure (.error (.storage e))
      | .ok () => pure (.ok uid)

def maxMessageCount : Nat := 0x7FFFFFFF

-- AppendMessageUID answers the UIDVALIDITY and the new UID.
def appendMessageUID (mailbox : Bytes) (flags : List Bytes) (date : Int) (data : Bytes) :
    Prog (Except MailError (UInt32 × UInt32)) := do
  invoke (.lock .guard)
  let appended ← appendLocked setup mailbox flags date data
  invoke (.unlock .guard)
  match appended with
  | .error e => pure (.error e)
  | .ok uid =>
    match ← invoke (.getMessageUIDs mailbox) with
    | .ok uids =>
      if uids.length > maxMessageCount then pure (.error .tooManyMessages)
      else finish uid
    | .error _ => finish uid
where
  finish (uid : UInt32) : Prog (Except MailError (UInt32 × UInt32)) := do
    match ← invoke (.getMailbox mailbox) with
    | .error _ => pure (.ok (0, uid))
    | .ok validity => pure (.ok (validity, uid))

end Append

def selectFrom (ranges : List SeqRange) (total : UInt32) : Nat → List UInt32 → List (Nat × UInt32)
  | _, [] => []
  | i, uid :: rest =>
    if inRanges ranges (UInt32.ofNat i) total
      then (i, uid) :: selectFrom ranges total (i + 1) rest
      else selectFrom ranges total (i + 1) rest

def selectUIDs (ranges : List SeqRange) (uids : List UInt32) : List UInt32 :=
  (selectFrom ranges (UInt32.ofNat uids.length) 1 uids).map Prod.snd

section Copy

variable (setup : Setup)

def copyMetadata (source : MessageMetadata) (messageID : Bytes) (uid : UInt32) : MessageMetadata :=
  { source with messageID := messageID, uid := uid, modSeq := 0 }

def copyOneLocked (source dest : Bytes) (uid : UInt32) :
    Prog (Except MailError (UInt32 × BlobRef)) := do
  match ← invoke (.getMessageMetadata source uid) with
  | .error e => pure (.error (.storage e))
  | .ok metadata =>
    match ← invoke (.readMessage metadata.messageID) with
    | .error e => pure (.error (.blob e))
    | .ok data =>
      match ← invoke (.getNextUID dest) with
      | .error e => pure (.error (.storage e))
      | .ok newUID =>
        match ← storeBlob setup data with
        | .error e => pure (.error e)
        | .ok newID =>
          let ref : BlobRef := ⟨newID, data.length⟩
          match ← invoke (.storeMessageMetadata dest newUID
              (copyMetadata metadata newID newUID)) with
          | .error e =>
            releaseBlobsLocked [ref]
            pure (.error (.storage e))
          | .ok () => pure (.ok (newUID, ref))

def copyOne (source dest : Bytes) (uid : UInt32) : Prog (Except MailError (UInt32 × BlobRef)) := do
  invoke (.lock .guard)
  let copied ← copyOneLocked setup source dest uid
  invoke (.unlock .guard)
  pure copied

structure Copied where
  source : List UInt32
  dest : List UInt32
  refs : List BlobRef
  deriving DecidableEq, Repr

def deleteMessages (mailbox : Bytes) : List UInt32 → Prog Unit
  | [] => pure ()
  | uid :: rest => do
    let _ ← invoke (.deleteMessage mailbox uid)
    deleteMessages mailbox rest

def undoCopies (dest : Bytes) (copied : Copied) : Prog Unit := do
  deleteMessages dest copied.dest
  releaseBlobs copied.refs

def copyEach (source dest : Bytes) (copied : Copied) : List UInt32 → Prog (Except MailError Copied)
  | [] => pure (.ok copied)
  | uid :: rest => do
    match ← copyOne setup source dest uid with
    | .error e =>
      undoCopies dest copied
      pure (.error e)
    | .ok (newUID, ref) =>
      copyEach source dest
        ⟨copied.source ++ [uid], copied.dest ++ [newUID], copied.refs ++ [ref]⟩ rest

def readUIDs (mailbox : Bytes) : Prog (Except MailError (List UInt32)) := do
  match ← invoke (.getMessageUIDs mailbox) with
  | .error e => pure (.error (.storage e))
  | .ok uids => pure (if uids.length > maxMessageCount then .error .tooManyMessages else .ok uids)

-- CopyMessagesUIDs answers the UIDVALIDITY of the destination and the UIDs.
def copyMessagesUIDs (source dest seqSet : Bytes) : Prog (Except MailError (UInt32 × Copied)) := do
  match parseSequenceSet seqSet with
  | .error _ => pure (.error .sequenceSet)
  | .ok ranges =>
    match ← readUIDs source with
    | .error e => pure (.error e)
    | .ok uids =>
      match ← copyEach setup source dest ⟨[], [], []⟩ (selectUIDs ranges uids) with
      | .error e => pure (.error e)
      | .ok copied =>
        match ← invoke (.getMailbox dest) with
        | .error _ => pure (.ok (0, copied))
        | .ok validity => pure (.ok (validity, copied))

end Copy

section Move

variable (setup : Setup)

-- The write-back of the flags that were read, whatever happened in between.
def flagMoved (source : Bytes) : List UInt32 → Prog (Except MailError Unit)
  | [] => pure (.ok ())
  | uid :: rest => do
    match ← invoke (.getMessageMetadata source uid) with
    | .error e => pure (.error (.storage e))
    | .ok metadata =>
      if hasFlag metadata.flags deletedFlag then flagMoved source rest
      else
        match ← invoke (.updateMessageMetadata source uid
            { metadata with flags := metadata.flags ++ [deletedFlag] }) with
        | .error e => pure (.error (.storage e))
        | .ok () => flagMoved source rest

def moveMessagesUIDs (source dest seqSet : Bytes) : Prog (Except MailError (UInt32 × Copied)) := do
  match ← copyMessagesUIDs setup source dest seqSet with
  | .error e => pure (.error e)
  | .ok (validity, copied) =>
    match ← flagMoved source copied.source with
    | .error e => pure (.error e)
    | .ok () => pure (.ok (validity, copied))

end Move

section Expunge

-- Deletes the listed messages that carry the flag. Those that were deleted are
-- answered with their position and their blob. The first has position i.
def expungeEach (mailbox : Bytes) : List (Nat × UInt32) → Prog (List (Nat × UInt32 × BlobRef))
  | [] => pure []
  | (i, uid) :: rest => do
    match ← invoke (.getMessageMetadata mailbox uid) with
    | .error _ => expungeEach mailbox rest
    | .ok metadata =>
      if hasFlag metadata.flags deletedFlag then
        match ← invoke (.deleteMessage mailbox uid) with
        | .error _ => expungeEach mailbox rest
        | .ok () => do
          let removed ← expungeEach mailbox rest
          pure ((i, uid, ⟨metadata.messageID, metadata.size⟩) :: removed)
      else expungeEach mailbox rest

def positions (i : Nat) : List UInt32 → List (Nat × UInt32)
  | [] => []
  | uid :: rest => (i, uid) :: positions (i + 1) rest

def expungeReportLocked (mailbox : Bytes) :
    Prog (Except MailError (List UInt32 × List UInt32)) := do
  match ← invoke (.getMessageUIDs mailbox) with
  | .error e => pure (.error (.storage e))
  | .ok all =>
    let removed ← expungeEach mailbox (positions 1 all)
    releaseBlobs (removed.map fun r => r.2.2)
    pure (.ok (removed.map (fun r => UInt32.ofNat r.1), removed.map fun r => r.2.1))

def expungeReport (mailbox : Bytes) : Prog (Except MailError (List UInt32 × List UInt32)) := do
  invoke (.lock .expunge)
  let report ← expungeReportLocked mailbox
  invoke (.unlock .expunge)
  pure report

-- The positions are only for notifications, so a failed read of the list does
-- not matter.
def expungeUIDs (mailbox : Bytes) (uids : List UInt32) : Prog Unit := do
  invoke (.lock .expunge)
  let _ ← invoke (.getMessageUIDs mailbox)
  let removed ← expungeEach mailbox (positions 1 uids)
  releaseBlobs (removed.map fun r => r.2.2)
  invoke (.unlock .expunge)

end Expunge

section Mailboxes

def collectRefs (mailbox : Bytes) : List UInt32 → Prog (List BlobRef)
  | [] => pure []
  | uid :: rest => do
    match ← invoke (.getMessageMetadata mailbox uid) with
    | .error _ => collectRefs mailbox rest
    | .ok metadata => do
      let refs ← collectRefs mailbox rest
      pure (⟨metadata.messageID, metadata.size⟩ :: refs)

def mailboxRefs (mailbox : Bytes) : Prog (List BlobRef) := do
  match ← invoke (.getMessageUIDs mailbox) with
  | .error _ => pure []
  | .ok uids => collectRefs mailbox uids

-- The blobs are collected before the rows go and released after.
def deleteMailbox (mailbox : Bytes) : Prog (Except MailError Unit) := do
  let refs ← mailboxRefs mailbox
  match ← invoke (.deleteMailbox mailbox) with
  | .error e => pure (.error (.storage e))
  | .ok () => do
    releaseBlobs refs
    pure (.ok ())

def rollbackEach (mailbox : Bytes) : List UInt32 → Prog (List BlobRef)
  | [] => pure []
  | uid :: rest => do
    match ← invoke (.getMessageMetadata mailbox uid) with
    | .error _ => rollbackEach mailbox rest
    | .ok metadata =>
      match ← invoke (.deleteMessage mailbox uid) with
      | .error _ => rollbackEach mailbox rest
      | .ok () => do
        let refs ← rollbackEach mailbox rest
        pure (⟨metadata.messageID, metadata.size⟩ :: refs)

def rollbackAppended (mailbox : Bytes) (uids : List UInt32) : Prog Unit := do
  let refs ← rollbackEach mailbox uids
  releaseBlobs refs

end Mailboxes

section Flags

inductive FlagOperation
  | flagAdd
  | flagRemove
  | flagReplace
  deriving DecidableEq, Repr

def backslash : UInt8 := 92

variable (flags : List Bytes)

def countKeywords : Nat :=
  (flags.filter fun f => f.head? ≠ some backslash).length

def maxKeywordsPerMessage : Nat := 100

def normalizeStoreFlags : List Bytes :=
  flags.foldl (fun out f => if equalFold f recentFlag || hasFlag out f then out else out ++ [f]) []

def changedFlags (op : FlagOperation) (old : List Bytes) : List Bytes :=
  match op with
  | .flagAdd => flags.foldl (fun out f => if hasFlag out f then out else out ++ [f]) old
  | .flagRemove => old.filter fun f => !hasFlag flags f
  -- The server owns \Recent, so replacing the flags keeps it.
  | .flagReplace => if hasFlag old recentFlag then flags ++ [recentFlag] else flags

-- The callback of StoreFlags. It fails when a message gets too many keywords.
def updateFlags (op : FlagOperation) (metadata : MessageMetadata) : Option MessageMetadata :=
  let changed := changedFlags flags op metadata.flags
  if countKeywords changed > maxKeywordsPerMessage ∧
      countKeywords changed > countKeywords metadata.flags then none
  else some { metadata with flags := changed }

-- Goes on after an error, and answers the first one about keywords.
def storeEach (mailbox : Bytes) (flags : List Bytes) (op : FlagOperation) :
    List UInt32 → Prog (Except MailError Unit)
  | [] => pure (.ok ())
  | uid :: rest => do
    let updated ← invoke (.updateMessageMetadataFunc mailbox uid (updateFlags flags op))
    let others ← storeEach mailbox flags op rest
    pure (if updated matches .error .callback then .error .tooManyKeywords else others)

def storeFlags (mailbox seqSet : Bytes) (flags : List Bytes) (op : FlagOperation) :
    Prog (Except MailError Unit) := do
  match parseSequenceSet seqSet with
  | .error _ => pure (.error .sequenceSet)
  | .ok ranges =>
    match ← readUIDs mailbox with
    | .error e => pure (.error e)
    | .ok uids => storeEach mailbox (normalizeStoreFlags flags) op (selectUIDs ranges uids)

end Flags

section Delivery

variable (setup : Setup)

def inboxName : Bytes := bytes "INBOX"

def deliveryMetadata (data messageID : Bytes) (uid : UInt32) (flags : List Bytes) (date : Int)
    (threadID : Bytes) : MessageMetadata :=
  let headers := setup.deliveryHeaders data
  { messageID := messageID
    uid := uid
    flags := recentFlag :: flags
    internalDate := date
    size := data.length
    modSeq := 0
    subject := headers.subject
    date := headers.date
    fromAddr := headers.fromAddr
    toAddr := headers.toAddr
    inReplyTo := []
    references := []
    threadID := threadID
    isThreadRoot := decide (headers.inReplyTo = [] ∧ headers.references = []) }

-- Takes back what a delivery charged when no row came to refer to the blob.
def metaFail (messageID : Bytes) (reserved : Int) : Prog Unit :=
  if reserved > 0 then do
    let _ ← invoke (.deleteMessageUnchecked messageID)
    let _ ← invoke (.incrementQuota (-reserved))
    pure ()
  else pure ()

variable (folder : Bytes) (flags : List Bytes)

-- A folder other than INBOX may not exist yet. A failure is only logged.
def ensureFolder : Prog Unit :=
  if folder ≠ inboxName then do
    let _ ← invoke (.createMailbox folder)
    pure ()
  else pure ()

def deliverRow (data messageID : Bytes) (reserved : Int) : Prog (Except MailError UInt32) := do
  ensureFolder folder
  match ← invoke (.getNextUID folder) with
  | .error e =>
    metaFail messageID reserved
    pure (.error (.storage e))
  | .ok uid =>
    let threadID ← invoke .getOrCreateThreadID
    let date ← invoke .now
    match ← invoke (.storeMessageMetadata folder uid
        (deliveryMetadata setup data messageID uid flags date threadID)) with
    | .error e =>
      metaFail messageID reserved
      pure (.error (.storage e))
    | .ok () => pure (.ok uid)

def reserveDelivery (reserved : Int) : Prog (Except AccountError Unit) :=
  if reserved > 0 then invoke (.incrementQuota reserved) else pure (.ok ())

def releaseDelivery (reserved : Int) : Prog Unit :=
  if reserved > 0 then do
    let _ ← invoke (.incrementQuota (-reserved))
    pure ()
  else pure ()

def deliverLocked (data : Bytes) : Prog (Except MailError UInt32) := do
  let active ← invoke .getAccount
  if active then
    let known ← invoke (.messageExists (setup.hash data))
    let reserved : Int := if known then 0 else data.length
    match ← reserveDelivery reserved with
    | .error _ => pure (.error .mailboxFull)
    | .ok () =>
      match ← invoke (.storeMessage data) with
      | .error e =>
        releaseDelivery reserved
        pure (.error (.blob e))
      | .ok messageID => deliverRow setup folder flags data messageID reserved
  else pure (.error .noSuchUser)

-- deliverLocalHop from the point where the message is to be stored.
def deliverLocalHop (data : Bytes) : Prog (Except MailError UInt32) := do
  invoke (.lock .delivery)
  let delivered ← deliverLocked setup folder flags data
  invoke (.unlock .delivery)
  pure delivered

end Delivery

section Collector

def removeOrphans (referenced : List Bytes) : List Bytes → Prog Unit
  | [] => pure ()
  | id :: rest =>
    if id ∈ referenced then removeOrphans referenced rest
    else do
      match ← invoke (.removeOrphan id) with
      | .ok () | .error .notFound => removeOrphans referenced rest
      | .error _ => pure ()

def sweepOrphans : Prog Unit := do
  match ← invoke .orphanCandidates with
  | .error _ => pure ()
  | .ok candidates =>
    if candidates = [] then pure ()
    else
      match ← invoke (.blobReferenced candidates) with
      | .error _ => pure ()
      | .ok referenced => removeOrphans referenced candidates

def gcOrphanBlobs : Prog Unit := do
  invoke (.lock .guard)
  invoke (.lock .blobs)
  sweepOrphans
  invoke (.unlock .blobs)
  invoke (.unlock .guard)

end Collector

section MoveCommand

variable (setup : Setup)

def searchDeleted (mailbox : Bytes) : List (Nat × UInt32) → Prog (List Nat)
  | [] => pure []
  | (i, uid) :: rest => do
    match ← invoke (.getMessageMetadata mailbox uid) with
    | .error _ => searchDeleted mailbox rest
    | .ok metadata => do
      let found ← searchDeleted mailbox rest
      pure (if hasFlag metadata.flags deletedFlag then i :: found else found)

def fetchEach (mailbox : Bytes) : List (Nat × UInt32) → Prog (List (Nat × UInt32))
  | [] => pure []
  | (i, uid) :: rest => do
    match ← invoke (.getMessageMetadata mailbox uid) with
    | .error _ => fetchEach mailbox rest
    | .ok _ => do
      let messages ← fetchEach mailbox rest
      pure ((i, uid) :: messages)

-- The UIDs the second read has at the positions the first one found deleted.
def expungeTargets (deleted : List Nat) (messages : List (Nat × UInt32)) (moved : List UInt32) :
    List UInt32 :=
  (deleted.filterMap fun i => (messages.find? (·.1 = i)).map Prod.snd).filter (moved.contains ·)

def expungeUIDSubset (mailbox : Bytes) (moved : List UInt32) : Prog (Except MailError Unit) := do
  match ← invoke (.getMessageUIDs mailbox) with
  | .error e => pure (.error (.storage e))
  | .ok all =>
    let deleted ← searchDeleted mailbox (positions 1 all)
    if deleted = [] then pure (.ok ())
    else
      match ← readUIDs mailbox with
      | .error e => pure (.error e)
      | .ok uids =>
        let messages ← fetchEach mailbox
          (selectFrom [⟨1, 0⟩] (UInt32.ofNat uids.length) 1 uids)
        let targets := expungeTargets deleted messages moved
        if targets = [] then pure (.ok ())
        else do
          expungeUIDs mailbox targets
          pure (.ok ())

-- handleMove once the set has been translated and the destination found.
def moveLive (source dest seqSet : Bytes) : Prog (Except MailError Unit) := do
  match ← moveMessagesUIDs setup source dest seqSet with
  | .error e => pure (.error e)
  | .ok (_, copied) =>
    if copied.source = [] then pure (.ok ()) else expungeUIDSubset source copied.source

end MoveCommand

inductive Operation
  | append (mailbox : Bytes) (flags : List Bytes) (date : Int) (data : Bytes)
  | copy (source dest seqSet : Bytes)
  | move (source dest seqSet : Bytes)
  | expungeReport (mailbox : Bytes)
  | expungeUIDs (mailbox : Bytes) (uids : List UInt32)
  | deleteMailbox (mailbox : Bytes)
  | rollbackAppended (mailbox : Bytes) (uids : List UInt32)
  | deliver (folder : Bytes) (flags : List Bytes) (data : Bytes)

def Operation.program (setup : Setup) : Operation → Prog Unit
  | .append mailbox flags date data => do
    let _ ← appendMessageUID setup mailbox flags date data
    pure ()
  | .copy source dest seqSet => do
    let _ ← copyMessagesUIDs setup source dest seqSet
    pure ()
  | .move source dest seqSet => do
    let _ ← moveLive setup source dest seqSet
    pure ()
  | .expungeReport mailbox => do
    let _ ← Mailstore.expungeReport mailbox
    pure ()
  | .expungeUIDs mailbox uids => Mailstore.expungeUIDs mailbox uids
  | .deleteMailbox mailbox => do
    let _ ← Mailstore.deleteMailbox mailbox
    pure ()
  | .rollbackAppended mailbox uids => Mailstore.rollbackAppended mailbox uids
  | .deliver folder flags data => do
    let _ ← deliverLocalHop setup folder flags data
    pure ()

def Operation.session (setup : Setup) : List Operation → Prog Unit
  | [] => pure ()
  | op :: rest => do
    op.program setup
    session setup rest

end UMail.Mailstore
