import UMail.Mailstore.Operations

namespace UMail.Mailstore

open Concurrency UMail.Storage UMail.Db UMail.Imap

def Call.Reads : Call → Prop
  | .getAccount | .quotaLimit | .messageExists _ | .readMessage _ | .orphanCandidates => True
  | .blobReferenced _ | .mapOrder _ | .listedMailbox _ | .getMailbox _ | .getMessageUIDs _ => True
  | .getMessageMetadata _ _ | .getOrCreateThreadID | .getThreadMessages | .now => True
  | _ => False

def Call.OnBlobs : Call → Prop
  | .lock _ | .unlock _ | .quotaLimit | .incrementQuota _ | .messageExists _ => True
  | .storeMessage _ | .storeMessageWithQuota _ _ | .readMessage _ | .deleteMessageUnchecked _ => True
  | .blobReferenced _ | .mapOrder _ => True
  | _ => False

-- Which calls the parts of the operations make that need no lock of their own.
section Reading

variable {allowed : Call → Prop} (hread : ∀ c : Call, c.Reads → allowed c)
include hread

theorem threadOf_calls (headers : Headers) : (threadOf headers).Calls allowed := by
  refine .next (hread _ trivial) fun threadID => ?_
  dsimp only
  split_ifs
  · exact .next (hread _ trivial) fun _ => trivial
  · trivial

theorem finish_calls (mailbox : Bytes) (uid : UInt32) :
    (appendMessageUID.finish mailbox uid).Calls allowed := by
  exact .next (hread _ trivial) fun validity => by cases validity <;> trivial

theorem readUIDs_calls (mailbox : Bytes) : (readUIDs mailbox).Calls allowed := by
  exact .next (hread _ trivial) fun uids => by cases uids <;> trivial

theorem collectRefs_calls (mailbox : Bytes) (uids : List UInt32) :
    (collectRefs mailbox uids).Calls allowed := by
  induction uids with
  | nil => trivial
  | cons uid rest ih =>
    refine .next (hread _ trivial) fun metadata => ?_
    cases metadata with
    | error e => exact ih
    | ok metadata => exact .bind ih fun _ => trivial

theorem mailboxRefs_calls (mailbox : Bytes) : (mailboxRefs mailbox).Calls allowed := by
  refine .next (hread _ trivial) fun uids => ?_
  cases uids with
  | error e => trivial
  | ok uids => exact collectRefs_calls hread mailbox uids

theorem searchDeleted_calls (mailbox : Bytes) (targets : List (Nat × UInt32)) :
    (searchDeleted mailbox targets).Calls allowed := by
  induction targets with
  | nil => trivial
  | cons target rest ih =>
    refine .next (hread _ trivial) fun metadata => ?_
    cases metadata with
    | error e => exact ih
    | ok metadata => exact .bind ih fun _ => trivial

theorem fetchEach_calls (mailbox : Bytes) (targets : List (Nat × UInt32)) :
    (fetchEach mailbox targets).Calls allowed := by
  induction targets with
  | nil => trivial
  | cons target rest ih =>
    refine .next (hread _ trivial) fun metadata => ?_
    cases metadata with
    | error e => exact ih
    | ok metadata => exact .bind ih fun _ => trivial

theorem flagMoved_calls (hupdate : ∀ mailbox uid metadata,
      allowed (.updateMessageMetadata mailbox uid metadata)) (source : Bytes) (uids : List UInt32) :
    (flagMoved source uids).Calls allowed := by
  induction uids with
  | nil => trivial
  | cons uid rest ih =>
    refine .next (hread _ trivial) fun metadata => ?_
    rcases metadata with e | metadata
    · trivial
    dsimp only
    split_ifs
    · exact ih
    refine .next (hupdate _ _ _) fun written => ?_
    cases written with
    | error e => trivial
    | ok _ => exact ih

variable (hdelete : ∀ mailbox uid, allowed (.deleteMessage mailbox uid))
include hdelete

theorem expungeEach_calls (mailbox : Bytes) (targets : List (Nat × UInt32)) :
    (expungeEach mailbox targets).Calls allowed := by
  induction targets with
  | nil => trivial
  | cons target rest ih =>
    refine .next (hread _ trivial) fun metadata => ?_
    rcases metadata with e | metadata
    · exact ih
    dsimp only
    split_ifs
    · refine .next (hdelete _ _) fun deleted => ?_
      cases deleted with
      | error e => exact ih
      | ok _ => exact .bind ih fun _ => trivial
    · exact ih

theorem rollbackEach_calls (mailbox : Bytes) (uids : List UInt32) :
    (rollbackEach mailbox uids).Calls allowed := by
  induction uids with
  | nil => trivial
  | cons uid rest ih =>
    refine .next (hread _ trivial) fun metadata => ?_
    rcases metadata with e | metadata
    · exact ih
    refine .next (hdelete _ _) fun deleted => ?_
    cases deleted with
    | error e => exact ih
    | ok _ => exact .bind ih fun _ => trivial

end Reading

section Writing

variable {allowed : Call → Prop}

theorem releaseSize_calls (hread : ∀ id, allowed (.readMessage id)) (id : Bytes) {size : Int} :
    (releaseSize id size).Calls allowed := by
  unfold releaseSize
  split_ifs
  · exact .next (hread id) fun data => by cases data <;> trivial
  · trivial

theorem deleteMessages_calls (hdelete : ∀ mailbox uid, allowed (.deleteMessage mailbox uid))
    (mailbox : Bytes) (uids : List UInt32) : (deleteMessages mailbox uids).Calls allowed := by
  induction uids with
  | nil => trivial
  | cons uid rest ih =>
    exact .next (hdelete _ _) fun _ => ih

theorem ensureFolder_calls (hcreate : ∀ mailbox, allowed (.createMailbox mailbox))
    {folder : Bytes} : (ensureFolder folder).Calls allowed := by
  unfold ensureFolder
  split_ifs
  · exact .next (hcreate _) fun _ => trivial
  · trivial

variable (hquota : ∀ delta, allowed (.incrementQuota delta))
include hquota

theorem adjustQuota_calls (delta : Int) : (adjustQuota delta).Calls allowed := by
  unfold adjustQuota
  split_ifs
  · trivial
  · exact .perform (hquota _)

theorem reserveDelivery_calls (reserved : Int) : (reserveDelivery reserved).Calls allowed := by
  unfold reserveDelivery
  split_ifs
  · exact .perform (hquota _)
  · trivial

theorem releaseDelivery_calls (reserved : Int) : (releaseDelivery reserved).Calls allowed := by
  unfold releaseDelivery
  split_ifs
  · exact .next (hquota _) fun _ => trivial
  · trivial

end Writing

section OnBlobs

variable {allowed : Call → Prop} (hblob : ∀ c : Call, c.OnBlobs → allowed c)
include hblob

theorem storeWithinLimit_calls (data : Bytes) : (storeWithinLimit data).Calls allowed := by
  refine .next (hblob _ trivial) fun limit => ?_
  split_ifs
  · exact .next (hblob _ trivial) fun _ => .perform (hblob _ trivial)
  · exact .perform (hblob _ trivial)

theorem storeBlob_calls (setup : Setup) (data : Bytes) : (storeBlob setup data).Calls allowed := by
  have hquota : ∀ delta, (adjustQuota delta).Calls allowed :=
    adjustQuota_calls fun _ => hblob _ trivial
  refine .next (hblob _ trivial) fun known => .bind (hquota _) fun adjusted => ?_
  rcases adjusted with e | _
  · trivial
  refine .bind (storeWithinLimit_calls hblob data) fun stored => ?_
  cases stored with
  | error e => exact .bind (hquota _) fun _ => trivial
  | ok id => trivial

theorem releaseOne_calls (id : Bytes) (size : Int) : (releaseOne id size).Calls allowed := by
  refine .bind (releaseSize_calls (fun _ => hblob _ trivial) id) fun size =>
    .next (hblob _ trivial) fun removed => ?_
  cases removed with
  | error e => trivial
  | ok _ => exact .bind (adjustQuota_calls (fun _ => hblob _ trivial) _) fun _ => trivial

theorem releaseEach_calls (referenced : List Bytes) (refs : List BlobRef) (ids : List Bytes) :
    (releaseEach referenced refs ids).Calls allowed := by
  induction ids with
  | nil => trivial
  | cons id rest ih =>
    refine .bind ?_ fun _ => ih
    unfold releaseUnreferenced
    split_ifs
    · trivial
    · exact releaseOne_calls hblob _ _

theorem releaseBlobsLocked_calls (refs : List BlobRef) :
    (releaseBlobsLocked refs).Calls allowed := by
  unfold releaseBlobsLocked
  split_ifs
  · trivial
  refine .next (hblob _ trivial) fun referenced => ?_
  cases referenced with
  | error e => trivial
  | ok referenced =>
    exact .next (hblob _ trivial) fun order => releaseEach_calls hblob _ _ _

theorem releaseBlobs_calls (refs : List BlobRef) : (releaseBlobs refs).Calls allowed := by
  unfold releaseBlobs
  split_ifs
  · trivial
  · exact .next (hblob _ trivial) fun _ => .bind (releaseBlobsLocked_calls hblob refs)
      fun _ => .perform (hblob _ trivial)

theorem copyOne_calls (hread : ∀ c : Call, c.Reads → allowed c) (setup : Setup) {dest : Bytes}
    (hnext : allowed (.getNextUID dest))
    (hstore : ∀ metadata id uid,
      allowed (.storeMessageMetadata dest uid (copyMetadata metadata id uid)))
    (source : Bytes) (uid : UInt32) : (copyOne setup source dest uid).Calls allowed := by
  refine .next (hblob _ trivial) fun _ => .bind ?_ fun _ =>
    .next (hblob _ trivial) fun _ => trivial
  refine .next (hread _ trivial) fun metadata => ?_
  rcases metadata with e | metadata
  · trivial
  refine .next (hread _ trivial) fun data => ?_
  rcases data with e | data
  · trivial
  refine .next hnext fun newUID => ?_
  rcases newUID with e | newUID
  · trivial
  refine .bind (storeBlob_calls hblob setup data) fun stored => ?_
  rcases stored with e | newID
  · trivial
  refine .next (hstore _ _ _) fun written => ?_
  cases written with
  | error e => exact .bind (releaseBlobsLocked_calls hblob _) fun _ => trivial
  | ok _ => trivial

end OnBlobs

-- What holds of a program with quiet calls only, and of one of whose parts it holds.
structure Composes (quiet : Call → Prop) (holds : (α : Type) → Prog α → Prop) : Prop where
  reads : ∀ c : Call, c.Reads → quiet c
  looking : ∀ {α : Type} {program : Prog α}, program.Calls quiet → holds α program
  bind : ∀ {α β : Type} {program : Prog α} {rest : α → Prog β}, holds α program →
    (∀ value, holds β (rest value)) → holds β (program >>= rest)

structure Expunges (quiet : Call → Prop) (holds : (α : Type) → Prog α → Prop) : Prop
    extends Composes quiet holds where
  lock : quiet (.lock .expunge)
  unlock : quiet (.unlock .expunge)
  delete : ∀ mailbox uid, quiet (.deleteMessage mailbox uid)
  release : ∀ refs, holds Unit (releaseBlobs refs)

theorem expunges_calls {allowed : Call → Prop} (hblob : ∀ c : Call, c.OnBlobs → allowed c)
    (hread : ∀ c : Call, c.Reads → allowed c)
    (hdelete : ∀ mailbox uid, allowed (.deleteMessage mailbox uid)) :
    Expunges allowed fun _ program => program.Calls allowed where
  reads := hread
  looking h := h
  bind := .bind
  lock := hblob _ trivial
  unlock := hblob _ trivial
  delete := hdelete
  release := releaseBlobs_calls hblob

section Composed

variable {quiet : Call → Prop} {holds : (α : Type) → Prog α → Prop} {setup : Setup}
  {source dest : Bytes}

theorem Composes.expungeUIDSubset (h : Composes quiet holds) {mailbox : Bytes} {moved : List UInt32}
    (hexpunge : ∀ uids ⊆ moved, holds _ (expungeUIDs mailbox uids)) :
    holds _ (expungeUIDSubset mailbox moved) := by
  refine h.bind (h.looking (.perform (h.reads _ trivial))) fun all => ?_
  rcases all with e | all
  · exact h.looking trivial
  refine h.bind (h.looking (searchDeleted_calls h.reads _ _)) fun deleted => ?_
  split_ifs
  · exact h.looking trivial
  refine h.bind (h.looking (readUIDs_calls h.reads mailbox)) fun uids => ?_
  rcases uids with e | uids
  · exact h.looking trivial
  refine h.bind (h.looking (fetchEach_calls h.reads _ _)) fun messages => ?_
  dsimp only
  split_ifs
  · exact h.looking trivial
  · refine h.bind (hexpunge _ fun uid huid => ?_) fun _ => h.looking trivial
    simpa using (List.mem_filter.mp huid).2

namespace Expunges

variable (h : Expunges quiet holds)
include h

theorem copyEach (hcopy : ∀ uid, holds _ (copyOne setup source dest uid)) (copied : Copied)
    (uids : List UInt32) : holds _ (copyEach setup source dest copied uids) := by
  induction uids generalizing copied with
  | nil => exact h.looking trivial
  | cons uid rest ih =>
    refine h.bind (hcopy uid) fun one => ?_
    cases one with
    | error e =>
      refine h.bind (h.bind ?_ fun _ => h.release _) fun _ => h.looking trivial
      exact h.looking (deleteMessages_calls h.delete _ _)
    | ok one => exact ih _

theorem copyMessagesUIDs (hcopy : ∀ uid, holds _ (copyOne setup source dest uid)) (seqSet : Bytes) :
    holds _ (copyMessagesUIDs setup source dest seqSet) := by
  unfold Mailstore.copyMessagesUIDs
  split
  · exact h.looking trivial
  refine h.bind (h.looking (readUIDs_calls h.reads source)) fun uids => ?_
  rcases uids with e | uids
  · exact h.looking trivial
  refine h.bind (h.copyEach hcopy _ _) fun copied => ?_
  rcases copied with e | copied
  · exact h.looking trivial
  refine h.looking (.next (h.reads _ trivial) fun validity => ?_)
  cases validity <;> trivial

variable (mailbox : Bytes)

theorem expungeReport : holds _ (expungeReport mailbox) := by
  refine h.bind (h.looking (.perform h.lock)) fun _ => h.bind ?_ fun _ =>
    h.looking (.next h.unlock fun _ => trivial)
  refine h.bind (h.looking (.perform (h.reads _ trivial))) fun all => ?_
  rcases all with e | all
  · exact h.looking trivial
  exact h.bind (h.looking (expungeEach_calls h.reads h.delete _ _)) fun _ =>
    h.bind (h.release _) fun _ => h.looking trivial

theorem expungeUIDs (uids : List UInt32) : holds _ (expungeUIDs mailbox uids) := by
  refine h.bind (h.looking (.perform h.lock)) fun _ => ?_
  refine h.bind (h.looking (.perform (h.reads _ trivial))) fun _ => ?_
  exact h.bind (h.looking (expungeEach_calls h.reads h.delete _ _)) fun _ =>
    h.bind (h.release _) fun _ => h.looking (.perform h.unlock)

theorem moveLive (hupdate : ∀ mailbox uid metadata, quiet (.updateMessageMetadata mailbox uid metadata))
    (hcopy : ∀ uid, holds _ (copyOne setup source dest uid)) (seqSet : Bytes) :
    holds _ (moveLive setup source dest seqSet) := by
  refine h.bind (h.bind (h.copyMessagesUIDs hcopy seqSet) fun copied => ?_) fun moved => ?_
  · rcases copied with e | copied
    · exact h.looking trivial
    refine h.bind (h.looking (flagMoved_calls h.reads hupdate _ _)) fun flagged => ?_
    cases flagged <;> exact h.looking trivial
  · rcases moved with e | moved
    · exact h.looking trivial
    dsimp only
    split_ifs
    · exact h.looking trivial
    · exact h.expungeUIDSubset fun uids _ => h.expungeUIDs source uids

end Expunges

end Composed

end UMail.Mailstore
