import UMail.Mailstore.Machine.Theorems
import UMail.Storage.MessageStore.Theorems
import UMail.Storage.ModSeq

namespace UMail.Mailstore

open Concurrency UMail.Storage UMail.Db

abbrev Rows := Bytes → UInt32 → Option MessageMetadata

def Referenced (rows : Rows) (id : Bytes) : Prop :=
  ∃ mailbox uid row, rows mailbox uid = some row ∧ row.messageID = id

-- What accounting and garbage collection are about: the charged bytes, the
-- message files, and the rows that refer to them.
structure Books where
  account : AccountData
  blobs : Blobs
  row : Rows

def books (setup : Setup) (s : State) : Books :=
  ⟨s.account, s.blobs, fun mailbox uid => s.db.row setup.user mailbox uid⟩

def Books.setRow (b : Books) (mailbox : Bytes) (uid : UInt32) (row : Option MessageMetadata) :
    Books :=
  { b with row := fun box u => if mailbox = box ∧ uid = u then row else b.row box u }

def Books.dropMailbox (b : Books) (mailbox : Bytes) : Books :=
  { b with row := fun box u => if mailbox = box then none else b.row box u }

def Books.putBlob (b : Books) (id : Bytes) (blob : Blob) : Books :=
  { b with blobs := b.blobs.insert id blob }

def Books.removeBlob (b : Books) (id : Bytes) : Books := { b with blobs := b.blobs.erase id }

section Fields

variable (b : Books) (mailbox box id : Bytes) (uid u : UInt32) (row : Option MessageMetadata)
  (blob : Blob)

theorem Books.setRow_row : (b.setRow mailbox uid row).row box u =
    if mailbox = box ∧ uid = u then row else b.row box u := rfl

theorem Books.dropMailbox_row :
    (b.dropMailbox mailbox).row box u = if mailbox = box then none else b.row box u := rfl

@[simp] theorem Books.putBlob_account : (b.putBlob id blob).account = b.account := rfl

@[simp] theorem Books.putBlob_blobs : (b.putBlob id blob).blobs = b.blobs.insert id blob := rfl

@[simp] theorem Books.putBlob_row : (b.putBlob id blob).row = b.row := rfl

@[simp] theorem Books.removeBlob_account : (b.removeBlob id).account = b.account := rfl

@[simp] theorem Books.removeBlob_blobs : (b.removeBlob id).blobs = b.blobs.erase id := rfl

@[simp] theorem Books.removeBlob_row : (b.removeBlob id).row = b.row := rfl

end Fields

def StoredAs (metadata row : MessageMetadata) : Prop :=
  ∃ modSeq, row = { metadata.normalize with modSeq := modSeq }

variable {metadata row : MessageMetadata}

theorem StoredAs.messageID (h : StoredAs metadata row) : row.messageID = metadata.messageID := by
  obtain ⟨_, rfl⟩ := h
  rfl

theorem StoredAs.size (h : StoredAs metadata row) : row.size = metadata.size := by
  obtain ⟨_, rfl⟩ := h
  rfl

def BlobStored (setup : Setup) (data : Bytes) (result : Except BlobError Bytes) (b b' : Books) :
    Prop :=
  (∃ e, result = .error e ∧ b' = b) ∨
    (result = .ok (setup.hash data) ∧
      ∃ blob, blob.data.length = data.length ∧ b' = b.putBlob (setup.hash data) blob)

def Transacted (result : Except StorageError Unit) (b b' : Books) (changed : Books → Prop) : Prop :=
  (∃ e, result = .error e ∧ b' = b) ∨ (result = .ok () ∧ changed b')

-- All that one call can do to the books, and what its answer says about them.
def BooksStep (setup : Setup) (choice : Choice) : (c : Call) → c.Result → Books → Books → Prop
  | .incrementQuota delta, result, b, b' =>
    (∃ e, result = .error e ∧ b' = b ∧
      (choice.fault = true ∨ b.account.incrementQuota delta = .error e)) ∨
    (result = .ok () ∧ choice.fault = false ∧
      ∃ account, b.account.incrementQuota delta = .ok account ∧ b' = { b with account := account })
  | .messageExists id, known, b, b' => b' = b ∧ (known = true → b.blobs[id]?.isSome) ∧
      (choice.fault = false → isValidMessageID id = true → known = b.blobs[id]?.isSome)
  | .storeMessage data, result, b, b' | .storeMessageWithQuota data _, result, b, b' =>
    BlobStored setup data result b b'
  | .readMessage id, result, b, b' => b' = b ∧ ∀ data, result = .ok data →
      isValidMessageID id = true ∧ ∃ blob, b.blobs[id]? = some blob ∧ blob.data = data
  | .deleteMessageUnchecked id, result, b, b' =>
    (∃ e, result = .error e ∧ b' = b ∧ (choice.fault = false → isValidMessageID id = true →
      b.blobs[id]? = none)) ∨
    (result = .ok () ∧ isValidMessageID id = true ∧
      ∃ blob, b.blobs[id]? = some blob ∧ b' = b.removeBlob id)
  | .removeOrphan id, _, b, b' => b' = b ∨ b' = b.removeBlob id
  | .blobReferenced ids, result, b, b' => b' = b ∧ ∀ referenced, result = .ok referenced →
      ∀ id ∈ ids, id ∉ referenced → ¬ Referenced b.row id
  | .mapOrder ids, order, b, b' => b' = b ∧ order.Perm ids
  | .getMessageUIDs mailbox, result, b, b' => b' = b ∧ ∀ uids, result = .ok uids →
      uids.Nodup ∧ ∀ uid, uid ∈ uids ↔ (b.row mailbox uid).isSome
  | .getMessageMetadata mailbox uid, result, b, b' => b' = b ∧ ∀ metadata, result = .ok metadata →
      metadata = (b.row mailbox uid).getD .empty
  | .storeMessageMetadata mailbox uid metadata, result, b, b'
  | .updateMessageMetadata mailbox uid metadata, result, b, b' =>
    Transacted result b b' fun out => ∃ row, StoredAs metadata row ∧
      out = b.setRow mailbox uid (some row)
  | .updateMessageMetadataFunc mailbox uid fn, result, b, b' =>
    Transacted result b b' fun out => out = b ∨ ∃ prev changed row,
      b.row mailbox uid = some prev ∧ fn prev = some changed ∧
      row.messageID = changed.messageID ∧ row.size = changed.size ∧
      out = b.setRow mailbox uid (some row)
  | .deleteMessage mailbox uid, result, b, b' =>
    Transacted result b b' fun out => out = b.setRow mailbox uid none
  | .deleteMailbox mailbox, result, b, b' =>
    Transacted result b b' fun out => out = b.dropMailbox mailbox
  | _, _, b, b' => b' = b

def Call.WritesRows : Call → Prop
  | .storeMessageMetadata _ _ _ | .updateMessageMetadata _ _ _ => True
  | .updateMessageMetadataFunc _ _ _ | .deleteMessage _ _ | .deleteMailbox _ => True
  | _ => False

theorem BooksStep.row_eq {setup : Setup} {choice : Choice} {c : Call} {result : c.Result}
    {b b' : Books} (h : BooksStep setup choice c result b b') (hc : ¬ c.WritesRows) :
    b'.row = b.row := by
  cases c
  case storeMessageMetadata | updateMessageMetadata | updateMessageMetadataFunc | deleteMessage
      | deleteMailbox => exact absurd trivial hc
  case storeMessage | storeMessageWithQuota =>
    rcases h with ⟨_, _, rfl⟩ | ⟨_, _, _, rfl⟩ <;> rfl
  case incrementQuota | deleteMessageUnchecked =>
    rcases h with ⟨_, _, rfl, _⟩ | ⟨_, _, _, _, rfl⟩ <;> rfl
  case removeOrphan =>
    rcases h with rfl | rfl <;> rfl
  case messageExists | readMessage | blobReferenced | mapOrder | getMessageUIDs
      | getMessageMetadata =>
    rw [h.1]
  all_goals
    rw [show b' = b from h]

section Steps

variable {setup : Setup} {thread : Nat} {choice : Choice} {s s' : State} {db : Database}
  {user mailbox : Bytes} {uid : UInt32} {c : Call}

theorem blobStored_of_stores {data : Bytes} {result : Except BlobError Bytes × Blobs}
    (h : Stores setup.hash s.blobs data result) :
    BlobStored setup data result.1 (books setup s) (books setup { s with blobs := result.2 }) := by
  rcases h with ⟨e, rfl⟩ | ⟨blob, hlen, -, rfl⟩
  · exact .inl ⟨e, rfl, rfl⟩
  · exact .inr ⟨rfl, blob, hlen, rfl⟩

theorem eq_of_view {α : Type} {choice : Choice} {value found : α} (h : view choice value = .ok found) :
    found = value := by
  unfold view at h
  split_ifs at h
  cases h
  rfl

-- A blob that no row of the user holds is the only kind the scan lets go.
theorem blobReferenced_of_row {row : MessageMetadata} (h : db.row user mailbox uid = some row) :
    db.blobReferenced user row.messageID = true := by
  obtain ⟨rows, hrows, hrow⟩ := Option.bind_eq_some_iff.mp h
  unfold Database.blobReferenced
  rw [Bool.or_eq_true]
  refine .inr (List.any_eq_true.mpr ⟨(messagesBucket user mailbox, rows),
    Std.ExtTreeMap.mem_toList_iff_getElem?_eq_some.mpr hrows, ?_⟩)
  rw [Bool.and_eq_true]
  refine ⟨messagesPrefix_isPrefixOf.mpr rfl, List.any_eq_true.mpr ⟨(uid, row),
    Std.ExtTreeMap.mem_toList_iff_getElem?_eq_some.mpr hrow, by simp⟩⟩

theorem mem_getMessageUIDs :
    uid ∈ db.getMessageUIDs user mailbox ↔ (db.row user mailbox uid).isSome := by
  unfold Database.getMessageUIDs
  rw [Std.ExtTreeMap.mem_keys, Std.ExtTreeMap.mem_iff_isSome_getElem?, row_getD]

theorem transacted_of_update {env : Env} {tx : Database → Except StorageError (Unit × Database)}
    {changed : Books → Prop}
    (h : ∀ db', tx s.db = .ok ((), db') → changed (books setup { s with db := db' })) :
    Transacted (s.db.update env tx).1 (books setup s)
      (books setup { s with db := (s.db.update env tx).2 }) changed :=
  update_cases (motive := fun out => Transacted out.1 (books setup s)
      (books setup { s with db := out.2 }) changed)
    (fun e => .inl ⟨e, rfl, rfl⟩) fun _ db' _ htx => .inr ⟨rfl, h db' htx⟩

theorem books_row_ext {b b' : Books} (haccount : b.account = b'.account)
    (hblobs : b.blobs = b'.blobs) (hrow : ∀ mailbox uid, b.row mailbox uid = b'.row mailbox uid) :
    b = b' := by
  cases b
  cases b'
  simp only [Books.mk.injEq]
  exact ⟨haccount, hblobs, funext fun mailbox => funext fun uid => hrow mailbox uid⟩

variable (env : Env) {result : c.Result}

theorem transacted_storeMessageMetadata (mailbox : Bytes) (uid : UInt32)
    (metadata : MessageMetadata) :
    Transacted (s.db.storeMessageMetadata env setup.user mailbox uid (some metadata)).1
      (books setup s)
      (books setup { s with
        db := (s.db.storeMessageMetadata env setup.user mailbox uid (some metadata)).2 })
      fun out => ∃ row, StoredAs metadata row ∧
        out = (books setup s).setRow mailbox uid (some row) := by
  refine transacted_of_update fun db' htx => ?_
  cases htx
  refine ⟨_, ⟨storedModSeq s.db setup.user mailbox uid metadata.normalize.modSeq, rfl⟩, ?_⟩
  refine books_row_ext rfl rfl fun box u => ?_
  simp only [books, row_storeMessageMetadataTx, true_and, Books.setRow_row]

theorem transacted_updateMessageMetadataFunc (mailbox : Bytes) (uid : UInt32)
    (fn : MessageMetadata → Option MessageMetadata) :
    Transacted (s.db.updateMessageMetadataFunc env setup.user mailbox uid fn).1 (books setup s)
      (books setup { s with db := (s.db.updateMessageMetadataFunc env setup.user mailbox uid fn).2 })
      fun out => out = books setup s ∨ ∃ prev changed row,
        (books setup s).row mailbox uid = some prev ∧ fn prev = some changed ∧
        row.messageID = changed.messageID ∧ row.size = changed.size ∧
        out = (books setup s).setRow mailbox uid (some row) := by
  refine transacted_of_update fun db' htx => ?_
  rcases updateMessageMetadataFuncTx_cases htx with rfl | ⟨prev, changed, hold, hfn, _, hrows⟩
  · exact .inl rfl
  refine .inr ⟨prev, changed, { changed with
    flags := normalizeFlags changed.flags
    modSeq := s.db.getHighestModSeq setup.user mailbox + 1 }, hold, hfn, rfl, rfl,
    books_row_ext rfl rfl fun box u => ?_⟩
  simp only [books, hrows, true_and, Books.setRow_row]

theorem transacted_deleteMessage (mailbox : Bytes) (uid : UInt32) :
    Transacted (s.db.deleteMessage env setup.user mailbox uid).1 (books setup s)
      (books setup { s with db := (s.db.deleteMessage env setup.user mailbox uid).2 })
      fun out => out = (books setup s).setRow mailbox uid none := by
  refine transacted_of_update fun db' htx => ?_
  cases htx
  refine books_row_ext rfl rfl fun box u => ?_
  simp only [books, row_deleteMessageTx, true_and, Books.setRow_row]

theorem transacted_deleteMailbox (mailbox : Bytes) :
    Transacted (s.db.deleteMailbox env setup.user mailbox).1 (books setup s)
      (books setup { s with db := (s.db.deleteMailbox env setup.user mailbox).2 })
      fun out => out = (books setup s).dropMailbox mailbox := by
  have hdropped : ∀ db' : Database, (∀ other box, db'.messagesOf other box =
      (deleteMailboxTx setup.user mailbox s.db).messagesOf other box) →
      books setup { s with db := db' } = (books setup s).dropMailbox mailbox := by
    intro db' hdb
    refine books_row_ext rfl rfl fun box u => ?_
    simp only [books, Database.row, hdb, deleteMailboxTx, messagesOf_dropMailbox, true_and,
      messagesOf_recordUIDValidityFloorTx, Books.dropMailbox_row]
    split_ifs <;> rfl
  unfold Database.deleteMailbox
  split
  · exact .inl ⟨_, rfl, rfl⟩
  split
  · exact .inl ⟨_, rfl, rfl⟩
  refine .inr ⟨rfl, ?_⟩
  split_ifs
  · exact hdropped _ fun _ _ => rfl
  · exact hdropped _ fun _ _ => rfl

theorem exec_books (h : exec setup thread choice s c = some (result, s')) :
    BooksStep setup choice c result (books setup s) (books setup s') := by
  cases c
  case lock | unlock =>
    simp only [exec] at h
    split_ifs at h
    cases h
    rfl
  case mapOrder ids =>
    simp only [exec] at h
    split_ifs at h with hperm
    cases h
    exact ⟨rfl, List.isPerm_iff.mp hperm⟩
  case incrementQuota delta =>
    simp only [exec] at h
    unfold State.incrementQuota at h
    split_ifs at h with hfault
    · cases h
      exact .inl ⟨_, rfl, rfl, .inl hfault⟩
    cases hacc : s.account.incrementQuota delta with
    | error e =>
      rw [hacc] at h
      cases h
      exact .inl ⟨e, rfl, rfl, .inr hacc⟩
    | ok account =>
      rw [hacc] at h
      cases h
      exact .inr ⟨rfl, by simpa using hfault, account, hacc, rfl⟩
  case messageExists id =>
    cases h
    refine ⟨rfl, fun hknown => ?_, fun hfault hvalid => ?_⟩
    · simp only [Blobs.messageExists, Bool.and_eq_true] at hknown
      exact hknown.2
    · have hdisk : choice.disk.fault = false := hfault
      simp [Blobs.messageExists, books, hvalid, hdisk]
  case storeMessage data =>
    simp only [exec] at h
    obtain ⟨_, rfl, rfl⟩ := blobCall_eq_some h
    exact blobStored_of_stores (stores_storeMessage setup.hash choice.disk s.blobs data)
  case storeMessageWithQuota data limit =>
    simp only [exec] at h
    obtain ⟨_, rfl, rfl⟩ := blobCall_eq_some h
    exact blobStored_of_stores (stores_storeMessageWithQuota setup.hash choice.disk s.blobs data limit)
  case readMessage id =>
    cases h
    refine ⟨rfl, fun data hdata => ?_⟩
    unfold Blobs.readMessage at hdata
    split_ifs at hdata with hvalid
    split at hdata
    · cases hdata
    rename_i blob hblob
    split_ifs at hdata
    cases hdata
    exact ⟨by simpa using hvalid, blob, hblob, rfl⟩
  case deleteMessageUnchecked id =>
    simp only [exec] at h
    obtain ⟨_, rfl, rfl⟩ := blobCall_eq_some h
    unfold Blobs.deleteMessageUnchecked Blobs.remove
    split_ifs with hvalid hfault
    · exact .inl ⟨_, rfl, rfl, fun _ hv => by simp [hv] at hvalid⟩
    · exact .inl ⟨_, rfl, rfl, fun hf _ => by simp [Choice.disk, hf] at hfault⟩
    · split
      · rename_i hnone
        exact .inl ⟨_, rfl, rfl, fun _ _ => hnone⟩
      · rename_i blob hblob
        exact .inr ⟨rfl, by simpa using hvalid, blob, hblob, rfl⟩
  case orphanCandidates =>
    simp only [exec] at h
    obtain ⟨_, rfl, rfl⟩ := sweepCall_eq_some h
    rfl
  case removeOrphan id =>
    simp only [exec] at h
    obtain ⟨_, rfl, rfl⟩ := sweepCall_eq_some h
    unfold Blobs.remove
    split_ifs
    · exact .inl rfl
    · split
      · exact .inl rfl
      · exact .inr rfl
  case blobReferenced ids =>
    cases h
    refine ⟨rfl, fun referenced hview id hid hout hheld => ?_⟩
    obtain ⟨mailbox, uid, row, hrow, rfl⟩ := hheld
    rw [eq_of_view hview] at hout
    exact hout (List.mem_filter.mpr ⟨hid, blobReferenced_of_row hrow⟩)
  case getMessageUIDs mailbox =>
    cases h
    refine ⟨rfl, fun uids hview => ?_⟩
    rw [eq_of_view hview]
    exact ⟨Std.ExtTreeMap.nodup_keys, fun uid => mem_getMessageUIDs⟩
  case getMessageMetadata mailbox uid =>
    cases h
    exact ⟨rfl, fun metadata hview => eq_of_view hview⟩
  case createMailbox mailbox =>
    cases h
    refine update_cases (motive := fun out => books setup { s with db := out.2 } = books setup s)
      (fun _ => rfl) fun _ db' _ htx => ?_
    exact books_row_ext rfl rfl fun box uid => (createMailboxTx_kept htx).2 setup.user box uid
  case getNextUID mailbox =>
    cases h
    refine update_cases (motive := fun out => books setup { s with db := out.2 } = books setup s)
      (fun _ => rfl) fun _ db' _ htx => ?_
    exact books_row_ext rfl rfl fun box uid => (getNextUIDTx_kept htx).2 setup.user box uid
  case storeMessageMetadata mailbox uid metadata | updateMessageMetadata mailbox uid metadata =>
    cases h
    exact transacted_storeMessageMetadata choice.env mailbox uid metadata
  case updateMessageMetadataFunc mailbox uid fn =>
    cases h
    exact transacted_updateMessageMetadataFunc choice.env mailbox uid fn
  case deleteMessage mailbox uid =>
    cases h
    exact transacted_deleteMessage choice.env mailbox uid
  case deleteMailbox mailbox =>
    cases h
    exact transacted_deleteMailbox choice.env mailbox
  all_goals
    cases h
    rfl

theorem world_books {w w' : World sig State}
    (h : w.exec (machine setup) thread c choice = some (result, w')) :
    BooksStep setup choice c result (books setup w.state) (books setup w'.state) :=
  exec_books (World.exec_eq_some.mp h).1

end Steps

end UMail.Mailstore
