import UMail.Storage.Changes.Theorems
import UMail.Storage.Isolation
import UMail.Storage.ModSeq

namespace UMail.Jmap

open UMail.Storage
open Utf8 (validText)

section Model

def flagsIn (db : Database) (user id mailbox : Bytes) : Set (List Bytes) :=
  { flags | ∃ uid metadata, db.row user mailbox uid = some metadata ∧ metadata.messageID = id ∧
    metadata.flags = flags }

def mailboxesOf (db : Database) (user id : Bytes) : Set Bytes :=
  { mailbox | (flagsIn db user id mailbox).Nonempty }

def emailIds (db : Database) (user : Bytes) : Set Bytes := { id | (mailboxesOf db user id).Nonempty }

def asRead (change : Change) : Change :=
  ⟨change.type, change.kind, validText change.id, validText change.mailbox⟩

def changeOf (e : ChangeEntry) : Change := ⟨e.type, e.kind, e.id, e.mailbox⟩

-- The calls that change what a client of JMAP sees. Flags are set as IMAP does
-- it: the update can be refused.
inductive StoreCall
  | storeMessageMetadata (mailbox : Bytes) (uid : UInt32) (metadata : MessageMetadata)
  | storeFlags (mailbox : Bytes) (uid : UInt32) (update : List Bytes → Option (List Bytes))
  | deleteMessage (mailbox : Bytes) (uid : UInt32)
  | createMailbox (mailbox : Bytes)
  | deleteMailbox (mailbox : Bytes)
  | renameMailbox (oldName newName : Bytes)

def withFlags (update : List Bytes → Option (List Bytes)) (metadata : MessageMetadata) :
    Option MessageMetadata :=
  (update metadata.flags).map fun flags => { metadata with flags := flags }

def StoreCall.op (user : Bytes) : StoreCall → Op
  | .storeMessageMetadata mailbox uid metadata => .storeMessageMetadata user mailbox uid (some metadata)
  | .storeFlags mailbox uid update => .updateMessageMetadataFunc user mailbox uid (withFlags update)
  | .deleteMessage mailbox uid => .deleteMessage user mailbox uid
  | .createMailbox mailbox => .createMailbox user mailbox
  | .deleteMailbox mailbox => .deleteMailbox user mailbox
  | .renameMailbox oldName newName => .renameMailbox user oldName newName

structure StoreStep where
  env : CallEnv
  call : StoreCall

def StoreStep.apply (user : Bytes) (step : StoreStep) (store : Store) : Store :=
  store.apply step.env (.database (step.call.op user))

abbrev runStore (user : Bytes) (steps : List StoreStep) (store : Store) : Store :=
  Sequence.run (StoreStep.apply user) steps store

def StoreStep.changes (user : Bytes) (step : StoreStep) (store : Store) : List Change :=
  (step.call.op user).changes step.env.env store.db

def written (user : Bytes) : List StoreStep → Store → List Change
  | [], _ => []
  | step :: steps, store => step.changes user store ++ written user steps (step.apply user store)

-- The ids of contents are hexadecimal, and so are not changed by the journal.
def IsContentHash (id : Bytes) : Prop := id ≠ [] ∧ validText id = id

-- The writes of the journal that belong to a call succeed.
def Journalling (env : CallEnv) : Prop := env.first.fault = false ∧ env.second.fault = false

def NoRows (db : Database) (user mailbox : Bytes) : Prop := ∀ uid, db.row user mailbox uid = none

-- A call changes the Emails it writes, and no others.
def StoreCall.Traced (db : Database) (user : Bytes) : StoreCall → Prop
  | .storeMessageMetadata mailbox uid metadata => IsContentHash metadata.messageID ∧
      ∀ previous, db.row user mailbox uid = some previous → previous.messageID = metadata.messageID
  | .storeFlags mailbox uid update => ∀ previous, db.row user mailbox uid = some previous →
      ∀ flags, update previous.flags = some flags → normalizeFlags flags = previous.flags
  | .deleteMailbox mailbox | .renameMailbox mailbox _ => NoRows db user mailbox
  | _ => True

def StoreStep.Traced (user : Bytes) (store : Store) (step : StoreStep) : Prop :=
  Journalling step.env ∧ step.call.Traced store.db user

abbrev AllTraced (user : Bytes) (steps : List StoreStep) (store : Store) : Prop :=
  Sequence.RunAll (StoreStep.apply user) (StoreStep.Traced user) steps store

end Model

section Journal

variable {user : Bytes} {journal journal' journal'' : Journal} {made made' : List Change}
  {store : Store}

structure Grown (journal journal' : Journal) (made : List Change) : Prop where
  numbered : journal'.Numbered
  sequence : journal'.sequence.toNat = journal.sequence.toNat + made.length
  entries : ∃ new, journal'.entries = journal.entries ++ new ∧
    new.map changeOf = made.map asRead ∧ ∀ e ∈ new, journal.sequence < e.seq

theorem Grown.refl (h : journal.Numbered) : Grown journal journal [] :=
  ⟨h, rfl, [], (List.append_nil _).symm, rfl, fun _ he => absurd he List.not_mem_nil⟩

theorem Grown.trans (h : Grown journal journal' made) (h' : Grown journal' journal'' made') :
    Grown journal journal'' (made ++ made') := by
  obtain ⟨new, hentries, hnew, hlater⟩ := h.entries
  obtain ⟨new', hentries', hnew', hlater'⟩ := h'.entries
  refine ⟨h'.numbered, ?_, new ++ new', ?_, ?_, fun e he => ?_⟩
  · rw [h'.sequence, h.sequence, List.length_append, Nat.add_assoc]
  · rw [hentries', hentries, List.append_assoc]
  · rw [List.map_append, List.map_append, hnew, hnew']
  · rcases List.mem_append.mp he with he | he
    · exact hlater e he
    · have hlt := UInt64.lt_iff_toNat_lt.mp (hlater' e he)
      rw [h.sequence] at hlt
      exact UInt64.lt_iff_toNat_lt.mpr (by omega)

theorem grown_record (h : journal.Numbered) (hn : journal.sequence.toNat + 1 < 2 ^ 64) (now : Int)
    (change : Change) : Grown journal (journal.record now change) [change] := by
  refine ⟨h.record (Nat.le_refl _) hn now change, ?_, [journal.entryFor now change],
    h.entries_record (Nat.le_refl _) hn now change, rfl, fun e he => ?_⟩
  · exact toNat_sequence_record (Nat.le_refl _) hn now change
  · obtain rfl := List.mem_singleton.mp he
    exact lt_entryFor (Nat.le_refl _) hn now change

theorem grown_recordAll (huser : user ≠ []) {envs : List ChangeEnv}
    (hlength : made.length ≤ envs.length) (henvs : ∀ env ∈ envs, env.fault = false)
    {changes : Changes} (h : (changes.journal user).Numbered)
    (hn : (changes.journal user).sequence.toNat + made.length < 2 ^ 64) :
    Grown (changes.journal user) ((recordAll user envs made changes).journal user) made := by
  induction made generalizing envs changes with
  | nil =>
    have hnone : recordAll user envs [] changes = changes := by cases envs <;> rfl
    rw [hnone]
    exact .refl h
  | cons change made ih =>
    rcases envs with _ | ⟨env, envs⟩
    · exact absurd hlength (Nat.not_succ_le_zero _)
    rw [List.length_cons] at hn
    have hjournal := journal_recordChange env changes user change user
    have hruns : ¬ (user = [] ∨ env.fault) := by simp [huser, henvs env List.mem_cons_self]
    rw [if_pos ⟨rfl, hruns⟩] at hjournal
    have hfirst := grown_record h (by omega) env.now change
    rw [← hjournal] at hfirst
    have hsequence := hfirst.sequence
    rw [List.length_singleton] at hsequence
    exact hfirst.trans (ih (Nat.le_of_succ_le_succ hlength)
      (fun env henv => henvs env (List.mem_cons_of_mem _ henv)) hfirst.numbered (by omega))

theorem length_changes_le (env : Env) (db : Database) (op : Op) : (op.changes env db).length ≤ 2 := by
  cases op with
  | storeMessageMetadata user mailbox uid metadata =>
    cases metadata with
    | none => exact Nat.zero_le 2
    | some metadata =>
      simp only [Op.changes, storedChanges]
      split_ifs <;> simp
  | deleteMessage user mailbox uid =>
    simp only [Op.changes, deletedChanges]
    split_ifs <;> simp
  | createMailbox | deleteMailbox | renameMailbox =>
    simp only [Op.changes]
    split_ifs <;> simp
  | getNextUID | getNextModSeq | updateMessageMetadataFunc | purgeUser => exact Nat.zero_le 2

theorem grown_apply (huser : user ≠ []) {step : StoreStep} (henv : Journalling step.env)
    (h : (store.changes.journal user).Numbered)
    (hn : (store.changes.journal user).sequence.toNat + 2 < 2 ^ 64) :
    Grown (store.changes.journal user) ((step.apply user store).changes.journal user)
      (step.changes user store) := by
  have happly : (step.apply user store).changes =
      recordAll user [step.env.first, step.env.second] (step.changes user store) store.changes := by
    unfold StoreStep.apply StoreStep.changes
    cases step.call <;> rfl
  have hlength := length_changes_le step.env.env store.db (step.call.op user)
  rw [happly]
  refine grown_recordAll huser hlength (fun e he => ?_) h
    (Nat.lt_of_le_of_lt (Nat.add_le_add_left hlength _) hn)
  rcases List.mem_pair.mp he with rfl | rfl
  · exact henv.1
  · exact henv.2

theorem grown_run (huser : user ≠ []) {steps : List StoreStep}
    (h : AllTraced user steps store) (hnumbered : (store.changes.journal user).Numbered)
    (hn : (store.changes.journal user).sequence.toNat + 2 * steps.length < 2 ^ 64) :
    Grown (store.changes.journal user) ((runStore user steps store).changes.journal user)
      (written user steps store) ∧ (written user steps store).length ≤ 2 * steps.length := by
  induction steps generalizing store with
  | nil => exact ⟨.refl hnumbered, Nat.le_refl 0⟩
  | cons step steps ih =>
    rw [List.length_cons] at hn ⊢
    have hstep := grown_apply huser h.1.1 hnumbered (by omega)
    have hlength : (step.changes user store).length ≤ 2 := length_changes_le _ _ _
    have hsequence := hstep.sequence
    obtain ⟨hlater, hlaterLength⟩ := ih h.2 hstep.numbered (by omega)
    refine ⟨hstep.trans hlater, ?_⟩
    rw [written, List.length_append]
    omega

-- The entries of a type that are new since a state are those written since.
theorem Grown.after_since (h : Grown journal journal' made) (hnumbered : journal.Numbered)
    (type : ChangeType) :
    (Paging.after ChangeEntry.seq journal.sequence (journal'.entries.filter (isType type))).map changeOf =
      (made.filter (·.type = type)).map asRead := by
  obtain ⟨new, hentries, hnew, hlater⟩ := h.entries
  have hold : Paging.after ChangeEntry.seq journal.sequence (journal.entries.filter (isType type)) = [] := by
    refine List.filter_eq_nil_iff.mpr fun e he => ?_
    simpa using Std.not_lt.mpr (hnumbered.seq_le (List.mem_of_mem_filter he))
  have hall : Paging.after ChangeEntry.seq journal.sequence (new.filter (isType type)) =
      new.filter (isType type) :=
    List.filter_eq_self.mpr fun e he => by simpa using hlater e (List.mem_of_mem_filter he)
  have hsplit : Paging.after ChangeEntry.seq journal.sequence (journal'.entries.filter (isType type)) =
      new.filter (isType type) := by
    rw [hentries, List.filter_append, Paging.after, List.filter_append, ← Paging.after, ← Paging.after, hold,
      hall, List.nil_append]
  have hmap : (new.filter (isType type)).map changeOf = (new.map changeOf).filter (·.type = type) := by
    rw [List.filter_map]
    rfl
  rw [hsplit, hmap, hnew, List.filter_map]
  rfl

end Journal

section Rows

variable {env : Env} {db : Database} {user : Bytes}

variable {id mailbox : Bytes} {uid : UInt32} {metadata : MessageMetadata}

theorem flagsIn_eq_of_rows {db' : Database} (h : ∀ box uid metadata, metadata.messageID = id →
      (db'.row user box uid = some metadata ↔ db.row user box uid = some metadata)) :
    flagsIn db' user id = flagsIn db user id := by
  funext box
  ext flags
  refine exists_congr fun uid => exists_congr fun metadata => ?_
  exact and_congr_left fun hid => h box uid metadata hid.1

theorem row_store_apply (hfault : env.fault = false) (box : Bytes) (uid' : UInt32) :
    ((Op.storeMessageMetadata user mailbox uid (some metadata)).apply env db).row user box uid' =
      if mailbox = box ∧ uid = uid' then some { metadata.normalize with
        modSeq := storedModSeq db user mailbox uid metadata.normalize.modSeq } else db.row user box uid' := by
  simp [Op.apply, Database.storeMessageMetadata, Database.update, hfault, row_storeMessageMetadataTx]

theorem row_delete_apply (hfault : env.fault = false) (box : Bytes) (uid' : UInt32) :
    ((Op.deleteMessage user mailbox uid).apply env db).row user box uid' =
      if mailbox = box ∧ uid = uid' then none else db.row user box uid' := by
  simp [Op.apply, Database.deleteMessage, Database.update, hfault, row_deleteMessageTx]

theorem flagsIn_store (hfault : env.fault = false)
    (hsame : ∀ previous, db.row user mailbox uid = some previous →
      previous.messageID = metadata.messageID) (hid : id ≠ metadata.messageID) :
    flagsIn ((Op.storeMessageMetadata user mailbox uid (some metadata)).apply env db) user id =
      flagsIn db user id := by
  refine flagsIn_eq_of_rows fun box uid' metadata' hid' => ?_
  rw [row_store_apply hfault]
  split_ifs with hrow
  · obtain ⟨rfl, rfl⟩ := hrow
    refine iff_of_false (fun heq => ?_) fun heq => hid (hid'.symm.trans (hsame _ heq))
    cases heq
    exact hid hid'.symm
  · rfl

theorem flagsIn_delete (hfault : env.fault = false)
    (hother : ∀ previous, db.row user mailbox uid = some previous → previous.messageID ≠ id) :
    flagsIn ((Op.deleteMessage user mailbox uid).apply env db) user id = flagsIn db user id := by
  refine flagsIn_eq_of_rows fun box uid' metadata' hid' => ?_
  rw [row_delete_apply hfault]
  split_ifs with hrow
  · obtain ⟨rfl, rfl⟩ := hrow
    exact iff_of_false (fun heq => by cases heq) fun heq => hother _ heq hid'
  · rfl

theorem flagsIn_storeFlags {update : List Bytes → Option (List Bytes)}
    (hsame : ∀ previous, db.row user mailbox uid = some previous →
      ∀ flags, update previous.flags = some flags → normalizeFlags flags = previous.flags) :
    flagsIn ((Op.updateMessageMetadataFunc user mailbox uid (withFlags update)).apply env db) user id =
      flagsIn db user id := by
  rcases update_snd with
    hdb | ⟨_, value, htx⟩
  · exact congrArg (flagsIn · user id) hdb
  rcases updateMessageMetadataFuncTx_cases htx with hdb | ⟨previous, changed, hprevious, hfn, _, hrow⟩
  · exact congrArg (flagsIn · user id) hdb
  obtain ⟨flags, hflags, rfl⟩ := Option.map_eq_some_iff.mp hfn
  simp only [hsame previous hprevious flags hflags] at hrow
  -- The row has another ModSeq, and the same id and flags.
  funext box
  ext flags'
  refine exists_congr fun uid' => ?_
  have hget : ((Op.updateMessageMetadataFunc user mailbox uid (withFlags update)).apply env db).row
      user box uid' = _ := hrow user box uid'
  rw [hget]
  split_ifs with hbox
  · obtain ⟨_, rfl, rfl⟩ := hbox
    simp [hprevious]
  · rfl

theorem flagsIn_createMailbox (id : Bytes) :
    flagsIn ((Op.createMailbox user mailbox).apply env db) user id = flagsIn db user id := by
  rcases update_snd with hdb | ⟨_, value, htx⟩
  · exact congrArg (flagsIn · user id) hdb
  obtain ⟨b, _, hdb⟩ := createMailboxTx_ok htx
  refine flagsIn_eq_of_rows fun box uid metadata _ => ?_
  rw [Op.apply, Database.createMailbox, hdb, row_putMessages]
  split_ifs with hbox
  · obtain ⟨_, rfl⟩ := hbox
    rw [row_getD]
  · rfl

theorem flagsIn_deleteMailbox (hnone : NoRows db user mailbox) :
    flagsIn ((Op.deleteMailbox user mailbox).apply env db) user id = flagsIn db user id := by
  refine flagsIn_eq_of_rows fun box uid metadata _ => ?_
  have hdropped : (deleteMailboxTx user mailbox db).row user box uid = db.row user box uid := by
    have hrow := hnone uid
    unfold deleteMailboxTx
    unfold Database.row at hrow ⊢
    rw [messagesOf_dropMailbox, messagesOf_recordUIDValidityFloorTx]
    split_ifs with hbox
    · obtain ⟨_, rfl⟩ := hbox
      exact hrow.symm
    · rfl
  simp only [Op.apply, Database.deleteMailbox]
  split_ifs
  · rfl
  · rfl
  · exact iff_of_eq (congrArg (· = _) hdropped)
  · exact iff_of_eq (congrArg (· = _) hdropped)

theorem flagsIn_renameMailbox {oldName newName : Bytes} (hnone : NoRows db user oldName) :
    flagsIn ((Op.renameMailbox user oldName newName).apply env db) user id = flagsIn db user id := by
  simp only [Op.apply, Database.renameMailbox]
  split_ifs with hname
  · rfl
  rcases update_snd with hdb | ⟨_, value, htx⟩
  · exact congrArg (flagsIn · user id) hdb
  generalize (db.update env (renameMailboxTx env.now user oldName newName)).2 = db' at htx
  refine flagsIn_eq_of_rows fun box uid metadata _ => ?_
  have hold := hnone uid
  have hnew := (renameMailboxTx_free htx).2
  cases hrecord : db.record user oldName with
  | some old =>
    unfold Database.row at hold ⊢
    rw [(renameMailboxTx_moves hname htx hrecord user box).2.1]
    split_ifs with hbox hnewBox
    · obtain ⟨_, rfl⟩ := hbox
      rw [hold]
      rfl
    · obtain ⟨_, rfl⟩ := hnewBox
      rw [hold, hnew]
      rfl
    · rfl
  | none =>
    obtain ⟨uv, _, rfl⟩ := renameMailboxTx_absent htx hrecord
    rw [row_putMessages]
    split_ifs with hbox
    · obtain ⟨_, rfl⟩ := hbox
      simp [Database.row, hnew]
    · rfl

end Rows

section Steps

variable {user : Bytes} {store : Store} {step : StoreStep} {steps : List StoreStep} {db : Database}
  {env : Env} {mailbox : Bytes} {uid : UInt32} {metadata : MessageMetadata}

def Hashed (db : Database) (user : Bytes) : Prop := ∀ id ∈ emailIds db user, IsContentHash id

theorem db_apply :
    (step.apply user store).db = (step.call.op user).apply step.env.env store.db := by
  unfold StoreStep.apply
  cases step.call <;> rfl

theorem apply_of_fault (h : env.fault = true) (call : StoreCall) :
    (call.op user).apply env db = db := by
  cases call with
  | storeMessageMetadata mailbox uid metadata =>
    simp [StoreCall.op, Op.apply, Database.storeMessageMetadata, Database.update, h]
  | storeFlags mailbox uid update =>
    simp [StoreCall.op, Op.apply, Database.updateMessageMetadataFunc, Database.update, h]
  | deleteMessage mailbox uid => simp [StoreCall.op, Op.apply, Database.deleteMessage, Database.update, h]
  | createMailbox mailbox => simp [StoreCall.op, Op.apply, Database.createMailbox, Database.update, h]
  | deleteMailbox mailbox =>
    simp only [StoreCall.op, Op.apply, Database.deleteMailbox, h]
    split_ifs <;> rfl
  | renameMailbox oldName newName =>
    simp only [StoreCall.op, Op.apply, Database.renameMailbox, Database.update, h]
    split_ifs <;> rfl

theorem changes_store (hfault : env.fault = false) (hid : metadata.messageID ≠ []) :
    ((Op.storeMessageMetadata user mailbox uid (some metadata)).changes env db).filter (·.type = .email) =
      [⟨.email, if (db.row user mailbox uid).isSome then .updated else .created,
        metadata.messageID, mailbox⟩] := by
  simp only [Op.changes, Database.storeMessageMetadata, Database.update, hfault, succeeded, storedChanges,
    hid, Bool.false_eq_true, if_false]
  split_ifs <;> rfl

theorem changes_delete (hfault : env.fault = false) (hrow : db.row user mailbox uid = some metadata)
    (hid : metadata.messageID ≠ []) :
    ((Op.deleteMessage user mailbox uid).changes env db).filter (·.type = .email) =
      [⟨.email, .destroyed, metadata.messageID, mailbox⟩] := by
  simp only [Op.changes, Database.deleteMessage, Database.update, hfault, succeeded, hrow, deletedChanges,
    Option.getD_some, hid, Bool.false_eq_true, if_false]
  split_ifs <;> rfl

theorem emails_step (h : step.call.Traced store.db user) (hhashed : Hashed store.db user) {id : Bytes}
    (hdiffers : flagsIn store.db user id ≠ flagsIn (step.apply user store).db user id) :
    IsContentHash id ∧ ∃ c ∈ (step.changes user store).filter (·.type = .email), c.id = id := by
  obtain ⟨env, call⟩ := step
  rw [db_apply] at hdiffers
  cases hfault : env.env.fault with
  | true =>
    rw [apply_of_fault hfault] at hdiffers
    exact absurd rfl hdiffers
  | false =>
    cases call with
    | storeMessageMetadata mailbox uid metadata =>
      by_cases hsame : id = metadata.messageID
      · subst hsame
        refine ⟨h.1, ?_⟩
        rw [StoreStep.changes, StoreCall.op, changes_store hfault h.1.1]
        exact ⟨_, List.mem_singleton_self _, rfl⟩
      · exact absurd (flagsIn_store hfault h.2 hsame).symm hdiffers
    | storeFlags mailbox uid update => exact absurd (flagsIn_storeFlags h).symm hdiffers
    | deleteMessage mailbox uid =>
      by_cases hother : ∀ previous, store.db.row user mailbox uid = some previous →
          previous.messageID ≠ id
      · exact absurd (flagsIn_delete hfault hother).symm hdiffers
      push Not at hother
      obtain ⟨previous, hrow, rfl⟩ := hother
      have hid := hhashed _ ⟨mailbox, _, uid, previous, hrow, rfl, rfl⟩
      refine ⟨hid, ?_⟩
      rw [StoreStep.changes, StoreCall.op, changes_delete hfault hrow hid.1]
      exact ⟨_, List.mem_singleton_self _, rfl⟩
    | createMailbox mailbox => exact absurd (flagsIn_createMailbox id).symm hdiffers
    | deleteMailbox mailbox => exact absurd (flagsIn_deleteMailbox h).symm hdiffers
    | renameMailbox oldName newName => exact absurd (flagsIn_renameMailbox h).symm hdiffers

theorem hashed_step (h : step.call.Traced store.db user) (hhashed : Hashed store.db user) :
    Hashed (step.apply user store).db user := by
  intro id hid
  by_cases hdiffers : flagsIn store.db user id = flagsIn (step.apply user store).db user id
  · exact hhashed id (show (mailboxesOf store.db user id).Nonempty by
      rw [mailboxesOf, hdiffers]
      exact hid)
  · exact (emails_step h hhashed hdiffers).1

theorem hashed_run (h : AllTraced user steps store) (hhashed : Hashed store.db user) :
    Hashed (runStore user steps store).db user := by
  induction steps generalizing store with
  | nil => exact hhashed
  | cons step steps ih => exact ih h.2 (hashed_step h.1.2 hhashed)

theorem hashed_empty : Hashed Store.empty.db user := by
  rintro id ⟨mailbox, flags, uid, metadata, hrow, _⟩
  simp [Store.empty, Database.empty, Database.row, Database.messagesOf] at hrow

theorem numbered_store_empty : (Store.empty.changes.journal user).Numbered ∧
    (Store.empty.changes.journal user).sequence.toNat = 0 := by
  have hempty : Store.empty.changes.journal user = .empty := by simp [Store.empty, Changes.journal]
  exact ⟨numbered_empty, rfl⟩

end Steps

end UMail.Jmap
